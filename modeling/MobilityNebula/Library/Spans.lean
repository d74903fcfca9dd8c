import Mathlib

/-!
# Spans — stretches between marks that fill up in any order

Positions are natural numbers and some of them carry a *mark*.  Positions arrive one at a time in any
order; `seen` lists those that arrived, the latest first.  A **span** is a pair of consecutive marks,
and it is *complete* once both marks and everything between them have arrived.

The point of the file is that every complete span has exactly one position that completed it
(`lastArrival`), that this never changes again (`Complete.lastArrival_cons`), and that an arrival can
tell from its own neighbourhood which spans it completes (`complete_cons_iff_of_not_mark` and
`complete_cons_iff_of_mark`).
-/

namespace MobilityNebula.Library

open List

variable {mark : ℕ → Prop} {seen : List ℕ} {d d' e e' x p : ℕ}

/-! ## Consecutive marks -/

/-- Two marks with no mark between them. -/
structure Consecutive (mark : ℕ → Prop) (d e : ℕ) : Prop where
  lt : d < e
  left : mark d
  right : mark e
  between : ∀ p, d < p → p < e → ¬ mark p

namespace Consecutive

variable (h : Consecutive mark d e)
include h

lemma right_unique (h' : Consecutive mark d e') : e = e' := by
  rcases lt_trichotomy e e' with hlt | heq | hgt
  · exact absurd h.right (h'.between e h.lt hlt)
  · exact heq
  · exact absurd h'.right (h.between e' h'.lt hgt)

lemma unique_of_overlap (h' : Consecutive mark d' e') (hd : d < e') (hd' : d' < e) : d = d' ∧ e = e' := by
  have hleft : d = d' := by
    rcases lt_trichotomy d d' with hlt | heq | hgt
    · exact absurd h'.left (h.between d' hlt hd')
    · exact heq
    · exact absurd h.left (h'.between d hgt hd)
  subst hleft
  exact ⟨rfl, h.right_unique h'⟩

end Consecutive

/-! ## Complete spans and their last arrival -/

/-- Both marks and everything between them have arrived. -/
structure Complete (mark : ℕ → Prop) (seen : List ℕ) (d e : ℕ) : Prop where
  span : Consecutive mark d e
  arrived : ∀ p, d ≤ p → p ≤ e → p ∈ seen

/-- The latest arrival among the positions `d, …, e`. -/
def lastArrival (seen : List ℕ) (d e : ℕ) : Option ℕ :=
  seen.find? (fun p => decide (d ≤ p) && decide (p ≤ e))

lemma lastArrival_mem (h : lastArrival seen d e = some x) : x ∈ seen := mem_of_find?_eq_some h

lemma lastArrival_bounds (h : lastArrival seen d e = some x) : d ≤ x ∧ x ≤ e := by
  have hx := find?_some h
  simpa using hx

lemma lastArrival_cons_of_mem (hd : d ≤ x) (he : x ≤ e) : lastArrival (x :: seen) d e = some x := by
  simp [lastArrival, hd, he]

lemma lastArrival_cons_of_not_mem (h : ¬ (d ≤ x ∧ x ≤ e)) : lastArrival (x :: seen) d e = lastArrival seen d e := by
  have hx : (decide (d ≤ x) && decide (x ≤ e)) = false := by
    simpa using h
  simp [lastArrival, hx]

namespace Complete

variable (h : Complete mark seen d e)
include h

lemma cons (x : ℕ) : Complete mark (x :: seen) d e := ⟨h.span, fun p hd he => mem_cons_of_mem x (h.arrived p hd he)⟩

lemma not_between (hx : x ∉ seen) : ¬ (d ≤ x ∧ x ≤ e) := by
  rintro ⟨hd, he⟩
  exact hx (h.arrived x hd he)

lemma lastArrival_cons (hx : x ∉ seen) : lastArrival (x :: seen) d e = lastArrival seen d e :=
  lastArrival_cons_of_not_mem (h.not_between hx)

end Complete

/-! ## What an arrival sees around itself -/

/-- Walking down from `x`, the first position that is not an arrived unmarked one is the arrived
mark `d`. -/
structure StartOf (mark : ℕ → Prop) (seen : List ℕ) (x d : ℕ) : Prop where
  lt : d < x
  isMark : mark d
  isSeen : d ∈ seen
  between : ∀ p, d < p → p < x → p ∈ seen ∧ ¬ mark p

/-- Walking up from `x`, the first position that is not an arrived unmarked one is the arrived
mark `e`. -/
structure EndOf (mark : ℕ → Prop) (seen : List ℕ) (x e : ℕ) : Prop where
  lt : x < e
  isMark : mark e
  isSeen : e ∈ seen
  between : ∀ p, x < p → p < e → p ∈ seen ∧ ¬ mark p

lemma StartOf.unique (h : StartOf mark seen x d) (h' : StartOf mark seen x d') : d = d' := by
  rcases lt_trichotomy d d' with hlt | heq | hgt
  · exact absurd h'.isMark (h.between d' hlt h'.lt).2
  · exact heq
  · exact absurd h.isMark (h'.between d hgt h.lt).2

lemma EndOf.unique (h : EndOf mark seen x e) (h' : EndOf mark seen x e') : e = e' := by
  rcases lt_trichotomy e e' with hlt | heq | hgt
  · exact absurd h.isMark (h'.between e h.lt hlt).2
  · exact heq
  · exact absurd h'.isMark (h.between e' h'.lt hgt).2

section

variable (h : Complete mark (x :: seen) d e)
include h

lemma Complete.of_cons (hx : ¬ (d ≤ x ∧ x ≤ e)) : Complete mark seen d e := by
  refine ⟨h.span, ?_⟩
  intro p hd he
  rcases mem_cons.1 (h.arrived p hd he) with heq | hmem
  · exact absurd ⟨heq ▸ hd, heq ▸ he⟩ hx
  · exact hmem

lemma Complete.startOf (hd : d < x) (he : x ≤ e) : StartOf mark seen x d := by
  have hmem : ∀ p, d ≤ p → p < x → p ∈ seen := by
    intro p hdp hpx
    rcases mem_cons.1 (h.arrived p hdp (le_of_lt (lt_of_lt_of_le hpx he))) with heq | hmem
    · exact absurd heq (Nat.ne_of_lt hpx)
    · exact hmem
  refine ⟨hd, h.span.left, hmem d le_rfl hd, ?_⟩
  intro p hdp hpx
  exact ⟨hmem p (le_of_lt hdp) hpx, h.span.between p hdp (lt_of_lt_of_le hpx he)⟩

lemma Complete.endOf (hd : d ≤ x) (he : x < e) : EndOf mark seen x e := by
  have hmem : ∀ p, x < p → p ≤ e → p ∈ seen := by
    intro p hxp hpe
    rcases mem_cons.1 (h.arrived p (le_trans hd (le_of_lt hxp)) hpe) with heq | hmem
    · exact absurd heq (Nat.ne_of_gt hxp)
    · exact hmem
  refine ⟨he, h.span.right, hmem e he le_rfl, ?_⟩
  intro p hxp hpe
  exact ⟨hmem p hxp (le_of_lt hpe), h.span.between p (lt_of_le_of_lt hd hxp) hpe⟩

end

/-- An unmarked arrival completes the span between the two marks it can reach. -/
lemma StartOf.complete_of_not_mark (hs : StartOf mark seen x d) (he : EndOf mark seen x e)
    (hx : ¬ mark x) : Complete mark (x :: seen) d e := by
  refine ⟨⟨lt_trans hs.lt he.lt, hs.isMark, he.isMark, ?_⟩, ?_⟩
  · intro p hdp hpe
    rcases lt_trichotomy p x with hlt | heq | hgt
    · exact (hs.between p hdp hlt).2
    · exact heq ▸ hx
    · exact (he.between p hgt hpe).2
  · intro p hdp hpe
    rcases lt_trichotomy p x with hlt | heq | hgt
    · refine mem_cons_of_mem x ?_
      rcases Nat.eq_or_lt_of_le hdp with hd | hd
      · exact hd ▸ hs.isSeen
      · exact (hs.between p hd hlt).1
    · exact heq ▸ mem_cons_self
    · refine mem_cons_of_mem x ?_
      rcases Nat.eq_or_lt_of_le hpe with hp | hp
      · exact hp ▸ he.isSeen
      · exact (he.between p hgt hp).1

lemma StartOf.complete_of_mark (hs : StartOf mark seen x d) (hx : mark x) : Complete mark (x :: seen) d x := by
  refine ⟨⟨hs.lt, hs.isMark, hx, fun p hdp hpx => (hs.between p hdp hpx).2⟩, ?_⟩
  intro p hdp hpx
  rcases Nat.eq_or_lt_of_le hpx with heq | hlt
  · exact heq ▸ mem_cons_self
  · refine mem_cons_of_mem x ?_
    rcases Nat.eq_or_lt_of_le hdp with hd | hd
    · exact hd ▸ hs.isSeen
    · exact (hs.between p hd hlt).1

lemma EndOf.complete_of_mark (he : EndOf mark seen x e) (hx : mark x) : Complete mark (x :: seen) x e := by
  refine ⟨⟨he.lt, hx, he.isMark, fun p hxp hpe => (he.between p hxp hpe).2⟩, ?_⟩
  intro p hxp hpe
  rcases Nat.eq_or_lt_of_le hxp with heq | hgt
  · exact heq ▸ mem_cons_self
  · refine mem_cons_of_mem x ?_
    rcases Nat.eq_or_lt_of_le hpe with hp | hp
    · exact hp ▸ he.isSeen
    · exact (he.between p hgt hp).1

lemma complete_cons_iff_of_not_mark (hx : ¬ mark x) : Complete mark (x :: seen) d e ↔
      Complete mark seen d e ∨ (StartOf mark seen x d ∧ EndOf mark seen x e) := by
  constructor
  · intro h
    by_cases hin : d ≤ x ∧ x ≤ e
    · have hdx : d ≠ x := fun heq => hx (heq ▸ h.span.left)
      have hxe : x ≠ e := fun heq => hx (heq ▸ h.span.right)
      have hd : d < x := lt_of_le_of_ne hin.1 hdx
      have he : x < e := lt_of_le_of_ne hin.2 hxe
      exact .inr ⟨h.startOf hd hin.2, h.endOf hin.1 he⟩
    · exact .inl (h.of_cons hin)
  · rintro (h | ⟨hs, he⟩)
    · exact h.cons x
    · exact hs.complete_of_not_mark he hx

/-- What a marked arrival completes: up to two spans. -/
lemma complete_cons_iff_of_mark (hx : mark x) : Complete mark (x :: seen) d e ↔
      Complete mark seen d e ∨ (e = x ∧ StartOf mark seen x d) ∨ (d = x ∧ EndOf mark seen x e) := by
  constructor
  · intro h
    by_cases hin : d ≤ x ∧ x ≤ e
    · rcases Nat.eq_or_lt_of_le hin.1 with heq | hd
      · subst heq
        exact .inr (.inr ⟨rfl, h.endOf le_rfl h.span.lt⟩)
      · rcases Nat.eq_or_lt_of_le hin.2 with heq | he
        · subst heq
          exact .inr (.inl ⟨rfl, h.startOf hd le_rfl⟩)
        · exact absurd hx (h.span.between x hd he)
    · exact .inl (h.of_cons hin)
  · rintro (h | ⟨rfl, hs⟩ | ⟨rfl, he⟩)
    · exact h.cons x
    · exact hs.complete_of_mark hx
    · exact he.complete_of_mark hx

/-! ## Who completed a span -/

/-- The span is complete and `x` was the last of its positions to arrive. -/
structure CompletedBy (mark : ℕ → Prop) (seen : List ℕ) (x d e : ℕ) : Prop where
  complete : Complete mark seen d e
  last : lastArrival seen d e = some x

lemma CompletedBy.unique {y : ℕ} (h : CompletedBy mark seen x d e) (h' : CompletedBy mark seen y d e') : x = y := by
  have hee : e = e' := h.complete.span.right_unique h'.complete.span
  subst hee
  exact Option.some_inj.1 (h.last.symm.trans h'.last)

lemma completedBy_cons_iff {y : ℕ} (hy : y ∉ seen) (hx : x ∈ seen) :
    CompletedBy mark (y :: seen) x d e ↔ CompletedBy mark seen x d e := by
  have hyx : y ≠ x := fun heq => hy (heq ▸ hx)
  constructor
  · rintro ⟨hcomplete, hlast⟩
    by_cases hin : d ≤ y ∧ y ≤ e
    · rw [lastArrival_cons_of_mem hin.1 hin.2] at hlast
      exact absurd (Option.some_inj.1 hlast) hyx
    · rw [lastArrival_cons_of_not_mem hin] at hlast
      exact ⟨hcomplete.of_cons hin, hlast⟩
  · rintro ⟨hcomplete, hlast⟩
    exact ⟨hcomplete.cons y, (hcomplete.lastArrival_cons hy).trans hlast⟩

lemma completedBy_self_iff (hx : x ∉ seen) : CompletedBy mark (x :: seen) x d e ↔
      Complete mark (x :: seen) d e ∧ ¬ Complete mark seen d e := by
  constructor
  · rintro ⟨hcomplete, hlast⟩
    refine ⟨hcomplete, fun hold => ?_⟩
    rw [hold.lastArrival_cons hx] at hlast
    exact hx (lastArrival_mem hlast)
  · rintro ⟨hcomplete, hnew⟩
    have hin : d ≤ x ∧ x ≤ e := by
      by_contra hout
      exact hnew (hcomplete.of_cons hout)
    exact ⟨hcomplete, lastArrival_cons_of_mem hin.1 hin.2⟩

lemma completedBy_self_iff_of_not_mark (hx : x ∉ seen) (hmark : ¬ mark x) :
    CompletedBy mark (x :: seen) x d e ↔ StartOf mark seen x d ∧ EndOf mark seen x e := by
  rw [completedBy_self_iff hx, complete_cons_iff_of_not_mark hmark]
  constructor
  · rintro ⟨hold | hnew, hnot⟩
    · exact absurd hold hnot
    · exact hnew
  · intro hnew
    refine ⟨.inr hnew, fun hold => hold.not_between hx ?_⟩
    exact ⟨le_of_lt hnew.1.lt, le_of_lt hnew.2.lt⟩

lemma completedBy_self_iff_of_mark (hx : x ∉ seen) (hmark : mark x) : CompletedBy mark (x :: seen) x d e ↔
      (e = x ∧ StartOf mark seen x d) ∨ (d = x ∧ EndOf mark seen x e) := by
  rw [completedBy_self_iff hx, complete_cons_iff_of_mark hmark]
  constructor
  · rintro ⟨hold | hnew, hnot⟩
    · exact absurd hold hnot
    · exact hnew
  · intro hnew
    refine ⟨.inr hnew, fun hold => hold.not_between hx ?_⟩
    rcases hnew with ⟨rfl, hs⟩ | ⟨rfl, he⟩
    · exact ⟨le_of_lt hs.lt, le_rfl⟩
    · exact ⟨le_rfl, le_of_lt he.lt⟩

/-! ## Walking down over finished positions -/

/-- A position is *done* when it arrived and, if marked, its mark has been used as the start of a
span. -/
def Done (mark : ℕ → Prop) (seen : List ℕ) (used : ℕ → Prop) (p : ℕ) : Prop :=
  p ∈ seen ∧ (mark p → used p)

section Walk

variable {used : ℕ → Prop}

/-- Below a position that has not arrived there is one that is not done, and everything between the
two arrived without a mark: the span above the last mark cannot be complete yet. -/
lemma exists_not_done_below (hused : ∀ d, used d → ∃ e, Complete mark seen d e)
    (hzero : mark 0) (hpos : 0 < x) (hx : x ∉ seen) :
    ∃ j, j < x ∧ ¬ Done mark seen used j ∧ ∀ p, j < p → p < x → p ∈ seen ∧ ¬ mark p := by
  classical
  -- the last mark below `x`
  let m := Nat.findGreatest (fun p => mark p) (x - 1)
  have hmark : mark m := Nat.findGreatest_spec (Nat.zero_le _) hzero
  have hm : m ≤ x - 1 := Nat.findGreatest_le _
  have hlast : ∀ p, m < p → p < x → ¬ mark p := by
    intro p hmp hpx
    exact Nat.findGreatest_is_greatest hmp (by omega)
  have hopen : ¬ Done mark seen used m := by
    rintro ⟨_, huse⟩
    rcases hused m (huse hmark) with ⟨e, hcomp⟩
    have hout := hcomp.not_between hx
    have hlt := hcomp.span.lt
    by_cases hex : e < x
    · exact hlast e hlt hex hcomp.span.right
    · exact hout ⟨by omega, by omega⟩
  -- the last position below `x` that is not done lies at or above that mark
  let j := Nat.findGreatest (fun p => ¬ Done mark seen used p) (x - 1)
  have hj : ¬ Done mark seen used j := Nat.findGreatest_spec (P := fun p => ¬ Done mark seen used p) hm hopen
  have hmj : m ≤ j := Nat.le_findGreatest hm hopen
  have hjx : j ≤ x - 1 := Nat.findGreatest_le _
  refine ⟨j, by omega, hj, ?_⟩
  intro p hjp hpx
  have hdone : Done mark seen used p := by
    by_contra hnot
    exact Nat.findGreatest_is_greatest hjp (by omega) hnot
  exact ⟨hdone.1, hlast p (lt_of_le_of_lt hmj hjp) hpx⟩

/-- The position found by `exists_not_done_below` is the start `x` can reach, provided it arrived. -/
lemma startOf_iff_of_not_done {j : ℕ} (hj : j < x) (hopen : ¬ Done mark seen used j)
    (hbetween : ∀ p, j < p → p < x → p ∈ seen ∧ ¬ mark p) : StartOf mark seen x d ↔ d = j ∧ j ∈ seen ∧ mark j := by
  constructor
  · intro h
    rcases lt_trichotomy d j with hlt | heq | hgt
    · have hb := h.between j hlt hj
      exact absurd ⟨hb.1, fun hm => absurd hm hb.2⟩ hopen
    · subst heq
      exact ⟨rfl, h.isSeen, h.isMark⟩
    · exact absurd h.isMark (hbetween d hgt h.lt).2
  · rintro ⟨rfl, hseen, hmark⟩
    exact ⟨hj, hmark, hseen, hbetween⟩

lemma done_cons_iff (hp : p ≠ x) : Done mark (x :: seen) used p ↔ Done mark seen used p := by
  simp [Done, hp]

lemma done_of_not_mark (hp : p ∈ seen) (hmark : ¬ mark p) : Done mark seen used p := ⟨hp, fun h => absurd h hmark⟩

end Walk

/-! ## Walking up over unmarked positions -/

/-- Above every position there is a first one that is not an arrived unmarked one. -/
lemma exists_stop_above (mark : ℕ → Prop) (seen : List ℕ) (x : ℕ) :
    ∃ e, x < e ∧ ¬ (e ∈ seen ∧ ¬ mark e) ∧ ∀ p, x < p → p < e → p ∈ seen ∧ ¬ mark p := by
  classical
  have hex : ∃ e, x < e ∧ ¬ (e ∈ seen ∧ ¬ mark e) := by
    -- a position above everything that arrived
    refine ⟨x + seen.sum + 1, by omega, ?_⟩
    rintro ⟨hmem, _⟩
    have hle := single_le_sum (fun p _ => Nat.zero_le p) _ hmem
    omega
  refine ⟨Nat.find hex, (Nat.find_spec hex).1, (Nat.find_spec hex).2, ?_⟩
  intro p hxp hpe
  by_contra hnot
  exact Nat.find_min hex hpe ⟨hxp, hnot⟩

/-- The position found by `exists_stop_above` is the end `x` can reach, provided it arrived. -/
lemma endOf_iff_of_stop {e₀ : ℕ} (hx : x < e₀) (hstop : ¬ (e₀ ∈ seen ∧ ¬ mark e₀))
    (hbetween : ∀ p, x < p → p < e₀ → p ∈ seen ∧ ¬ mark p) : EndOf mark seen x e ↔ e = e₀ ∧ e₀ ∈ seen ∧ mark e₀ := by
  constructor
  · intro h
    rcases lt_trichotomy e e₀ with hlt | heq | hgt
    · exact absurd h.isMark (hbetween e h.lt hlt).2
    · subst heq
      exact ⟨rfl, h.isSeen, h.isMark⟩
    · exact absurd (h.between e₀ hx hgt) hstop
  · rintro ⟨rfl, hseen, hmark⟩
    exact ⟨hx, hmark, hseen, hbetween⟩

/-! ## How many spans meet in a position -/

/-- The span `d, …, e` contains position `p`. -/
def covers (p : ℕ) (span : ℕ × ℕ) : Bool := decide (span.1 ≤ p) && decide (p ≤ span.2)

lemma covers_iff {span : ℕ × ℕ} : covers p span = true ↔ span.1 ≤ p ∧ p ≤ span.2 := by
  simp [covers]

lemma length_le_one_of_forall_eq {α : Type} {l : List α} (hnodup : l.Nodup)
    (hall : ∀ a ∈ l, ∀ b ∈ l, a = b) : l.length ≤ 1 := by
  match l with
  | [] => simp
  | [_] => simp
  | a :: b :: rest =>
    have heq : a = b := hall a (by simp) b (by simp)
    rw [heq] at hnodup
    simp at hnodup

section Covers

variable {spans : List (ℕ × ℕ)} (hnodup : spans.Nodup) (hspans : ∀ span ∈ spans, Consecutive mark span.1 span.2)
include hnodup hspans

lemma countP_covers_le_one (hp : ¬ mark p) : spans.countP (covers p) ≤ 1 := by
  rw [countP_eq_length_filter]
  refine length_le_one_of_forall_eq (hnodup.filter _) ?_
  have hinner : ∀ span ∈ spans.filter (covers p), Consecutive mark span.1 span.2 ∧ span.1 < p ∧ p < span.2 := by
    intro span hmem
    rcases mem_filter.1 hmem with ⟨hin, hcov⟩
    rcases covers_iff.1 hcov with ⟨hd, he⟩
    have hspan := hspans span hin
    refine ⟨hspan, lt_of_le_of_ne hd ?_, lt_of_le_of_ne he ?_⟩
    · exact fun heq => hp (heq ▸ hspan.left)
    · exact fun heq => hp (heq ▸ hspan.right)
  intro a ha b hb
  rcases hinner a ha with ⟨ha, ha', ha''⟩
  rcases hinner b hb with ⟨hb, hb', hb''⟩
  rcases ha.unique_of_overlap hb (ha'.trans hb'') (hb'.trans ha'') with ⟨h1, h2⟩
  exact Prod.ext h1 h2

/-- Nothing lies before position 0, so it lies in at most one span. -/
lemma countP_covers_zero_le_one : spans.countP (covers 0) ≤ 1 := by
  rw [countP_eq_length_filter]
  refine length_le_one_of_forall_eq (hnodup.filter _) ?_
  have hstart : ∀ span ∈ spans.filter (covers 0), Consecutive mark span.1 span.2 ∧ span.1 = 0 := by
    intro span hmem
    rcases mem_filter.1 hmem with ⟨hin, hcov⟩
    exact ⟨hspans span hin, Nat.le_zero.1 (covers_iff.1 hcov).1⟩
  intro a ha b hb
  rcases hstart a ha with ⟨ha, ha0⟩
  rcases hstart b hb with ⟨hb, hb0⟩
  have h1 : a.1 = b.1 := ha0.trans hb0.symm
  rw [h1] at ha
  exact Prod.ext h1 (ha.right_unique hb)

/-- A marked position lies in at most two spans: one ends in it, one starts in it. -/
lemma countP_covers_le_two (hp : mark p) : spans.countP (covers p) ≤ 2 := by
  rw [countP_eq_length_filter]
  have hends : ∀ span ∈ spans.filter (covers p), Consecutive mark span.1 span.2 ∧ (span.1 = p ∨ span.2 = p) := by
    intro span hmem
    rcases mem_filter.1 hmem with ⟨hin, hcov⟩
    rcases covers_iff.1 hcov with ⟨hd, he⟩
    have hspan := hspans span hin
    refine ⟨hspan, ?_⟩
    rcases Nat.eq_or_lt_of_le hd with heq | hlt
    · exact .inl heq
    · rcases Nat.eq_or_lt_of_le he with heq | hlt'
      · exact .inr heq.symm
      · exact absurd hp (hspan.between p hlt hlt')
  -- two spans that start in `p`, or two that end in it, are equal
  have hsame : ∀ a b : ℕ × ℕ, Consecutive mark a.1 a.2 → Consecutive mark b.1 b.2 →
      (a.1 = p ∧ b.1 = p) ∨ (a.2 = p ∧ b.2 = p) → a = b := by
    rintro ⟨a1, a2⟩ ⟨b1, b2⟩ ha hb (⟨rfl, rfl⟩ | ⟨rfl, rfl⟩)
    · exact Prod.ext rfl (ha.right_unique hb)
    · exact Prod.ext (ha.unique_of_overlap hb ha.lt hb.lt).1 rfl
  have hfilter := hnodup.filter (covers p)
  match hlist : spans.filter (covers p) with
  | [] => simp
  | [_] => simp
  | [_, _] => simp
  | a :: b :: c :: rest =>
    exfalso
    rw [hlist] at hends hfilter
    rcases hends a (by simp) with ⟨ha, ha'⟩
    rcases hends b (by simp) with ⟨hb, hb'⟩
    rcases hends c (by simp) with ⟨hc, hc'⟩
    have hab : a ≠ b := by
      rintro rfl
      simp at hfilter
    have hac : a ≠ c := by
      rintro rfl
      simp at hfilter
    have hbc : b ≠ c := by
      rintro rfl
      simp at hfilter
    rcases ha' with ha' | ha' <;> rcases hb' with hb' | hb' <;> rcases hc' with hc' | hc'
    · exact hab (hsame a b ha hb (.inl ⟨ha', hb'⟩))
    · exact hab (hsame a b ha hb (.inl ⟨ha', hb'⟩))
    · exact hac (hsame a c ha hc (.inl ⟨ha', hc'⟩))
    · exact hbc (hsame b c hb hc (.inr ⟨hb', hc'⟩))
    · exact hbc (hsame b c hb hc (.inl ⟨hb', hc'⟩))
    · exact hac (hsame a c ha hc (.inr ⟨ha', hc'⟩))
    · exact hab (hsame a b ha hb (.inr ⟨ha', hb'⟩))
    · exact hab (hsame a b ha hb (.inr ⟨ha', hb'⟩))

end Covers

end MobilityNebula.Library
