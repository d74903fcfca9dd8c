import MobilityNebula.Library.Spans
import MobilityNebula.Library.Splitting

/-!
# Blocks — the pieces of a text that arrives in blocks

A text is cut into blocks `1, 2, …`.  A block that has the separator is a mark, and so is position 0 before
the text.  A piece of the text lies inside one block, or it runs from one mark to the next: it starts behind
the last separator of the one and ends before the first separator of the other (`spanText`).  What follows
the last mark is still open (`openText`).

`splitOn_textUpTo` says that these are all pieces of the text, each once.
-/

namespace MobilityNebula.Library

open List

/-! ## The spans up to a position -/

section SpansUpTo

variable (mark : ℕ → Prop) [DecidablePred mark]

/-- The spans between consecutive marks that end at `n` or before. -/
def spansUpTo : ℕ → List (ℕ × ℕ)
  | 0 => []
  | n + 1 =>
    if mark (n + 1) then spansUpTo n ++ [(Nat.findGreatest mark n, n + 1)] else spansUpTo n

variable {mark}

lemma consecutive_findGreatest (hzero : mark 0) {n : ℕ} (hmark : mark (n + 1)) :
    Consecutive mark (Nat.findGreatest mark n) (n + 1) := by
  have hle : Nat.findGreatest mark n ≤ n := Nat.findGreatest_le n
  refine ⟨by omega, Nat.findGreatest_spec (Nat.zero_le n) hzero, hmark, ?_⟩
  intro p hlt hp
  exact Nat.findGreatest_is_greatest hlt (by omega)

lemma mem_spansUpTo (hzero : mark 0) {n d e : ℕ} : (d, e) ∈ spansUpTo mark n ↔ Consecutive mark d e ∧ e ≤ n := by
  induction n with
  | zero =>
    simp only [spansUpTo, not_mem_nil, false_iff]
    rintro ⟨hspan, hle⟩
    have hlt := hspan.lt
    omega
  | succ n ih =>
    unfold spansUpTo
    by_cases hmark : mark (n + 1)
    · have hnew := consecutive_findGreatest hzero hmark
      rw [if_pos hmark, mem_append, ih, mem_singleton, Prod.mk.injEq]
      constructor
      · rintro (⟨hspan, hle⟩ | ⟨rfl, rfl⟩)
        · exact ⟨hspan, by omega⟩
        · exact ⟨hnew, le_rfl⟩
      · rintro ⟨hspan, hle⟩
        rcases Nat.eq_or_lt_of_le hle with rfl | hlt
        · exact .inr ⟨(hspan.unique_of_overlap hnew hspan.lt hnew.lt).1, rfl⟩
        · exact .inl ⟨hspan, by omega⟩
    · rw [if_neg hmark, ih]
      constructor
      · rintro ⟨hspan, hle⟩
        exact ⟨hspan, by omega⟩
      · rintro ⟨hspan, hle⟩
        -- the position without a mark ends no span
        have hne : e ≠ n + 1 := fun heq => hmark (heq ▸ hspan.right)
        exact ⟨hspan, by omega⟩

lemma nodup_spansUpTo (hzero : mark 0) (n : ℕ) : (spansUpTo mark n).Nodup := by
  induction n with
  | zero => exact nodup_nil
  | succ n ih =>
    unfold spansUpTo
    by_cases hmark : mark (n + 1)
    · rw [if_pos hmark, ← concat_eq_append]
      refine ih.concat ?_
      intro hmem
      have hle := ((mem_spansUpTo hzero).1 hmem).2
      omega
    · rw [if_neg hmark]
      exact ih

lemma spansUpTo_congr {mark' : ℕ → Prop} [DecidablePred mark'] (h : mark = mark') :
    spansUpTo mark = spansUpTo mark' := by
  congr

end SpansUpTo

/-- The next element goes to one of two collections, and what comes with it to the other one. -/
lemma perm_append_both {β : Type*} {l xs ys zs : List β} {x : β} (h : l.Perm (xs ++ ys)) :
    (l ++ x :: zs).Perm (xs ++ [x] ++ (ys ++ zs)) := by
  refine (h.append_right _).trans ?_
  simp only [append_assoc, singleton_append]
  exact .append_left _ perm_middle

/-! ## Pieces of a text in blocks -/

section Blocks

variable {α : Type*} [DecidableEq α] (d : α) (bytes : ℕ → List α)

/-- Position 0 and the blocks that have the separator. -/
def BlockMark (p : ℕ) : Prop := p = 0 ∨ d ∈ bytes p

instance : DecidablePred (BlockMark d bytes) := fun _ => inferInstanceAs (Decidable (_ ∨ _))

def textUpTo (n : ℕ) : List α := (range' 1 n).flatMap bytes

/-- The text between the last separator of block `s` and the first separator of block `e`. -/
def spanText (s e : ℕ) : List α :=
  trailing d (bytes s) ++ (range' (s + 1) (e - (s + 1))).flatMap bytes ++ leading d (bytes e)

/-- The text behind the last separator of the blocks `1, …, n`. -/
def openText (n : ℕ) : List α :=
  let s := Nat.findGreatest (BlockMark d bytes) n
  trailing d (bytes s) ++ (range' (s + 1) (n - s)).flatMap bytes

variable {d bytes}

omit [DecidableEq α] in
lemma textUpTo_succ (n : ℕ) : textUpTo bytes (n + 1) = textUpTo bytes n ++ bytes (n + 1) := by
  rw [textUpTo, textUpTo, range'_1_concat, flatMap_append, Nat.add_comm 1 n]
  simp

lemma openText_succ_of_not_mem {n : ℕ} (h : d ∉ bytes (n + 1)) :
    openText d bytes (n + 1) = openText d bytes n ++ bytes (n + 1) := by
  have hmark : ¬ BlockMark d bytes (n + 1) := by
    rintro (hzero | hmem)
    · omega
    · exact h hmem
  have hle : Nat.findGreatest (BlockMark d bytes) n ≤ n := Nat.findGreatest_le n
  simp only [openText, Nat.findGreatest_of_not hmark]
  rw [Nat.succ_sub hle, range'_1_concat, flatMap_append, append_assoc]
  have hlast : Nat.findGreatest (BlockMark d bytes) n + 1
      + (n - Nat.findGreatest (BlockMark d bytes) n) = n + 1 := by omega
  rw [hlast]
  simp

lemma openText_succ_of_mem {n : ℕ} (h : d ∈ bytes (n + 1)) : openText d bytes (n + 1) = trailing d (bytes (n + 1)) := by
  have hmark : BlockMark d bytes (n + 1) := .inr h
  simp only [openText, Nat.findGreatest_eq hmark, Nat.sub_self]
  simp

lemma openText_append_leading (n : ℕ) :
    openText d bytes n ++ leading d (bytes (n + 1))
      = spanText d bytes (Nat.findGreatest (BlockMark d bytes) n) (n + 1) := by
  simp only [openText, spanText, Nat.add_sub_add_right]

/-- The pieces of the text: the spans, the inner pieces of the blocks and the open text at the end. -/
lemma splitOn_textUpTo (hzero : bytes 0 = []) (n : ℕ) :
    ∃ done, (textUpTo bytes n).splitOn d = done ++ [openText d bytes n] ∧
      done.Perm ((spansUpTo (BlockMark d bytes) n).map (fun span => spanText d bytes span.1 span.2)
        ++ (range' 1 n).flatMap fun p => inner d (bytes p)) := by
  induction n with
  | zero =>
    refine ⟨[], ?_, .refl _⟩
    simp [textUpTo, openText, hzero, trailing, splitOn_nil]
  | succ n ih =>
    rcases ih with ⟨done, hsplit, hperm⟩
    have hopen : trailing d (textUpTo bytes n) = openText d bytes n := by
      rw [trailing, hsplit, getLastD_concat]
    rw [textUpTo_succ, splitOn_append, hsplit, dropLast_concat, hopen,
      range'_1_concat, flatMap_append, Nat.add_comm 1 n]
    by_cases hmem : d ∈ bytes (n + 1)
    · -- the block closes the open text and brings its own inner pieces
      have hmark : BlockMark d bytes (n + 1) := .inr hmem
      refine ⟨done ++ (openText d bytes n ++ leading d (bytes (n + 1))) :: inner d (bytes (n + 1)),
        ?_, ?_⟩
      · rw [splitOn_of_mem hmem, tail_cons, openText_succ_of_mem hmem]
        simp
      · have hspans : spansUpTo (BlockMark d bytes) (n + 1)
            = spansUpTo (BlockMark d bytes) n ++ [(Nat.findGreatest (BlockMark d bytes) n, n + 1)] := by
          rw [spansUpTo, if_pos hmark]
        rw [hspans, openText_append_leading, map_append, flatMap_singleton]
        exact perm_append_both hperm
    · refine ⟨done, ?_, ?_⟩
      · rw [splitOn_eq_singleton hmem, tail_cons, leading_of_not_mem hmem,
          openText_succ_of_not_mem hmem]
      · have hmark : ¬ BlockMark d bytes (n + 1) := by
          rintro (hz | hin)
          · omega
          · exact hmem hin
        rw [spansUpTo, if_neg hmark, flatMap_singleton, inner_of_not_mem hmem, append_nil]
        exact hperm

end Blocks

end MobilityNebula.Library
