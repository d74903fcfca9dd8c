import MobilityNebula.Watermark.MultiOriginWatermarkProcessor

/-!
# EventTimeWatermarkAssigner — the watermark of a buffer behind a selection

The assigner starts each buffer at 0 and takes the largest timestamp of the tuples that reach it.  A buffer
all of whose tuples are dropped by a selection before it therefore has the watermark 0, although earlier
buffers of the same origin had larger ones, and the processor returns the watermark of the newest complete
sequence number, not the largest so far.

`observed_nondecreasing_iff` says for which inputs the observed global watermarks never fall, and
`dropped_buffer_resets_watermark` is an input for which they do.
-/

namespace MobilityNebula.Watermark

open Library Sequencing Function List MultiOriginWatermarkProcessor ProcessorInvariant

universe u

/-! ## The pipeline -/

section Pipeline

variable {α : Type u}

def assignerExecute (timestamp : α → Nat) (currentWatermark : Nat) (record : α) : Nat :=
  if currentWatermark < timestamp record then timestamp record else currentWatermark

def selectionExecute (predicate : α → Bool) (timestamp : α → Nat) (currentWatermark : Nat) (record : α) : Nat :=
  if predicate record then assignerExecute timestamp currentWatermark record else currentWatermark

def bufferWatermark (predicate : α → Bool) (timestamp : α → Nat) (records : List α) : Nat :=
  records.foldl (selectionExecute predicate timestamp) 0

variable {predicate : α → Bool} {timestamp : α → Nat}

lemma selectionExecute_eq (currentWatermark : Nat) (record : α) :
    selectionExecute predicate timestamp currentWatermark record
      = max currentWatermark (if predicate record then timestamp record else 0) := by
  unfold selectionExecute assignerExecute
  split_ifs <;> omega

lemma foldl_selectionExecute_le_iff (records : List α) (start bound : Nat) :
    records.foldl (selectionExecute predicate timestamp) start ≤ bound ↔
      start ≤ bound ∧ ∀ x ∈ records, predicate x = true → timestamp x ≤ bound := by
  induction records generalizing start with
  | nil => simp
  | cons x rest ih =>
    rw [foldl_cons, ih, selectionExecute_eq, max_le_iff, forall_mem_cons, and_assoc]
    refine and_congr_right fun _ => and_congr_left fun _ => ?_
    split_ifs with hx
    · simp [hx]
    · simp [hx]

/-- The watermark of a buffer is the least bound of the timestamps that survive the selection. -/
lemma bufferWatermark_le_iff (records : List α) (bound : Nat) : bufferWatermark predicate timestamp records ≤ bound ↔
      ∀ x ∈ records, predicate x = true → timestamp x ≤ bound := by
  rw [bufferWatermark, foldl_selectionExecute_le_iff]
  exact and_iff_right (Nat.zero_le _)

end Pipeline

/-! ## The input -/

/-- The buffers of all origins in front of the selection.  Origin `o` delivers the sequence numbers
1, …, `numberOfBuffers o`, and its tuples are in timestamp order. -/
structure OrderedOrigins (α : Type u) where
  origins : List Nat
  numberOfBuffers : Nat → Nat
  numberOfChunks : Nat → Nat → Nat
  numberOfChunks_pos : ∀ o s, 0 < numberOfChunks o s
  tuples : BufferId → List α
  timestamp : α → Nat
  inOrder : ∀ o s s', s < s' → ∀ c c', ∀ x ∈ tuples ⟨o, s, c⟩, ∀ y ∈ tuples ⟨o, s', c'⟩, timestamp x ≤ timestamp y

namespace OrderedOrigins

variable {α : Type u} (input : OrderedOrigins α) (predicate : α → Bool)

structure IsBuffer (b : BufferId) : Prop where
  origin : b.originId ∈ input.origins
  sequenceNumber : 1 ≤ b.sequenceNumber
  sequenceNumber_le : b.sequenceNumber ≤ input.numberOfBuffers b.originId
  chunkNumber : 1 ≤ b.chunkNumber
  chunkNumber_le : b.chunkNumber ≤ input.numberOfChunks b.originId b.sequenceNumber

/-- What the watermark processor sees of an origin. -/
def chunked (o : Nat) : ChunkedInput where
  numberOfChunks := input.numberOfChunks o
  numberOfChunks_pos := input.numberOfChunks_pos o
  watermark s c := bufferWatermark predicate input.timestamp (input.tuples ⟨o, s, c⟩)

/-- Some tuple of the sequence number passes the selection with a timestamp above 0. -/
def Survives (o s : Nat) : Prop :=
  ∃ c, 1 ≤ c ∧ c ≤ input.numberOfChunks o s ∧
    ∃ x ∈ input.tuples ⟨o, s, c⟩, predicate x = true ∧ 0 < input.timestamp x

/-- One call of `updateWatermark`; the returned values are kept, the latest first. -/
def observe (r : MultiOriginWatermarkProcessor × List Nat) (b : BufferId) :
    Option (MultiOriginWatermarkProcessor × List Nat) := do
  let (processor, watermark) ← r.1.updateWatermark
    (bufferWatermark predicate input.timestamp (input.tuples b))
    ⟨b.sequenceNumber, b.chunkNumber, b.chunkNumber == input.numberOfChunks b.originId b.sequenceNumber⟩
    b.originId
  some (processor, watermark :: r.2)

/-- The values returned to an observer of the calls for the given buffers, the latest first. -/
def observed (arrivals : List BufferId) : Option (List Nat) :=
  (runFrom (input.observe predicate) (create input.origins, []) arrivals).map Prod.snd

/-! ## The watermark of a sequence number -/

variable {input predicate}
variable {o : Nat}
variable {s : Nat}

lemma watermarkOf_le_iff {bound : Nat} : (input.chunked predicate o).watermarkOf s ≤ bound ↔
      ∀ c, 1 ≤ c → c ≤ input.numberOfChunks o s → ∀ x ∈ input.tuples ⟨o, s, c⟩, predicate x = true →
        input.timestamp x ≤ bound := by
  constructor
  · intro hle c hpos hc x hx hpredicate
    have hmem : c ∈ range' 1 (input.numberOfChunks o s) := mem_range'_1.2 ⟨hpos, by omega⟩
    have hchunk := (le_largest ((input.chunked predicate o).watermark s) hmem).trans hle
    exact (bufferWatermark_le_iff _ _).1 hchunk x hx hpredicate
  · intro h
    refine largest_le fun c hc => (bufferWatermark_le_iff _ _).2 ?_
    rcases mem_range'_1.1 hc with ⟨hpos, hlt⟩
    have hle : c ≤ input.numberOfChunks o s := Nat.lt_succ_iff.1 (by rwa [Nat.add_comm 1] at hlt)
    exact h c hpos hle

lemma watermarkOf_pos_iff : 0 < (input.chunked predicate o).watermarkOf s ↔ input.Survives predicate o s := by
  rw [← not_iff_not, not_lt, watermarkOf_le_iff]
  constructor
  · rintro h ⟨c, hpos, hc, x, hx, hpredicate, hts⟩
    exact absurd (h c hpos hc x hx hpredicate) (not_le.2 hts)
  · intro h c hpos hc x hx hpredicate
    by_contra hts
    exact h ⟨c, hpos, hc, x, hx, hpredicate, Nat.lt_of_not_le hts⟩

/-- Among the sequence numbers with surviving tuples the watermark does not fall. -/
lemma watermarkOf_mono {s' : Nat} (hle : s ≤ s') (hsurvives : input.Survives predicate o s') :
    (input.chunked predicate o).watermarkOf s ≤ (input.chunked predicate o).watermarkOf s' := by
  rcases Nat.eq_or_lt_of_le hle with rfl | hlt
  · exact le_refl _
  · rcases hsurvives with ⟨c', hpos', hc', y, hy, hpredicate', _⟩
    refine watermarkOf_le_iff.2 fun c _ _ x hx _ => ?_
    calc input.timestamp x ≤ input.timestamp y := input.inOrder o s s' hlt c c' x hx y hy
      _ ≤ (input.chunked predicate o).watermarkOf s' := watermarkOf_le_iff.1 (le_refl _) c' hpos' hc' y hy hpredicate'

variable (input predicate) in
/-- No origin has a sequence number without surviving tuples behind one with surviving tuples, unless nothing
of some origin survives at all. -/
def SurvivorsKept : Prop :=
  (∀ o ∈ input.origins, ∀ s, 1 ≤ s → s < input.numberOfBuffers o →
    input.Survives predicate o s → input.Survives predicate o (s + 1)) ∨
  ∃ o ∈ input.origins, ∀ s, 1 ≤ s → s ≤ input.numberOfBuffers o → ¬ input.Survives predicate o s

lemma survives_of_le (hkept : ∀ s, 1 ≤ s → s < input.numberOfBuffers o →
      input.Survives predicate o s → input.Survives predicate o (s + 1))
    {s' : Nat} (hpos : 1 ≤ s) (hle : s ≤ s') (hbound : s' ≤ input.numberOfBuffers o)
    (hs : input.Survives predicate o s) : input.Survives predicate o s' := by
  induction s', hle using Nat.le_induction with
  | base => exact hs
  | succ n hn ih => exact hkept n (hpos.trans hn) hbound (ih (Nat.le_of_succ_le hbound))

lemma prefixWatermark_mono (hkept : ∀ s, 1 ≤ s → s < input.numberOfBuffers o →
      input.Survives predicate o s → input.Survives predicate o (s + 1))
    {p p' : Nat} (hle : p ≤ p') (hbound : p' ≤ input.numberOfBuffers o) :
    prefixWatermark (input.chunked predicate o) p ≤ prefixWatermark (input.chunked predicate o) p' := by
  rcases Nat.eq_zero_or_pos p with rfl | hpos
  · exact Nat.zero_le _
  · rw [prefixWatermark, prefixWatermark, if_neg (Nat.ne_of_gt hpos),
      if_neg (Nat.ne_of_gt (lt_of_lt_of_le hpos hle))]
    rcases Nat.eq_zero_or_pos ((input.chunked predicate o).watermarkOf p) with hzero | hsurvives
    · rw [hzero]
      exact Nat.zero_le _
    · exact watermarkOf_mono hle (survives_of_le hkept hpos hle hbound (watermarkOf_pos_iff.1 hsurvives))

lemma prefixWatermark_eq_zero
    (hnone : ∀ s, 1 ≤ s → s ≤ input.numberOfBuffers o → ¬ input.Survives predicate o s) {p : Nat}
    (hbound : p ≤ input.numberOfBuffers o) : prefixWatermark (input.chunked predicate o) p = 0 := by
  rw [prefixWatermark]
  split_ifs with hzero
  · rfl
  · have hpos := Nat.pos_of_ne_zero hzero
    exact Nat.eq_zero_of_not_pos fun hsurvives => hnone p hpos hbound (watermarkOf_pos_iff.1 hsurvives)

/-! ## The calls -/

variable (input) in
structure IsArrivalOrder (arrivals : List BufferId) : Prop where
  nodup : arrivals.Nodup
  buffers : ∀ b ∈ arrivals, input.IsBuffer b

/-- For each origin the chunks among the buffers. -/
def arrivedOf (arrivals : List BufferId) (o : Nat) : List (Nat × Nat) :=
  (arrivals.filter fun b => b.originId = o).map fun b => (b.sequenceNumber, b.chunkNumber)

variable {arrivals : List BufferId}

lemma mem_arrivedOf {c : Nat} : (s, c) ∈ arrivedOf arrivals o ↔ (⟨o, s, c⟩ : BufferId) ∈ arrivals := by
  simp only [arrivedOf, mem_map, mem_filter, decide_eq_true_eq]
  constructor
  · rintro ⟨⟨o', s', c'⟩, ⟨hmem, rfl⟩, heq⟩
    rw [Prod.mk.injEq] at heq
    rw [← heq.1, ← heq.2]
    exact hmem
  · intro hmem
    exact ⟨_, ⟨hmem, rfl⟩, rfl⟩

lemma arrivedOf_cons (b : BufferId) (arrivals : List BufferId) : arrivedOf (b :: arrivals)
      = arrive (arrivedOf arrivals) b.originId b.sequenceNumber b.chunkNumber := by
  funext o
  rw [arrive]
  by_cases ho : b.originId = o
  · rw [ho, update_self]
    simp [arrivedOf, ho]
  · rw [update_of_ne (Ne.symm ho)]
    simp [arrivedOf, ho]

lemma complete_arrivedOf_iff : (input.chunked predicate o).Complete (arrivedOf arrivals o) s ↔
      ∀ c, 1 ≤ c → c ≤ input.numberOfChunks o s → (⟨o, s, c⟩ : BufferId) ∈ arrivals := by
  refine forall_congr' fun c => forall_congr' fun _ => forall_congr' fun _ => ?_
  rw [mem_chunksOf, mem_arrivedOf]

lemma longestPrefix_le (hbuffers : ∀ b ∈ arrivals, input.IsBuffer b) {p : Nat}
    (hp : IsLongestPrefix ((input.chunked predicate o).Complete (arrivedOf arrivals o)) p) :
    p ≤ input.numberOfBuffers o := by
  rcases Nat.eq_zero_or_pos p with rfl | hpos
  · exact Nat.zero_le _
  · have hfirst := complete_arrivedOf_iff.1 (hp.all p hpos (le_refl p)) 1 (le_refl 1)
      (input.numberOfChunks_pos o p)
    exact (hbuffers _ hfirst).sequenceNumber_le

lemma globalWatermark_mono (hkept : input.SurvivorsKept predicate) {seen seen' : List BufferId}
    (hsub : seen ⊆ seen') (hbuffers : ∀ b ∈ seen', input.IsBuffer b)
    (hlongest : ∀ o ∈ input.origins, ∃ p, IsLongestPrefix ((input.chunked predicate o).Complete (arrivedOf seen o)) p)
    {w w' : Nat} (hw : IsGlobalWatermark input.origins (input.chunked predicate) (arrivedOf seen) w)
    (hw' : IsGlobalWatermark input.origins (input.chunked predicate) (arrivedOf seen') w') : w ≤ w' := by
  have hseen : ∀ b ∈ seen, input.IsBuffer b := fun b hb => hbuffers b (hsub hb)
  rcases hkept with hkept | ⟨o, ho, hnone⟩
  · rcases hw'.eq with hmax | ⟨o, ho, p', hp', heq⟩
    · exact hmax ▸ hw.le_max
    · rcases hlongest o ho with ⟨p, hp⟩
      have hle : p ≤ p' := by
        refine hp.mono hp' fun n hcomplete => ?_
        rw [complete_arrivedOf_iff] at hcomplete ⊢
        exact fun c hpos hc => hsub (hcomplete c hpos hc)
      calc w ≤ prefixWatermark (input.chunked predicate o) p := hw.le o ho p hp
        _ ≤ prefixWatermark (input.chunked predicate o) p' :=
          prefixWatermark_mono (hkept o ho) hle (longestPrefix_le hbuffers hp')
        _ = w' := heq.symm
  · rcases hlongest o ho with ⟨p, hp⟩
    have hzero := hw.le o ho p hp
    rw [prefixWatermark_eq_zero hnone (longestPrefix_le hseen hp)] at hzero
    exact hzero.trans (Nat.zero_le _)

/-- The state of an observer after the given buffers, the latest first. -/
structure ObserverInvariant (input : OrderedOrigins α) (predicate : α → Bool) (seen : List BufferId)
    (r : MultiOriginWatermarkProcessor × List Nat) : Prop where
  origins : r.1.origins = input.origins
  buffers : ∀ b ∈ seen, input.IsBuffer b
  processor : ProcessorInvariant (input.chunked predicate) (arrivedOf seen) r.1
  length : r.2.length = seen.length
  sorted : input.SurvivorsKept predicate → r.2.Pairwise fun later earlier => earlier ≤ later
  latest : ∀ b rest, seen = b :: rest → ∃ watermark values, r.2 = watermark :: values ∧
    IsGlobalWatermark input.origins (input.chunked predicate) (arrivedOf seen) watermark

namespace ObserverInvariant

variable {seen : List BufferId} {r : MultiOriginWatermarkProcessor × List Nat}

lemma initial (input : OrderedOrigins α) (predicate : α → Bool) :
    ObserverInvariant input predicate [] (create input.origins, []) where
  origins := by
    simp [MultiOriginWatermarkProcessor.create, MultiOriginWatermarkProcessor.origins, comp_def]
  buffers := by simp
  processor := create _ _
  length := rfl
  sorted _ := .nil
  latest := by simp

section

variable (inv : ObserverInvariant input predicate seen r)
include inv

lemma sorted_cons (hkept : input.SurvivorsKept predicate) {b : BufferId} (hb : input.IsBuffer b) {watermark : Nat}
    (hglobal : IsGlobalWatermark input.origins (input.chunked predicate) (arrivedOf (b :: seen)) watermark) :
    (watermark :: r.2).Pairwise fun later earlier => earlier ≤ later := by
  have hsorted := inv.sorted hkept
  refine pairwise_cons.2 ⟨?_, hsorted⟩
  intro v hv
  cases hseen : seen with
  | nil =>
    have hlength := inv.length
    rw [hseen, length_nil, length_eq_zero_iff] at hlength
    rw [hlength] at hv
    cases hv
  | cons b' rest =>
    rcases inv.latest b' rest hseen with ⟨w, values, heq, hw⟩
    have hle : w ≤ watermark := by
      refine globalWatermark_mono hkept (subset_cons_self b seen)
        (forall_mem_cons.2 ⟨hb, inv.buffers⟩) (fun o ho => ?_) hw hglobal
      exact inv.processor.exists_isLongestPrefix (inv.origins.symm ▸ ho)
    rw [heq] at hv hsorted
    rcases mem_cons.1 hv with rfl | hv
    · exact hle
    · exact ((pairwise_cons.1 hsorted).1 v hv).trans hle

lemma observe {b : BufferId} (hb : input.IsBuffer b) (hnew : b ∉ seen) :
    ∃ processor watermark, input.observe predicate r b = some (processor, watermark :: r.2) ∧
      ObserverInvariant input predicate (b :: seen) (processor, watermark :: r.2) := by
  rcases b with ⟨o, s, c⟩
  have horigin : o ∈ r.1.origins := by
    rw [inv.origins]
    exact hb.origin
  rcases inv.processor.updateWatermark_spec horigin hb.sequenceNumber
    (fun hmem => hnew (mem_arrivedOf.1 hmem)) hb.chunkNumber hb.chunkNumber_le with
    ⟨processor, watermark, hupdate, horigins, hprocessor, hglobal⟩
  rw [inv.origins] at horigins hglobal
  have hglobal' : IsGlobalWatermark input.origins (input.chunked predicate) (arrivedOf (⟨o, s, c⟩ :: seen))
      watermark := by
    rw [arrivedOf_cons]
    exact hglobal
  refine ⟨processor, watermark, ?_, horigins, forall_mem_cons.2 ⟨hb, inv.buffers⟩, ?_,
    congrArg (· + 1) inv.length, fun hkept => inv.sorted_cons hkept hb hglobal',
    fun _ _ _ => ⟨watermark, r.2, rfl, hglobal'⟩⟩
  · have hcall : r.1.updateWatermark (bufferWatermark predicate input.timestamp (input.tuples ⟨o, s, c⟩))
        ⟨s, c, c == input.numberOfChunks o s⟩ o = some (processor, watermark) := hupdate
    simp only [OrderedOrigins.observe, hcall, Option.bind_eq_bind, Option.bind_some]
  · rw [arrivedOf_cons]
    exact hprocessor

lemma run {arrivals : List BufferId}
    (hnodup : (arrivals.reverse ++ seen).Nodup) (hbuffers : ∀ b ∈ arrivals, input.IsBuffer b) :
    ∃ processor values, runFrom (input.observe predicate) r arrivals = some (processor, values ++ r.2) ∧
      ObserverInvariant input predicate (arrivals.reverse ++ seen) (processor, values ++ r.2) := by
  induction arrivals generalizing seen r with
  | nil => exact ⟨r.1, [], rfl, inv⟩
  | cons b rest ih =>
    rw [reverse_cons, append_assoc, singleton_append] at hnodup ⊢
    have hnew : b ∉ seen := (nodup_cons.1 (nodup_append.1 hnodup).2.1).1
    rcases inv.observe (hbuffers b mem_cons_self) hnew with ⟨processor, watermark, hstep, inv'⟩
    rcases ih inv' hnodup fun b' hb' => hbuffers b' (mem_cons_of_mem _ hb') with ⟨processor', values, hrun, inv''⟩
    refine ⟨processor', values ++ [watermark], ?_, ?_⟩
    · rw [runFrom_cons_of_step hstep, hrun, append_assoc]
      rfl
    · rw [append_assoc]
      exact inv''

end

lemma run_initial {arrivals : List BufferId} (hnodup : arrivals.Nodup) (hbuffers : ∀ b ∈ arrivals, input.IsBuffer b) :
    ∃ processor values, runFrom (input.observe predicate) (create input.origins, []) arrivals
        = some (processor, values) ∧ ObserverInvariant input predicate arrivals.reverse (processor, values) := by
  have hreverse : (arrivals.reverse ++ []).Nodup := by
    rw [append_nil]
    exact nodup_reverse.2 hnodup
  rcases (initial input predicate).run hreverse hbuffers with ⟨processor, values, hrun, inv⟩
  rw [append_nil] at inv
  exact ⟨processor, values ++ [], hrun, inv⟩

end ObserverInvariant

/-! ## An order in which the watermark falls -/

variable (input) in
/-- The buffers of all origins up to the given sequence numbers. -/
def buffersUpTo (last : Nat → Nat) : List BufferId :=
  (input.origins.flatMap fun o => (range' 1 (last o)).flatMap fun s =>
    (range' 1 (input.numberOfChunks o s)).map fun c => ⟨o, s, c⟩).dedup

lemma mem_buffersUpTo {last : Nat → Nat} {b : BufferId} :
    b ∈ input.buffersUpTo last ↔ b.originId ∈ input.origins ∧ 1 ≤ b.sequenceNumber ∧
      b.sequenceNumber ≤ last b.originId ∧ 1 ≤ b.chunkNumber ∧
      b.chunkNumber ≤ input.numberOfChunks b.originId b.sequenceNumber := by
  rcases b with ⟨o, s, c⟩
  simp only [buffersUpTo, mem_dedup, mem_flatMap, mem_map, mem_range'_1, BufferId.mk.injEq]
  constructor
  · rintro ⟨o', ho, s', hs, c', hc, rfl, rfl, rfl⟩
    exact ⟨ho, hs.1, by omega, hc.1, by omega⟩
  · rintro ⟨ho, hs, hle, hc, hle'⟩
    exact ⟨o, ho, s, ⟨hs, by omega⟩, c, ⟨hc, by omega⟩, rfl, rfl, rfl⟩

/-- A drop: a sequence number of some origin without surviving tuples behind one with surviving tuples, and
for each origin a sequence number with surviving tuples. -/
structure IsDrop (input : OrderedOrigins α) (predicate : α → Bool) (o s : Nat) (last : Nat → Nat) : Prop where
  origin : o ∈ input.origins
  last_eq : last o = s
  next_le : s + 1 ≤ input.numberOfBuffers o
  next_dropped : ¬ input.Survives predicate o (s + 1)
  last_pos : ∀ o' ∈ input.origins, 1 ≤ last o'
  last_le : ∀ o' ∈ input.origins, last o' ≤ input.numberOfBuffers o'
  last_survives : ∀ o' ∈ input.origins, input.Survives predicate o' (last o')

lemma exists_isDrop (hkept : ¬ input.SurvivorsKept predicate) : ∃ o s last, input.IsDrop predicate o s last := by
  rw [SurvivorsKept, not_or] at hkept
  rcases hkept with ⟨hdrop, hsome⟩
  push Not at hdrop hsome
  rcases hdrop with ⟨o, ho, s, hpos, hlt, hsurvives, hdropped⟩
  choose! last hlast using hsome
  have hupdated : ∀ o' ∈ input.origins, 1 ≤ update last o s o' ∧ update last o s o' ≤ input.numberOfBuffers o' ∧
      input.Survives predicate o' (update last o s o') := by
    intro o' ho'
    by_cases heq : o' = o
    · rw [heq, update_self]
      exact ⟨hpos, hlt.le, hsurvives⟩
    · rw [update_of_ne heq]
      exact hlast o' ho'
  exact ⟨o, s, update last o s, ho, update_self _ _ _, hlt, hdropped,
    fun o' ho' => (hupdated o' ho').1, fun o' ho' => (hupdated o' ho').2.1, fun o' ho' => (hupdated o' ho').2.2⟩

namespace IsDrop

variable {o s : Nat} {last : Nat → Nat}

/-- The buffer that completes the sequence number without surviving tuples. -/
def finalBuffer (input : OrderedOrigins α) (o s : Nat) : BufferId := ⟨o, s + 1, input.numberOfChunks o (s + 1)⟩

/-- Everything up to the last surviving sequence numbers, and the dropped one without its final buffer. -/
def before (input : OrderedOrigins α) (o s : Nat) (last : Nat → Nat) : List BufferId :=
  (input.buffersUpTo (update last o (s + 1))).filter fun b => b ≠ finalBuffer input o s

lemma mem_before {b : BufferId} : b ∈ before input o s last ↔
      b ∈ input.buffersUpTo (update last o (s + 1)) ∧ b ≠ finalBuffer input o s := by
  rw [before, mem_filter, decide_eq_true_eq]

variable (h : input.IsDrop predicate o s last)
include h

lemma isArrivalOrder : input.IsArrivalOrder (before input o s last ++ [finalBuffer input o s]) := by
  refine ⟨?_, ?_⟩
  · refine nodup_append.2 ⟨(nodup_dedup _).filter _, nodup_singleton _, ?_⟩
    rintro b hb b' hb' rfl
    exact (mem_before.1 hb).2 (mem_singleton.1 hb')
  · intro b hb
    rcases mem_append.1 hb with hb | hb
    · rcases mem_buffersUpTo.1 (mem_before.1 hb).1 with ⟨ho, hs, hle, hc, hc'⟩
      refine ⟨ho, hs, ?_, hc, hc'⟩
      by_cases heq : b.originId = o
      · rw [heq, update_self] at hle
        rw [heq]
        exact hle.trans h.next_le
      · rw [update_of_ne heq] at hle
        exact hle.trans (h.last_le _ ho)
    · rw [mem_singleton.1 hb]
      exact ⟨h.origin, Nat.le_add_left 1 s, h.next_le, input.numberOfChunks_pos _ _, le_refl _⟩

lemma longestPrefix_before {o' : Nat} (ho' : o' ∈ input.origins) :
    IsLongestPrefix ((input.chunked predicate o').Complete (arrivedOf (before input o s last).reverse o'))
      (last o') := by
  refine ⟨fun n hn hle => complete_arrivedOf_iff.2 fun c hc hc' => ?_, fun hcomplete => ?_⟩
  · refine mem_reverse.2 (mem_before.2 ⟨mem_buffersUpTo.2 ⟨ho', hn, ?_, hc, hc'⟩, ?_⟩)
    · show n ≤ update last o (s + 1) o'
      by_cases heq : o' = o
      · rw [heq, update_self, ← h.last_eq]
        exact (heq ▸ hle).trans (Nat.le_succ _)
      · rw [update_of_ne heq]
        exact hle
    · intro heq
      rw [finalBuffer, BufferId.mk.injEq] at heq
      rw [heq.1, h.last_eq, heq.2.1] at hle
      exact absurd hle (Nat.not_succ_le_self s)
  · by_cases heq : o' = o
    · -- the final buffer is missing
      subst heq
      have hmem := complete_arrivedOf_iff.1 hcomplete _ (input.numberOfChunks_pos o' _) (le_refl _)
      rw [mem_reverse] at hmem
      refine (mem_before.1 hmem).2 ?_
      rw [finalBuffer, h.last_eq]
    · have hmem := complete_arrivedOf_iff.1 hcomplete 1 (le_refl 1) (input.numberOfChunks_pos o' _)
      rw [mem_reverse] at hmem
      have hle : last o' + 1 ≤ update last o (s + 1) o' := (mem_buffersUpTo.1 (mem_before.1 hmem).1).2.2.1
      rw [update_of_ne heq] at hle
      exact absurd hle (Nat.not_succ_le_self _)

lemma longestPrefix_after : IsLongestPrefix ((input.chunked predicate o).Complete
      (arrivedOf (finalBuffer input o s :: (before input o s last).reverse) o)) (s + 1) := by
  refine ⟨fun n hn hle => complete_arrivedOf_iff.2 fun c hc hc' => ?_, fun hcomplete => ?_⟩
  · by_cases heq : (⟨o, n, c⟩ : BufferId) = finalBuffer input o s
    · rw [heq]
      exact mem_cons_self
    · refine mem_cons_of_mem _ (mem_reverse.2 (mem_before.2 ⟨mem_buffersUpTo.2 ?_, heq⟩))
      refine ⟨h.origin, hn, ?_, hc, hc'⟩
      rw [update_self]
      exact hle
  · have hmem := complete_arrivedOf_iff.1 hcomplete 1 (le_refl 1) (input.numberOfChunks_pos o _)
    rcases mem_cons.1 hmem with heq | hmem
    · rw [finalBuffer, BufferId.mk.injEq] at heq
      exact absurd heq.2.1 (Nat.succ_ne_self _)
    · rw [mem_reverse] at hmem
      have hle : s + 1 + 1 ≤ update last o (s + 1) o := (mem_buffersUpTo.1 (mem_before.1 hmem).1).2.2.1
      rw [update_self] at hle
      exact absurd hle (Nat.not_succ_le_self _)

lemma before_ne_nil : before input o s last ≠ [] := by
  have hmem : (⟨o, 1, 1⟩ : BufferId) ∈ input.buffersUpTo (update last o (s + 1)) := by
    refine mem_buffersUpTo.2 ⟨h.origin, le_refl 1, ?_, le_refl 1, input.numberOfChunks_pos o 1⟩
    rw [update_self]
    exact Nat.le_add_left 1 s
  refine ne_nil_of_mem (mem_before.2 ⟨hmem, fun heq => ?_⟩)
  rw [finalBuffer, BufferId.mk.injEq] at heq
  have hpos := h.last_pos o h.origin
  rw [h.last_eq] at hpos
  exact absurd heq.2.1 (by omega)

lemma observed_falls : ∃ watermark values, input.observed predicate (before input o s last ++ [finalBuffer input o s])
        = some (0 :: watermark :: values) ∧ 0 < watermark := by
  have horder := h.isArrivalOrder
  have hsplit := nodup_append.1 horder.nodup
  rcases ObserverInvariant.run_initial hsplit.1 fun b hb => horder.buffers b (mem_append_left _ hb) with
    ⟨processor, values, hrun, inv⟩
  have hnew : finalBuffer input o s ∉ (before input o s last).reverse := fun hmem =>
    (mem_before.1 (mem_reverse.1 hmem)).2 rfl
  rcases inv.observe (horder.buffers _ (mem_append_right _ (mem_singleton_self _))) hnew with
    ⟨processor', watermark', hstep, inv'⟩
  -- what was returned before the final buffer
  rcases exists_cons_of_ne_nil (fun hnil => h.before_ne_nil (reverse_eq_nil_iff.1 hnil)) with ⟨b, rest, hcons⟩
  rcases inv.latest b rest hcons with ⟨watermark, values', hvalues, hglobal⟩
  have hpos : 0 < watermark := by
    rcases hglobal.eq with hmax | ⟨o', ho', p, hp, heq⟩
    · rw [hmax]
      decide
    · rw [heq, hp.unique (h.longestPrefix_before ho'), prefixWatermark,
        if_neg (Nat.ne_of_gt (h.last_pos o' ho'))]
      exact watermarkOf_pos_iff.2 (h.last_survives o' ho')
  -- what is returned for the final buffer
  rcases inv'.latest _ _ rfl with ⟨watermark₁, values₁, hvalues₁, hglobal'⟩
  have hzero : watermark' = 0 := by
    have hle := hglobal'.le o h.origin (s + 1) h.longestPrefix_after
    rw [prefixWatermark, if_neg (Nat.succ_ne_zero s),
      Nat.eq_zero_of_not_pos fun hsurvives => h.next_dropped (watermarkOf_pos_iff.1 hsurvives)] at hle
    rw [(cons.inj hvalues₁).1]
    exact Nat.le_zero.1 hle
  refine ⟨watermark, values', ?_, hpos⟩
  have hvalues' : values = watermark :: values' := hvalues
  rw [observed, runFrom_append hrun, runFrom_cons_of_step hstep, hzero, hvalues']
  rfl

end IsDrop

/-- The watermarks returned to an observer are non-decreasing for every order in which the buffers arrive
exactly if no origin has a sequence number all of whose tuples are dropped behind one with surviving tuples,
or nothing of some origin survives at all. -/
theorem observed_nondecreasing_iff (input : OrderedOrigins α) (predicate : α → Bool) :
    (∀ arrivals, input.IsArrivalOrder arrivals → ∃ values, input.observed predicate arrivals = some values ∧
      values.Pairwise fun later earlier => earlier ≤ later) ↔ input.SurvivorsKept predicate := by
  constructor
  · intro hall
    by_contra hkept
    rcases exists_isDrop hkept with ⟨o, s, last, h⟩
    rcases h.observed_falls with ⟨watermark, values, hobserved, hpos⟩
    rcases hall _ h.isArrivalOrder with ⟨values', hobserved', hsorted⟩
    rw [hobserved, Option.some_inj] at hobserved'
    rw [← hobserved'] at hsorted
    exact absurd ((pairwise_cons.1 hsorted).1 watermark mem_cons_self) (Nat.not_le.2 hpos)
  · intro hkept arrivals harrivals
    rcases ObserverInvariant.run_initial harrivals.nodup harrivals.buffers with ⟨processor, values, hrun, inv⟩
    refine ⟨values, ?_, inv.sorted hkept⟩
    rw [observed, hrun]
    rfl

/-- One origin with two buffers of one tuple each, at times 10 and 20. -/
def twoBuffers : OrderedOrigins Nat where
  origins := [1]
  numberOfBuffers _ := 2
  numberOfChunks _ _ := 1
  numberOfChunks_pos _ _ := Nat.one_pos
  tuples b := [10 * b.sequenceNumber]
  timestamp t := t
  inOrder := by
    intro o s s' hlt c c' x hx y hy
    rw [mem_singleton.1 hx, mem_singleton.1 hy]
    exact Nat.mul_le_mul_left 10 hlt.le

/-- A selection drops the second tuple: the observer sees 10 and then 0. -/
theorem dropped_buffer_resets_watermark : twoBuffers.IsArrivalOrder [⟨1, 1, 1⟩, ⟨1, 2, 1⟩] ∧
      twoBuffers.observed (fun t => t < 15) [⟨1, 1, 1⟩, ⟨1, 2, 1⟩] = some [0, 10] := by
  refine ⟨⟨by decide, ?_⟩, rfl⟩
  intro b hb
  rcases mem_cons.1 hb with rfl | hb
  · exact ⟨by decide, by decide, by decide, by decide, by decide⟩
  · rw [mem_singleton.1 hb]
    exact ⟨by decide, by decide, by decide, by decide, by decide⟩

/-! ## Every order of calls, for any timestamps -/

variable {inputs : Nat → ChunkedInput} {origins : List Nat} {calls : List BufferId}

def runCalls (inputs : Nat → ChunkedInput) (origins : List Nat) :
    List BufferId → Option MultiOriginWatermarkProcessor :=
  runFrom (fun processor ⟨o, s, c⟩ =>
    (processor.updateWatermark ((inputs o).watermark s c) ((inputs o).data s c) o).map Prod.fst)
    (.create origins)

section

variable (hnodup : calls.Nodup) (hcalls : ∀ o s c, ⟨o, s, c⟩ ∈ calls →
  o ∈ origins ∧ 0 < s ∧ 1 ≤ c ∧ c ≤ (inputs o).numberOfChunks s)
include hnodup hcalls

lemma runCalls_spec : ∃ processor, runCalls inputs origins calls = some processor ∧
    processor.origins = origins ∧ ProcessorInvariant inputs (arrivedOf calls.reverse) processor := by
  induction calls using reverseRecOn with
  | nil => exact ⟨_, rfl, map_map.trans (map_id _), .create inputs origins⟩
  | append_singleton calls b ih =>
    rcases b with ⟨o, s, c⟩
    have hnew : (s, c) ∉ arrivedOf calls.reverse o := fun h =>
      (nodup_append.1 hnodup).2.2 _ (mem_reverse.1 (mem_arrivedOf.1 h)) _ (mem_singleton_self _) rfl
    rcases ih hnodup.of_append_left fun o s c h => hcalls o s c (mem_append_left _ h) with
      ⟨processor, hrun, rfl, inv⟩
    rcases hcalls o s c mem_concat_self with ⟨ho, hs, hc, hle⟩
    rcases inv.updateWatermark_spec ho hs hnew hc hle with ⟨processor', _, hstep, hkeys, inv', _⟩
    rw [reverse_append, reverse_singleton, singleton_append, arrivedOf_cons]
    refine ⟨processor', ?_, hkeys, inv'⟩
    rw [runCalls, runFrom_append hrun]
    simp [runFrom, hstep]

/-- After any order of calls the processor has the global watermark of the chunks so far. -/
theorem watermark_of_calls : ∃ processor w, runCalls inputs origins calls = some processor ∧
    processor.getCurrentWatermark = some w ∧ IsGlobalWatermark origins inputs (arrivedOf calls.reverse) w := by
  rcases runCalls_spec hnodup hcalls with ⟨processor, hrun, rfl, inv⟩
  rcases inv.getCurrentWatermark with ⟨w, hw⟩
  exact ⟨processor, w, hrun, hw⟩

end

/-- The first sequence number of both origins is complete. -/
theorem watermark_of_four_calls : ∃ processor w,
    runCalls (fun _ => twoChunks) [1, 2] [⟨2, 1, 2⟩, ⟨1, 1, 1⟩, ⟨2, 1, 1⟩, ⟨1, 1, 2⟩] = some processor ∧
    processor.getCurrentWatermark = some w ∧
    IsGlobalWatermark [1, 2] (fun _ => twoChunks) (arrivedOf [⟨1, 1, 2⟩, ⟨2, 1, 1⟩, ⟨1, 1, 1⟩, ⟨2, 1, 2⟩]) w :=
  watermark_of_calls (by decide) (by simp [twoChunks]; omega)

end OrderedOrigins

end MobilityNebula.Watermark
