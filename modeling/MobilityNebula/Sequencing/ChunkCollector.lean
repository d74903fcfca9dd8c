import MobilityNebula.Library.Chunks

/-!
# ChunkCollector — when is a sequence number complete?

The collector counts the chunks of each sequence number.  Every chunk but the last takes one from the
counter, the last one adds its number minus one, so the counter is 0 again when all chunks were collected.
The counters live in nodes of a fixed size; a node is erased when all its sequence numbers are complete.

`collect_spec` relates this to the chunks that have arrived: a call reports the sequence number exactly when
its chunk is the last one missing, with the largest watermark of all chunks, and no check fails.

The counter is an integer here: the unsigned one of the source is the same number modulo `2 ^ 64`, and fewer
than `2 ^ 64` chunks exist.
-/

namespace MobilityNebula.Sequencing

open Library List Function

/-! ## The collector -/

structure SequenceData where
  sequenceNumber : Nat
  chunkNumber : Nat
  lastChunk : Bool
  deriving DecidableEq, Repr

structure BufferId where
  originId : Nat
  sequenceNumber : Nat
  chunkNumber : Nat
  deriving DecidableEq, Repr

structure Chunk where
  counter : Int
  seenLastChunk : Bool
  value : Nat
  deriving DecidableEq, Repr

namespace Chunk

def initial : Chunk := ⟨0, false, 0⟩

/-- The new counter and, if all chunks have been collected, the largest watermark.  A second last chunk
violates an `INVARIANT`. -/
def update (chunk : Chunk) (sequence : SequenceData) (newWatermark : Nat) : Option (Chunk × Option Nat) :=
  let value := if chunk.value < newWatermark then newWatermark else chunk.value
  if sequence.lastChunk && chunk.seenLastChunk then
    none
  else
    let counter :=
      if sequence.lastChunk then chunk.counter + ((sequence.chunkNumber - 1 : Nat) : Int) else chunk.counter - 1
    some (⟨counter, chunk.seenLastChunk || sequence.lastChunk, value⟩, if counter = 0 then some value else none)

end Chunk

structure Node where
  start : Nat
  missing : Nat
  data : Nat → Chunk

def Node.create (nodeSize start : Nat) : Node := ⟨start, nodeSize, fun _ => Chunk.initial⟩

/-- The node for a sequence number, counted from 0. -/
def Node.holds (nodeSize sequence : Nat) (node : Node) : Bool :=
  node.start ≤ sequence && sequence < node.start + nodeSize

structure ChunkCollector where
  nodes : List Node

namespace ChunkCollector

def create : ChunkCollector := ⟨[]⟩

/-- The nodes, with a new one if there was none for the sequence number. -/
def locate (nodeSize : Nat) (nodes : List Node) (sequence : Nat) : List Node × Node :=
  match nodes.find? (Node.holds nodeSize sequence) with
  | some node => (nodes, node)
  | none =>
    let node := Node.create nodeSize (sequence / nodeSize * nodeSize)
    (nodes ++ [node], node)

def replace (nodes : List Node) (node : Node) : List Node :=
  nodes.map fun n => if n.start = node.start then node else n

def collect (nodeSize : Nat) (collector : ChunkCollector) (data : SequenceData) (watermark : Nat) :
    Option (ChunkCollector × Option (Nat × Nat)) :=
  if data.sequenceNumber = 0 ∨ data.chunkNumber = 0 then
    none
  else do
    let sequence := data.sequenceNumber - 1
    let (nodes, node) := locate nodeSize collector.nodes sequence
    let (chunk, finalWatermark) ← (node.data (sequence % nodeSize)).update data watermark
    let node := { node with data := update node.data (sequence % nodeSize) chunk }
    match finalWatermark with
    | none => some (⟨replace nodes node⟩, none)
    | some finalWatermark =>
      let done := { node with missing := node.missing - 1 }
      let nodes := replace nodes done
      some (⟨if node.missing = 1 then nodes.filter fun n => n.start ≠ node.start else nodes⟩,
        some (data.sequenceNumber, finalWatermark))

end ChunkCollector

/-! ## The input -/

/-- The chunks of the sequence numbers of one origin: sequence number `s` has the chunks 1, …,
`numberOfChunks s`, and the last of them is flagged. -/
structure ChunkedInput where
  numberOfChunks : Nat → Nat
  numberOfChunks_pos : ∀ s, 0 < numberOfChunks s
  watermark : Nat → Nat → Nat

namespace ChunkedInput

variable (input : ChunkedInput)

def data (s c : Nat) : SequenceData := ⟨s, c, c == input.numberOfChunks s⟩

def Complete (arrived : List (Nat × Nat)) (s : Nat) : Prop :=
  AllChunks (input.numberOfChunks s) (chunksOf arrived s)

def watermarkOf (s : Nat) : Nat := largest (input.watermark s) (range' 1 (input.numberOfChunks s))

end ChunkedInput

/-! ## One sequence number -/

/-- The counter after the given chunks of 1, …, k. -/
structure Chunk.Represents (k : Nat) (watermark : Nat → Nat) (chunks : List Nat) (chunk : Chunk) : Prop where
  counter : chunk.counter = (if k ∈ chunks then (k : Int) else 0) - chunks.length
  seenLastChunk : chunk.seenLastChunk = decide (k ∈ chunks)
  value : chunk.value = largest watermark chunks

lemma Chunk.Represents.initial (k : Nat) (watermark : Nat → Nat) : Chunk.Represents k watermark [] Chunk.initial := by
  refine ⟨?_, ?_, rfl⟩
  · simp [Chunk.initial]
  · simp [Chunk.initial]

/-- The counter reaches 0 exactly with the chunk that completes the sequence number. -/
lemma Chunk.Represents.update {k : Nat} {watermark : Nat → Nat} {chunks : List Nat} {chunk : Chunk}
    (h : Chunk.Represents k watermark chunks chunk) (hchunks : IsChunkSet k chunks) {c : Nat}
    (hnew : c ∉ chunks) (hpos : 1 ≤ c) (hle : c ≤ k) (s : Nat) :
    ∃ chunk', chunk.update ⟨s, c, c == k⟩ (watermark c)
        = some (chunk', if (c :: chunks).length = k then some (largest watermark (c :: chunks)) else none) ∧
      Chunk.Represents k watermark (c :: chunks) chunk' := by
  have hvalue : (if chunk.value < watermark c then watermark c else chunk.value) = largest watermark (c :: chunks) := by
    rw [largest_cons, h.value]
    split_ifs <;> omega
  by_cases hlast : c = k
  · -- the last chunk: its number is added
    subst hlast
    have hseen : chunk.seenLastChunk = false := by rw [h.seenLastChunk, decide_eq_false hnew]
    have hcounter : chunk.counter + ((c - 1 : Nat) : Int) = (c : Int) - ((c :: chunks).length : Int) := by
      rw [h.counter, if_neg hnew, length_cons]
      omega
    refine ⟨⟨(c : Int) - ((c :: chunks).length : Int), true, largest watermark (c :: chunks)⟩, ?_, ?_⟩
    · have hzero : ((c : Int) - ((c :: chunks).length : Int) = 0) ↔ (c :: chunks).length = c := by omega
      simp only [Chunk.update, beq_self_eq_true, Bool.true_and, hseen, Bool.false_eq_true, if_false, if_true,
        Bool.or_true, hvalue, hcounter, if_congr hzero rfl rfl]
    · exact ⟨by simp, by simp, rfl⟩
  · have hbeq : (c == k) = false := beq_eq_false_iff_ne.2 hlast
    have hmem : k ∈ c :: chunks ↔ k ∈ chunks := by simp [Ne.symm hlast]
    have hcounter : chunk.counter - 1 = (if k ∈ c :: chunks then (k : Int) else 0) - ((c :: chunks).length : Int) := by
      rw [h.counter, length_cons, if_congr hmem rfl rfl]
      split_ifs <;> omega
    refine ⟨⟨(if k ∈ c :: chunks then (k : Int) else 0) - ((c :: chunks).length : Int), chunk.seenLastChunk,
      largest watermark (c :: chunks)⟩, ?_, ?_⟩
    · have hzero : ((if k ∈ c :: chunks then (k : Int) else 0) - ((c :: chunks).length : Int) = 0) ↔
          (c :: chunks).length = k := by
        -- without the last chunk the counter is below 0, and not all chunks are there
        by_cases hk : k ∈ c :: chunks
        · rw [if_pos hk]
          omega
        · rw [if_neg hk]
          have hnot : (c :: chunks).length ≠ k := by
            intro heq
            exact hk ((hchunks.cons hnew hpos hle).length_eq_iff.1 heq k (by omega) (Nat.le_refl k))
          rw [length_cons] at hnot ⊢
          omega
      simp only [Chunk.update, hbeq, Bool.false_and, Bool.false_eq_true, if_false, Bool.or_false, hvalue, hcounter,
        if_congr hzero rfl rfl]
    · exact ⟨rfl, by rw [h.seenLastChunk]; exact decide_eq_decide.2 hmem.symm, rfl⟩

/-! ## The nodes -/

namespace ChunkedInput

variable {input : ChunkedInput} {arrived : List (Nat × Nat)}

instance (arrived : List (Nat × Nat)) (s : Nat) : Decidable (input.Complete arrived s) :=
  decidable_of_iff (∀ c ∈ range' 1 (input.numberOfChunks s), c ∈ chunksOf arrived s) (by
    constructor
    · intro h c hpos hle
      exact h c (mem_range'_1.2 ⟨hpos, by omega⟩)
    · intro h c hc
      have hbounds := mem_range'_1.1 hc
      exact h c hbounds.1 (by omega))

variable {s : Nat}

lemma complete_cons_of_ne {s' : Nat} (hne : s' ≠ s) (c : Nat) :
    input.Complete ((s, c) :: arrived) s' ↔ input.Complete arrived s' := by
  rw [Complete, Complete, chunksOf_cons_of_ne hne]

lemma Complete.cons (h : input.Complete arrived s) (a : Nat × Nat) : input.Complete (a :: arrived) s := by
  intro c hpos hle
  exact mem_chunksOf.2 (mem_cons_of_mem _ (mem_chunksOf.1 (h c hpos hle)))

lemma not_complete_of_new {c : Nat} (hnew : (s, c) ∉ arrived) (hpos : 1 ≤ c)
    (hle : c ≤ input.numberOfChunks s) : ¬ input.Complete arrived s :=
  fun hcomplete => hnew (mem_chunksOf.1 (hcomplete c hpos hle))

lemma not_complete_of_chunksOf_eq_nil (h : chunksOf arrived s = []) : ¬ input.Complete arrived s := by
  intro hcomplete
  have hmem := hcomplete 1 (Nat.le_refl 1) (input.numberOfChunks_pos s)
  rw [h] at hmem
  cases hmem

lemma complete_iff_length (harrived : IsArrival input.numberOfChunks arrived) (s : Nat) :
    input.Complete arrived s ↔ (chunksOf arrived s).length = input.numberOfChunks s :=
  (harrived.chunkSet s).length_eq_iff.symm

/-- The watermark of a complete sequence number does not depend on the order of arrival. -/
lemma largest_of_complete (harrived : IsArrival input.numberOfChunks arrived) (hcomplete : input.Complete arrived s) :
    largest (input.watermark s) (chunksOf arrived s) = input.watermarkOf s :=
  largest_perm _ ((harrived.chunkSet s).perm_range hcomplete)

end ChunkedInput

/-- The positions of a node whose sequence numbers are not complete. -/
def incomplete (nodeSize : Nat) (input : ChunkedInput) (arrived : List (Nat × Nat)) (start : Nat) : Finset Nat :=
  (Finset.range nodeSize).filter fun i => ¬ input.Complete arrived (start + i + 1)

/-- A node after the given chunks have arrived. -/
structure Node.Represents (nodeSize : Nat) (input : ChunkedInput) (arrived : List (Nat × Nat)) (node : Node) :
    Prop where
  start : nodeSize ∣ node.start
  data : ∀ i < nodeSize, Chunk.Represents (input.numberOfChunks (node.start + i + 1))
    (input.watermark (node.start + i + 1)) (chunksOf arrived (node.start + i + 1)) (node.data i)
  missing : node.missing = (incomplete nodeSize input arrived node.start).card

/-- The collector after the given chunks have arrived.  Where there is no node, nothing has arrived yet or
everything is complete. -/
structure CollectorInvariant (nodeSize : Nat) (input : ChunkedInput) (arrived : List (Nat × Nat))
    (collector : ChunkCollector) : Prop where
  distinct : collector.nodes.Pairwise fun a b => a.start ≠ b.start
  nodes : ∀ node ∈ collector.nodes, node.Represents nodeSize input arrived
  noNode : ∀ start, nodeSize ∣ start → (∀ node ∈ collector.nodes, node.start ≠ start) →
    (∀ i < nodeSize, chunksOf arrived (start + i + 1) = []) ∨
      ∀ i < nodeSize, input.Complete arrived (start + i + 1)

lemma CollectorInvariant.create (nodeSize : Nat) (input : ChunkedInput) :
    CollectorInvariant nodeSize input [] ChunkCollector.create where
  distinct := .nil
  nodes := by simp [ChunkCollector.create]
  noNode := fun _ _ _ => .inl fun _ _ => rfl

variable {nodeSize : Nat}

lemma Node.Represents.create {input : ChunkedInput} {arrived : List (Nat × Nat)} {start : Nat}
    (hdvd : nodeSize ∣ start) (hnothing : ∀ i < nodeSize, chunksOf arrived (start + i + 1) = []) :
    (Node.create nodeSize start).Represents nodeSize input arrived := by
  refine ⟨hdvd, ?_, ?_⟩
  · intro i hi
    simp only [Node.create, hnothing i hi]
    exact .initial _ _
  · have hall : incomplete nodeSize input arrived start = Finset.range nodeSize := by
      refine Finset.filter_true_of_mem fun i hi => ?_
      exact ChunkedInput.not_complete_of_chunksOf_eq_nil (hnothing i (Finset.mem_range.1 hi))
    simp only [Node.create, hall, Finset.card_range]

lemma holds_iff (hpos : 0 < nodeSize) {node : Node} (hdvd : nodeSize ∣ node.start)
    (sequence : Nat) : node.holds nodeSize sequence = true ↔ node.start = sequence / nodeSize * nodeSize := by
  rcases hdvd with ⟨q, hq⟩
  have hdiv : nodeSize * (sequence / nodeSize) + sequence % nodeSize = sequence := Nat.div_add_mod _ _
  have hmod := Nat.mod_lt sequence hpos
  simp only [Node.holds, Bool.and_eq_true, decide_eq_true_eq, hq, Nat.mul_comm (sequence / nodeSize)]
  constructor
  · rintro ⟨hle, hlt⟩
    have hq' : q = sequence / nodeSize := by
      refine (Nat.div_eq_of_lt_le ?_ ?_).symm
      · rwa [Nat.mul_comm]
      · rw [Nat.mul_comm, Nat.mul_succ]
        exact hlt
    rw [hq']
  · intro heq
    omega

lemma CollectorInvariant.locate (hpos : 0 < nodeSize) {input : ChunkedInput}
    {arrived : List (Nat × Nat)} {collector : ChunkCollector}
    (inv : CollectorInvariant nodeSize input arrived collector) {sequence : Nat}
    (hincomplete : ¬ input.Complete arrived (sequence + 1)) :
    CollectorInvariant nodeSize input arrived ⟨(ChunkCollector.locate nodeSize collector.nodes sequence).1⟩ ∧
      (ChunkCollector.locate nodeSize collector.nodes sequence).2
        ∈ (ChunkCollector.locate nodeSize collector.nodes sequence).1 ∧
      (ChunkCollector.locate nodeSize collector.nodes sequence).2.start = sequence / nodeSize * nodeSize := by
  unfold ChunkCollector.locate
  cases hfind : collector.nodes.find? (Node.holds nodeSize sequence) with
  | some node =>
    have hmem := mem_of_find?_eq_some hfind
    exact ⟨inv, hmem, (holds_iff hpos (inv.nodes node hmem).start sequence).1 (find?_some hfind)⟩
  | none =>
    -- without a node nothing has arrived: else all of it would be complete
    have hdvd : nodeSize ∣ sequence / nodeSize * nodeSize := Nat.dvd_mul_left _ _
    have hother : ∀ node ∈ collector.nodes, node.start ≠ sequence / nodeSize * nodeSize := by
      intro node hmem heq
      have hholds := (holds_iff hpos (inv.nodes node hmem).start sequence).2 heq
      exact absurd hholds (by simpa using find?_eq_none.1 hfind node hmem)
    have hnothing : ∀ i < nodeSize, chunksOf arrived (sequence / nodeSize * nodeSize + i + 1) = [] := by
      rcases inv.noNode _ hdvd hother with hnothing | hcomplete
      · exact hnothing
      · have hself := hcomplete (sequence % nodeSize) (Nat.mod_lt _ hpos)
        rw [Nat.div_add_mod'] at hself
        exact absurd hself hincomplete
    refine ⟨⟨?_, ?_, ?_⟩, mem_append_right _ mem_cons_self, rfl⟩
    · refine pairwise_append.2 ⟨inv.distinct, pairwise_singleton _ _, ?_⟩
      intro a ha b hb
      rw [mem_singleton.1 hb]
      exact hother a ha
    · intro node hmem
      rcases mem_append.1 hmem with hmem | hmem
      · exact inv.nodes node hmem
      · rw [mem_singleton.1 hmem]
        exact .create hdvd hnothing
    · intro start hstart hnot
      exact inv.noNode start hstart fun node hmem => hnot node (mem_append_left _ hmem)

/-! ## Collecting a chunk -/

section Collect

variable {nodeSize : Nat} {input : ChunkedInput} {arrived : List (Nat × Nat)}
variable {node : Node} {c : Nat}

lemma Node.Represents.cons_of_ne (h : node.Represents nodeSize input arrived) {s : Nat}
    (hne : ∀ i < nodeSize, node.start + i + 1 ≠ s) : node.Represents nodeSize input ((s, c) :: arrived) := by
  refine ⟨h.start, ?_, ?_⟩
  · intro i hi
    rw [chunksOf_cons_of_ne (hne i hi)]
    exact h.data i hi
  · rw [h.missing, incomplete, incomplete]
    congr 1
    refine Finset.filter_congr fun i hi => ?_
    rw [ChunkedInput.complete_cons_of_ne (hne i (Finset.mem_range.1 hi))]

lemma Node.Represents.cons_self (h : node.Represents nodeSize input arrived) {i : Nat}
    (hi : i < nodeSize) (hincomplete : ¬ input.Complete arrived (node.start + i + 1)) {chunk : Chunk}
    (hchunk : Chunk.Represents (input.numberOfChunks (node.start + i + 1)) (input.watermark (node.start + i + 1))
      (c :: chunksOf arrived (node.start + i + 1)) chunk) :
    Node.Represents nodeSize input ((node.start + i + 1, c) :: arrived)
      ⟨node.start, if input.Complete ((node.start + i + 1, c) :: arrived) (node.start + i + 1)
        then node.missing - 1 else node.missing, update node.data i chunk⟩ := by
  have hother : ∀ {j}, j ≠ i → node.start + j + 1 ≠ node.start + i + 1 := by
    intro j hj heq
    exact hj (by omega)
  refine ⟨h.start, ?_, ?_⟩
  · intro j hj
    by_cases hji : j = i
    · subst hji
      simp only [update_self, chunksOf_cons_self]
      exact hchunk
    · simp only [update_of_ne hji, chunksOf_cons_of_ne (hother hji)]
      exact h.data j hj
  · have hmem : i ∈ incomplete nodeSize input arrived node.start :=
      Finset.mem_filter.2 ⟨Finset.mem_range.2 hi, hincomplete⟩
    simp only [h.missing]
    split_ifs with hcomplete
    · rw [← Finset.card_erase_of_mem hmem]
      congr 1
      ext j
      simp only [incomplete, Finset.mem_erase, Finset.mem_filter, Finset.mem_range]
      by_cases hji : j = i
      · subst hji
        simp [hcomplete]
      · rw [ChunkedInput.complete_cons_of_ne (hother hji)]
        simp [hji]
    · congr 1
      refine Finset.filter_congr fun j _ => ?_
      by_cases hji : j = i
      · subst hji
        simp [hcomplete, hincomplete]
      · rw [ChunkedInput.complete_cons_of_ne (hother hji)]

variable {nodes : List Node}

lemma mem_replace {n : Node} (hmem : n ∈ ChunkCollector.replace nodes node) :
    n = node ∨ (n ∈ nodes ∧ n.start ≠ node.start) := by
  rcases mem_map.1 hmem with ⟨n', hn', rfl⟩
  split_ifs with hstart
  · exact .inl rfl
  · exact .inr ⟨hn', hstart⟩

lemma start_replace (nodes : List Node) (node : Node) :
    (ChunkCollector.replace nodes node).map Node.start = nodes.map Node.start := by
  rw [ChunkCollector.replace, map_map]
  refine map_congr_left fun n _ => ?_
  simp only [comp]
  split_ifs with hstart
  · exact hstart.symm
  · rfl

lemma CollectorInvariant.replace (hpos : 0 < nodeSize)
    (inv : CollectorInvariant nodeSize input arrived ⟨nodes⟩) {node' : Node} (hmem : node ∈ nodes)
    (hstart : node'.start = node.start) {i : Nat} (hi : i < nodeSize)
    (h : node'.Represents nodeSize input ((node.start + i + 1, c) :: arrived)) :
    CollectorInvariant nodeSize input ((node.start + i + 1, c) :: arrived) ⟨ChunkCollector.replace nodes node'⟩ := by
  have hdvd := (inv.nodes node hmem).start
  -- nodes start at different multiples of the node size, so they share no sequence number
  have hother : ∀ start, nodeSize ∣ start → start ≠ node.start → ∀ j < nodeSize,
      start + j + 1 ≠ node.start + i + 1 := by
    rintro start ⟨a, rfl⟩ hne j hj heq
    rcases hdvd with ⟨b, hb⟩
    rw [hb] at heq hne
    have hdiv : (nodeSize * a + j) / nodeSize = (nodeSize * b + i) / nodeSize := by
      congr 1
      omega
    rw [Nat.mul_add_div hpos, Nat.mul_add_div hpos, Nat.div_eq_of_lt hj, Nat.div_eq_of_lt hi] at hdiv
    exact hne (by rw [show a = b by omega])
  have hstarts := start_replace nodes node'
  refine ⟨?_, ?_, ?_⟩
  · have hdistinct := inv.distinct
    rw [← pairwise_map (R := fun a b => a ≠ b) (f := Node.start)] at hdistinct ⊢
    rw [hstarts]
    exact hdistinct
  · intro n hn
    rcases mem_replace hn with rfl | ⟨hn, hne⟩
    · exact h
    · exact (inv.nodes n hn).cons_of_ne (hother n.start (inv.nodes n hn).start (by rwa [← hstart]))
  · intro start hstartdvd hnone
    have hnone' : ∀ n ∈ nodes, n.start ≠ start := by
      intro n hn heq
      have hmem' : start ∈ (ChunkCollector.replace nodes node').map Node.start := by
        rw [hstarts]
        exact mem_map.2 ⟨n, hn, heq⟩
      rcases mem_map.1 hmem' with ⟨n', hn', heq'⟩
      exact hnone n' hn' heq'
    have hne : start ≠ node.start := fun heq => hnone' node hmem heq.symm
    rcases inv.noNode start hstartdvd hnone' with hnothing | hcomplete
    · refine .inl fun j hj => ?_
      rw [chunksOf_cons_of_ne (hother start hstartdvd hne j hj)]
      exact hnothing j hj
    · exact .inr fun j hj => (hcomplete j hj).cons _

lemma CollectorInvariant.erase (inv : CollectorInvariant nodeSize input arrived ⟨nodes⟩)
    (hmem : node ∈ nodes) (hmissing : node.missing = 0) :
    CollectorInvariant nodeSize input arrived ⟨nodes.filter fun n => n.start ≠ node.start⟩ := by
  refine ⟨inv.distinct.filter _, fun n hn => inv.nodes n (mem_of_mem_filter hn), ?_⟩
  intro start hdvd hnone
  by_cases hstart : start = node.start
  · have hempty := (inv.nodes node hmem).missing
    rw [hmissing, eq_comm, Finset.card_eq_zero] at hempty
    refine .inr fun i hi => ?_
    by_contra hincomplete
    have hin : i ∈ incomplete nodeSize input arrived node.start :=
      Finset.mem_filter.2 ⟨Finset.mem_range.2 hi, hstart ▸ hincomplete⟩
    rw [hempty] at hin
    cases hin
  · refine inv.noNode start hdvd fun n hn heq => ?_
    exact hnone n (mem_filter.2 ⟨hn, by simpa [heq] using hstart⟩) heq

variable {collector : ChunkCollector}

lemma isArrival_cons (harrived : IsArrival input.numberOfChunks arrived) {s : Nat} (hnew : (s, c) ∉ arrived)
    (hc : 1 ≤ c) (hle : c ≤ input.numberOfChunks s) : IsArrival input.numberOfChunks ((s, c) :: arrived) :=
  ⟨nodup_cons.2 ⟨hnew, harrived.nodup⟩, forall_mem_cons.2 ⟨⟨hc, hle⟩, harrived.bounds⟩⟩

/-- What a call with a new chunk finds: the node of its sequence number, and a counter that becomes 0 exactly
when this chunk completes the sequence number. -/
lemma CollectorInvariant.update (hpos : 0 < nodeSize) (inv : CollectorInvariant nodeSize input arrived collector)
    (harrived : IsArrival input.numberOfChunks arrived) {sequence : Nat} (hnew : (sequence + 1, c) ∉ arrived)
    (hc : 1 ≤ c) (hle : c ≤ input.numberOfChunks (sequence + 1)) :
    ∃ nodes node chunk, ChunkCollector.locate nodeSize collector.nodes sequence = (nodes, node) ∧
      CollectorInvariant nodeSize input arrived ⟨nodes⟩ ∧ node ∈ nodes ∧
      node.start + sequence % nodeSize + 1 = sequence + 1 ∧
      (node.data (sequence % nodeSize)).update (input.data (sequence + 1) c) (input.watermark (sequence + 1) c)
        = some (chunk, if input.Complete ((sequence + 1, c) :: arrived) (sequence + 1)
          then some (input.watermarkOf (sequence + 1)) else none) ∧
      Chunk.Represents (input.numberOfChunks (sequence + 1)) (input.watermark (sequence + 1))
        (c :: chunksOf arrived (sequence + 1)) chunk := by
  rcases inv.locate hpos (ChunkedInput.not_complete_of_new hnew hc hle) with ⟨hinv, hmem, hstart⟩
  rcases hlocate : ChunkCollector.locate nodeSize collector.nodes sequence with ⟨nodes, node⟩
  rw [hlocate] at hinv hmem hstart
  have hself : node.start + sequence % nodeSize + 1 = sequence + 1 := by
    rw [hstart, Nat.div_add_mod']
  have hnewChunk : c ∉ chunksOf arrived (sequence + 1) := fun hmem => hnew (mem_chunksOf.1 hmem)
  have hold := (hinv.nodes node hmem).data (sequence % nodeSize) (Nat.mod_lt _ hpos)
  rw [hself] at hold
  rcases hold.update (harrived.chunkSet (sequence + 1)) hnewChunk hc hle (sequence + 1) with ⟨chunk, hupdate, hchunk⟩
  refine ⟨nodes, node, chunk, rfl, hinv, hmem, hself, ?_, hchunk⟩
  -- completeness is what the counter says
  have harrived' := isArrival_cons harrived hnew hc hle
  have hlength : (c :: chunksOf arrived (sequence + 1)).length = input.numberOfChunks (sequence + 1) ↔
      input.Complete ((sequence + 1, c) :: arrived) (sequence + 1) := by
    rw [input.complete_iff_length harrived', chunksOf_cons_self]
  rw [ChunkedInput.data, hupdate, if_congr hlength rfl rfl]
  by_cases hcomplete : input.Complete ((sequence + 1, c) :: arrived) (sequence + 1)
  · rw [if_pos hcomplete, if_pos hcomplete, ← input.largest_of_complete harrived' hcomplete, chunksOf_cons_self]
  · rw [if_neg hcomplete, if_neg hcomplete]

/-- Collecting a chunk that has not arrived before: no check fails, and the sequence number is reported
exactly when this chunk completes it. -/
lemma ChunkCollector.collect_spec (hpos : 0 < nodeSize) (inv : CollectorInvariant nodeSize input arrived collector)
    (harrived : IsArrival input.numberOfChunks arrived) {s : Nat} (hs : 0 < s) (hnew : (s, c) ∉ arrived)
    (hc : 1 ≤ c) (hle : c ≤ input.numberOfChunks s) :
    ∃ collector', collector.collect nodeSize (input.data s c) (input.watermark s c)
        = some (collector', if input.Complete ((s, c) :: arrived) s then some (s, input.watermarkOf s) else none) ∧
      CollectorInvariant nodeSize input ((s, c) :: arrived) collector' := by
  rcases (⟨s - 1, by omega⟩ : ∃ n, s = n + 1) with ⟨sequence, rfl⟩
  rcases inv.update hpos harrived hnew hc hle with ⟨nodes, node, chunk, hlocate, hinv, hmem, hself, hupdate, hchunk⟩
  have hi : sequence % nodeSize < nodeSize := Nat.mod_lt _ hpos
  have hincomplete := ChunkedInput.not_complete_of_new hnew hc hle
  have hnode := (hinv.nodes node hmem).cons_self hi (by rw [hself]; exact hincomplete)
    (by rw [hself]; exact hchunk)
  rw [hself] at hnode
  have hreplace := fun (node' : Node) h (hstart' : node'.start = node.start) =>
    hinv.replace hpos hmem hstart' (c := c) hi h
  rw [hself] at hreplace
  have hvalid : ¬ (sequence + 1 = 0 ∨ c = 0) := by omega
  rw [ChunkedInput.data] at hupdate ⊢
  simp only [ChunkCollector.collect, if_neg hvalid, Nat.add_sub_cancel, hlocate, hupdate, Option.bind_eq_bind,
    Option.bind_some]
  by_cases hcomplete : input.Complete ((sequence + 1, c) :: arrived) (sequence + 1)
  · rw [if_pos hcomplete] at hnode
    rw [if_pos hcomplete, if_pos hcomplete]
    have hinv' := hreplace _ hnode rfl
    refine ⟨_, rfl, ?_⟩
    split_ifs with hmissing
    · -- it was the last sequence number of its node
      have hmem' : (⟨node.start, node.missing - 1, update node.data (sequence % nodeSize) chunk⟩ : Node)
          ∈ ChunkCollector.replace nodes ⟨node.start, node.missing - 1, update node.data (sequence % nodeSize) chunk⟩ :=
        mem_map.2 ⟨node, hmem, if_pos rfl⟩
      have herased := hinv'.erase hmem' (show node.missing - 1 = 0 by rw [hmissing])
      exact herased
    · exact hinv'
  · rw [if_neg hcomplete] at hnode
    rw [if_neg hcomplete, if_neg hcomplete]
    exact ⟨_, rfl, hreplace _ hnode rfl⟩

end Collect

end MobilityNebula.Sequencing
