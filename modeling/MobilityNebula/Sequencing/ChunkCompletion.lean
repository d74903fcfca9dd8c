import MobilityNebula.Sequencing.ChunkCollector

/-!
# ChunkCompletion — whole runs of the chunk collector

`collect_spec` says what one call returns.  Here the calls for all chunks of some sequence numbers are made in
any order:

* `collectAll_eq` — what the calls return one by one, and the invariants of the collector after them,
* `mem_reports_iff`, `nodup_reports` — the sequence numbers that are reported on the way,
* `LiveNodes` — a node is in the list while it has something to wait for,
* `CollectorInvariant.counter_exact` — the unsigned counters of the source show the same zeros.
-/

namespace MobilityNebula.Sequencing

open Library ChunkedInput List ChunkCollector

/-! ## The nodes after a call -/

section Nodes

variable {nodeSize : Nat} {input : ChunkedInput} {arrived : List (Nat × Nat)}

/-- Every node holds a sequence number of which a chunk has arrived, and one that is not complete. -/
def LiveNodes (nodeSize : Nat) (input : ChunkedInput) (arrived : List (Nat × Nat)) (collector : ChunkCollector) :
    Prop :=
  ∀ node ∈ collector.nodes, (∃ i < nodeSize, chunksOf arrived (node.start + i + 1) ≠ []) ∧
    ∃ i < nodeSize, ¬ input.Complete arrived (node.start + i + 1)

variable {node : Node}

lemma Node.Represents.missing_ne_zero_iff (h : node.Represents nodeSize input arrived) :
    node.missing ≠ 0 ↔ ∃ i < nodeSize, ¬ input.Complete arrived (node.start + i + 1) := by
  rw [h.missing, Finset.card_ne_zero]
  constructor
  · rintro ⟨i, hi⟩
    have hmem := Finset.mem_filter.1 hi
    exact ⟨i, Finset.mem_range.1 hmem.1, hmem.2⟩
  · rintro ⟨i, hi, hincomplete⟩
    exact ⟨i, Finset.mem_filter.2 ⟨Finset.mem_range.2 hi, hincomplete⟩⟩

lemma ChunkCollector.mem_locate {nodes : List Node} {sequence : Nat} {n : Node}
    (hmem : n ∈ (locate nodeSize nodes sequence).1) : n ∈ nodes ∨ n = (locate nodeSize nodes sequence).2 := by
  unfold locate at hmem ⊢
  cases hfind : nodes.find? (Node.holds nodeSize sequence) with
  | some node =>
    rw [hfind] at hmem
    exact .inl hmem
  | none =>
    rw [hfind] at hmem
    rcases mem_append.1 hmem with hold | hnew
    · exact .inl hold
    · exact .inr (mem_singleton.1 hnew)

variable {collector : ChunkCollector} {result : Option (Nat × Nat)} {collector' : ChunkCollector}

/-- A call touches no node but the located one, and it keeps that one only with a sequence number missing. -/
lemma ChunkCollector.mem_collect {data : SequenceData} {watermark : Nat} {nodes : List Node}
    (hlocate : locate nodeSize collector.nodes (data.sequenceNumber - 1) = (nodes, node))
    (hcollect : collector.collect nodeSize data watermark = some (collector', result)) (hmissing : node.missing ≠ 0)
    {n : Node} (hn : n ∈ collector'.nodes) :
    (n ∈ nodes ∧ n.start ≠ node.start) ∨ (n.start = node.start ∧ n.missing ≠ 0) := by
  unfold collect at hcollect
  split at hcollect
  case isTrue => cases hcollect
  case isFalse hvalid =>
    simp only [hlocate, Option.bind_eq_bind] at hcollect
    rcases Option.bind_eq_some_iff.1 hcollect with ⟨⟨chunk, finalWatermark⟩, -, hrest⟩
    cases finalWatermark with
    | none =>
      have hnodes := congrArg (fun r : ChunkCollector × Option (Nat × Nat) => r.1) (Option.some.inj hrest)
      subst hnodes
      rcases mem_replace hn with rfl | hother
      · exact .inr ⟨rfl, hmissing⟩
      · exact .inl hother
    | some finalWatermark =>
      have hnodes := congrArg (fun r : ChunkCollector × Option (Nat × Nat) => r.1) (Option.some.inj hrest)
      simp only at hnodes
      subst hnodes
      by_cases hone : node.missing = 1
      · simp only [if_pos hone] at hn
        rcases mem_filter.1 hn with ⟨hmem, hne⟩
        rcases mem_replace hmem with rfl | hother
        · exact absurd rfl (of_decide_eq_true hne)
        · exact .inl hother
      · simp only [if_neg hone] at hn
        rcases mem_replace hn with rfl | hother
        · exact .inr ⟨rfl, show node.missing - 1 ≠ 0 by omega⟩
        · exact .inl hother

lemma LiveNodes.collect (hpos : 0 < nodeSize)
    (hlive : LiveNodes nodeSize input arrived collector) (inv : CollectorInvariant nodeSize input arrived collector)
    (harrived : IsArrival input.numberOfChunks arrived) {s c : Nat} (hs : 0 < s) (hnew : (s, c) ∉ arrived)
    (hc : 1 ≤ c) (hle : c ≤ input.numberOfChunks s)
    (hcollect : collector.collect nodeSize (input.data s c) (input.watermark s c) = some (collector', result))
    (inv' : CollectorInvariant nodeSize input ((s, c) :: arrived) collector') :
    LiveNodes nodeSize input ((s, c) :: arrived) collector' := by
  rcases (⟨s - 1, by omega⟩ : ∃ n, s = n + 1) with ⟨sequence, rfl⟩
  rcases inv.update hpos harrived hnew hc hle with ⟨nodes, node, chunk, hlocate, hinv, hmem, hself, -, -⟩
  have hi : sequence % nodeSize < nodeSize := Nat.mod_lt _ hpos
  have hmissing := (hinv.nodes node hmem).missing_ne_zero_iff.2
    ⟨sequence % nodeSize, hi, by rw [hself]; exact not_complete_of_new hnew hc hle⟩
  intro n hn
  rcases mem_collect hlocate hcollect hmissing hn with ⟨hold, hne⟩ | ⟨hstart, hn0⟩
  · -- an old node: its sequence numbers are not touched
    have hn' : n ∈ collector.nodes := by
      have hcases := @ChunkCollector.mem_locate nodeSize collector.nodes sequence n
      rw [hlocate] at hcases
      exact (hcases hold).resolve_right fun heq => hne (congrArg Node.start heq)
    have hother : ∀ j < nodeSize, n.start + j + 1 ≠ sequence + 1 := by
      intro j hj heq
      have hholds := (holds_iff hpos (inv.nodes n hn').start sequence).1 (by
        simp only [Node.holds, Bool.and_eq_true, decide_eq_true_eq]
        omega)
      have hsequence := Nat.div_add_mod' sequence nodeSize
      omega
    rcases hlive n hn' with ⟨⟨j, hj, hsome⟩, j', hj', hincomplete⟩
    refine ⟨⟨j, hj, ?_⟩, j', hj', ?_⟩
    · rw [chunksOf_cons_of_ne (hother j hj)]
      exact hsome
    · rw [complete_cons_of_ne (hother j' hj')]
      exact hincomplete
  · refine ⟨⟨sequence % nodeSize, hi, ?_⟩, (inv'.nodes n hn).missing_ne_zero_iff.1 hn0⟩
    rw [hstart, hself, chunksOf_cons_self]
    exact cons_ne_nil _ _

/-- The source compares a 64-bit counter with 0: of the integers a node holds, only 0 is 0 modulo `2 ^ 64`. -/
lemma CollectorInvariant.counter_exact
    (inv : CollectorInvariant nodeSize input arrived collector) (harrived : IsArrival input.numberOfChunks arrived)
    (hnode : node ∈ collector.nodes) {i : Nat} (hi : i < nodeSize)
    (hlt : input.numberOfChunks (node.start + i + 1) < 2 ^ 64) :
    (node.data i).counter % 2 ^ 64 = 0 ↔ (node.data i).counter = 0 := by
  have hcounter := ((inv.nodes node hnode).data i hi).counter
  have hlength := (harrived.chunkSet (node.start + i + 1)).length_le
  split_ifs at hcounter <;> omega

end Nodes

/-! ## Runs of calls -/

/-- The calls for the given chunks, one after the other, and what each of them returns. -/
def collectAll (nodeSize : Nat) (input : ChunkedInput) :
    ChunkCollector → List (Nat × Nat) → Option (ChunkCollector × List (Option (Nat × Nat)))
  | collector, [] => some (collector, [])
  | collector, (s, c) :: calls =>
    (collector.collect nodeSize (input.data s c) (input.watermark s c)).bind fun (collector, result) =>
      (collectAll nodeSize input collector calls).map fun (collector, results) => (collector, result :: results)

/-- The calls for all chunks of the given sequence numbers, in some order.  Chunk numbers fit into 64 bits. -/
structure IsCollectOrder (input : ChunkedInput) (numbers : List Nat) (calls : List (Nat × Nat)) : Prop where
  distinct : numbers.Nodup
  positive : ∀ s ∈ numbers, 0 < s
  representable : ∀ s ∈ numbers, input.numberOfChunks s < 2 ^ 64
  nodup : calls.Nodup
  mem_iff : ∀ s c, (s, c) ∈ calls ↔ s ∈ numbers ∧ 1 ≤ c ∧ c ≤ input.numberOfChunks s

section Runs

variable {nodeSize : Nat} {input : ChunkedInput} {arrived calls : List (Nat × Nat)}

/-- What the calls for the given chunks return, after the chunks `arrived`. -/
def expectedResults (input : ChunkedInput) : List (Nat × Nat) → List (Nat × Nat) → List (Option (Nat × Nat))
  | _, [] => []
  | arrived, (s, c) :: calls =>
    (if input.Complete ((s, c) :: arrived) s then some (s, input.watermarkOf s) else none)
      :: expectedResults input ((s, c) :: arrived) calls

variable {collector : ChunkCollector}

lemma collectAll_eq (hpos : 0 < nodeSize)
    (inv : CollectorInvariant nodeSize input arrived collector) (hlive : LiveNodes nodeSize input arrived collector)
    (harrived : IsArrival input.numberOfChunks (calls.reverse ++ arrived)) (hcalls : ∀ a ∈ calls, 0 < a.1) :
    ∃ collector', collectAll nodeSize input collector calls = some (collector', expectedResults input arrived calls) ∧
      CollectorInvariant nodeSize input (calls.reverse ++ arrived) collector' ∧
      LiveNodes nodeSize input (calls.reverse ++ arrived) collector' := by
  induction calls generalizing arrived collector with
  | nil => exact ⟨collector, rfl, inv, hlive⟩
  | cons a calls ih =>
    rcases a with ⟨s, c⟩
    rw [reverse_cons, append_assoc, singleton_append] at harrived ⊢
    have hcons := harrived.of_append_right
    have hbounds := hcons.bounds (s, c) mem_cons_self
    have hs := hcalls (s, c) mem_cons_self
    have hnew := (nodup_cons.1 hcons.nodup).1
    rcases collect_spec hpos inv hcons.of_cons hs hnew hbounds.1 hbounds.2 with ⟨collector₁, hcollect, inv₁⟩
    have hlive₁ := hlive.collect hpos inv hcons.of_cons hs hnew hbounds.1 hbounds.2 hcollect inv₁
    rcases ih inv₁ hlive₁ harrived (fun a ha => hcalls a (mem_cons_of_mem _ ha)) with ⟨collector₂, hrest, inv₂, hlive₂⟩
    refine ⟨collector₂, ?_, inv₂, hlive₂⟩
    simp only [collectAll, hcollect, Option.bind_some, hrest, Option.map_some]
    rfl

lemma expectedResults_getElem? (before after : List (Nat × Nat)) (s c : Nat) :
    (expectedResults input arrived (before ++ (s, c) :: after))[before.length]?
      = some (if input.Complete ((s, c) :: (before.reverse ++ arrived)) s then some (s, input.watermarkOf s)
        else none) := by
  induction before generalizing arrived with
  | nil => rfl
  | cons a before ih =>
    rw [cons_append, expectedResults, length_cons, getElem?_cons_succ, ih, reverse_cons, append_assoc, singleton_append]

lemma mem_reports_iff (harrived : IsArrival input.numberOfChunks (calls.reverse ++ arrived)) {s watermark : Nat} :
    (s, watermark) ∈ (expectedResults input arrived calls).reduceOption ↔
      watermark = input.watermarkOf s ∧ ¬ input.Complete arrived s ∧ input.Complete (calls.reverse ++ arrived) s := by
  induction calls generalizing arrived with
  | nil =>
    simp only [expectedResults, reduceOption_nil, not_mem_nil, reverse_nil, nil_append, false_iff]
    rintro ⟨-, hnot, hcomplete⟩
    exact hnot hcomplete
  | cons a calls ih =>
    rcases a with ⟨s', c'⟩
    rw [reverse_cons, append_assoc, singleton_append] at harrived ⊢
    have hcons := harrived.of_append_right
    have hbounds := hcons.bounds (s', c') mem_cons_self
    have hnot : ¬ input.Complete arrived s' := not_complete_of_new (nodup_cons.1 hcons.nodup).1 hbounds.1 hbounds.2
    -- what is complete now stays complete
    have hkeep : ∀ {t}, input.Complete ((s', c') :: arrived) t →
        input.Complete (calls.reverse ++ (s', c') :: arrived) t := by
      intro t ht c hc hle
      exact mem_chunksOf.2 (mem_append_right _ (mem_chunksOf.1 (ht c hc hle)))
    rw [expectedResults]
    by_cases hcomplete : input.Complete ((s', c') :: arrived) s'
    · rw [if_pos hcomplete, reduceOption_cons_of_some, mem_cons, ih harrived]
      by_cases hs : s = s'
      · subst hs
        simp only [Prod.mk.injEq, true_and, hcomplete, not_true_eq_false, and_false, or_false, hnot,
          not_false_eq_true, hkeep hcomplete, and_true]
      · simp only [Prod.mk.injEq, hs, false_and, false_or, complete_cons_of_ne hs]
    · rw [if_neg hcomplete, reduceOption_cons_of_none, ih harrived]
      by_cases hs : s = s'
      · subst hs
        simp only [hcomplete, hnot]
      · simp only [complete_cons_of_ne hs]

lemma nodup_reports (harrived : IsArrival input.numberOfChunks (calls.reverse ++ arrived)) :
    (expectedResults input arrived calls).reduceOption.Nodup := by
  induction calls generalizing arrived with
  | nil => exact nodup_nil
  | cons a calls ih =>
    rw [reverse_cons, append_assoc, singleton_append] at harrived
    rw [expectedResults]
    split_ifs with hcomplete
    · rw [reduceOption_cons_of_some, nodup_cons]
      refine ⟨fun hmem => ?_, ih harrived⟩
      exact ((mem_reports_iff harrived).1 hmem).2.1 hcomplete
    · rw [reduceOption_cons_of_none]
      exact ih harrived

/-- In a complete set of calls, the chunk of a call completes its sequence number exactly if no later call has
another chunk of it. -/
lemma IsCollectOrder.complete_iff {numbers : List Nat} {before after : List (Nat × Nat)} {s c : Nat}
    (h : IsCollectOrder input numbers (before ++ (s, c) :: after)) :
    input.Complete ((s, c) :: before.reverse) s ↔ ∀ a ∈ after, a.1 ≠ s := by
  have hdisjoint := (nodup_append.1 h.nodup).2.2
  have hnew := (nodup_cons.1 (nodup_append.1 h.nodup).2.1).1
  constructor
  · rintro hcomplete ⟨s', c'⟩ ha rfl
    have hbounds := (h.mem_iff s' c').1 (mem_append_right _ (mem_cons_of_mem _ ha))
    rcases mem_cons.1 (mem_chunksOf.1 (hcomplete c' hbounds.2.1 hbounds.2.2)) with heq | hmem
    · exact hnew (heq ▸ ha)
    · exact hdisjoint _ (mem_reverse.1 hmem) _ (mem_cons_of_mem _ ha) rfl
  · intro hlast c' hc' hle'
    have hnumber := ((h.mem_iff s c).1 (mem_append_right _ mem_cons_self)).1
    rw [mem_chunksOf]
    rcases mem_append.1 ((h.mem_iff s c').2 ⟨hnumber, hc', hle'⟩) with hmem | hmem
    · exact mem_cons_of_mem _ (mem_reverse.2 hmem)
    · rcases mem_cons.1 hmem with heq | hmem
      · exact heq ▸ mem_cons_self
      · exact absurd rfl (hlast _ hmem)

lemma IsCollectOrder.isArrival {numbers : List Nat} {before after : List (Nat × Nat)}
    (h : IsCollectOrder input numbers (before ++ after)) :
    IsArrival input.numberOfChunks (before.reverse ++ []) ∧ ∀ a ∈ before, a.1 ∈ numbers := by
  have hmem : ∀ a ∈ before, a.1 ∈ numbers ∧ 1 ≤ a.2 ∧ a.2 ≤ input.numberOfChunks a.1 :=
    fun a ha => (h.mem_iff a.1 a.2).1 (mem_append_left _ ha)
  refine ⟨⟨?_, ?_⟩, fun a ha => (hmem a ha).1⟩
  · rw [append_nil]
    exact nodup_reverse.2 h.nodup.of_append_left
  · intro a ha
    rw [append_nil, mem_reverse] at ha
    exact (hmem a ha).2

/-- The nodes of a collector are those of the sequence numbers that are under way. -/
lemma CollectorInvariant.exists_node_iff
    (inv : CollectorInvariant nodeSize input arrived collector) (hlive : LiveNodes nodeSize input arrived collector)
    {start : Nat} (hstart : nodeSize ∣ start) :
    (∃ node ∈ collector.nodes, node.start = start) ↔ (∃ i < nodeSize, chunksOf arrived (start + i + 1) ≠ []) ∧
        ∃ i < nodeSize, ¬ input.Complete arrived (start + i + 1) := by
  constructor
  · rintro ⟨node, hnode, rfl⟩
    exact hlive node hnode
  · rintro ⟨⟨i, hi, harrived⟩, ⟨j, hj, hincomplete⟩⟩
    by_contra hnone
    push Not at hnone
    rcases inv.noNode start hstart hnone with hnothing | hcomplete
    · exact harrived (hnothing i hi)
    · exact hincomplete (hcomplete j hj)

/-- All chunks of some sequence numbers, in any order: exactly the last chunk of a sequence number to arrive
reports it, with the largest watermark; at any time the nodes have distinct starts, and a node exists exactly
while some chunk of its sequence numbers has arrived and not all of them are complete. -/
theorem collect_reports_each_number_once {numbers : List Nat} (hnodeSize : 1 ≤ nodeSize)
    (h : IsCollectOrder input numbers calls) :
    ∃ collector returned, collectAll nodeSize input create calls = some (collector, returned) ∧
      (∀ before s c after, calls = before ++ (s, c) :: after → returned[before.length]?
        = some (if ∀ a ∈ after, a.1 ≠ s then some (s, input.watermarkOf s) else none)) ∧
      returned.reduceOption.Perm (numbers.map fun s => (s, input.watermarkOf s)) ∧
      ∀ before after, calls = before ++ after → ∃ collector returned,
        collectAll nodeSize input create before = some (collector, returned) ∧
        (collector.nodes.map Node.start).Nodup ∧ (∀ node ∈ collector.nodes, nodeSize ∣ node.start) ∧
        (∀ start, nodeSize ∣ start → ((∃ node ∈ collector.nodes, node.start = start) ↔
          (∃ i < nodeSize, ∃ c, (start + i + 1, c) ∈ before) ∧
            ∃ i < nodeSize, ∃ c, 1 ≤ c ∧ c ≤ input.numberOfChunks (start + i + 1) ∧ (start + i + 1, c) ∉ before)) ∧
        ∀ node ∈ collector.nodes, ∀ i < nodeSize, input.numberOfChunks (node.start + i + 1) < 2 ^ 64 →
          ((node.data i).counter % 2 ^ 64 = 0 ↔ (node.data i).counter = 0) := by
  have hrun : ∀ before after, calls = before ++ after → ∃ collector,
      collectAll nodeSize input create before = some (collector, expectedResults input [] before) ∧
        CollectorInvariant nodeSize input (before.reverse ++ []) collector ∧
        LiveNodes nodeSize input (before.reverse ++ []) collector := by
    rintro before after rfl
    have hcreate : LiveNodes nodeSize input [] create := fun node hnode => absurd hnode (by
      simp [create])
    exact collectAll_eq hnodeSize (.create nodeSize input) hcreate h.isArrival.1
      fun a ha => h.positive _ (h.isArrival.2 a ha)
  rcases hrun calls [] (append_nil _).symm with ⟨collector, hcollector, -, -⟩
  have hall := (@IsCollectOrder.isArrival input numbers calls [] ((append_nil calls).symm ▸ h)).1
  refine ⟨collector, _, hcollector, ?_, ?_, ?_⟩
  · rintro before s c after rfl
    rw [expectedResults_getElem?, append_nil, if_congr h.complete_iff rfl rfl]
  · -- both sides are without repetition
    refine (perm_ext_iff_of_nodup (nodup_reports hall) ?_).2 ?_
    · exact h.distinct.map fun s s' heq => congrArg Prod.fst heq
    · rintro ⟨s, watermark⟩
      rw [mem_reports_iff hall, mem_map]
      constructor
      · rintro ⟨rfl, -, hcomplete⟩
        have hfirst := mem_chunksOf.1 (hcomplete 1 (Nat.le_refl 1) (input.numberOfChunks_pos s))
        rw [append_nil, mem_reverse] at hfirst
        exact ⟨s, ((h.mem_iff s 1).1 hfirst).1, rfl⟩
      · rintro ⟨s', hs', heq⟩
        cases heq
        refine ⟨rfl, not_complete_of_chunksOf_eq_nil rfl, fun c hc hle => ?_⟩
        rw [append_nil, mem_chunksOf, mem_reverse]
        exact (h.mem_iff s c).2 ⟨hs', hc, hle⟩
  · rintro before after heq
    rcases hrun before after heq with ⟨collector, hcollector, inv, hlive⟩
    have harrived := (IsCollectOrder.isArrival (heq ▸ h)).1
    refine ⟨collector, _, hcollector, pairwise_map.2 inv.distinct, fun node hnode => (inv.nodes node hnode).start,
      fun start hstart => ?_, fun node hnode i hi hlt => inv.counter_exact harrived hnode hi hlt⟩
    rw [inv.exists_node_iff hlive hstart]
    simp only [append_nil, ne_eq, eq_nil_iff_forall_not_mem, not_forall, not_not, mem_chunksOf,
      mem_reverse, ChunkedInput.Complete, AllChunks, exists_prop]

/-- The chunks (2, 2), (1, 1), (2, 1) of the sequence numbers 1 and 2, in nodes of one sequence number. -/
def outOfOrder : ChunkedInput where
  numberOfChunks s := if s = 2 then 2 else 1
  numberOfChunks_pos s := by
    split
    · exact Nat.succ_pos 1
    · exact Nat.one_pos
  watermark s c := 10 * s + c

theorem collect_reports_each_number_once_outOfOrder :
    ∃ collector returned, collectAll 1 outOfOrder create [(2, 2), (1, 1), (2, 1)] = some (collector, returned) ∧
      returned.reduceOption.Perm [(1, outOfOrder.watermarkOf 1), (2, outOfOrder.watermarkOf 2)] := by
  have horder : IsCollectOrder outOfOrder [1, 2] [(2, 2), (1, 1), (2, 1)] := by
    refine ⟨by decide, by decide, by decide, by decide, fun s c => ?_⟩
    simp only [mem_cons, Prod.mk.injEq, not_mem_nil, or_false, outOfOrder]
    split <;> omega
  rcases collect_reports_each_number_once (Nat.le_refl 1) horder with ⟨collector, returned, hrun, -, hperm, -⟩
  exact ⟨collector, returned, hrun, hperm⟩

end Runs

end MobilityNebula.Sequencing
