import MobilityNebula.Memory.Balance

/-!
# Conservation — no segment is lost, and no reference is miscounted

`BufferSystem.Balanced` holds in every state that can be reached by operations on the buffer manager, on its
pools and on handles.  It gives `buffers_conserved`: each segment is in the queue of the manager, or in the queue
of one pool, or in use with as many references as its control block counts; and no operation fails.
-/

namespace MobilityNebula.Memory

open Library BufferManager List BufferRecycler FixedSizeBufferPool
open scoped List

namespace BufferManager

variable {n : Nat} {m : BufferManager} {segment : SegmentId} {refs : List (Option SegmentId)}

/-! ## Operations of the manager -/

lemma Balanced.perm {refs' : List (Option SegmentId)} (h : m.Balanced n refs ∅) (hrefs : refs ~ refs') :
    m.Balanced n refs' ∅ :=
  ⟨h.numOfBuffers, h.counted.perm hrefs, h.placed⟩

lemma Balanced.none_cons : m.Balanced n (none :: refs) ∅ ↔ m.Balanced n refs ∅ :=
  ⟨fun h => ⟨h.numOfBuffers, Counted.none_cons.1 h.counted, h.placed⟩,
    fun h => ⟨h.numOfBuffers, Counted.none_cons.2 h.counted, h.placed⟩⟩

lemma Balanced.counter_pos (h : m.Balanced n refs ∅) (hmem : some segment ∈ refs) :
    0 < (m.controlBlock segment).referenceCounter := by
  rw [h.counted.count segment]
  exact Nat.add_pos_left (count_pos_iff.2 hmem) _

variable {parent : SegmentId}

lemma Balanced.counter_pos_of_child (h : m.Balanced n refs ∅) (hparent : 0 < (m.controlBlock parent).referenceCounter)
    (hmem : segment ∈ (m.controlBlock parent).children) : 0 < (m.controlBlock segment).referenceCounter := by
  rcases h.counted.inUse hparent with ⟨_, hlt, hdying⟩
  have hlinks := links_eq_add hlt hdying segment
  have hcount := h.counted.count segment
  have hpos := count_pos_iff.2 hmem
  omega

lemma Balanced.retain (h : m.Balanced n refs ∅) (hcounter : 0 < (m.controlBlock segment).referenceCounter) :
    (m.retain segment).Balanced n (some segment :: refs) ∅ :=
  ⟨h.numOfBuffers, h.counted.retain hcounter, h.placed.modifyBlock fun _ => rfl⟩

lemma prepare_spec (hcounted : m.Counted refs ∅) (hplaced : m.Placed [segment]) (recycler : BufferRecycler)
    (hroom : m.RoomFor recycler) :
    ∃ m', m.prepare recycler segment = some m' ∧ m'.Balanced m.numOfBuffers (some segment :: refs) ∅ := by
  rcases (hplaced.mem segment).1 mem_cons_self with ⟨hlt, hnone⟩
  refine ⟨m.modifyBlock segment fun block =>
    { block with referenceCounter := 1, owningBufferRecycler := some recycler }, ?_, rfl,
    hcounted.prepare hlt hnone recycler, hplaced.takeIntoUse rfl hroom⟩
  rw [prepare, if_pos (counter_of_loose hcounted hplaced), hnone]

lemma readBuffer_spec (h : m.Balanced n refs ∅) :
    ∃ m' buffer, m.readBuffer = some (m', buffer) ∧ m'.Balanced n (buffer :: refs) ∅ := by
  rw [readBuffer]
  cases hqueue : m.availableBuffers with
  | nil => exact ⟨m, none, rfl, Balanced.none_cons.2 h⟩
  | cons segment rest =>
    have hplaced := h.placed.readAvailable hqueue
    have hcounted : Counted { m with
        availableBuffers := rest
        numOfAvailableBuffers := m.numOfAvailableBuffers - 1 } refs ∅ := h.counted.of_controlBlock rfl rfl
    rcases prepare_spec hcounted hplaced .bufferManager (fun i hi => absurd hi (by simp)) with
      ⟨m', hprepare, hbalanced⟩
    refine ⟨m', some segment, ?_, h.numOfBuffers ▸ hbalanced⟩
    dsimp only
    rw [hprepare]
    rfl

/-- The copy of the handle and the end of the optional cancel out. -/
lemma getBufferBlocking_spec (h : m.Balanced n refs ∅) :
    ∃ m' buffer, m.getBufferBlocking = some (m', buffer) ∧ m'.Balanced n (buffer :: refs) ∅ := by
  rcases readBuffer_spec h with ⟨m₁, buffer, hread, hbalanced⟩
  rw [getBufferBlocking, getBufferWithTimeout, hread, Option.bind_some]
  cases buffer with
  | none => exact ⟨m₁, none, rfl, hbalanced⟩
  | some segment =>
    have hcopied := hbalanced.retain (hbalanced.counter_pos mem_cons_self)
    rcases release_spec hcopied with ⟨m₂, hrelease, hbalanced₂⟩
    refine ⟨m₂, some segment, ?_, hbalanced₂⟩
    dsimp only
    rw [hrelease]
    rfl

lemma readPoolBuffer_spec {i : Nat} (h : m.Balanced n refs ∅) (hi : i < m.fixedSizeBufferPools.length) :
    ∃ m' buffer, m.readPoolBuffer i = some (m', buffer) ∧ m'.Balanced n (buffer :: refs) ∅ := by
  have hpool := getElem?_eq_getElem hi
  rw [readPoolBuffer, hpool]
  dsimp only
  cases hqueue : m.fixedSizeBufferPools[i].exclusiveBuffers with
  | nil => exact ⟨m, none, rfl, Balanced.none_cons.2 h⟩
  | cons segment rest =>
    have hcapacity := h.placed.capacity i _ hpool
    rw [hqueue, length_cons] at hcapacity
    let pool' : FixedSizeBufferPool := { m.fixedSizeBufferPools[i] with exclusiveBuffers := rest }
    have hplaced : (m.setPool i pool').Placed [segment] := by
      refine h.placed.setPool hpool (.of_eq ?_) ?_
      · rw [hqueue]
        rfl
      · dsimp only [pool']
        omega
    have hcounted : (m.setPool i pool').Counted refs ∅ := h.counted.of_controlBlock rfl rfl
    have hroom : (m.setPool i pool').RoomFor (.fixedSizeBufferPool i) := by
      intro j hj
      rw [← fixedSizeBufferPool.inj hj]
      refine ⟨pool', getElem?_set_self hi, ?_⟩
      have hlt : rest.length + m.inFlight i < m.fixedSizeBufferPools[i].numberOfReservedBuffers := by omega
      exact hlt
    rcases prepare_spec hcounted hplaced _ hroom with ⟨m', hprepare, hbalanced⟩
    refine ⟨m', some segment, ?_, h.numOfBuffers ▸ hbalanced⟩
    dsimp only
    rw [hprepare]
    rfl

lemma Placed.createPool (h : m.Placed []) {k : Nat} (hk : k ≤ m.availableBuffers.length)
    {pool : FixedSizeBufferPool} (hpool : pool = ⟨m.availableBuffers.take k, k, false, true⟩) :
    Placed { m with
      availableBuffers := m.availableBuffers.drop k
      numOfAvailableBuffers := m.numOfAvailableBuffers - k
      fixedSizeBufferPools := m.fixedSizeBufferPools ++ [pool] } [] := by
  have hperm : m.availableBuffers.drop k ++ (m.fixedSizeBufferPools ++ [pool]).flatMap exclusiveBuffers ~ m.queues := by
    calc m.availableBuffers.drop k ++ (m.fixedSizeBufferPools ++ [pool]).flatMap exclusiveBuffers
        ~ m.availableBuffers.drop k
          ++ (m.availableBuffers.take k ++ m.fixedSizeBufferPools.flatMap exclusiveBuffers) := by
          rw [flatMap_append, flatMap_singleton, hpool]
          exact perm_append_comm.append_left _
      _ ~ m.queues := by
          rw [← append_assoc]
          refine .append_right _ (perm_append_comm.trans ?_)
          rw [take_append_drop]
  refine ⟨hperm.nodup_iff.2 h.nodup, fun x => hperm.mem_iff.trans (h.mem x), ?_, fun i other hother => ?_,
    fun x i hx => ?_⟩
  · have havailable := h.available
    rw [length_drop]
    dsimp only
    omega
  · have hother' : (m.fixedSizeBufferPools ++ [pool])[i]? = some other := hother
    by_cases hi : i < m.fixedSizeBufferPools.length
    · rw [getElem?_append_left hi] at hother'
      exact h.capacity i other hother'
    · -- nothing is in flight that belongs to a pool which did not exist
      have hflight : m.inFlight i = 0 := by
        rw [inFlight, Finset.card_eq_zero, Finset.filter_eq_empty_iff]
        exact fun x _ hx => hi (h.recycler x i hx)
      rw [getElem?_append_right (Nat.not_lt.1 hi), getElem?_singleton] at hother'
      split at hother'
      case isTrue =>
        rw [← Option.some.inj hother', hpool]
        have hlength : (m.availableBuffers.take k).length + m.inFlight i ≤ k := by
          rw [hflight, length_take]
          omega
        exact hlength
      case isFalse => cases hother'
  · have hlt := h.recycler x i hx
    rw [length_append]
    exact Nat.lt_add_right _ hlt

lemma createFixedSizeBufferPool_spec (h : m.Balanced n refs ∅) (k : Nat) :
    ∃ m', m.createFixedSizeBufferPool k = some m' ∧ m'.Balanced n refs ∅ := by
  rw [createFixedSizeBufferPool]
  by_cases hfew : m.availableBuffers.length < k ∨ k = 0
  · rw [if_pos hfew]
    exact ⟨m, rfl, h⟩
  · rw [if_neg hfew]
    have hidle : (m.availableBuffers.take k).all m.canBeExclusive = true := by
      rw [all_eq_true]
      intro x hx
      have hqueue : x ∈ m.queues := mem_append_left _ (mem_of_mem_take hx)
      have hnone := ((h.placed.mem x).1 hqueue).2
      simp [canBeExclusive, isAvailable, hnone, (h.counted.idle x hnone).1]
    rw [if_pos hidle]
    exact ⟨_, rfl, h.numOfBuffers, h.counted.of_controlBlock rfl rfl, h.placed.createPool (by omega) rfl⟩

lemma storeChildBuffer_spec {child : SegmentId} (h : m.Balanced n (some child :: refs) ∅)
    (hparent : some parent ∈ refs) :
    ∃ m', (m.storeChildBuffer parent child).release child = some m' ∧ m'.Balanced n refs ∅ := by
  have hretained := h.retain h.counted.counter_pos
  have hpos := hretained.counter_pos (mem_cons_of_mem _ (mem_cons_of_mem _ hparent))
  exact release_spec ⟨h.numOfBuffers, hretained.counted.attach hpos, hretained.placed.modifyBlock fun _ => rfl⟩

lemma loadChildBuffer_spec {index : Nat} (h : m.Balanced n refs ∅)
    (hparent : some parent ∈ refs) (hindex : index % 2 ^ 16 < (m.controlBlock parent).children.length) :
    ∃ m' child, m.loadChildBuffer parent index = some (m', child) ∧ m'.Balanced n (some child :: refs) ∅ := by
  have hchild := getElem?_eq_getElem hindex
  have hpos := h.counter_pos_of_child (h.counter_pos hparent) (mem_of_getElem? hchild)
  refine ⟨_, _, ?_, h.retain hpos⟩
  rw [loadChildBuffer, hchild]
  rfl

end BufferManager

/-! ## The system -/

namespace BufferSystem

variable {n : Nat} {s : BufferSystem} {m : BufferManager} {buffer : Option SegmentId}
  {refs : List (Option SegmentId)}

def Balanced (n : Nat) (s : BufferSystem) : Prop := s.manager.Balanced n s.tupleBuffers ∅

lemma returned_spec {result : Option (BufferManager × Option SegmentId)}
    (h : ∃ m buffer, result = some (m, buffer) ∧ m.Balanced n (buffer :: s.tupleBuffers) ∅) :
    ∃ s', s.returned result = some s' ∧ Balanced n s' := by
  rcases h with ⟨m, buffer, rfl, hbalanced⟩
  cases buffer with
  | none => exact ⟨_, rfl, BufferManager.Balanced.none_cons.1 hbalanced⟩
  | some segment => exact ⟨_, rfl, hbalanced.perm (perm_append_singleton _ _).symm⟩

lemma retainHandle_spec (h : m.Balanced n refs ∅) (hmem : buffer ∈ refs) :
    (retainHandle m buffer).Balanced n (buffer :: refs) ∅ := by
  cases buffer with
  | none => exact BufferManager.Balanced.none_cons.2 h
  | some segment => exact h.retain (h.counter_pos hmem)

lemma releaseHandle_spec (h : m.Balanced n (buffer :: refs) ∅) :
    ∃ m', releaseHandle m buffer = some m' ∧ m'.Balanced n refs ∅ := by
  cases buffer with
  | none => exact ⟨m, rfl, BufferManager.Balanced.none_cons.1 h⟩
  | some segment => exact release_spec h

lemma balanced_initial (n : Nat) : Balanced n (initial n) := by
  have hqueues : (initial n).manager.queues = range n := append_nil _
  refine ⟨rfl, ⟨fun x => ?_, fun x _ => ⟨rfl, rfl⟩, fun x hx => absurd rfl hx, fun x hx => ?_⟩, ?_, fun x => ?_, ?_,
    fun i pool hpool => ?_, fun x i hx => ?_⟩
  · have hlinks : (initial n).manager.links ∅ x = 0 := Finset.sum_eq_zero fun _ _ => rfl
    rw [hlinks]
    rfl
  · cases hx
  · rw [nil_append, hqueues]
    exact nodup_range
  · rw [nil_append, hqueues, mem_range]
    exact (and_iff_left rfl).symm
  · exact congrArg Nat.cast length_range.symm
  · cases hpool
  · cases hx

lemma exists_slot {i : Nat} (h : i < s.tupleBuffers.length) : ∃ buffer, s.tupleBuffers[i]? = some buffer :=
  ⟨_, getElem?_eq_getElem h⟩

/-- Every operation that its callers may invoke succeeds and keeps the balance. -/
lemma Balanced.step (h : Balanced n s) {event : BufferEvent} (henabled : s.Enabled event) :
    ∃ s', s.step event = some s' ∧ Balanced n s' := by
  cases event with
  | getBufferBlocking => exact returned_spec (getBufferBlocking_spec h)
  | getBufferNoBlocking | getBufferWithTimeout => exact returned_spec (readBuffer_spec h)
  | getPoolBufferBlocking i | getPoolBufferWithTimeout i =>
    rcases exists_of_holdsPool henabled with ⟨pool, hpool⟩
    exact returned_spec (readPoolBuffer_spec h (List.getElem?_eq_some_iff.1 hpool).1)
  | copyConstruct j =>
    rcases exists_slot henabled with ⟨other, hother⟩
    have hbalanced := retainHandle_spec h (mem_of_getElem? hother)
    refine ⟨⟨_, s.tupleBuffers ++ [other]⟩, ?_, hbalanced.perm (perm_append_singleton _ _).symm⟩
    rw [BufferSystem.step, hother]
    rfl
  | copyAssign i j =>
    rcases exists_slot henabled.1 with ⟨old, hold⟩
    rcases exists_slot henabled.2 with ⟨other, hother⟩
    rw [BufferSystem.step, hold, hother]
    dsimp only
    split
    case isTrue => exact ⟨s, rfl, h⟩
    case isFalse =>
      -- the new reference is there before the old one goes
      have hretained := retainHandle_spec h (mem_of_getElem? hother)
      have hperm := ((perm_cons_eraseIdx hold).cons other).trans (.swap ..)
      rcases releaseHandle_spec (hretained.perm hperm) with ⟨m, hm, hbalanced⟩
      rw [hm]
      exact ⟨⟨m, s.tupleBuffers.set i other⟩, rfl, hbalanced.perm (set_perm_cons_eraseIdx hold _).symm⟩
  | moveConstruct j =>
    rcases exists_slot henabled with ⟨other, hother⟩
    have hset := (set_perm_cons_eraseIdx hother none).append_right [other]
    have hperm : s.tupleBuffers.set j none ++ [other] ~ none :: s.tupleBuffers :=
      hset.trans (((perm_append_singleton _ _).trans (perm_cons_eraseIdx hother).symm).cons none)
    refine ⟨⟨s.manager, s.tupleBuffers.set j none ++ [other]⟩, ?_, ?_⟩
    · rw [BufferSystem.step, hother]
      rfl
    · exact (BufferManager.Balanced.none_cons.2 h).perm hperm.symm
  | moveAssign i j =>
    rcases exists_slot henabled.1 with ⟨old, hold⟩
    rcases exists_slot henabled.2 with ⟨other, hother⟩
    rw [BufferSystem.step, hold, hother]
    exact ⟨_, rfl, .perm h (swap_perm hold hother).symm⟩
  | release i =>
    rcases exists_slot henabled with ⟨buffer, hbuffer⟩
    rcases releaseHandle_spec (.perm h (perm_cons_eraseIdx hbuffer)) with ⟨m, hm, hbalanced⟩
    rw [BufferSystem.step, hbuffer, Option.bind_some, hm]
    refine ⟨⟨m, s.tupleBuffers.set i none⟩, rfl, ?_⟩
    exact (BufferManager.Balanced.none_cons.2 hbalanced).perm (set_perm_cons_eraseIdx hbuffer none).symm
  | destruct i =>
    rcases exists_slot henabled with ⟨buffer, hbuffer⟩
    rcases releaseHandle_spec (.perm h (perm_cons_eraseIdx hbuffer)) with ⟨m, hm, hbalanced⟩
    rw [BufferSystem.step, hbuffer, Option.bind_some, hm]
    exact ⟨⟨m, s.tupleBuffers.eraseIdx i⟩, rfl, hbalanced⟩
  | storeChildBuffer i j =>
    rcases exists_of_canAttach henabled with ⟨parent, child, hparent, hchild, hne⟩
    have hperm := perm_cons_eraseIdx hchild
    have hparent' : some parent ∈ s.tupleBuffers.eraseIdx j := by
      rcases mem_cons.1 (hperm.mem_iff.1 (mem_of_getElem? hparent)) with heq | hmem
      · exact absurd (Option.some.inj heq) hne
      · exact hmem
    rcases storeChildBuffer_spec (BufferManager.Balanced.perm h hperm) hparent' with ⟨m, hm, hbalanced⟩
    rw [BufferSystem.step, hparent, hchild]
    dsimp only
    rw [if_neg hne, hm]
    refine ⟨⟨m, s.tupleBuffers.set j none⟩, rfl, ?_⟩
    exact (BufferManager.Balanced.none_cons.2 hbalanced).perm (set_perm_cons_eraseIdx hchild none).symm
  | loadChildBuffer i index =>
    rcases exists_of_hasChild henabled with ⟨parent, hparent, hindex⟩
    rcases loadChildBuffer_spec h (mem_of_getElem? hparent) hindex with ⟨m, child, hload, hbalanced⟩
    rw [BufferSystem.step, hparent]
    dsimp only
    rw [hload]
    exact ⟨⟨m, s.tupleBuffers ++ [some child]⟩, rfl, hbalanced.perm (perm_append_singleton _ _).symm⟩
  | createFixedSizeBufferPool k =>
    rcases createFixedSizeBufferPool_spec h k with ⟨m, hm, hbalanced⟩
    rw [BufferSystem.step, hm]
    exact ⟨⟨m, s.tupleBuffers⟩, rfl, hbalanced⟩
  | destroyPool i =>
    rcases exists_of_holdsPool henabled with ⟨pool, hpool⟩
    rcases destroyPool_spec h (List.getElem?_eq_some_iff.1 hpool).1 with ⟨m, hm, hbalanced⟩
    rw [BufferSystem.step, hm]
    exact ⟨⟨m, s.tupleBuffers⟩, rfl, hbalanced⟩
  | dropPool i =>
    rcases exists_of_holdsPool henabled with ⟨pool, hpool⟩
    have hi := (List.getElem?_eq_some_iff.1 hpool).1
    have hcapacity := h.placed.capacity i _ hpool
    have hreleased : (s.manager.setPool i { pool with isHeld := false }).Balanced n s.tupleBuffers ∅ :=
      ⟨h.numOfBuffers, h.counted.of_controlBlock rfl rfl, h.placed.setPool hpool (.refl _) hcapacity⟩
    have hvalid : ∀ j, fixedSizeBufferPool i = .fixedSizeBufferPool j →
        j < (s.manager.setPool i { pool with isHeld := false }).fixedSizeBufferPools.length := by
      intro j hj
      rw [← fixedSizeBufferPool.inj hj, setPool, length_set]
      exact hi
    rcases dropRecycler_spec hreleased hvalid with ⟨m, hm, hbalanced⟩
    rw [BufferSystem.step, hpool]
    dsimp only
    rw [hm]
    exact ⟨⟨m, s.tupleBuffers⟩, rfl, hbalanced⟩

lemma balanced_of_reachable (h : Reachable (initial n) Enabled step s) : Balanced n s := by
  refine h.invariant (Balanced n) (balanced_initial n) fun t event t' ht henabled hstep => ?_
  rcases ht.step henabled with ⟨t'', hstep', hbalanced⟩
  rw [Option.some.inj (hstep.symm.trans hstep')]
  exact hbalanced

/-! ## Every segment is in one place -/

/-- Without a segment that is being released, a segment is in a queue or it has references. -/
lemma place_of_balanced (h : Balanced n s) {segment : SegmentId} (hlt : segment < n) : s.manager.queues.count segment
      + (if 0 < (s.manager.controlBlock segment).referenceCounter then 1 else 0) = 1 := by
  have hlt' : segment < s.manager.numOfBuffers := h.numOfBuffers ▸ hlt
  by_cases hnone : (s.manager.controlBlock segment).owningBufferRecycler = none
  · have hmem : segment ∈ s.manager.queues := (h.placed.mem segment).2 ⟨hlt', hnone⟩
    have hnodup : s.manager.queues.Nodup := h.placed.nodup
    rw [count_eq_one_of_mem hnodup hmem, (h.counted.idle segment hnone).1]
    rfl
  · have hnotin : segment ∉ s.manager.queues := fun hmem => hnone ((h.placed.mem segment).1 hmem).2
    have hdying := (h.counted.busy segment hnone).2
    have hcounter : 0 < (s.manager.controlBlock segment).referenceCounter :=
      Nat.pos_of_ne_zero fun hzero => Finset.notMem_empty segment (hdying.2 hzero)
    rw [count_eq_zero_of_not_mem hnotin, if_pos hcounter]

/-- Each segment is once in the queue of the manager, once in the queue of one pool, or in use; its counter is
the number of handles and child links to it; `numOfAvailableBuffers` is the length of the queue of the manager;
and no operation runs into a failed `INVARIANT` or an invalid reference count. -/
theorem buffers_conserved (h : Reachable (initial n) Enabled step s) : (∀ segment, segment < n →
        s.manager.availableBuffers.count segment
            + (s.manager.fixedSizeBufferPools.map fun pool => pool.exclusiveBuffers.count segment).sum
            + (if 0 < (s.manager.controlBlock segment).referenceCounter then 1 else 0) = 1
          ∧ (s.manager.controlBlock segment).referenceCounter = s.tupleBuffers.count (some segment)
              + ∑ parent ∈ Finset.range n, (s.manager.controlBlock parent).children.count segment)
      ∧ s.manager.numOfAvailableBuffers = s.manager.availableBuffers.length
      ∧ ∀ event, s.Enabled event → ∃ s', s.step event = some s' := by
  have hbalanced := balanced_of_reachable h
  refine ⟨fun segment hlt => ⟨?_, ?_⟩, hbalanced.placed.available, fun event henabled => ?_⟩
  · have hplace := place_of_balanced hbalanced hlt
    rw [queues, count_append, count_flatMap] at hplace
    exact hplace
  · have hcount := hbalanced.counted.count segment
    rw [links, Finset.sdiff_empty, hbalanced.numOfBuffers] at hcount
    exact hcount
  · rcases hbalanced.step henabled with ⟨s', hstep, _⟩
    exact ⟨s', hstep⟩

/-- A pool of one buffer, and a buffer attached to another one: the child has no handle, and one reference. -/
theorem attached_child_conserved : ∃ s, Reachable (initial 3) Enabled step s ∧ s.tupleBuffers = [some 1, none]
      ∧ (s.manager.controlBlock 2).referenceCounter = 1
      ∧ s.manager.availableBuffers.count 0
          + (s.manager.fixedSizeBufferPools.map fun pool => pool.exclusiveBuffers.count 0).sum
          + (if 0 < (s.manager.controlBlock 0).referenceCounter then 1 else 0) = 1
      ∧ ∃ s', s.step (.release 0) = some s' := by
  have hrun : ∃ s, runGuarded Enabled step (initial 3)
      [.createFixedSizeBufferPool 1, .getBufferBlocking, .getBufferNoBlocking, .storeChildBuffer 0 1] = some s
      ∧ s.tupleBuffers = [some 1, none] ∧ (s.manager.controlBlock 2).referenceCounter = 1 :=
    ⟨_, rfl, rfl, rfl⟩
  rcases hrun with ⟨s, hrun, hbuffers, hcounter⟩
  have hreachable := Reachable.initial.of_runGuarded hrun
  rcases buffers_conserved hreachable with ⟨hplaces, _, hsteps⟩
  have henabled : s.Enabled (.release 0) := by
    rw [Enabled, hbuffers]
    decide
  exact ⟨s, hreachable, hbuffers, hcounter, (hplaces 0 (by decide)).1, hsteps _ henabled⟩

end BufferSystem
end MobilityNebula.Memory
