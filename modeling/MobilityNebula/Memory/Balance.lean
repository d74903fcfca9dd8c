import MobilityNebula.Library.Slots
import MobilityNebula.Memory.BufferManager

/-!
# Balance — reference counts and places of the segments

Two invariants of the buffer manager.  `Counted` is about the control blocks: a reference counter is the number
of references to the segment.  References are the handles, given as a list, and the child links of the segments
that are not being released; a segment that is being released has passed its links on to that list.  `Placed` is
about the queues: a segment without a recycler is in exactly one of them.

`release_spec` says that releasing a reference succeeds and keeps both.
-/

namespace MobilityNebula.Memory
namespace BufferManager

open Library FixedSizeBufferPool List
open scoped List

variable {m : BufferManager} {segment : SegmentId} {refs refs' : List (Option SegmentId)} {dying : Finset SegmentId}

/-! ## Counted -/

/-- The child links to `segment` of all segments that are not being released. -/
def links (m : BufferManager) (dying : Finset SegmentId) (segment : SegmentId) : Nat :=
  ∑ parent ∈ Finset.range m.numOfBuffers \ dying, (m.controlBlock parent).children.count segment

structure Counted (m : BufferManager) (refs : List (Option SegmentId)) (dying : Finset SegmentId) : Prop where
  count : ∀ segment,
    (m.controlBlock segment).referenceCounter = refs.count (some segment) + m.links dying segment
  idle : ∀ segment, (m.controlBlock segment).owningBufferRecycler = none →
    (m.controlBlock segment).referenceCounter = 0 ∧ (m.controlBlock segment).children = []
  busy : ∀ segment, (m.controlBlock segment).owningBufferRecycler ≠ none →
    segment < m.numOfBuffers ∧ (segment ∈ dying ↔ (m.controlBlock segment).referenceCounter = 0)
  dying_busy : ∀ segment ∈ dying, (m.controlBlock segment).owningBufferRecycler ≠ none

namespace Counted

lemma perm (h : m.Counted refs dying) (hrefs : refs ~ refs') : m.Counted refs' dying where
  count := fun segment => by rw [h.count segment, hrefs.count_eq]
  idle := h.idle
  busy := h.busy
  dying_busy := h.dying_busy

lemma none_cons : m.Counted (none :: refs) dying ↔ m.Counted refs dying := by
  have hcount : ∀ segment : SegmentId, (none :: refs).count (some segment) = refs.count (some segment) :=
    fun segment => count_cons_of_ne (by simp)
  constructor
  · exact fun h => ⟨fun segment => by rw [h.count segment, hcount], h.idle, h.busy, h.dying_busy⟩
  · exact fun h => ⟨fun segment => by rw [h.count segment, hcount], h.idle, h.busy, h.dying_busy⟩

lemma inUse (h : m.Counted refs dying) (hcounter : 0 < (m.controlBlock segment).referenceCounter) :
    (m.controlBlock segment).owningBufferRecycler ≠ none ∧ segment < m.numOfBuffers ∧ segment ∉ dying := by
  have hrecycler : (m.controlBlock segment).owningBufferRecycler ≠ none := by
    intro hnone
    exact hcounter.ne' (h.idle segment hnone).1
  rcases h.busy segment hrecycler with ⟨hlt, hdying⟩
  exact ⟨hrecycler, hlt, fun hmem => hcounter.ne' (hdying.1 hmem)⟩

lemma counter_pos (h : m.Counted (some segment :: refs) dying) : 0 < (m.controlBlock segment).referenceCounter := by
  rw [h.count segment, count_cons_self]
  omega

end Counted

/-! ### Control block updates -/

section

variable (f : BufferControlBlock → BufferControlBlock)
include f

@[simp] lemma numOfBuffers_modifyBlock : (m.modifyBlock segment f).numOfBuffers = m.numOfBuffers := rfl

@[simp] lemma controlBlock_modifyBlock_self :
    (m.modifyBlock segment f).controlBlock segment = f (m.controlBlock segment) :=
  Function.update_self ..

lemma controlBlock_modifyBlock_of_ne {other : SegmentId}
    (h : other ≠ segment) : (m.modifyBlock segment f).controlBlock other = m.controlBlock other :=
  Function.update_of_ne h ..

end

/-- Segments that are being released, and segments whose children do not change, do not change the links. -/
lemma links_congr {m' : BufferManager} (hbuffers : m'.numOfBuffers = m.numOfBuffers)
    (h : ∀ parent, parent < m.numOfBuffers → parent ∉ dying →
      (m'.controlBlock parent).children = (m.controlBlock parent).children) (segment : SegmentId) :
    m'.links dying segment = m.links dying segment := by
  unfold links
  rw [hbuffers]
  refine Finset.sum_congr rfl fun parent hparent => ?_
  rcases Finset.mem_sdiff.1 hparent with ⟨hlt, hdying⟩
  rw [h parent (Finset.mem_range.1 hlt) hdying]

lemma links_eq_add {parent : SegmentId} (hlt : parent < m.numOfBuffers) (hdying : parent ∉ dying)
    (segment : SegmentId) :
    m.links dying segment = (m.controlBlock parent).children.count segment + m.links (insert parent dying) segment := by
  have hmem : parent ∈ Finset.range m.numOfBuffers \ dying := Finset.mem_sdiff.2 ⟨Finset.mem_range.2 hlt, hdying⟩
  unfold links
  rw [Finset.sdiff_insert]
  exact (Finset.add_sum_erase _ (fun p => (m.controlBlock p).children.count segment) hmem).symm

lemma links_modifyBlock (f : BufferControlBlock → BufferControlBlock) (x : SegmentId) :
    (m.modifyBlock segment f).links (insert segment dying) x = m.links (insert segment dying) x := by
  refine links_congr (numOfBuffers_modifyBlock f) (fun parent _ hparent => ?_) x
  have hne : parent ≠ segment := fun heq => hparent (heq ▸ Finset.mem_insert_self _ _)
  rw [controlBlock_modifyBlock_of_ne _ hne]

namespace Counted

variable {f : BufferControlBlock → BufferControlBlock}

/-- An update of one control block: the counters have to agree with the references, and the block has to fit to
whether it is being released. -/
lemma modifyBlock {dying' : Finset SegmentId}
    (h : m.Counted refs dying) (hdying : ∀ x, x ≠ segment → (x ∈ dying' ↔ x ∈ dying))
    (hcount : ∀ x, ((m.modifyBlock segment f).controlBlock x).referenceCounter
      = refs'.count (some x) + (m.modifyBlock segment f).links dying' x)
    (hidle : (f (m.controlBlock segment)).owningBufferRecycler = none →
      (f (m.controlBlock segment)).referenceCounter = 0 ∧ (f (m.controlBlock segment)).children = [] ∧ segment ∉ dying')
    (hbusy : (f (m.controlBlock segment)).owningBufferRecycler ≠ none →
      segment < m.numOfBuffers ∧ (segment ∈ dying' ↔ (f (m.controlBlock segment)).referenceCounter = 0)) :
    (m.modifyBlock segment f).Counted refs' dying' := by
  refine ⟨hcount, fun x hnone => ?_, fun x hsome => ?_, fun x hx hnone => ?_⟩
  all_goals by_cases hself : x = segment
  · rw [hself, controlBlock_modifyBlock_self] at hnone ⊢
    exact ⟨(hidle hnone).1, (hidle hnone).2.1⟩
  · rw [controlBlock_modifyBlock_of_ne _ hself] at hnone ⊢
    exact h.idle x hnone
  · rw [hself, controlBlock_modifyBlock_self] at hsome ⊢
    exact hbusy hsome
  · rw [controlBlock_modifyBlock_of_ne _ hself] at hsome ⊢
    rw [hdying x hself]
    exact h.busy x hsome
  · rw [hself, controlBlock_modifyBlock_self] at hnone
    exact (hidle hnone).2.2 (hself ▸ hx)
  · rw [controlBlock_modifyBlock_of_ne _ hself] at hnone
    exact h.dying_busy x ((hdying x hself).1 hx) hnone

lemma links_of_modifyBlock (hlt : segment < m.numOfBuffers) (hdying : segment ∉ dying) (x : SegmentId) :
    (m.modifyBlock segment f).links dying x
      = (f (m.controlBlock segment)).children.count x + m.links (insert segment dying) x := by
  rw [links_eq_add (m := m.modifyBlock segment f) hlt hdying, controlBlock_modifyBlock_self, links_modifyBlock]

/-- An update of a segment that stays in use: its counter changes by as much as the references to it, which are
handles and, if it refers to itself, its own links. -/
lemma update (h : m.Counted refs dying) (hlt : segment < m.numOfBuffers) (hdying : segment ∉ dying)
    (hcount : ∀ x, refs'.count (some x) + (f (m.controlBlock segment)).children.count x
        + (if x = segment then (m.controlBlock segment).referenceCounter else 0)
      = refs.count (some x) + (m.controlBlock segment).children.count x
        + (if x = segment then (f (m.controlBlock segment)).referenceCounter else 0))
    (hrecycler : (f (m.controlBlock segment)).owningBufferRecycler ≠ none)
    (hcounter : (f (m.controlBlock segment)).referenceCounter ≠ 0) : (m.modifyBlock segment f).Counted refs' dying := by
  refine h.modifyBlock (fun _ _ => .rfl) (fun x => ?_) (fun hnone => absurd hnone hrecycler)
    (fun _ => ⟨hlt, iff_of_false hdying hcounter⟩)
  have hbefore := h.count x
  have hchange := hcount x
  rw [links_eq_add hlt hdying] at hbefore
  rw [links_of_modifyBlock hlt hdying]
  by_cases hx : x = segment
  · subst hx
    rw [if_pos rfl, if_pos rfl] at hchange
    rw [controlBlock_modifyBlock_self]
    omega
  · rw [if_neg hx, if_neg hx] at hchange
    rw [controlBlock_modifyBlock_of_ne _ hx]
    omega

lemma count_some_cons (x : SegmentId) :
    (some segment :: refs).count (some x) = refs.count (some x) + if x = segment then 1 else 0 := by
  simp [count_cons, @eq_comm _ x]

lemma retain (h : m.Counted refs dying) (hcounter : 0 < (m.controlBlock segment).referenceCounter) :
    (m.retain segment).Counted (some segment :: refs) dying := by
  rcases h.inUse hcounter with ⟨hrecycler, hlt, hdying⟩
  refine h.update hlt hdying (fun x => ?_) hrecycler (Nat.succ_ne_zero _)
  simp only [count_some_cons]
  split_ifs <;> omega

lemma release_shared (h : m.Counted (some segment :: refs) dying) {n : Nat}
    (hcounter : (m.controlBlock segment).referenceCounter = n + 2) :
    (m.setReferenceCounter segment (n + 1)).Counted refs dying := by
  rcases h.inUse h.counter_pos with ⟨hrecycler, hlt, hdying⟩
  refine h.update hlt hdying (fun x => ?_) hrecycler (Nat.succ_ne_zero n)
  simp only [count_some_cons, hcounter]
  split_ifs <;> omega

/-- The last reference goes away: the segment passes on the links to its children. -/
lemma release_last (h : m.Counted (some segment :: refs) dying)
    (hcounter : (m.controlBlock segment).referenceCounter = 1) :
    (m.setReferenceCounter segment 0).Counted ((m.controlBlock segment).children.map some ++ refs)
      (insert segment dying) := by
  rcases h.inUse h.counter_pos with ⟨hrecycler, hlt, hdying⟩
  refine h.modifyBlock (fun x hx => by simp [hx]) (fun x => ?_) (fun hnone => absurd hnone hrecycler)
    (fun _ => ⟨hlt, iff_of_true (Finset.mem_insert_self _ _) rfl⟩)
  have hcount := h.count x
  have hchildren : ((m.controlBlock segment).children.map some).count (some x)
      = (m.controlBlock segment).children.count x :=
    count_map_of_injective _ some (Option.some_injective _) x
  rw [links_eq_add hlt hdying] at hcount
  rw [count_append, hchildren, links_modifyBlock]
  by_cases hx : x = segment
  · subst hx
    rw [count_cons_self, hcounter] at hcount
    rw [controlBlock_modifyBlock_self]
    dsimp only
    omega
  · rw [count_cons_of_ne (by simpa using Ne.symm hx)] at hcount
    rw [controlBlock_modifyBlock_of_ne _ hx, hcount]
    omega

lemma becomeIdle (h : m.Counted refs (insert segment dying)) (hdying : segment ∉ dying) :
    (m.modifyBlock segment fun block => { block with children := [], owningBufferRecycler := none }).Counted
      refs dying := by
  have hrecycler := h.dying_busy segment (Finset.mem_insert_self _ _)
  rcases h.busy segment hrecycler with ⟨hlt, hzero⟩
  have hcounter := hzero.1 (Finset.mem_insert_self _ _)
  refine h.modifyBlock (fun x hx => by simp [hx]) (fun x => ?_) (fun _ => ⟨hcounter, rfl, hdying⟩)
    (fun hsome => absurd rfl hsome)
  rw [links_of_modifyBlock hlt hdying, count_nil, Nat.zero_add, ← h.count x]
  by_cases hx : x = segment
  · rw [hx, controlBlock_modifyBlock_self]
  · rw [controlBlock_modifyBlock_of_ne _ hx]

lemma prepare (h : m.Counted refs dying) (hlt : segment < m.numOfBuffers)
    (hnone : (m.controlBlock segment).owningBufferRecycler = none) (recycler : BufferRecycler) :
    (m.modifyBlock segment fun block =>
      { block with referenceCounter := 1, owningBufferRecycler := some recycler }).Counted
      (some segment :: refs) dying := by
  have hdying : segment ∉ dying := fun hmem => h.dying_busy segment hmem hnone
  refine h.update hlt hdying (fun x => ?_) (by simp) one_ne_zero
  simp only [count_some_cons, (h.idle segment hnone).1]
  split_ifs <;> omega

lemma attach {parent child : SegmentId} (h : m.Counted (some child :: refs) dying)
    (hparent : 0 < (m.controlBlock parent).referenceCounter) :
    (m.modifyBlock parent fun block => { block with children := block.children ++ [child] }).Counted refs dying := by
  rcases h.inUse hparent with ⟨hrecycler, hlt, hdying⟩
  refine h.update hlt hdying (fun x => ?_) hrecycler hparent.ne'
  simp only [count_some_cons, count_append, count_singleton, beq_iff_eq, @eq_comm _ child]
  omega

end Counted
/-! ## Placed -/

def queues (m : BufferManager) : List SegmentId :=
  m.availableBuffers ++ m.fixedSizeBufferPools.flatMap exclusiveBuffers

/-- The number of segments in use that go back to the pool. -/
def inFlight (m : BufferManager) (i : Nat) : Nat :=
  ((Finset.range m.numOfBuffers).filter fun segment =>
    (m.controlBlock segment).owningBufferRecycler = some (.fixedSizeBufferPool i)).card

/-- A segment that goes back to a pool finds room in its queue. -/
def RoomFor (m : BufferManager) (recycler : BufferRecycler) : Prop :=
  ∀ i, recycler = .fixedSizeBufferPool i → ∃ pool, m.fixedSizeBufferPools[i]? = some pool
    ∧ pool.exclusiveBuffers.length + m.inFlight i < pool.numberOfReservedBuffers

/-- Every idle segment is in one queue, apart from the `loose` ones, which are on their way.  There is room in
the queue of a pool for the segments that go back to it. -/
structure Placed (m : BufferManager) (loose : List SegmentId) : Prop where
  nodup : (loose ++ m.queues).Nodup
  mem : ∀ segment, segment ∈ loose ++ m.queues
    ↔ segment < m.numOfBuffers ∧ (m.controlBlock segment).owningBufferRecycler = none
  available : m.numOfAvailableBuffers = m.availableBuffers.length
  capacity : ∀ i pool, m.fixedSizeBufferPools[i]? = some pool →
    pool.exclusiveBuffers.length + m.inFlight i ≤ pool.numberOfReservedBuffers
  recycler : ∀ segment i, (m.controlBlock segment).owningBufferRecycler = some (.fixedSizeBufferPool i) →
    i < m.fixedSizeBufferPools.length

namespace Placed

variable {loose : List SegmentId}
variable {f : BufferControlBlock → BufferControlBlock}

/-- Counters and children are no concern of the queues. -/
lemma modifyBlock (h : m.Placed loose) (hf : ∀ block, (f block).owningBufferRecycler = block.owningBufferRecycler) :
    (m.modifyBlock segment f).Placed loose := by
  have hrecycler : ∀ x, ((m.modifyBlock segment f).controlBlock x).owningBufferRecycler
      = (m.controlBlock x).owningBufferRecycler := by
    intro x
    by_cases hx : x = segment
    · rw [hx, controlBlock_modifyBlock_self, hf]
    · rw [controlBlock_modifyBlock_of_ne _ hx]
  refine ⟨h.nodup, fun x => ?_, h.available, fun i pool hpool => ?_, fun x i hx => ?_⟩
  · rw [hrecycler]
    exact h.mem x
  · have hflight : (m.modifyBlock segment f).inFlight i = m.inFlight i := by
      simp only [inFlight, hrecycler, numOfBuffers_modifyBlock]
    rw [hflight]
    exact h.capacity i pool hpool
  · rw [hrecycler] at hx
    exact h.recycler x i hx

lemma length_available_lt (h : m.Placed (segment :: loose)) : m.availableBuffers.length < m.numOfBuffers := by
  have hsub : segment :: loose ++ m.queues ⊆ range m.numOfBuffers := by
    intro x hx
    exact mem_range.2 ((h.mem x).1 hx).1
  have hlength := (h.nodup.subperm hsub).length_le
  rw [length_append, length_cons, length_range, queues, length_append] at hlength
  omega

lemma recyclePooledBuffer (h : m.Placed (segment :: loose)) (hcounter : (m.controlBlock segment).referenceCounter = 0) :
    ∃ m', m.recyclePooledBuffer segment = some m' ∧ m'.Placed loose ∧ m'.controlBlock = m.controlBlock
      ∧ m'.numOfBuffers = m.numOfBuffers ∧ m'.fixedSizeBufferPools = m.fixedSizeBufferPools := by
  have hnone := ((h.mem segment).1 mem_cons_self).2
  have hroom := h.length_available_lt
  refine ⟨{ m with
    availableBuffers := m.availableBuffers ++ [segment]
    numOfAvailableBuffers := m.numOfAvailableBuffers + 1 }, ?_, ?_, rfl, rfl, rfl⟩
  · rw [BufferManager.recyclePooledBuffer, if_pos ⟨by simp [isAvailable, hcounter], hnone⟩]
    simp [writeAvailable, hroom]
  · have hperm : loose ++ (m.availableBuffers ++ [segment]
        ++ m.fixedSizeBufferPools.flatMap exclusiveBuffers) ~ segment :: loose ++ m.queues := by
      rw [append_assoc m.availableBuffers, ← append_assoc loose]
      refine perm_middle.trans ?_
      rw [queues, cons_append, append_assoc]
      exact .refl _
    refine ⟨hperm.nodup_iff.2 h.nodup, fun x => (hperm.mem_iff).trans (h.mem x), ?_, h.capacity, h.recycler⟩
    rw [h.available, length_append]
    rfl

lemma queues_perm {i : Nat} {pool : FixedSizeBufferPool} (hpool : m.fixedSizeBufferPools[i]? = some pool) :
    ∃ others, m.queues ~ pool.exclusiveBuffers ++ others
      ∧ ∀ pool', (m.setPool i pool').queues ~ pool'.exclusiveBuffers ++ others := by
  refine ⟨m.availableBuffers ++ (m.fixedSizeBufferPools.eraseIdx i).flatMap exclusiveBuffers, ?_, fun pool' => ?_⟩
  · have hpools := (perm_cons_eraseIdx hpool).flatMap_right exclusiveBuffers
    refine (hpools.append_left _).trans ?_
    exact perm_append_comm_assoc ..
  · have hpools := (set_perm_cons_eraseIdx hpool pool').flatMap_right exclusiveBuffers
    refine (hpools.append_left _).trans ?_
    rw [flatMap_cons]
    exact perm_append_comm_assoc ..

/-- A pool changes: the segments of its queue may come from, or go to, the loose ones. -/
lemma setPool {loose' : List SegmentId} (h : m.Placed loose) {i : Nat} {pool pool' : FixedSizeBufferPool}
    (hpool : m.fixedSizeBufferPools[i]? = some pool)
    (hloose : loose ++ pool.exclusiveBuffers ~ loose' ++ pool'.exclusiveBuffers)
    (hcapacity : pool'.exclusiveBuffers.length + m.inFlight i ≤ pool'.numberOfReservedBuffers) :
    (m.setPool i pool').Placed loose' := by
  rcases queues_perm hpool with ⟨others, hbefore, hafter⟩
  have hperm : loose' ++ (m.setPool i pool').queues ~ loose ++ m.queues := by
    calc loose' ++ (m.setPool i pool').queues
        ~ loose' ++ (pool'.exclusiveBuffers ++ others) := (hafter pool').append_left _
      _ ~ loose ++ (pool.exclusiveBuffers ++ others) := by
          rw [← append_assoc, ← append_assoc]
          exact hloose.symm.append_right _
      _ ~ loose ++ m.queues := hbefore.symm.append_left _
  refine ⟨hperm.nodup_iff.2 h.nodup, fun x => hperm.mem_iff.trans (h.mem x), h.available, fun j other hother => ?_,
    fun x j hx => ?_⟩
  · have hother' : (m.fixedSizeBufferPools.set i pool')[j]? = some other := hother
    by_cases hij : j = i
    · subst hij
      have hlt := (List.getElem?_eq_some_iff.1 hpool).1
      rw [getElem?_set_self hlt] at hother'
      rw [← Option.some.inj hother']
      exact hcapacity
    · rw [getElem?_set_ne (Ne.symm hij)] at hother'
      exact h.capacity j other hother'
  · have hlt := h.recycler x j hx
    rw [BufferManager.setPool, length_set]
    exact hlt

/-! ### Recyclers come and go -/

section

variable {f : BufferControlBlock → BufferControlBlock} {i : Nat}
  (hf : (f (m.controlBlock segment)).owningBufferRecycler ≠ some (.fixedSizeBufferPool i))
include hf

/-- The segments in flight after an update that does not send `segment` to the pool. -/
lemma inFlight_modifyBlock : (m.modifyBlock segment f).inFlight i = (((Finset.range m.numOfBuffers).filter fun x =>
          (m.controlBlock x).owningBufferRecycler = some (.fixedSizeBufferPool i)).erase segment).card := by
  unfold inFlight
  congr 1
  ext x
  rw [Finset.mem_erase, Finset.mem_filter, Finset.mem_filter, numOfBuffers_modifyBlock]
  by_cases hx : x = segment
  · rw [hx, controlBlock_modifyBlock_self]
    simp [hf]
  · rw [controlBlock_modifyBlock_of_ne _ hx]
    simp [hx]

lemma inFlight_modifyBlock_le : (m.modifyBlock segment f).inFlight i ≤ m.inFlight i := by
  rw [inFlight_modifyBlock hf]
  exact Finset.card_erase_le

lemma inFlight_modifyBlock_lt (hlt : segment < m.numOfBuffers)
    (hold : (m.controlBlock segment).owningBufferRecycler = some (.fixedSizeBufferPool i)) :
    (m.modifyBlock segment f).inFlight i < m.inFlight i := by
  rw [inFlight_modifyBlock hf]
  exact Finset.card_erase_lt_of_mem (Finset.mem_filter.2 ⟨Finset.mem_range.2 hlt, hold⟩)

end

lemma inFlight_modifyBlock_le_succ (f : BufferControlBlock → BufferControlBlock) (i : Nat) :
    (m.modifyBlock segment f).inFlight i ≤ m.inFlight i + 1 := by
  refine (Finset.card_le_card ?_).trans (Finset.card_insert_le segment _)
  intro x hx
  rw [Finset.mem_filter, numOfBuffers_modifyBlock] at hx
  rw [Finset.mem_insert, Finset.mem_filter]
  by_cases hself : x = segment
  · exact .inl hself
  · rw [controlBlock_modifyBlock_of_ne _ hself] at hx
    exact .inr hx

lemma becomeLoose (h : m.Placed loose)
    (hlt : segment < m.numOfBuffers) (hold : (m.controlBlock segment).owningBufferRecycler ≠ none)
    (hf : (f (m.controlBlock segment)).owningBufferRecycler = none) :
    (m.modifyBlock segment f).Placed (segment :: loose) := by
  have hnotin : segment ∉ loose ++ m.queues := fun hin => hold ((h.mem segment).1 hin).2
  refine ⟨nodup_cons.2 ⟨hnotin, h.nodup⟩, fun x => ?_, h.available, fun i pool hpool => ?_, fun x i hx => ?_⟩
  · rw [cons_append, mem_cons]
    by_cases hx : x = segment
    · rw [hx, controlBlock_modifyBlock_self]
      exact iff_of_true (.inl rfl) ⟨hlt, hf⟩
    · rw [controlBlock_modifyBlock_of_ne _ hx]
      exact (or_iff_right hx).trans (h.mem x)
  · have hle : (m.modifyBlock segment f).inFlight i ≤ m.inFlight i :=
      inFlight_modifyBlock_le (by rw [hf]; simp)
    have hcapacity := h.capacity i pool hpool
    omega
  · by_cases hself : x = segment
    · rw [hself, controlBlock_modifyBlock_self, hf] at hx
      cases hx
    · rw [controlBlock_modifyBlock_of_ne _ hself] at hx
      exact h.recycler x i hx

/-- A loose segment is taken into use.  If it goes back to a pool later, then there has to be room for it. -/
lemma takeIntoUse (h : m.Placed (segment :: loose))
    {recycler : BufferRecycler} (hf : (f (m.controlBlock segment)).owningBufferRecycler = some recycler)
    (hroom : m.RoomFor recycler) : (m.modifyBlock segment f).Placed loose := by
  have hnodup := nodup_cons.1 h.nodup
  refine ⟨hnodup.2, fun x => ?_, h.available, fun i pool hpool => ?_, fun x i hx => ?_⟩
  · by_cases hx : x = segment
    · rw [hx, controlBlock_modifyBlock_self, hf]
      exact iff_of_false hnodup.1 (by simp)
    · rw [controlBlock_modifyBlock_of_ne _ hx]
      have hmem : x ∈ segment :: loose ++ m.queues ↔ x ∈ loose ++ m.queues := by
        rw [cons_append, mem_cons, or_iff_right hx]
      exact hmem.symm.trans (h.mem x)
  · by_cases hpool' : recycler = .fixedSizeBufferPool i
    · rcases hroom i hpool' with ⟨pool', hget, hlt⟩
      have hsame : pool' = pool := Option.some.inj (hget.symm.trans hpool)
      have hle : (m.modifyBlock segment f).inFlight i ≤ m.inFlight i + 1 := inFlight_modifyBlock_le_succ f i
      rw [hsame] at hlt
      omega
    · have hle : (m.modifyBlock segment f).inFlight i ≤ m.inFlight i :=
        inFlight_modifyBlock_le (by rw [hf]; simpa using hpool')
      have hcapacity := h.capacity i pool hpool
      omega
  · by_cases hself : x = segment
    · rw [hself, controlBlock_modifyBlock_self, hf] at hx
      rcases hroom i (Option.some.inj hx) with ⟨pool, hget, _⟩
      exact (List.getElem?_eq_some_iff.1 hget).1
    · rw [controlBlock_modifyBlock_of_ne _ hself] at hx
      exact h.recycler x i hx

lemma readAvailable (h : m.Placed loose) {rest : List SegmentId} (hqueue : m.availableBuffers = segment :: rest) :
    Placed { m with availableBuffers := rest, numOfAvailableBuffers := m.numOfAvailableBuffers - 1 }
      (segment :: loose) := by
  have hperm : segment :: loose ++ (rest ++ m.fixedSizeBufferPools.flatMap exclusiveBuffers) ~ loose ++ m.queues := by
    rw [queues, hqueue, cons_append]
    exact perm_middle.symm
  refine ⟨hperm.nodup_iff.2 h.nodup, fun x => hperm.mem_iff.trans (h.mem x), ?_, h.capacity, h.recycler⟩
  have havailable := h.available
  rw [hqueue, length_cons] at havailable
  dsimp only
  omega

end Placed
/-! ## Balanced -/

structure Balanced (n : Nat) (m : BufferManager) (refs : List (Option SegmentId)) (dying : Finset SegmentId) :
    Prop where
  numOfBuffers : m.numOfBuffers = n
  counted : m.Counted refs dying
  placed : m.Placed []

variable {n : Nat}

lemma counter_of_loose {loose : List SegmentId} (hcounted : m.Counted refs dying)
    (hplaced : m.Placed (segment :: loose)) : (m.controlBlock segment).referenceCounter = 0 :=
  (hcounted.idle segment ((hplaced.mem segment).1 mem_cons_self).2).1

lemma Counted.of_controlBlock {m' : BufferManager} (h : m.Counted refs dying)
    (hblocks : m'.controlBlock = m.controlBlock) (hbuffers : m'.numOfBuffers = m.numOfBuffers) :
    m'.Counted refs dying := by
  refine ⟨fun x => ?_, ?_, ?_, ?_⟩
  · have hlinks : m'.links dying x = m.links dying x := links_congr hbuffers (fun _ _ _ => by rw [hblocks]) x
    rw [hblocks, hlinks]
    exact h.count x
  · rw [hblocks]
    exact h.idle
  · rw [hblocks, hbuffers]
    exact h.busy
  · rw [hblocks]
    exact h.dying_busy

/-! ### The end of a pool -/

lemma drainPool_spec {i : Nat} {pool : FixedSizeBufferPool} {queue : List SegmentId} (h : m.Balanced n refs dying)
    (hpool : m.fixedSizeBufferPools[i]? = some { pool with isDestroyed := true, exclusiveBuffers := queue }) :
    ∃ m', drainPool i pool queue m = some m' ∧ Balanced n m' refs dying := by
  induction queue generalizing m with
  | nil => exact ⟨m, rfl, h⟩
  | cons segment rest ih =>
    have hcapacity := h.placed.capacity i _ hpool
    have hloose : (m.setPool i { pool with isDestroyed := true, exclusiveBuffers := rest }).Placed [segment] := by
      refine h.placed.setPool hpool (.refl _) ?_
      rw [length_cons] at hcapacity
      dsimp only at hcapacity ⊢
      omega
    have hcounted : (m.setPool i { pool with isDestroyed := true, exclusiveBuffers := rest }).Counted refs dying :=
      h.counted.of_controlBlock rfl rfl
    rcases hloose.recyclePooledBuffer (counter_of_loose hcounted hloose) with
      ⟨m₁, hrecycle, hplaced, hblocks, hbuffers, hpools⟩
    have hbalanced : Balanced n m₁ refs dying :=
      ⟨hbuffers.trans h.numOfBuffers, hcounted.of_controlBlock hblocks hbuffers, hplaced⟩
    have hpool₁ : m₁.fixedSizeBufferPools[i]? = some { pool with isDestroyed := true, exclusiveBuffers := rest } := by
      rw [hpools, setPool, List.getElem?_set_self (List.getElem?_eq_some_iff.1 hpool).1]
    rcases ih hbalanced hpool₁ with ⟨m₂, hdrain, hm₂⟩
    refine ⟨m₂, ?_, hm₂⟩
    rw [drainPool, hrecycle]
    exact hdrain

lemma destroyPool_spec {i : Nat} (h : m.Balanced n refs dying) (hi : i < m.fixedSizeBufferPools.length) :
    ∃ m', m.destroyPool i = some m' ∧ Balanced n m' refs dying := by
  have hpool : m.fixedSizeBufferPools[i]? = some m.fixedSizeBufferPools[i] := getElem?_eq_getElem hi
  rw [destroyPool, hpool]
  dsimp only
  by_cases hdestroyed : m.fixedSizeBufferPools[i].isDestroyed = true
  · rw [if_pos hdestroyed]
    exact ⟨m, rfl, h⟩
  · rw [if_neg hdestroyed]
    apply drainPool_spec
    · refine ⟨h.numOfBuffers, h.counted.of_controlBlock rfl rfl, ?_⟩
      have hcapacity := h.placed.capacity i _ hpool
      exact h.placed.setPool hpool (.refl _) hcapacity
    · rw [setPool, getElem?_set_self hi]

variable {recycler : BufferRecycler}

lemma dropRecycler_spec (h : m.Balanced n refs dying)
    (hrecycler : ∀ i, recycler = .fixedSizeBufferPool i → i < m.fixedSizeBufferPools.length) :
    ∃ m', m.dropRecycler recycler = some m' ∧ Balanced n m' refs dying := by
  cases recycler with
  | bufferManager => exact ⟨m, rfl, h⟩
  | fixedSizeBufferPool i =>
    have hi := hrecycler i rfl
    rw [dropRecycler, getElem?_eq_getElem hi]
    dsimp only
    split
    case isTrue => exact ⟨m, rfl, h⟩
    case isFalse => exact destroyPool_spec h hi

/-! ### Releasing a reference -/

lemma recycle_spec (hcounted : m.Counted refs dying) (hplaced : m.Placed [segment]) (hroom : m.RoomFor recycler) :
    ∃ m', m.recycle segment recycler = some m' ∧ Balanced m.numOfBuffers m' refs dying
      ∧ m'.fixedSizeBufferPools.length = m.fixedSizeBufferPools.length := by
  have hcounter := counter_of_loose hcounted hplaced
  rcases hplaced.recyclePooledBuffer hcounter with ⟨m₁, hrecycle, hplaced₁, hblocks, hbuffers, hpools⟩
  have hmanager : Balanced m.numOfBuffers m₁ refs dying :=
    ⟨hbuffers, hcounted.of_controlBlock hblocks hbuffers, hplaced₁⟩
  cases recycler with
  | bufferManager => exact ⟨m₁, hrecycle, hmanager, by rw [hpools]⟩
  | fixedSizeBufferPool i =>
    rcases hroom i rfl with ⟨pool, hpool, hlt⟩
    rw [recycle, recycleToPool, hpool]
    dsimp only
    by_cases hdestroyed : pool.isDestroyed = true
    · rw [if_pos hdestroyed]
      exact ⟨m₁, hrecycle, hmanager, by rw [hpools]⟩
    · rw [if_neg hdestroyed, if_pos (by simp [isAvailable, hcounter]), if_pos (by omega)]
      refine ⟨_, rfl, ⟨rfl, hcounted.of_controlBlock rfl rfl, ?_⟩, length_set ..⟩
      refine hplaced.setPool hpool ?_ ?_
      · exact perm_append_singleton segment pool.exclusiveBuffers |>.symm
      · rw [length_append, length_singleton]
        dsimp only
        omega

lemma giveBack_spec (h : m.Balanced n refs (insert segment dying)) (hdying : segment ∉ dying) :
    ∃ m', m.giveBack segment = some m' ∧ Balanced n m' refs dying := by
  have hbusy := h.counted.dying_busy segment (Finset.mem_insert_self _ _)
  have hlt := (h.counted.busy segment hbusy).1
  cases hrecycler : (m.controlBlock segment).owningBufferRecycler with
  | none => exact absurd hrecycler hbusy
  | some recycler =>
    let idle : BufferControlBlock → BufferControlBlock :=
      fun block => { block with children := [], owningBufferRecycler := none }
    have hcounted : (m.modifyBlock segment idle).Counted refs dying := h.counted.becomeIdle hdying
    have hplaced : (m.modifyBlock segment idle).Placed [segment] := h.placed.becomeLoose hlt hbusy rfl
    have hpool : ∀ i, recycler = .fixedSizeBufferPool i → i < m.fixedSizeBufferPools.length :=
      fun i hi => h.placed.recycler segment i (hi ▸ hrecycler)
    -- the segment itself was in flight, so the queue of its pool is not full
    have hroom : (m.modifyBlock segment idle).RoomFor recycler := by
      intro i hi
      have hget := getElem?_eq_getElem (hpool i hi)
      have hcapacity := h.placed.capacity i _ hget
      have hless : (m.modifyBlock segment idle).inFlight i < m.inFlight i :=
        Placed.inFlight_modifyBlock_lt (by simp [idle]) hlt (hi ▸ hrecycler)
      exact ⟨_, hget, by omega⟩
    rcases recycle_spec hcounted hplaced hroom with ⟨m₁, hrecycle, hbalanced, hpools⟩
    rcases dropRecycler_spec hbalanced (fun i hi => hpools.symm ▸ hpool i hi) with ⟨m₂, hdrop, hbalanced₂⟩
    refine ⟨m₂, ?_, h.numOfBuffers ▸ hbalanced₂⟩
    rw [giveBack, hrecycler]
    dsimp only
    rw [hrecycle]
    exact hdrop

lemma Counted.card_dying_lt (h : m.Counted (some segment :: refs) dying) : dying.card < m.numOfBuffers := by
  rcases h.inUse h.counter_pos with ⟨_, hlt, hdying⟩
  have hsub : insert segment dying ⊆ Finset.range m.numOfBuffers := by
    intro x hx
    rw [Finset.mem_range]
    rcases Finset.mem_insert.1 hx with rfl | hx
    · exact hlt
    · exact (h.busy x (h.dying_busy x hx)).1
  have hcard := Finset.card_le_card hsub
  rw [Finset.card_insert_of_notMem hdying, Finset.card_range] at hcard
  exact hcard

/-- The children of a segment that is being released are released one after the other. -/
lemma release_children {release : BufferManager → SegmentId → Option BufferManager}
    (hrelease : ∀ m child refs, Balanced n m (some child :: refs) dying →
      ∃ m', release m child = some m' ∧ Balanced n m' refs dying)
    {children : List SegmentId} (h : m.Balanced n (children.map some ++ refs) dying) :
    ∃ m', children.foldlM release m = some m' ∧ Balanced n m' refs dying := by
  induction children generalizing m with
  | nil => exact ⟨m, rfl, h⟩
  | cons child rest ih =>
    rcases hrelease m child _ h with ⟨m₁, hm₁, hbalanced⟩
    rcases ih hbalanced with ⟨m₂, hm₂, hbalanced₂⟩
    refine ⟨m₂, ?_, hbalanced₂⟩
    rw [foldlM_cons, hm₁]
    exact hm₂

/-- Each level of the recursion has one more segment that is being released, and it never runs out of levels. -/
lemma releaseWithin_spec {depth : Nat} (h : m.Balanced n (some segment :: refs) dying)
    (hdepth : n ≤ depth + dying.card) :
    ∃ m', releaseWithin depth m segment = some m' ∧ Balanced n m' refs dying := by
  induction depth generalizing m segment refs dying with
  | zero =>
    have hlt := h.counted.card_dying_lt
    have hbuffers := h.numOfBuffers
    omega
  | succ depth ih =>
    have hdying := (h.counted.inUse h.counted.counter_pos).2.2
    rw [releaseWithin]
    split
    case h_1 hcounter => exact absurd hcounter h.counted.counter_pos.ne'
    case h_2 hcounter =>
      have hlast : Balanced n (m.setReferenceCounter segment 0)
          ((m.controlBlock segment).children.map some ++ refs) (insert segment dying) :=
        ⟨h.numOfBuffers, h.counted.release_last hcounter, h.placed.modifyBlock fun _ => rfl⟩
      have hdepth' : n ≤ depth + (insert segment dying).card := by
        rw [Finset.card_insert_of_notMem hdying]
        omega
      rcases release_children (fun _ _ _ hbalanced => ih hbalanced hdepth') hlast with ⟨m₁, hm₁, hbalanced⟩
      rcases giveBack_spec hbalanced hdying with ⟨m₂, hm₂, hbalanced₂⟩
      refine ⟨m₂, ?_, hbalanced₂⟩
      rw [hm₁]
      exact hm₂
    case h_3 k hcounter =>
      exact ⟨_, rfl, h.numOfBuffers, h.counted.release_shared hcounter, h.placed.modifyBlock fun _ => rfl⟩

lemma release_spec (h : m.Balanced n (some segment :: refs) ∅) :
    ∃ m', m.release segment = some m' ∧ Balanced n m' refs ∅ := by
  refine releaseWithin_spec h ?_
  rw [Finset.card_empty, h.numOfBuffers]
  exact le_refl n

end BufferManager
end MobilityNebula.Memory
