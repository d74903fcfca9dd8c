import MobilityNebula.Library.TransitionSystem

/-!
# PoolDestruction — destroying a fixed-size pool while buffers come back

`FixedSizeBufferPool::destroy` sets the flag and then empties the queue of the pool; `recyclePooledBuffer` reads
the flag and then writes to a queue.  The two are not one atomic step: a thread that read the flag before it was
set may write its segment to the queue of the pool after `destroy` has found it empty, and the second `destroy`
of the destructor returns at once.

No segment is lost as long as `destroy` finds the queue empty only when no such thread is left
(`destroysLast`, `destroyed_pool_is_empty`).
-/

namespace MobilityNebula.Memory

open Library Multiset

inductive DestroyPoint where
  | notCalled
  | readingQueue
  | returned
  deriving DecidableEq

/-- A pool, the queue of the buffer manager, and the threads that work on them. -/
structure PoolSystem (α : Type) where
  isDestroyed : Bool
  exclusiveBuffers : List α
  availableBuffers : List α
  inFlight : Multiset α
  /-- The segments whose `recyclePooledBuffer` has read the flag, with what it read. -/
  recycling : Multiset (α × Bool)
  destroy : DestroyPoint

inductive PoolEvent (α : Type) where
  | exchangeFlag
  | readQueue
  | readFlag (segment : α)
  | writeQueue (segment : α) (isDestroyed : Bool)

namespace PoolSystem

variable {α : Type} [DecidableEq α]

def initial (exclusiveBuffers availableBuffers : List α) (inFlight : Multiset α) : PoolSystem α :=
  ⟨false, exclusiveBuffers, availableBuffers, inFlight, 0, .notCalled⟩

variable (s : PoolSystem α)

/-- The atomic steps; `none` if no thread is at the step. -/
def step : PoolEvent α → Option (PoolSystem α)
  | .exchangeFlag =>
    if s.destroy = .notCalled then
      some { s with isDestroyed := true, destroy := if s.isDestroyed then .returned else .readingQueue }
    else none
  | .readQueue =>
    match s.destroy, s.exclusiveBuffers with
    | .readingQueue, memSegment :: rest =>
      some { s with exclusiveBuffers := rest, availableBuffers := s.availableBuffers ++ [memSegment] }
    | .readingQueue, [] => some { s with destroy := .returned }
    | _, _ => none
  | .readFlag segment =>
    if segment ∈ s.inFlight then
      some { s with inFlight := s.inFlight.erase segment, recycling := (segment, s.isDestroyed) ::ₘ s.recycling }
    else none
  | .writeQueue segment isDestroyed =>
    if (segment, isDestroyed) ∈ s.recycling then
      let s' := { s with recycling := s.recycling.erase (segment, isDestroyed) }
      some (if isDestroyed then { s' with availableBuffers := s.availableBuffers ++ [segment] }
        else { s' with exclusiveBuffers := s.exclusiveBuffers ++ [segment] })
    else none

/-- When `destroy` finds the queue empty, no thread stands between a flag it read as not set and its write. -/
def destroysLast : PoolEvent α → Prop
  | .readQueue => s.exclusiveBuffers = [] → ∀ segment, (segment, false) ∉ s.recycling
  | _ => True

def segments : Multiset α :=
  ↑s.exclusiveBuffers + ↑s.availableBuffers + s.inFlight + map Prod.fst s.recycling

omit [DecidableEq α] in
lemma coe_concat (l : List α) (x : α) : ((l ++ [x] : List α) : Multiset α) = l + {x} := (coe_add l [x]).symm

lemma segments_step {s s' : PoolSystem α} {event : PoolEvent α} (h : s.step event = some s') :
    s'.segments = s.segments := by
  revert h
  fun_cases step s event <;> rintro ⟨⟩
  case case1 => rfl
  case case3 memSegment rest hqueue _ =>
    simp only [segments, hqueue, coe_concat, ← cons_coe, ← singleton_add]
    abel
  case case4 => rfl
  case case6 segment hmem =>
    have hinFlight : s.inFlight = {segment} + s.inFlight.erase segment := by
      rw [singleton_add, cons_erase hmem]
    simp only [segments, map_cons]
    rw [← singleton_add segment]
    conv_rhs => rw [hinFlight]
    abel
  case case8 segment isDestroyed hmem s₁ =>
    have hmap : map Prod.fst s.recycling = {segment} + map Prod.fst (s.recycling.erase (segment, isDestroyed)) := by
      rw [singleton_add, ← map_cons Prod.fst (segment, isDestroyed), cons_erase hmem]
    cases isDestroyed with
    | true =>
      simp only [segments, hmap, s₁, if_true, coe_concat]
      abel
    | false =>
      simp only [segments, hmap, s₁, Bool.false_eq_true, if_false, coe_concat]
      abel

/-- The flag is set once `destroy` was called; once it has returned, the queue of the pool is empty, and no thread
is going to write to it. -/
structure IsDrained (s : PoolSystem α) : Prop where
  flag : s.destroy ≠ .notCalled → s.isDestroyed = true
  early : s.isDestroyed = true → s.destroy ≠ .notCalled
  queue : s.destroy = .returned → s.exclusiveBuffers = []
  threads : s.destroy = .returned → ∀ segment, (segment, false) ∉ s.recycling

lemma IsDrained.step {s s' : PoolSystem α} {event : PoolEvent α} (inv : s.IsDrained) (hlast : s.destroysLast event)
    (h : s.step event = some s') : s'.IsDrained := by
  revert h
  fun_cases PoolSystem.step s event <;> rintro ⟨⟩
  case case1 hcall =>
    have hflag : s.isDestroyed = false := by
      rw [Bool.eq_false_iff]
      exact fun hflag => inv.early hflag hcall
    simp only [hflag, Bool.false_eq_true, if_false]
    exact ⟨fun _ => rfl, by simp, by simp, by simp⟩
  case case3 memSegment rest hqueue hreading =>
    exact ⟨inv.flag, inv.early, fun hreturned => absurd (hreading.symm.trans hreturned) (by decide), inv.threads⟩
  case case4 hqueue hreading =>
    exact ⟨fun _ => inv.flag (by simp [hreading]), by simp, fun _ => hqueue, fun _ => hlast hqueue⟩
  case case6 segment hmem =>
    refine ⟨inv.flag, inv.early, inv.queue, fun hreturned segment' hmem' => ?_⟩
    rcases mem_cons.1 hmem' with heq | hmem'
    · -- the flag is set, so this thread did not read it as not set
      rw [inv.flag (ne_of_eq_of_ne hreturned (by decide))] at heq
      cases heq
    · exact inv.threads hreturned segment' hmem'
  case case8 segment isDestroyed hmem s₁ =>
    have hthreads : s.destroy = .returned → ∀ segment', (segment', false) ∉ s₁.recycling :=
      fun hreturned segment' hmem' => inv.threads hreturned segment' (mem_of_mem_erase hmem')
    cases isDestroyed with
    | true => exact ⟨inv.flag, inv.early, inv.queue, hthreads⟩
    | false => exact ⟨inv.flag, inv.early, fun hreturned => absurd hmem (inv.threads hreturned segment), hthreads⟩

/-- In every run in which `destroy` finds the queue empty only after the threads that read the flag as not set,
no segment is lost: once it has returned and all buffers are released, all segments are in the queue of the
buffer manager. -/
theorem destroyed_pool_is_empty {exclusiveBuffers availableBuffers : List α} {inFlight : Multiset α} {s : PoolSystem α}
    (h : Reachable (initial exclusiveBuffers availableBuffers inFlight) destroysLast step s)
    (hreturned : s.destroy = .returned) (hinFlight : s.inFlight = 0) (hrecycling : s.recycling = 0) :
    (s.availableBuffers : Multiset α) = exclusiveBuffers + availableBuffers + inFlight := by
  have hinv : s.IsDrained ∧ s.segments = exclusiveBuffers + availableBuffers + inFlight := by
    refine h.invariant (fun s => s.IsDrained ∧ s.segments = exclusiveBuffers + availableBuffers + inFlight) ?_ ?_
    · exact ⟨⟨by simp [initial], by simp [initial], by simp [initial], by simp [initial]⟩, by simp [segments, initial]⟩
    · rintro t event t' ⟨hdrained, hsegments⟩ hlast hstep
      exact ⟨hdrained.step hlast hstep, (segments_step hstep).trans hsegments⟩
  rw [← hinv.2, segments, hinv.1.queue hreturned, hinFlight, hrecycling]
  simp

/-- Segment 7 is in the pool; the thread of 8 reads the flag before `destroy` sets it, that of 9 after it has
returned. -/
theorem destroyed_pool_is_empty_three : ∃ s : PoolSystem Nat, Reachable (initial [7] [] {8, 9}) destroysLast step s ∧
      s.destroy = .returned ∧ (s.availableBuffers : Multiset Nat) = {7, 8, 9} := by
  have hflag : Reachable (initial [7] [] {8, 9}) destroysLast step
      (⟨true, [7, 8], [], {9}, 0, .readingQueue⟩ : PoolSystem Nat) :=
    ((Reachable.initial.extend (PoolEvent.readFlag 8) trivial rfl).extend PoolEvent.exchangeFlag trivial rfl).extend
      (PoolEvent.writeQueue 8 false) trivial rfl
  have hqueue : Reachable (initial [7] [] {8, 9}) destroysLast step
      (⟨true, [], [7, 8], {9}, 0, .readingQueue⟩ : PoolSystem Nat) :=
    (hflag.extend PoolEvent.readQueue (fun h => absurd h (List.cons_ne_nil _ _)) rfl).extend
      PoolEvent.readQueue (fun h => absurd h (List.cons_ne_nil _ _)) rfl
  have hlast := ((hqueue.extend PoolEvent.readQueue (fun _ _ => notMem_zero _) rfl).extend
    (PoolEvent.readFlag 9) trivial rfl).extend (PoolEvent.writeQueue 9 true) trivial rfl
  exact ⟨_, hlast, rfl, destroyed_pool_is_empty hlast rfl rfl rfl⟩

/-- The thread of segment 1 reads the flag before `destroy` sets it and writes after `destroy` has returned. -/
theorem segment_left_in_pool : ∃ s : PoolSystem Nat, runFrom step (initial [] [] {1})
        [.readFlag 1, .exchangeFlag, .readQueue, .writeQueue 1 false] = some s ∧
      s.destroy = .returned ∧ s.inFlight = 0 ∧ s.recycling = 0 ∧ s.availableBuffers = [] ∧ s.exclusiveBuffers = [1] :=
  ⟨_, rfl, rfl, rfl, rfl, rfl, rfl⟩

end PoolSystem

end MobilityNebula.Memory
