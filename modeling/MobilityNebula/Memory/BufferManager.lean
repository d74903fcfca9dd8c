import MobilityNebula.Library.TransitionSystem

/-!
# BufferManager — pooled memory segments and their reference counts

The buffer manager owns a fixed number of memory segments.  A segment that nobody uses lies in the queue of the
manager or in the queue of a fixed-size pool; a segment in use is referred to by `TupleBuffer` handles and by the
segments it was attached to as a child, and its control block counts these references.

Memory segments are numbered in the order of their creation.  A function has no result when an
`INVARIANT` or a `PRECONDITION` of the source fails, or when it throws `InvalidRefCountForBuffer`.
-/

namespace MobilityNebula.Memory

abbrev SegmentId := Nat

/-- Who takes a segment back. -/
inductive BufferRecycler where
  | bufferManager
  | fixedSizeBufferPool (pool : Nat)
  deriving DecidableEq, Repr

structure BufferControlBlock where
  /-- An `atomic<int32_t>`: there are less than `2 ^ 31` references to a segment. -/
  referenceCounter : Nat
  children : List SegmentId
  owningBufferRecycler : Option BufferRecycler
  deriving DecidableEq, Repr

structure FixedSizeBufferPool where
  exclusiveBuffers : List SegmentId
  numberOfReservedBuffers : Nat
  isDestroyed : Bool
  /-- Somebody other than the buffers in flight has a shared pointer to the pool. -/
  isHeld : Bool
  deriving DecidableEq, Repr

structure BufferManager where
  numOfBuffers : Nat
  availableBuffers : List SegmentId
  numOfAvailableBuffers : Int
  controlBlock : SegmentId → BufferControlBlock
  fixedSizeBufferPools : List FixedSizeBufferPool

namespace BufferManager

/-- The constructor: all segments are in the queue. -/
def create (numOfBuffers : Nat) : BufferManager where
  numOfBuffers := numOfBuffers
  availableBuffers := List.range numOfBuffers
  numOfAvailableBuffers := numOfBuffers
  controlBlock := fun _ => ⟨0, [], none⟩
  fixedSizeBufferPools := []

variable (m : BufferManager)

/-! ## Control blocks -/

variable (segment : SegmentId)

def modifyBlock (f : BufferControlBlock → BufferControlBlock) : BufferManager :=
  { m with controlBlock := Function.update m.controlBlock segment (f (m.controlBlock segment)) }

def isAvailable : Bool := (m.controlBlock segment).referenceCounter = 0

def setReferenceCounter (n : Nat) : BufferManager :=
  m.modifyBlock segment fun block => { block with referenceCounter := n }

/-- `BufferControlBlock::prepare`; a caller to which it returns false throws `InvalidRefCountForBuffer`. -/
def prepare (recycler : BufferRecycler) (segment : SegmentId) : Option BufferManager :=
  if (m.controlBlock segment).referenceCounter = 0 then
    match (m.controlBlock segment).owningBufferRecycler with
    | none =>
      some (m.modifyBlock segment fun block =>
        { block with referenceCounter := 1, owningBufferRecycler := some recycler })
    | some _ => none -- INVARIANT
  else none

def retain : BufferManager :=
  m.modifyBlock segment fun block => { block with referenceCounter := block.referenceCounter + 1 }

/-! ## Taking a segment back -/

/-- A write to the queue of the manager; it is ignored if the queue is full. -/
def writeAvailable : BufferManager :=
  if m.availableBuffers.length < m.numOfBuffers then
    { m with availableBuffers := m.availableBuffers ++ [segment] }
  else m

def recyclePooledBuffer : Option BufferManager :=
  if m.isAvailable segment ∧ (m.controlBlock segment).owningBufferRecycler = none then
    let m := m.writeAvailable segment
    some { m with numOfAvailableBuffers := m.numOfAvailableBuffers + 1 }
  else none

variable (i : Nat)

def setPool (pool : FixedSizeBufferPool) : BufferManager :=
  { m with fixedSizeBufferPools := m.fixedSizeBufferPools.set i pool }

/-- `FixedSizeBufferPool::recyclePooledBuffer`.  The write to the queue of the pool is ignored if it is full. -/
def recycleToPool (segment : SegmentId) : Option BufferManager :=
  match m.fixedSizeBufferPools[i]? with
  | some pool =>
    if pool.isDestroyed then m.recyclePooledBuffer segment
    else if m.isAvailable segment then
      if pool.exclusiveBuffers.length < pool.numberOfReservedBuffers then
        some (m.setPool i { pool with exclusiveBuffers := pool.exclusiveBuffers ++ [segment] })
      else some m
    else none
  | none => none

def recycle : BufferRecycler → Option BufferManager
  | .bufferManager => m.recyclePooledBuffer segment
  | .fixedSizeBufferPool i => m.recycleToPool i segment

/-! ## The end of a fixed-size pool -/

/-- The loop of `FixedSizeBufferPool::destroy` over the resident segments. -/
def drainPool (i : Nat) (pool : FixedSizeBufferPool) : List SegmentId → BufferManager → Option BufferManager
  | [], m => some m
  | segment :: rest, m =>
    ((m.setPool i { pool with isDestroyed := true, exclusiveBuffers := rest }).recyclePooledBuffer segment).bind
      (drainPool i pool rest)

def destroyPool : Option BufferManager :=
  match m.fixedSizeBufferPools[i]? with
  | some pool =>
    if pool.isDestroyed then some m
    else drainPool i pool pool.exclusiveBuffers
      (m.setPool i { pool with isDestroyed := true })
  | none => none

/-- A segment that was taken from the pool is still in use. -/
def hasBuffersInFlight : Bool :=
  (List.range m.numOfBuffers).any fun segment =>
    (m.controlBlock segment).owningBufferRecycler = some (.fixedSizeBufferPool i)

/-- A shared pointer to a recycler goes away: the destructor of a pool destroys it. -/
def dropRecycler : BufferRecycler → Option BufferManager
  | .bufferManager => some m
  | .fixedSizeBufferPool i =>
    match m.fixedSizeBufferPools[i]? with
    | some pool => if pool.isHeld || m.hasBuffersInFlight i then some m else m.destroyPool i
    | none => none

/-! ## Releasing a reference -/

/-- The end of the last `release`: forget the children, give up the recycler and let it take the segment. -/
def giveBack : Option BufferManager :=
  match (m.controlBlock segment).owningBufferRecycler with
  | some recycler =>
    ((m.modifyBlock segment fun block => { block with children := [], owningBufferRecycler := none }).recycle
      segment recycler).bind fun m => m.dropRecycler recycler
  | none => none -- the callback would be called with a null recycler

/-- `BufferControlBlock::release` with a bound on the depth of the recursion over the children. -/
def releaseWithin : Nat → BufferManager → SegmentId → Option BufferManager
  | 0, _, _ => none
  | depth + 1, m, segment =>
    match (m.controlBlock segment).referenceCounter with
    | 0 => none -- INVARIANT
    | 1 => do
      let m ← (m.controlBlock segment).children.foldlM (releaseWithin depth) (m.setReferenceCounter segment 0)
      m.giveBack segment
    | n + 2 => some (m.setReferenceCounter segment (n + 1))

/-- `BufferControlBlock::release`.  No segment is released again while it is being released, so the recursion is
never deeper than there are segments. -/
def release : Option BufferManager := releaseWithin m.numOfBuffers m segment

/-! ## Getting a buffer -/

/-- The common body of the functions that take a segment from the queue of the manager. -/
def readBuffer : Option (BufferManager × Option SegmentId) :=
  match m.availableBuffers with
  | [] => some (m, none)
  | segment :: rest =>
    let m := { m with availableBuffers := rest, numOfAvailableBuffers := m.numOfAvailableBuffers - 1 }
    (m.prepare .bufferManager segment).map fun m => (m, some segment)

def getBufferNoBlocking : Option (BufferManager × Option SegmentId) := m.readBuffer

def getBufferWithTimeout : Option (BufferManager × Option SegmentId) := m.readBuffer

/-- The handle is copied out of the optional, which then is destroyed.  Without a buffer the function throws
`BufferAllocationFailure`. -/
def getBufferBlocking : Option (BufferManager × Option SegmentId) :=
  m.getBufferWithTimeout.bind fun
    | (m, some segment) => ((m.retain segment).release segment).map fun m => (m, some segment)
    | (m, none) => some (m, none)

/-- The common body of the functions that take a segment from the queue of a pool. -/
def readPoolBuffer : Option (BufferManager × Option SegmentId) :=
  match m.fixedSizeBufferPools[i]? with
  | some pool =>
    match pool.exclusiveBuffers with
    | [] => some (m, none)
    | segment :: rest =>
      let m := m.setPool i { pool with exclusiveBuffers := rest }
      (m.prepare (.fixedSizeBufferPool i) segment).map fun m => (m, some segment)
  | none => none

def getPoolBufferWithTimeout : Option (BufferManager × Option SegmentId) := m.readPoolBuffer i

def getPoolBufferBlocking : Option (BufferManager × Option SegmentId) := m.readPoolBuffer i

/-! ## Creating a fixed-size pool -/

/-- The constructor of the pool checks each segment. -/
def canBeExclusive : Bool :=
  m.isAvailable segment && (m.controlBlock segment).owningBufferRecycler = none

/-- Without enough buffers, and for a pool without buffers (its queue cannot be constructed), nothing happens. -/
def createFixedSizeBufferPool (numberOfReservedBuffers : Nat) : Option BufferManager :=
  if m.availableBuffers.length < numberOfReservedBuffers ∨ numberOfReservedBuffers = 0 then some m
  else
    let buffers := m.availableBuffers.take numberOfReservedBuffers
    if buffers.all m.canBeExclusive then
      some { m with
        availableBuffers := m.availableBuffers.drop numberOfReservedBuffers
        numOfAvailableBuffers := m.numOfAvailableBuffers - numberOfReservedBuffers
        fixedSizeBufferPools := m.fixedSizeBufferPools ++ [⟨buffers, numberOfReservedBuffers, false, true⟩] }
    else none

/-! ## Children -/

def storeChildBuffer (parent child : SegmentId) : BufferManager :=
  (m.retain child).modifyBlock parent fun block => { block with children := block.children ++ [child] }

/-- `BufferControlBlock::loadChildBuffer`; its index has 16 bits. -/
def loadChildBuffer (parent : SegmentId) (index : Nat) : Option (BufferManager × SegmentId) :=
  ((m.controlBlock parent).children[index % 2 ^ 16]?).map fun child => (m.retain child, child)

end BufferManager

/-! ## Handles -/

/-- The buffer manager and all `TupleBuffer` objects; a handle without a control block is `none`. -/
structure BufferSystem where
  manager : BufferManager
  tupleBuffers : List (Option SegmentId)

inductive BufferEvent where
  | getBufferBlocking
  | getBufferNoBlocking
  | getBufferWithTimeout
  | getPoolBufferBlocking (pool : Nat)
  | getPoolBufferWithTimeout (pool : Nat)
  | copyConstruct (other : Nat)
  | copyAssign (buffer other : Nat)
  | moveConstruct (other : Nat)
  | moveAssign (buffer other : Nat)
  | release (buffer : Nat)
  | destruct (buffer : Nat)
  | storeChildBuffer (parent child : Nat)
  | loadChildBuffer (parent index : Nat)
  | createFixedSizeBufferPool (numberOfReservedBuffers : Nat)
  | destroyPool (pool : Nat)
  /-- The last shared pointer that is not in a control block goes away. -/
  | dropPool (pool : Nat)
  deriving DecidableEq, Repr

namespace BufferSystem

def initial (numOfBuffers : Nat) : BufferSystem := ⟨BufferManager.create numOfBuffers, []⟩

variable (s : BufferSystem)

def returned : Option (BufferManager × Option SegmentId) → Option BufferSystem
  | some (m, some segment) => some ⟨m, s.tupleBuffers ++ [some segment]⟩
  | some (m, none) => some ⟨m, s.tupleBuffers⟩
  | none => none

def retainHandle (m : BufferManager) : Option SegmentId → BufferManager
  | some segment => m.retain segment
  | none => m

def releaseHandle (m : BufferManager) : Option SegmentId → Option BufferManager
  | some segment => m.release segment
  | none => some m

def step : BufferEvent → Option BufferSystem
  | .getBufferBlocking => s.returned s.manager.getBufferBlocking
  | .getBufferNoBlocking => s.returned s.manager.getBufferNoBlocking
  | .getBufferWithTimeout => s.returned s.manager.getBufferWithTimeout
  | .getPoolBufferBlocking i => s.returned (s.manager.getPoolBufferBlocking i)
  | .getPoolBufferWithTimeout i => s.returned (s.manager.getPoolBufferWithTimeout i)
  | .copyConstruct j =>
    s.tupleBuffers[j]?.map fun other => ⟨retainHandle s.manager other, s.tupleBuffers ++ [other]⟩
  | .copyAssign i j =>
    match s.tupleBuffers[i]?, s.tupleBuffers[j]? with
    | some old, some other =>
      if old = other then some s
      else (releaseHandle (retainHandle s.manager other) old).map fun m => ⟨m, s.tupleBuffers.set i other⟩
    | _, _ => none
  | .moveConstruct j =>
    s.tupleBuffers[j]?.map fun other => ⟨s.manager, s.tupleBuffers.set j none ++ [other]⟩
  | .moveAssign i j =>
    match s.tupleBuffers[i]?, s.tupleBuffers[j]? with
    | some old, some other => some ⟨s.manager, (s.tupleBuffers.set i other).set j old⟩
    | _, _ => none
  | .release i =>
    s.tupleBuffers[i]?.bind fun buffer =>
      (releaseHandle s.manager buffer).map fun m => ⟨m, s.tupleBuffers.set i none⟩
  | .destruct i =>
    s.tupleBuffers[i]?.bind fun buffer =>
      (releaseHandle s.manager buffer).map fun m => ⟨m, s.tupleBuffers.eraseIdx i⟩
  | .storeChildBuffer i j =>
    match s.tupleBuffers[i]?, s.tupleBuffers[j]? with
    | some (some parent), some (some child) =>
      if parent = child then none -- INVARIANT
      -- the handle is swapped with an empty one, whose destructor releases the reference of the handle
      else ((s.manager.storeChildBuffer parent child).release child).map fun m =>
        ⟨m, s.tupleBuffers.set j none⟩
    | _, _ => none
  | .loadChildBuffer i index =>
    match s.tupleBuffers[i]? with
    | some (some parent) =>
      (s.manager.loadChildBuffer parent index).map fun (m, child) => ⟨m, s.tupleBuffers ++ [some child]⟩
    | _ => none
  | .createFixedSizeBufferPool n =>
    (s.manager.createFixedSizeBufferPool n).map fun m => ⟨m, s.tupleBuffers⟩
  | .destroyPool i => (s.manager.destroyPool i).map fun m => ⟨m, s.tupleBuffers⟩
  | .dropPool i =>
    match s.manager.fixedSizeBufferPools[i]? with
    | some pool =>
      ((s.manager.setPool i { pool with isHeld := false }).dropRecycler (.fixedSizeBufferPool i)).map fun m =>
        ⟨m, s.tupleBuffers⟩
    | none => none

/-- A pool that is used directly has to be held by its user. -/
def holdsPool (i : Nat) : Bool := s.manager.fixedSizeBufferPools[i]?.any FixedSizeBufferPool.isHeld

def canAttach (i j : Nat) : Bool :=
  match s.tupleBuffers[i]?, s.tupleBuffers[j]? with
  | some (some parent), some (some child) => parent ≠ child
  | _, _ => false

def hasChild (i index : Nat) : Bool :=
  match s.tupleBuffers[i]? with
  | some (some parent) => index % 2 ^ 16 < (s.manager.controlBlock parent).children.length
  | _ => false

/-- What the callers are responsible for: handles and pools exist, a buffer is not attached to itself, and the
index of a child is in range. -/
def Enabled : BufferEvent → Prop
  | .getBufferBlocking | .getBufferNoBlocking | .getBufferWithTimeout => True
  | .getPoolBufferBlocking i | .getPoolBufferWithTimeout i => s.holdsPool i = true
  | .copyConstruct j => j < s.tupleBuffers.length
  | .copyAssign i j => i < s.tupleBuffers.length ∧ j < s.tupleBuffers.length
  | .moveConstruct j => j < s.tupleBuffers.length
  | .moveAssign i j => i < s.tupleBuffers.length ∧ j < s.tupleBuffers.length
  | .release i => i < s.tupleBuffers.length
  | .destruct i => i < s.tupleBuffers.length
  | .storeChildBuffer i j => s.canAttach i j = true
  | .loadChildBuffer i index => s.hasChild i index = true
  | .createFixedSizeBufferPool _ => True
  | .destroyPool i => s.holdsPool i = true
  | .dropPool i => s.holdsPool i = true

instance : ∀ event, Decidable (s.Enabled event)
  | .getBufferBlocking | .getBufferNoBlocking | .getBufferWithTimeout | .createFixedSizeBufferPool _ =>
    inferInstanceAs (Decidable True)
  | .copyConstruct _ | .moveConstruct _ | .release _ | .destruct _ => inferInstanceAs (Decidable (_ < _))
  | .copyAssign _ _ | .moveAssign _ _ => inferInstanceAs (Decidable (_ ∧ _))
  | .getPoolBufferBlocking _ | .getPoolBufferWithTimeout _ | .storeChildBuffer _ _ | .loadChildBuffer _ _
  | .destroyPool _ | .dropPool _ => inferInstanceAs (Decidable (_ = true))

variable {s}

lemma exists_of_holdsPool {i : Nat} (h : s.holdsPool i = true) :
    ∃ pool, s.manager.fixedSizeBufferPools[i]? = some pool := by
  rw [holdsPool] at h
  cases hpool : s.manager.fixedSizeBufferPools[i]? with
  | none => exact absurd h (by simp [hpool])
  | some pool => exact ⟨pool, rfl⟩

lemma exists_of_canAttach {i j : Nat} (h : s.canAttach i j = true) :
    ∃ parent child, s.tupleBuffers[i]? = some (some parent) ∧ s.tupleBuffers[j]? = some (some child)
      ∧ parent ≠ child := by
  rw [canAttach] at h
  split at h
  case h_1 parent child hparent hchild => exact ⟨parent, child, hparent, hchild, of_decide_eq_true h⟩
  case h_2 => cases h

lemma exists_of_hasChild {i index : Nat} (h : s.hasChild i index = true) :
    ∃ parent, s.tupleBuffers[i]? = some (some parent)
      ∧ index % 2 ^ 16 < (s.manager.controlBlock parent).children.length := by
  rw [hasChild] at h
  split at h
  case h_1 parent hparent => exact ⟨parent, hparent, of_decide_eq_true h⟩
  case h_2 => cases h

end BufferSystem
end MobilityNebula.Memory
