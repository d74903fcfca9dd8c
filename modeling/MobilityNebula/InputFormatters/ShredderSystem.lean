import MobilityNebula.Library.Spans
import MobilityNebula.Library.TransitionSystem
import MobilityNebula.InputFormatters.SequenceShredder

/-!
# ShredderSystem — threads that share one sequence shredder

Each raw buffer is processed by some thread: it asks `isInRange`, and once the answer was yes it calls
`processSequenceNumber`.  That call is two atomic steps, `beginCall` (the first locked section together
with the search on the snapshot, which nobody else can influence) and `endCall` (the second locked
section).  A run is any list of such events; an event that is not enabled, or whose code would run into
undefined behaviour, an endless loop or a failed `INVARIANT`, has no next state.
-/

namespace MobilityNebula.InputFormatters

open Library SequenceShredder

/-! ## The input -/

/-- What the callers of the shredder announce: for each sequence number whether the buffer has a
delimiter, and the staged buffer itself. -/
structure ShredderInput where
  sizeOfTupleDelimiter : Nat
  hasTupleDelimiter : Nat → Bool
  stagedBuffer : Nat → StagedBuffer

/-- The raw buffers of a source: a staged buffer refers to the raw buffer it was made from. -/
structure RawBuffers extends ShredderInput where
  ownsBuffer : ∀ sn, ∃ b, (stagedBuffer sn).buffer = some b ∧ b.sequenceNumber = sn

instance : Coe RawBuffers ShredderInput := ⟨RawBuffers.toShredderInput⟩

namespace ShredderInput

variable (raw : ShredderInput)

/-- The positions that delimit tuples: the buffers with a delimiter and the implicit position 0 before
the first buffer. -/
def Mark (p : Nat) : Prop := p = 0 ∨ raw.hasTupleDelimiter p = true

instance : DecidablePred raw.Mark := fun _ => inferInstanceAs (Decidable (_ ∨ _))

/-- What is staged for position `p`; position 0 is staged by the constructor of the shredder. -/
def staged (p : Nat) : StagedBuffer :=
  if p = 0 then ⟨none, raw.sizeOfTupleDelimiter, 0, 0⟩ else raw.stagedBuffer p

lemma mark_zero : raw.Mark 0 := .inl rfl

lemma mark_iff_of_pos {p : Nat} (hp : 0 < p) : raw.Mark p ↔ raw.hasTupleDelimiter p = true := by
  simp [Mark, Nat.ne_of_gt hp]

lemma staged_of_pos {p : Nat} (hp : 0 < p) : raw.staged p = raw.stagedBuffer p := by
  simp [staged, Nat.ne_of_gt hp]

end ShredderInput

/-! ## What a call reports -/

namespace ProcessSequenceNumberCall

variable (call : ProcessSequenceNumberCall)

def startIndex : Nat :=
  if call.spanningTuple.isStartValid then call.spanningTuple.spanStart else call.sequenceNumber

def endIndex : Nat :=
  if call.spanningTuple.isEndValid then call.spanningTuple.spanEnd else call.sequenceNumber

/-- The spanning tuples a call reports.  A buffer with a delimiter reports the tuple that ends in it and
the tuple that starts in it; a buffer without one only the tuple it is an inner part of. -/
def reportedSpans : List (Nat × Nat) :=
  if call.hasTupleDelimiter then
    (if call.spanningTuple.isStartValid then
      [(call.spanningTuple.spanStart, call.sequenceNumber)]
    else [])
    ++ (if call.spanningTuple.isEndValid then
      [(call.sequenceNumber, call.spanningTuple.spanEnd)]
    else [])
  else if call.spanningTuple.isStartValid && call.spanningTuple.isEndValid then
    [(call.spanningTuple.spanStart, call.spanningTuple.spanEnd)]
  else
    []

/-- The call hands out buffers: always for a buffer with a delimiter, else if it completed a tuple. -/
def returnsBuffers : Bool :=
  call.hasTupleDelimiter
    || (call.spanningTuple.isStartValid && call.spanningTuple.isEndValid)

end ProcessSequenceNumberCall

/-- The buffers a call should return: those staged for its stretch of positions, in order. -/
def ShredderInput.buffersOf (raw : ShredderInput) (call : ProcessSequenceNumberCall) : SpanningTupleBuffers :=
  if call.returnsBuffers then
    ⟨call.sequenceNumber - call.startIndex,
      (indicesOfSpan call.startIndex call.endIndex).map raw.staged⟩
  else
    ⟨0, []⟩

/-! ## The system -/

/-- The shredder together with what its callers know. -/
structure ShredderSystem where
  shredder : SequenceShredder
  /-- The sequence numbers for which `isInRange` returned true. -/
  inRange : List Nat
  /-- The sequence numbers whose first locked section is over, the latest first. -/
  entered : List Nat
  inFlight : List ProcessSequenceNumberCall
  returned : List (ProcessSequenceNumberCall × SpanningTupleBuffers)

inductive ShredderEvent where
  | isInRange (sn : Nat)
  | beginCall (sn : Nat)
  | endCall (sn : Nat)
  deriving DecidableEq, Repr

namespace ShredderSystem

def initial (raw : ShredderInput) : ShredderSystem where
  shredder := create raw.sizeOfTupleDelimiter initialNumBitmaps
  inRange := []
  entered := []
  inFlight := []
  returned := []

variable (sys : ShredderSystem)

/-- A call may begin once, and only after `isInRange` returned true; it may end while it is in flight. -/
def Enabled : ShredderEvent → Prop
  | .isInRange _ => True
  | .beginCall sn => 0 < sn ∧ sn ∈ sys.inRange ∧ sn ∉ sys.entered
  | .endCall sn => ∃ call ∈ sys.inFlight, call.sequenceNumber = sn

def askInRange (sn : Nat) : ShredderSystem :=
  let (shredder, isInRange) := sys.shredder.isInRange sn
  { sys with
    shredder := shredder
    inRange := if isInRange then sn :: sys.inRange else sys.inRange }

def beginCall (raw : ShredderInput) (sys : ShredderSystem) (sn : Nat) : Option ShredderSystem := do
  let (shredder, call) ←
    sys.shredder.beginProcessSequenceNumber (raw.hasTupleDelimiter sn) (raw.stagedBuffer sn) sn
  some { sys with
    shredder := shredder
    entered := sn :: sys.entered
    inFlight := call :: sys.inFlight }

def endCall (call : ProcessSequenceNumberCall) : Option ShredderSystem := do
  let (shredder, buffers) ← sys.shredder.endProcessSequenceNumber call
  some { sys with
    shredder := shredder
    inFlight := sys.inFlight.erase call
    returned := (call, buffers) :: sys.returned }

def step (raw : ShredderInput) (sys : ShredderSystem) : ShredderEvent → Option ShredderSystem
  | .isInRange sn => some (sys.askInRange sn)
  | .beginCall sn =>
    if 0 < sn ∧ sn ∈ sys.inRange ∧ sn ∉ sys.entered then sys.beginCall raw sn else none
  | .endCall sn =>
    match sys.inFlight.find? (fun call => decide (call.sequenceNumber = sn)) with
    | some call => sys.endCall call
    | none => none

variable {sys}
variable {raw : ShredderInput} {sys' : ShredderSystem}

lemma beginCall_eq_some {sn : Nat} (h : sys.beginCall raw sn = some sys') :
    ∃ shredder call, call.sequenceNumber = sn ∧ sys' = { sys with
        shredder := shredder
        entered := sn :: sys.entered
        inFlight := call :: sys.inFlight } := by
  simp only [beginCall, beginProcessSequenceNumber, Option.bind_eq_bind, Option.bind_eq_some_iff, Option.some_inj] at h
  rcases h with ⟨⟨shredder, call⟩, ⟨found, _, hcall⟩, rfl⟩
  rw [Prod.mk.injEq] at hcall
  exact ⟨shredder, call, by rw [← hcall.2], rfl⟩

lemma endCall_eq_some {call : ProcessSequenceNumberCall} (h : sys.endCall call = some sys') : ∃ shredder buffers,
      sys' = { sys with
        shredder := shredder
        inFlight := sys.inFlight.erase call
        returned := (call, buffers) :: sys.returned } := by
  simp only [endCall, Option.bind_eq_bind, Option.bind_eq_some_iff, Option.some_inj] at h
  rcases h with ⟨⟨shredder, buffers⟩, _, rfl⟩
  exact ⟨shredder, buffers, rfl⟩

def run (raw : ShredderInput) (events : List ShredderEvent) : Option ShredderSystem :=
  runFrom (step raw) (initial raw) events

/-- The sequence numbers in the order in which their calls enter the shredder, the latest first. -/
def arrivals (events : List ShredderEvent) : List Nat :=
  (events.filterMap fun event =>
    match event with
    | .beginCall sn => some sn
    | _ => none).reverse

lemma entered_of_step {event : ShredderEvent}
    (h : sys.step raw event = some sys') : sys'.entered = arrivals [event] ++ sys.entered := by
  cases event with
  | isInRange sn =>
    simp only [step, Option.some_inj] at h
    rw [← h]
    rfl
  | beginCall sn =>
    simp only [step] at h
    split at h
    case isTrue =>
      rcases beginCall_eq_some h with ⟨shredder, call, _, rfl⟩
      rfl
    case isFalse => cases h
  | endCall sn =>
    simp only [step] at h
    split at h
    case h_1 call _ =>
      rcases endCall_eq_some h with ⟨shredder, buffers, rfl⟩
      rfl
    case h_2 => cases h

lemma entered_of_run {events : List ShredderEvent} (h : run raw events = some sys) : sys.entered = arrivals events := by
  have hgeneral : ∀ (events : List ShredderEvent) (s t : ShredderSystem),
      runFrom (step raw) s events = some t → t.entered = arrivals events ++ s.entered := by
    intro events
    induction events with
    | nil =>
      intro s t hrun
      have hst : s = t := by simpa using hrun
      rw [hst]
      rfl
    | cons event rest ih =>
      intro s t hrun
      rcases runFrom_cons_eq_some.1 hrun with ⟨s', hstep, hrest⟩
      rw [ih s' t hrest, entered_of_step hstep, ← List.append_assoc]
      congr 1
      rw [arrivals, arrivals, arrivals, ← List.reverse_append, ← List.filterMap_append]
      rfl
  rw [hgeneral events (initial raw) sys h]
  exact List.append_nil _

def seen (sys : ShredderSystem) : List Nat := sys.entered ++ [0]

def returnedCalls (sys : ShredderSystem) : List ProcessSequenceNumberCall :=
  sys.returned.map Prod.fst

def reported (sys : ShredderSystem) : List (Nat × Nat) :=
  sys.returnedCalls.flatMap ProcessSequenceNumberCall.reportedSpans

/-- Position `d` was reported as the start of a spanning tuple. -/
def Used (sys : ShredderSystem) (d : Nat) : Prop := ∃ e, (d, e) ∈ sys.reported

end ShredderSystem

end MobilityNebula.InputFormatters
