import Mathlib
import MobilityNebula.Library.Bits

/-!
# SequenceShredder — the bitmap ring that finds tuples spanning several raw buffers

Embedding of `SequenceShredder.cpp`.  A raw buffer is announced by its sequence number; the shredder
keeps two bits per buffer in a ring of 64-bit bitmaps (*has a tuple delimiter*, *seen and used*) and
hands the buffers of a spanning tuple to the thread whose buffer completed it.

`processSequenceNumber` takes the lock twice.  The embedding keeps that split:

1. `stageSequenceNumber` is the first locked section: it stages the buffer, sets the bit and takes
   the snapshot;
2. `findSpanningTuple` is the search that runs on the snapshot without the lock;
3. `checkSpanningTupleWithTupleDelimiter` and `checkSpanningTupleWithoutTupleDelimiter` hold the
   second locked section.

Sequence numbers are natural numbers.  The source computes with `uint64_t`: a shift by 64 or more
bits is undefined there, a wrapping loop may not end, and an index below zero wraps around.  All three
are `none` here, as is a failed `INVARIANT`, so that "the call returns" can be stated and proved.
A vector that is only indexed modulo its length is a function from indices.
-/

namespace MobilityNebula.InputFormatters

open Library Function

/-! ## Data model -/

/-- A reference-counted buffer: what the shredder and the formatter read of it. -/
structure TupleBuffer where
  sequenceNumber : Nat
  bytes : List UInt8
  deriving DecidableEq, Repr

/-- `buffer = none` is the empty wrapper around `nullptr`, also what a moved-from buffer becomes. -/
structure StagedBuffer where
  buffer : Option TupleBuffer
  sizeOfBufferInBytes : Nat
  offsetOfFirstTupleDelimiter : Nat
  offsetOfLastTupleDelimiter : Nat
  deriving DecidableEq, Repr

structure SpanningTupleBuffers where
  indexOfProcessedSequenceNumber : Nat
  stagedBuffers : List StagedBuffer
  deriving DecidableEq, Repr

structure SpanningTuple where
  spanStart : Nat
  spanEnd : Nat
  isStartValid : Bool
  isEndValid : Bool
  deriving DecidableEq, Repr

abbrev Bitmap := BitVec 64

def sizeOfBitmapInBits : Nat := 64
def initialNumBitmaps : Nat := 64
def bitmapSizeBitShift : Nat := 6
def bitmapSizeModulo : Nat := sizeOfBitmapInBits - 1
def maxValue : Bitmap := BitVec.allOnes 64
def firstBitMask : Bitmap := 1#64
def invalidSequenceNumber : Nat := 0
def maxNumberOfBitmaps : Nat := 2048
def minNumberOfResizeRequestsBeforeIncrementing : Nat := 5

structure SequenceShredder where
  tail : Nat
  tupleDelimiterBitmaps : Nat → Bitmap
  seenAndUsedBitmaps : Nat → Bitmap
  numberOfBitmaps : Nat
  numberOfBitmapsModulo : Nat
  resizeRequestCount : Nat
  stagedBuffers : Nat → StagedBuffer
  stagedBufferUses : Nat → Int

structure BitmapSnapshot where
  numberOfBitmapsModulo : Nat
  tupleDelimiterBitmapSnapshot : Bitmap
  seenAndUsedBitmapSnapshot : Bitmap

structure BitmapVectorSnapshot where
  tail : Nat
  numberOfBitmapsModulo : Nat
  tupleDelimiterVectorSnapshot : Nat → Bitmap
  seenAndUsedVectorSnapshot : Nat → Bitmap

/-- The snapshot variant: only the own bitmap in the common case, all bitmaps otherwise. -/
inductive Snapshot where
  | bitmap (snapshot : BitmapSnapshot)
  | bitmapVector (snapshot : BitmapVectorSnapshot)

inductive WrappingMode where
  | noWrapping
  | checkWrappingToLower
  | checkWrappingToHigher
  | checkWrappingToLowerAndHigher
  deriving DecidableEq, Repr

/-! ## Machine arithmetic -/

/-- `x << amount`, undefined from 64 bits on. -/
def shiftLeft? (x : Bitmap) (amount : Nat) : Option Bitmap :=
  if amount < sizeOfBitmapInBits then some (x <<< amount) else none

/-- `x >> amount`, undefined from 64 bits on. -/
def shiftRight? (x : Bitmap) (amount : Nat) : Option Bitmap :=
  if amount < sizeOfBitmapInBits then some (x >>> amount) else none

/-- `a - b` on sequence numbers and bit indices, where wrapping below zero leaves the modelled range. -/
def sub? (a b : Nat) : Option Nat :=
  if b ≤ a then some (a - b) else none

/-! ## Construction and range check -/

/-- The first constructor argument is the size of the tuple delimiter, the second the number of
bitmaps; the input formatter task always passes `initialNumBitmaps`. -/
def SequenceShredder.create (sizeOfTupleDelimiter numBitmaps : Nat) : SequenceShredder where
  tail := 0
  -- The buffer before the first one counts as a tuple delimiter that starts the first tuple.
  tupleDelimiterBitmaps := fun i => if i = 0 then 1#64 else 0#64
  seenAndUsedBitmaps := fun _ => 0#64
  numberOfBitmaps := numBitmaps
  numberOfBitmapsModulo := numBitmaps - 1
  resizeRequestCount := 0
  stagedBuffers := fun i =>
    { buffer := none
      sizeOfBufferInBytes := if i = 0 then sizeOfTupleDelimiter else 0
      offsetOfFirstTupleDelimiter := 0
      offsetOfLastTupleDelimiter := 0 }
  stagedBufferUses := fun i => if i = 0 then 1 else 0

namespace SequenceShredder

variable (s : SequenceShredder)

def stagedBuffersSize : Nat := s.numberOfBitmaps <<< bitmapSizeBitShift

def isInRange (sequenceNumber : Nat) : SequenceShredder × Bool :=
  let targetBitmap := sequenceNumber >>> bitmapSizeBitShift
  if targetBitmap < s.tail + s.numberOfBitmaps then
    (s, true)
  else
    ({ s with resizeRequestCount := s.resizeRequestCount + 1 }, false)

/-! ## First locked section -/

/-- Stage the buffer, set its bit, decide whether the search can leave the own bitmap and take the
snapshot it needs.  Returns the shredder, the snapshot and the two wrapping checks. -/
def stageSequenceNumber (hasTupleDelimiter : Bool)
    (stagedBufferOfSequenceNumber : StagedBuffer) (sequenceNumber : Nat) :
    SequenceShredder × Snapshot × Bool × Bool :=
  let sequenceNumberBitmapCount := sequenceNumber >>> bitmapSizeBitShift
  let sequenceNumberBitIndex := sequenceNumber &&& bitmapSizeModulo
  let sequenceNumberBit := firstBitMask <<< sequenceNumberBitIndex
  let lowerBitsMask := sequenceNumberBit - 1#64
  let higherBitsMask := maxValue ^^^ (lowerBitsMask ||| sequenceNumberBit)
  let sequenceNumberBufferPosition := sequenceNumber &&& (s.stagedBuffersSize - 1)
  let sequenceNumberBitmapIndex := sequenceNumberBitmapCount &&& s.numberOfBitmapsModulo
  let tupleDelimiterBitmaps :=
    if hasTupleDelimiter then
      update s.tupleDelimiterBitmaps sequenceNumberBitmapIndex
        (s.tupleDelimiterBitmaps sequenceNumberBitmapIndex ||| sequenceNumberBit)
    else
      s.tupleDelimiterBitmaps
  let seenAndUsedBitmaps :=
    if hasTupleDelimiter then
      s.seenAndUsedBitmaps
    else
      update s.seenAndUsedBitmaps sequenceNumberBitmapIndex
        (s.seenAndUsedBitmaps sequenceNumberBitmapIndex ||| sequenceNumberBit)
  let s' : SequenceShredder :=
    { s with
      stagedBuffers :=
        update s.stagedBuffers sequenceNumberBufferPosition stagedBufferOfSequenceNumber
      -- A buffer with a delimiter ends a tuple, starts a tuple and may hold full tuples.
      stagedBufferUses :=
        update s.stagedBufferUses sequenceNumberBufferPosition
          (if hasTupleDelimiter then 3 else 1)
      tupleDelimiterBitmaps := tupleDelimiterBitmaps
      seenAndUsedBitmaps := seenAndUsedBitmaps }
  let wrappingCheckBitmap :=
    (tupleDelimiterBitmaps sequenceNumberBitmapIndex
        ||| seenAndUsedBitmaps sequenceNumberBitmapIndex)
      ^^^ tupleDelimiterBitmaps sequenceNumberBitmapIndex
  let needToCheckForWrappingToLower :=
    decide (lowerBitsMask ||| wrappingCheckBitmap = wrappingCheckBitmap)
  let needToCheckForWrappingToHigher :=
    decide (higherBitsMask ||| wrappingCheckBitmap = wrappingCheckBitmap)
  let snapshot :=
    if needToCheckForWrappingToLower || needToCheckForWrappingToHigher then
      Snapshot.bitmapVector
        { tail := s.tail
          numberOfBitmapsModulo := s.numberOfBitmapsModulo
          tupleDelimiterVectorSnapshot := tupleDelimiterBitmaps
          seenAndUsedVectorSnapshot := seenAndUsedBitmaps }
    else
      Snapshot.bitmap
        { numberOfBitmapsModulo := s.numberOfBitmapsModulo
          tupleDelimiterBitmapSnapshot := tupleDelimiterBitmaps sequenceNumberBitmapIndex
          seenAndUsedBitmapSnapshot := seenAndUsedBitmaps sequenceNumberBitmapIndex }
  (s', snapshot, needToCheckForWrappingToLower, needToCheckForWrappingToHigher)

end SequenceShredder

/-! ## Searching the snapshot -/

variable (sequenceNumberBitIndex sequenceNumberBitmapOffset : Nat)

def tryGetSpanningTupleStart (tupleDelimiterBitmap seenAndUsedBitmap : Bitmap) : Option (Nat × Bool) := do
  let alignedSeenAndUsed ←
    shiftLeft? seenAndUsedBitmap (sizeOfBitmapInBits - sequenceNumberBitIndex)
  let offsetToClosestReachableTupleDelimiter := countlOne alignedSeenAndUsed
  let indexOfClosestReachableTupleDelimiter ←
    sub? sequenceNumberBitIndex (offsetToClosestReachableTupleDelimiter + 1)
  let bit ← shiftLeft? firstBitMask indexOfClosestReachableTupleDelimiter
  some (sequenceNumberBitmapOffset + indexOfClosestReachableTupleDelimiter,
    decide (bit &&& tupleDelimiterBitmap ≠ 0#64))

def tryGetSpanningTupleEnd (tupleDelimiterBitmap seenAndUsedBitmap : Bitmap) : Option (Nat × Bool) := do
  let onlySeenIsOne := seenAndUsedBitmap &&& ~~~tupleDelimiterBitmap
  let alignedSeenAndUsed ← shiftRight? onlySeenIsOne (sequenceNumberBitIndex + 1)
  let offsetToClosestReachableTupleDelimiter := countrOne alignedSeenAndUsed + 1
  let indexOfClosestReachableTupleDelimiter :=
    sequenceNumberBitIndex + offsetToClosestReachableTupleDelimiter
  let bit ← shiftLeft? firstBitMask indexOfClosestReachableTupleDelimiter
  some (sequenceNumberBitmapOffset + indexOfClosestReachableTupleDelimiter,
    decide (bit &&& tupleDelimiterBitmap ≠ 0#64))

def allBuffersSeenButNoDelimiter (snapshot : BitmapVectorSnapshot) (bitmapIndex : Nat) : Bool :=
  decide (snapshot.seenAndUsedVectorSnapshot bitmapIndex = maxValue)
    && decide (snapshot.tupleDelimiterVectorSnapshot bitmapIndex = 0#64)

/-- The wrapping loop: step from bitmap to bitmap (`next` maps the offset to the bitmap index) while
all buffers were seen without a delimiter.  Once the offset has gone through as many values as there
are bitmaps the loop repeats itself for ever, hence the fuel. -/
def skipBitmaps (snapshot : BitmapVectorSnapshot) (next : Nat → Nat) : Nat → Nat → Option (Nat × Nat)
  | 0, _ => none
  | fuel + 1, bitmapIndexOffset =>
    let bitmapIndexOffset := bitmapIndexOffset + 1
    let bitmapIndex := next bitmapIndexOffset
    if allBuffersSeenButNoDelimiter snapshot bitmapIndex then
      skipBitmaps snapshot next fuel bitmapIndexOffset
    else
      some (bitmapIndex, bitmapIndexOffset)

def tryToFindLowerWrappingSpanningTuple
    (sequenceNumberBitmapOffset currentBitmapIndex : Nat) (bitmapSnapshot : BitmapVectorSnapshot) :
    Option (Nat × Bool) := do
  let (bitmapIndex, bitmapIndexOffset) ←
    skipBitmaps bitmapSnapshot
      (fun offset => (currentBitmapIndex + 2 ^ 64 - offset) % 2 ^ 64
        &&& bitmapSnapshot.numberOfBitmapsModulo)
      (bitmapSnapshot.numberOfBitmapsModulo + 1) 0
  let potentialStart := countlOne (bitmapSnapshot.seenAndUsedVectorSnapshot bitmapIndex) + 1
  let indexOfClosestReachableTupleDelimiter ← sub? sizeOfBitmapInBits potentialStart
  let firstSequenceNumberOfBitmap ←
    sub? sequenceNumberBitmapOffset (bitmapIndexOffset <<< bitmapSizeBitShift)
  let bit ← shiftLeft? firstBitMask indexOfClosestReachableTupleDelimiter
  some (firstSequenceNumberOfBitmap + indexOfClosestReachableTupleDelimiter,
    decide (bit &&& bitmapSnapshot.tupleDelimiterVectorSnapshot bitmapIndex ≠ 0#64))

def tryToFindHigherWrappingSpanningTuple
    (sequenceNumberBitmapOffset currentBitmapIndex : Nat) (bitmapSnapshot : BitmapVectorSnapshot) :
    Option (Nat × Bool) := do
  let (bitmapIndex, bitmapIndexOffset) ←
    skipBitmaps bitmapSnapshot
      (fun offset => (currentBitmapIndex + offset) &&& bitmapSnapshot.numberOfBitmapsModulo)
      (bitmapSnapshot.numberOfBitmapsModulo + 1) 0
  let onlySeenIsOne :=
    bitmapSnapshot.seenAndUsedVectorSnapshot bitmapIndex
      &&& ~~~(bitmapSnapshot.tupleDelimiterVectorSnapshot bitmapIndex)
  let indexOfClosestReachableTupleDelimiter := countrOne onlySeenIsOne
  let bit ← shiftLeft? firstBitMask indexOfClosestReachableTupleDelimiter
  let isTupleDelimiter :=
    decide (bit &&& bitmapSnapshot.tupleDelimiterVectorSnapshot bitmapIndex ≠ 0#64)
  let tailBitmapIndex := bitmapSnapshot.tail &&& bitmapSnapshot.numberOfBitmapsModulo
  let isNotTailBitmap := decide (bitmapIndex ≠ tailBitmapIndex)
  some (sequenceNumberBitmapOffset + (bitmapIndexOffset <<< bitmapSizeBitShift)
      + indexOfClosestReachableTupleDelimiter,
    isTupleDelimiter && isNotTailBitmap)

def wrappingModeOf (needToCheckForWrappingToLower needToCheckForWrappingToHigher : Bool) : WrappingMode :=
  match needToCheckForWrappingToLower, needToCheckForWrappingToHigher with
  | false, false => .noWrapping
  | true, false => .checkWrappingToLower
  | false, true => .checkWrappingToHigher
  | true, true => .checkWrappingToLowerAndHigher

/-- The `switch` over the wrapping modes.  A snapshot variant that does not fit the mode would throw
in `std::get`. -/
def findSpanningTuple (hasTupleDelimiter : Bool) (sequenceNumber : Nat) (snapshot : Snapshot)
    (wrappingMode : WrappingMode) : Option SpanningTuple :=
  let sequenceNumberBitmapCount := sequenceNumber >>> bitmapSizeBitShift
  let sequenceNumberBitmapOffset := sequenceNumberBitmapCount <<< bitmapSizeBitShift
  let sequenceNumberBitIndex := sequenceNumber &&& bitmapSizeModulo
  match wrappingMode, snapshot with
  | .noWrapping, .bitmap bitmapSnapshot => do
    let (spanningTupleStart, isStartValid) ←
      tryGetSpanningTupleStart sequenceNumberBitIndex sequenceNumberBitmapOffset
        bitmapSnapshot.tupleDelimiterBitmapSnapshot bitmapSnapshot.seenAndUsedBitmapSnapshot
    let (spanningTupleEnd, isEndValid) ←
      tryGetSpanningTupleEnd sequenceNumberBitIndex sequenceNumberBitmapOffset
        bitmapSnapshot.tupleDelimiterBitmapSnapshot bitmapSnapshot.seenAndUsedBitmapSnapshot
    some ⟨spanningTupleStart, spanningTupleEnd, isStartValid, isEndValid⟩
  | .checkWrappingToLower, .bitmapVector bitmapSnapshot => do
    let sequenceNumberBitmapIndex :=
      sequenceNumberBitmapCount &&& bitmapSnapshot.numberOfBitmapsModulo
    let (spanningTupleEnd, isEndValid) ←
      tryGetSpanningTupleEnd sequenceNumberBitIndex sequenceNumberBitmapOffset
        (bitmapSnapshot.tupleDelimiterVectorSnapshot sequenceNumberBitmapIndex)
        (bitmapSnapshot.seenAndUsedVectorSnapshot sequenceNumberBitmapIndex)
    if isEndValid || hasTupleDelimiter then
      let (spanningTupleStart, isStartValid) ←
        tryToFindLowerWrappingSpanningTuple sequenceNumberBitmapOffset sequenceNumberBitmapIndex
          bitmapSnapshot
      some ⟨spanningTupleStart, spanningTupleEnd, isStartValid, isEndValid⟩
    else
      some ⟨invalidSequenceNumber, spanningTupleEnd, false, isEndValid⟩
  | .checkWrappingToHigher, .bitmapVector bitmapSnapshot => do
    let sequenceNumberBitmapIndex :=
      sequenceNumberBitmapCount &&& bitmapSnapshot.numberOfBitmapsModulo
    let (spanningTupleStart, isStartValid) ←
      tryGetSpanningTupleStart sequenceNumberBitIndex sequenceNumberBitmapOffset
        (bitmapSnapshot.tupleDelimiterVectorSnapshot sequenceNumberBitmapIndex)
        (bitmapSnapshot.seenAndUsedVectorSnapshot sequenceNumberBitmapIndex)
    -- The source tests the sequence number of the start here, not whether the start is valid.
    if spanningTupleStart ≠ 0 || hasTupleDelimiter then
      let (spanningTupleEnd, isEndValid) ←
        tryToFindHigherWrappingSpanningTuple sequenceNumberBitmapOffset sequenceNumberBitmapIndex
          bitmapSnapshot
      some ⟨spanningTupleStart, spanningTupleEnd, isStartValid, isEndValid⟩
    else
      some ⟨spanningTupleStart, invalidSequenceNumber, isStartValid, false⟩
  | .checkWrappingToLowerAndHigher, .bitmapVector bitmapSnapshot => do
    let sequenceNumberBitmapIndex :=
      sequenceNumberBitmapCount &&& bitmapSnapshot.numberOfBitmapsModulo
    let (spanningTupleStart, isStartValid) ←
      tryToFindLowerWrappingSpanningTuple sequenceNumberBitmapOffset sequenceNumberBitmapIndex
        bitmapSnapshot
    -- As above: the sequence number stands where the validity flag is meant.
    if spanningTupleStart ≠ 0 || hasTupleDelimiter then
      let (spanningTupleEnd, isEndValid) ←
        tryToFindHigherWrappingSpanningTuple sequenceNumberBitmapOffset sequenceNumberBitmapIndex
          bitmapSnapshot
      some ⟨spanningTupleStart, spanningTupleEnd, isStartValid, isEndValid⟩
    else
      some ⟨spanningTupleStart, invalidSequenceNumber, isStartValid, false⟩
  | _, _ => none

def Snapshot.numberOfBitmapsModulo : Snapshot → Nat
  | .bitmap snapshot => snapshot.numberOfBitmapsModulo
  | .bitmapVector snapshot => snapshot.numberOfBitmapsModulo

/-! ## Second locked section -/

namespace SequenceShredder

/-- The loop of `incrementTail`: reset the completed tail bitmaps, move the tail and go on while the new
tail bitmaps are complete too.  Every round empties one more bitmap, so it ends after at most
`numberOfBitmaps` rounds.  Also returns whether the tail left the first bitmap of the ring. -/
def incrementTailLoop : Nat → SequenceShredder → Bool → Option (SequenceShredder × Bool)
  | 0, _, _ => none
  | fuel + 1, s, tailWrappedAround =>
    let tailBitmapIndex := s.tail &&& s.numberOfBitmapsModulo
    let s' : SequenceShredder :=
      { s with
        tupleDelimiterBitmaps := update s.tupleDelimiterBitmaps tailBitmapIndex 0#64
        seenAndUsedBitmaps := update s.seenAndUsedBitmaps tailBitmapIndex 0#64
        tail := s.tail + 1 }
    let tailWrappedAround := tailWrappedAround || decide (tailBitmapIndex = 0)
    if s'.seenAndUsedBitmaps (s'.tail &&& s'.numberOfBitmapsModulo) = maxValue then
      incrementTailLoop fuel s' tailWrappedAround
    else
      some (s', tailWrappedAround)

/-- `std::vector::resize`: keep what is there, value-initialise the rest. -/
def resize {α : Type} (oldSize : Nat) (initial : α) (vector : Nat → α) : Nat → α :=
  fun i => if i < oldSize then vector i else initial

variable (s : SequenceShredder)

def doubleNumberOfBitmaps : SequenceShredder :=
  let nextNumberOfBitmaps := s.numberOfBitmaps <<< 1
  { s with
    numberOfBitmaps := nextNumberOfBitmaps
    numberOfBitmapsModulo := nextNumberOfBitmaps - 1
    tupleDelimiterBitmaps := resize s.numberOfBitmaps 0#64 s.tupleDelimiterBitmaps
    seenAndUsedBitmaps := resize s.numberOfBitmaps 0#64 s.seenAndUsedBitmaps
    stagedBuffers := resize s.stagedBuffersSize ⟨none, 0, 0, 0⟩ s.stagedBuffers
    stagedBufferUses := resize s.stagedBuffersSize 0 s.stagedBufferUses
    resizeRequestCount := 0 }

def incrementTail : Option SequenceShredder := do
  let (s, tailWrappedAround) ← incrementTailLoop s.numberOfBitmaps s false
  let tailBitmapIndex := s.tail &&& s.numberOfBitmapsModulo
  let isResizeRequestCountLimitReached :=
    decide (minNumberOfResizeRequestsBeforeIncrementing ≤ s.resizeRequestCount)
  let nextNumberOfBitmaps := s.numberOfBitmaps <<< 1
  let nextSizePreservesPlacementsOfTail :=
    decide (s.tail &&& (nextNumberOfBitmaps - 1) = tailBitmapIndex)
  let isResizeInAllowedRange := decide (nextNumberOfBitmaps ≤ maxNumberOfBitmaps)
  if (isResizeRequestCountLimitReached && tailWrappedAround)
      && (nextSizePreservesPlacementsOfTail && isResizeInAllowedRange) then
    some s.doubleNumberOfBitmaps
  else
    some s

/-- One round of the loops that collect the buffers of a spanning tuple: take `uses` uses of the staged
buffer.  The last use moves the buffer out of the ring. -/
def takeStagedBuffer (position : Nat) (uses : Int) : SequenceShredder × StagedBuffer :=
  let newUses := s.stagedBufferUses position - uses
  let returnBuffer := s.stagedBuffers position
  ({ s with
      stagedBufferUses := update s.stagedBufferUses position newUses
      stagedBuffers :=
        if newUses = 0 then
          update s.stagedBuffers position { returnBuffer with buffer := none }
        else
          s.stagedBuffers },
    returnBuffer)

/-- Collect the staged buffers of a list of sequence numbers.  `usesOf` is the number of uses the round
takes, `isAllowed` the `INVARIANT` on the uses that remain. -/
def collectStagedBuffers (usesOf : Nat → Int) (isAllowed : Int → Bool) (stagedBufferSizeModulo : Nat) :
    List Nat → SequenceShredder → Option (SequenceShredder × List StagedBuffer)
  | [], s => some (s, [])
  | spanningTupleIndex :: rest, s => do
    let adjustedSpanningTupleIndex := spanningTupleIndex &&& stagedBufferSizeModulo
    let (s, returnBuffer) :=
      s.takeStagedBuffer adjustedSpanningTupleIndex (usesOf spanningTupleIndex)
    if isAllowed (s.stagedBufferUses adjustedSpanningTupleIndex) then
      let (s, returnBuffers) ←
        collectStagedBuffers usesOf isAllowed stagedBufferSizeModulo rest s
      some (s, returnBuffer :: returnBuffers)
    else
      none

/-- The sequence numbers `spanStart, …, spanEnd` of a counting loop. -/
def indicesOfSpan (spanStart spanEnd : Nat) : List Nat :=
  List.range' spanStart (spanEnd + 1 - spanStart)

def checkSpanningTupleWithoutTupleDelimiter (spanningTuple : SpanningTuple)
    (sequenceNumber numberOfBitmapsModuloSnapshot : Nat) :
    Option (SequenceShredder × SpanningTupleBuffers) := do
  let bitmapOfSpanningTupleStart := spanningTuple.spanStart >>> bitmapSizeBitShift
  let bitmapIndexOfSpanningTupleStart :=
    bitmapOfSpanningTupleStart &&& numberOfBitmapsModuloSnapshot
  let positionOfSpanningTupleStart := spanningTuple.spanStart &&& bitmapSizeModulo
  let validatedSpanningTupleStartBit := firstBitMask <<< positionOfSpanningTupleStart
  let numberOfBitmapsSnapshot := numberOfBitmapsModuloSnapshot + 1
  let stagedBufferSizeModulo := (numberOfBitmapsSnapshot <<< bitmapSizeBitShift) - 1
  let (s, spanningTupleBuffers) ←
    collectStagedBuffers (fun _ => 1) (fun _ => true) stagedBufferSizeModulo
      (indicesOfSpan spanningTuple.spanStart spanningTuple.spanEnd) s
  let s : SequenceShredder :=
    { s with
      seenAndUsedBitmaps :=
        update s.seenAndUsedBitmaps bitmapIndexOfSpanningTupleStart
          (s.seenAndUsedBitmaps bitmapIndexOfSpanningTupleStart
            ||| validatedSpanningTupleStartBit) }
  let completedBitmap := decide (s.seenAndUsedBitmaps bitmapIndexOfSpanningTupleStart = maxValue)
  let s ←
    (if completedBitmap && decide (bitmapOfSpanningTupleStart = s.tail) then
      s.incrementTail
    else
      some s)
  let sequenceNumberIndex ← sub? sequenceNumber spanningTuple.spanStart
  some (s, ⟨sequenceNumberIndex, spanningTupleBuffers⟩)

/-- Whether the slot still holds the caller's own buffer.  Asking a null buffer for its sequence number
would dereference `nullptr`. -/
def sequenceShredderStillOwnsBuffer (slot own : StagedBuffer) : Option Bool :=
  match slot.buffer, own.buffer with
  | none, _ => some false
  | some _, none => none
  | some slotBuffer, some ownBuffer =>
    some (decide (slotBuffer.sequenceNumber = ownBuffer.sequenceNumber))

def checkSpanningTupleWithTupleDelimiter (spanningTuple : SpanningTuple)
    (sequenceNumber numberOfBitmapsModuloSnapshot : Nat)
    (stagedBufferOfSequenceNumber : StagedBuffer) :
    Option (SequenceShredder × SpanningTupleBuffers) := do
  let bitmapOfSpanningTupleStart := spanningTuple.spanStart >>> bitmapSizeBitShift
  let bitmapIndexOfSpanningTupleStart :=
    bitmapOfSpanningTupleStart &&& numberOfBitmapsModuloSnapshot
  let positionOfSpanningTupleStart := spanningTuple.spanStart &&& bitmapSizeModulo
  let bitmapOfSequenceNumber := sequenceNumber >>> bitmapSizeBitShift
  let bitmapIndexOfSpanningSequenceNumber := bitmapOfSequenceNumber &&& numberOfBitmapsModuloSnapshot
  let positionOfSequenceNumber := sequenceNumber &&& bitmapSizeModulo
  let firstValidatedSpanningTupleStartBit :=
    (BitVec.ofBool spanningTuple.isStartValid).setWidth 64 <<< positionOfSpanningTupleStart
  let secondValidatedSpanningTupleStartBit :=
    (BitVec.ofBool spanningTuple.isEndValid).setWidth 64 <<< positionOfSequenceNumber
  let startIndex := if spanningTuple.isStartValid then spanningTuple.spanStart else sequenceNumber
  let endIndex := if spanningTuple.isEndValid then spanningTuple.spanEnd else sequenceNumber
  let usingBufferForLeadingSpanningTuple : Int := if startIndex < sequenceNumber then 1 else 0
  let usingBufferForTrailingSpanningTuple : Int := if sequenceNumber < endIndex then 1 else 0
  let numberOfBitmapsSnapshot := numberOfBitmapsModuloSnapshot + 1
  let stagedBufferSizeModulo := numberOfBitmapsSnapshot * sizeOfBitmapInBits - 1
  let minSequenceNumber := s.tail <<< bitmapSizeBitShift
  if sequenceNumber < minSequenceNumber then
    -- Two other threads completed both spanning tuples of this buffer and the tail has passed it.
    let adjustedSpanningTupleIndex := sequenceNumber &&& stagedBufferSizeModulo
    let slot := s.stagedBuffers adjustedSpanningTupleIndex
    let stillOwnsBuffer ← sequenceShredderStillOwnsBuffer slot stagedBufferOfSequenceNumber
    if stillOwnsBuffer then
      some ({ s with
          stagedBuffers :=
            update s.stagedBuffers adjustedSpanningTupleIndex
              { slot with buffer := none } },
        ⟨0, [slot]⟩)
    else
      some (s, ⟨0, [stagedBufferOfSequenceNumber]⟩)
  else
    let usesOf : Nat → Int := fun spanningTupleIndex =>
      if spanningTupleIndex ≠ sequenceNumber then
        1
      else
        1 + usingBufferForLeadingSpanningTuple + usingBufferForTrailingSpanningTuple
    let (s, returnBuffers) ←
      collectStagedBuffers usesOf (fun newUses => decide (0 ≤ newUses)) stagedBufferSizeModulo
        (indicesOfSpan startIndex endIndex) s
    let seenAndUsedBitmaps :=
      update s.seenAndUsedBitmaps bitmapIndexOfSpanningTupleStart
        (s.seenAndUsedBitmaps bitmapIndexOfSpanningTupleStart
          ||| firstValidatedSpanningTupleStartBit)
    let seenAndUsedBitmaps :=
      update seenAndUsedBitmaps bitmapIndexOfSpanningSequenceNumber
        (seenAndUsedBitmaps bitmapIndexOfSpanningSequenceNumber
          ||| secondValidatedSpanningTupleStartBit)
    let s : SequenceShredder := { s with seenAndUsedBitmaps := seenAndUsedBitmaps }
    let firstSpanningTupleCompletedBitmap :=
      decide (s.seenAndUsedBitmaps bitmapIndexOfSpanningTupleStart = maxValue)
        && spanningTuple.isStartValid
    let secondSpanningTupleCompletedBitmap :=
      decide (s.seenAndUsedBitmaps bitmapIndexOfSpanningSequenceNumber = maxValue)
        && spanningTuple.isEndValid
    let firstSpanningTupleCompletedTailBitmap :=
      firstSpanningTupleCompletedBitmap && decide (bitmapOfSpanningTupleStart = s.tail)
    let secondSpanningTupleCompletedTailBitmap :=
      secondSpanningTupleCompletedBitmap && decide (bitmapOfSequenceNumber = s.tail)
    let s ←
      (if firstSpanningTupleCompletedTailBitmap || secondSpanningTupleCompletedTailBitmap then
        s.incrementTail
      else
        some s)
    let sequenceNumberIndex ← sub? sequenceNumber startIndex
    some (s, ⟨sequenceNumberIndex, returnBuffers⟩)

end SequenceShredder

/-! ## A call of `processSequenceNumber` -/

/-- The local variables of `processSequenceNumber` that are alive between its two locked sections. -/
structure ProcessSequenceNumberCall where
  sequenceNumber : Nat
  hasTupleDelimiter : Bool
  stagedBufferOfSequenceNumber : StagedBuffer
  spanningTuple : SpanningTuple
  numberOfBitmapsModuloSnapshot : Nat
  deriving DecidableEq, Repr

namespace SequenceShredder

variable (s : SequenceShredder)

/-- From the start of `processSequenceNumber` to the end of the search on the snapshot. -/
def beginProcessSequenceNumber (hasTupleDelimiter : Bool)
    (stagedBufferOfSequenceNumber : StagedBuffer) (sequenceNumber : Nat) :
    Option (SequenceShredder × ProcessSequenceNumberCall) := do
  let (s, snapshot, needToCheckForWrappingToLower, needToCheckForWrappingToHigher) :=
    s.stageSequenceNumber hasTupleDelimiter stagedBufferOfSequenceNumber sequenceNumber
  let spanningTuple ←
    findSpanningTuple hasTupleDelimiter sequenceNumber snapshot
      (wrappingModeOf needToCheckForWrappingToLower needToCheckForWrappingToHigher)
  some (s,
    { sequenceNumber := sequenceNumber
      hasTupleDelimiter := hasTupleDelimiter
      stagedBufferOfSequenceNumber := stagedBufferOfSequenceNumber
      spanningTuple := spanningTuple
      numberOfBitmapsModuloSnapshot := snapshot.numberOfBitmapsModulo })

/-- The rest of `processSequenceNumber`: the validity check and the second locked section. -/
def endProcessSequenceNumber (call : ProcessSequenceNumberCall) :
    Option (SequenceShredder × SpanningTupleBuffers) :=
  if call.hasTupleDelimiter then
    s.checkSpanningTupleWithTupleDelimiter call.spanningTuple call.sequenceNumber
      call.numberOfBitmapsModuloSnapshot call.stagedBufferOfSequenceNumber
  else
    let spanningTupleIsValid := call.spanningTuple.isStartValid && call.spanningTuple.isEndValid
    if spanningTupleIsValid then
      s.checkSpanningTupleWithoutTupleDelimiter call.spanningTuple call.sequenceNumber
        call.numberOfBitmapsModuloSnapshot
    else
      some (s, ⟨0, []⟩)

/-- A whole call without interference by other threads. -/
def processSequenceNumber (hasTupleDelimiter : Bool)
    (stagedBufferOfSequenceNumber : StagedBuffer) (sequenceNumber : Nat) :
    Option (SequenceShredder × SpanningTupleBuffers) := do
  let (s, call) ←
    s.beginProcessSequenceNumber hasTupleDelimiter stagedBufferOfSequenceNumber sequenceNumber
  s.endProcessSequenceNumber call

/-! ## Flushing -/

/-- The buffer that only contains the artificial tuple delimiter at the end of the stream. -/
def dummyStagedBuffer : StagedBuffer := ⟨none, 0, 0, 0⟩

/-- Search the ring backwards for the largest sequence number seen, put an artificial delimiter behind
it and collect what it completes.  Also returns the sequence number to use for the flushed tuple. -/
def flushFinalPartialTuple : Option (SequenceShredder × SpanningTupleBuffers × Nat) :=
  let bitmapIndexOf := fun offsetToTail =>
    (s.tail + (s.numberOfBitmaps - offsetToTail)) &&& s.numberOfBitmapsModulo
  let isNotEmpty := fun offsetToTail =>
    decide (s.seenAndUsedBitmaps (bitmapIndexOf offsetToTail)
      ||| s.tupleDelimiterBitmaps (bitmapIndexOf offsetToTail) ≠ 0#64)
  match (List.range' 1 s.numberOfBitmaps).find? isNotEmpty with
  | none => some (s, ⟨0, []⟩, 0)
  | some offsetToTail => do
    let bitmapIndex := bitmapIndexOf offsetToTail
    let seenAndUsedBitmap := s.seenAndUsedBitmaps bitmapIndex
    let tupleDelimiterBitmap := s.tupleDelimiterBitmaps bitmapIndex
    let firstSequenceNumberOfTail := s.tail * sizeOfBitmapInBits
    let sequenceNumberOffsetOfBitmap :=
      ((s.numberOfBitmaps - offsetToTail) &&& s.numberOfBitmapsModulo) <<< bitmapSizeBitShift
    let firstSequenceNumberOfBitmap := firstSequenceNumberOfTail + sequenceNumberOffsetOfBitmap
    let numberOfNotSeenSequenceNumbersInBitmap :=
      countlZero (seenAndUsedBitmap ||| tupleDelimiterBitmap)
    let offsetToNextLargerSequenceNumber :=
      sizeOfBitmapInBits - numberOfNotSeenSequenceNumbersInBitmap
    let nextLargestSequenceNumber :=
      firstSequenceNumberOfBitmap + offsetToNextLargerSequenceNumber
    let largestSequenceNumber := nextLargestSequenceNumber - 1
    let bitOfLastSequenceNumber ←
      shiftLeft? firstBitMask (offsetToNextLargerSequenceNumber - 1)
    let hasTupleDelimiter := decide (tupleDelimiterBitmap &&& bitOfLastSequenceNumber ≠ 0#64)
    let bufferIdxOfLargestSequenceNumber := largestSequenceNumber &&& (s.stagedBuffersSize - 1)
    let numUsesOfLastSequenceNumber := s.stagedBufferUses bufferIdxOfLargestSequenceNumber
    let largestSequenceNumberProducedBufferAlready :=
      hasTupleDelimiter && decide (numUsesOfLastSequenceNumber ≠ 2)
    let sequenceNumberToUseForFlushedTuple :=
      if largestSequenceNumberProducedBufferAlready then
        nextLargestSequenceNumber
      else
        largestSequenceNumber
    let (s, spanningTupleBuffers) ←
      s.processSequenceNumber true dummyStagedBuffer nextLargestSequenceNumber
    some (s, spanningTupleBuffers, sequenceNumberToUseForFlushedTuple)

end SequenceShredder

end MobilityNebula.InputFormatters
