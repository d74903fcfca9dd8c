import MobilityNebula.Library.Splitting
import MobilityNebula.InputFormatters.SequenceShredder

/-!
# CSVInputFormatter — from raw buffers to formatted buffers

Embedding of `CSVInputFormatter.cpp`.  A call of `parseTupleBufferRaw` stages its raw buffer with the
shredder and formats the tuples it gets back: the tuple that ends in the buffer, the tuples inside it and
the tuple that starts in it.  `flushFinalTuple` formats what is left behind the last delimiter.

A call talks to the shredder once, between `stageRawBuffer` and `formatBuffers`; the split lets the
formatting be combined with any interleaving of the shredder's own steps.  A position that was not found
(`npos`) is `none`.  Exceptions, failed `PRECONDITION`s and failed `INVARIANT`s are `Except.error`.

A formatted buffer keeps two logs instead of its memory: the values written into it with their offsets,
and the tuple strings that `processCurrentTuple` was given while it was the current buffer.
-/

namespace MobilityNebula.InputFormatters

open Library

/-! ## Data model -/

abbrev Bytes := List UInt8

/-- Why a parse function rejects a field. -/
inductive MalformedValue where
  | notAnInteger
  | tooLarge
  | notABoolean
  deriving DecidableEq, Repr

inductive FormatterError where
  /-- A parse function threw `CannotFormatMalformedStringValue`. -/
  | cannotFormatMalformedStringValue (reason : MalformedValue) (value : Bytes)
  | precondition (message : String)
  | invariant (message : String)
  /-- The shredder ran into undefined behaviour, an endless loop or a failed `INVARIANT`. -/
  | shredder
  /-- A loop of the formatter does not end. -/
  | endless
  deriving DecidableEq, Repr

/-- What a parse function leaves behind: bytes at the field pointer, or a child buffer whose index is
written there. -/
inductive FieldValue where
  | bytes (value : Bytes)
  | child (content : Bytes)
  deriving DecidableEq, Repr

structure FormattedTupleBuffer where
  bufferSize : Nat
  originId : Nat
  sequenceNumber : Nat
  chunkNumber : Nat
  lastChunk : Bool
  numberOfTuples : Nat
  /-- The values written so far, each with its offset. -/
  writtenFields : List (Nat × FieldValue)
  /-- The tuple strings processed while this was the current buffer. -/
  processedTuples : List Bytes
  deriving DecidableEq, Repr

/-- The part of the context the formatter uses: the size of the pooled buffers, and what was emitted. -/
structure PipelineExecutionContext where
  bufferSize : Nat
  emitted : List FormattedTupleBuffer
  /-- Raw buffers emitted with the policy `REPEAT`. -/
  repeated : List TupleBuffer
  deriving DecidableEq, Repr

namespace PipelineExecutionContext

variable (pec : PipelineExecutionContext)

/-- A pooled buffer: releasing a buffer has reset its number of tuples.  The other metadata is set before
the buffer is emitted. -/
def allocateTupleBuffer : FormattedTupleBuffer where
  bufferSize := pec.bufferSize
  originId := 0
  sequenceNumber := 0
  chunkNumber := 0
  lastChunk := true
  numberOfTuples := 0
  writtenFields := []
  processedTuples := []

def emitBuffer (buffer : FormattedTupleBuffer) : PipelineExecutionContext :=
  { pec with emitted := pec.emitted ++ [buffer] }

def repeatBuffer (rawTB : TupleBuffer) : PipelineExecutionContext :=
  { pec with repeated := pec.repeated ++ [rawTB] }

end PipelineExecutionContext

/-! ## Parse functions -/

structure IntegerType where
  isSigned : Bool
  sizeInBytes : Nat
  deriving DecidableEq, Repr

namespace IntegerType

def minValue (type : IntegerType) : Int :=
  if type.isSigned then -2 ^ (8 * type.sizeInBytes - 1) else 0

def maxValue (type : IntegerType) : Int :=
  if type.isSigned then 2 ^ (8 * type.sizeInBytes - 1) - 1 else 2 ^ (8 * type.sizeInBytes) - 1

end IntegerType

def isDigit (byte : UInt8) : Bool := decide (48 ≤ byte) && decide (byte ≤ 57)

/-- `std::from_chars` in base ten: the longest prefix that is a number; a minus sign is only read for a
signed type, a plus sign or a blank never. -/
def fromChars (type : IntegerType) (s : Bytes) : Except MalformedValue Int :=
  let isNegative := type.isSigned && s.head? == some 45
  let digits := (if isNegative then s.tail else s).takeWhile isDigit
  if digits.isEmpty then
    .error .notAnInteger
  else
    let magnitude : Nat := digits.foldl (fun value byte => 10 * value + (byte.toNat - 48)) 0
    let value : Int := if isNegative then -magnitude else magnitude
    if type.minValue ≤ value ∧ value ≤ type.maxValue then .ok value else .error .tooLarge

def integerBytes (sizeInBytes : Nat) (value : Int) : Bytes :=
  (List.range sizeInBytes).map fun i => UInt8.ofNat ((value / 256 ^ i) % 256).toNat

def parseIntegerString (type : IntegerType) (fieldValueString : Bytes) : Except FormatterError FieldValue :=
  match fromChars type fieldValueString with
  | .ok value => .ok (.bytes (integerBytes type.sizeInBytes value))
  | .error reason => .error (.cannotFormatMalformedStringValue reason fieldValueString)

def parseInt8 := parseIntegerString ⟨true, 1⟩
def parseInt16 := parseIntegerString ⟨true, 2⟩
def parseInt32 := parseIntegerString ⟨true, 4⟩
def parseInt64 := parseIntegerString ⟨true, 8⟩
def parseUInt8 := parseIntegerString ⟨false, 1⟩
def parseUInt16 := parseIntegerString ⟨false, 2⟩
def parseUInt32 := parseIntegerString ⟨false, 4⟩
def parseUInt64 := parseIntegerString ⟨false, 8⟩

variable (inputString : Bytes)

def parseChar : Except FormatterError FieldValue :=
  if inputString.length = 1 then
    .ok (.bytes inputString)
  else
    .error (.precondition "A char must not have a size bigger than 1.")

/-- `strcasecmp(left, right) == 0`. -/
def equalsIgnoringCase (left right : Bytes) : Bool :=
  let toLower := fun byte : UInt8 => if 65 ≤ byte ∧ byte ≤ 90 then byte + 32 else byte
  decide (left.map toLower = right.map toLower)

def parseBoolean : Except FormatterError FieldValue :=
  -- "true", "1", "false" and "0"
  if equalsIgnoringCase inputString [116, 114, 117, 101] || equalsIgnoringCase inputString [49] then
    .ok (.bytes [1])
  else if equalsIgnoringCase inputString [102, 97, 108, 115, 101]
      || equalsIgnoringCase inputString [48] then
    .ok (.bytes [0])
  else
    .error (.cannotFormatMalformedStringValue .notABoolean inputString)

/-- The child buffer holds the length as a `uint32_t` and then the string. -/
def parseVarsized : Except FormatterError FieldValue :=
  .ok (.child (integerBytes 4 inputString.length ++ inputString))

structure CSVInputFormatter where
  tupleDelimiter : Bytes
  fieldDelimiter : Bytes
  fieldParseFunctions : List (Bytes → Except FormatterError FieldValue)
  fieldSizes : List Nat

namespace CSVInputFormatter

/-- `schema.getSizeOfSchemaInBytes()`. -/
def tupleSizeInBytes (f : CSVInputFormatter) : Nat := f.fieldSizes.sum

/-- `boost::tokenizer` with a `char_separator`: every byte of the field delimiter separates, and empty
tokens are dropped. -/
def tokenize (f : CSVInputFormatter) (tuple : Bytes) : List Bytes :=
  (tuple.splitOnP fun byte => f.fieldDelimiter.contains byte).filter fun token => !token.isEmpty

end CSVInputFormatter

/-! ## Progress tracker -/

structure ProgressTracker where
  sequenceNumber : Nat
  chunkNumber : Nat
  originId : Nat
  currentTupleStartrawTB : Nat
  currentTupleEndrawTB : Option Nat
  numTuplesInTBFormatted : Nat
  currentFieldOffsetTBFormatted : Nat
  tupleBufferRawSV : Bytes
  tupleBufferFormatted : FormattedTupleBuffer
  deriving DecidableEq, Repr

namespace ProgressTracker

/-- The constructor.  No formatted buffer is held yet. -/
def create (sequenceNumber originId : Nat) (noBuffer : FormattedTupleBuffer) : ProgressTracker where
  sequenceNumber := sequenceNumber
  chunkNumber := 1
  originId := originId
  currentTupleStartrawTB := 0
  currentTupleEndrawTB := some 0
  numTuplesInTBFormatted := 0
  currentFieldOffsetTBFormatted := 0
  tupleBufferRawSV := []
  tupleBufferFormatted := noBuffer

variable (f : CSVInputFormatter) (t : ProgressTracker)

def findIndexOfNextTuple : Option Nat :=
  find f.tupleDelimiter t.tupleBufferRawSV t.currentTupleStartrawTB

/-- `resetForNewRawTB` without a field offset: the formatted buffer goes on where it is. -/
def resetForNewRawTB (raw : Bytes) (startOffset : Nat) : ProgressTracker :=
  let t := { t with tupleBufferRawSV := raw, currentTupleStartrawTB := startOffset }
  { t with currentTupleEndrawTB := t.findIndexOfNextTuple f }

def setNewTupleBufferFormatted (buffer : FormattedTupleBuffer) : ProgressTracker :=
  { t with
    tupleBufferFormatted :=
      { buffer with
        sequenceNumber := t.sequenceNumber
        chunkNumber := t.chunkNumber
        originId := t.originId } }

/-- The loop over the zipped tokens, parse functions and field sizes. -/
def processFields : List (Bytes × (Bytes → Except FormatterError FieldValue) × Nat) →
    ProgressTracker → Except FormatterError ProgressTracker
  | [], t => .ok t
  | (token, parseFunction, fieldSize) :: rest, t => do
    let value ← parseFunction token
    let buffer := t.tupleBufferFormatted
    processFields rest
      { t with
        tupleBufferFormatted :=
          { buffer with
            writtenFields :=
              buffer.writtenFields ++ [(t.currentFieldOffsetTBFormatted, value)] }
        currentFieldOffsetTBFormatted := t.currentFieldOffsetTBFormatted + fieldSize }

def processCurrentTuple (currentTuple : Bytes) : Except FormatterError ProgressTracker :=
  let buffer := t.tupleBufferFormatted
  processFields ((f.tokenize currentTuple).zip (f.fieldParseFunctions.zip f.fieldSizes))
    { t with
      tupleBufferFormatted :=
        { buffer with processedTuples := buffer.processedTuples ++ [currentTuple] } }

/-- A position that was not found is the largest `size_t`, so adding one gives zero. -/
def progressOneTuple : ProgressTracker :=
  let t :=
    { t with
      numTuplesInTBFormatted := t.numTuplesInTBFormatted + 1
      currentTupleStartrawTB :=
        match t.currentTupleEndrawTB with
        | some currentTupleEnd => currentTupleEnd + 1
        | none => 0 }
  { t with currentTupleEndrawTB := t.findIndexOfNextTuple f }

def checkAndHandleFullBuffer (pec : PipelineExecutionContext) : PipelineExecutionContext × ProgressTracker :=
  let buffer := t.tupleBufferFormatted
  -- The subtraction is on `uint64_t`.
  let availableBytes := (buffer.bufferSize + 2 ^ 64 - t.currentFieldOffsetTBFormatted) % 2 ^ 64
  if availableBytes < f.tupleSizeInBytes then
    let pec :=
      pec.emitBuffer { buffer with numberOfTuples := t.numTuplesInTBFormatted, lastChunk := false }
    let t := { t with chunkNumber := t.chunkNumber + 1 }
    let t := t.setNewTupleBufferFormatted pec.allocateTupleBuffer
    (pec, { t with currentFieldOffsetTBFormatted := 0, numTuplesInTBFormatted := 0 })
  else
    (pec, t)

def getNextTuple (currentTupleEnd : Nat) : Bytes :=
  (t.tupleBufferRawSV.drop t.currentTupleStartrawTB).take (currentTupleEnd - t.currentTupleStartrawTB)

/-- The loop of `processCurrentBuffer`.  The start of the current tuple grows in every round. -/
def processCurrentBufferLoop : Nat → PipelineExecutionContext → ProgressTracker →
    Except FormatterError (PipelineExecutionContext × ProgressTracker)
  | 0, _, _ => .error .endless
  | fuel + 1, pec, t =>
    match t.currentTupleEndrawTB with
    | none => .ok (pec, t)
    | some currentTupleEnd => do
      let checked := t.checkAndHandleFullBuffer f pec
      let t ← checked.2.processCurrentTuple f (checked.2.getNextTuple currentTupleEnd)
      processCurrentBufferLoop fuel checked.1 (t.progressOneTuple f)

def processCurrentBuffer (pec : PipelineExecutionContext) :
    Except FormatterError (PipelineExecutionContext × ProgressTracker) :=
  t.processCurrentBufferLoop f (t.tupleBufferRawSV.length + 2) pec

end ProgressTracker

/-! ## Partial tuples -/

/-- `buffer.getBuffer<const char>()`; nothing can be read through a null buffer. -/
def StagedBuffer.getBuffer (b : StagedBuffer) : Bytes :=
  match b.buffer with
  | some buffer => buffer.bytes
  | none => []

namespace CSVInputFormatter

variable (f : CSVInputFormatter)

/-- The bytes of the first buffer of a partial tuple: those behind its last delimiter.  The view starts one
byte behind the start of the delimiter, whatever the size of the delimiter.  A difference below zero wraps
around and fails the `INVARIANT` on the size. -/
def firstBytesOfPartialTuple (firstBuffer : StagedBuffer) : Except FormatterError Bytes :=
  match sub? firstBuffer.sizeOfBufferInBytes
      (firstBuffer.offsetOfLastTupleDelimiter + f.tupleDelimiter.length) with
  | some sizeOfLeadingPartialTuple =>
    .ok ((firstBuffer.getBuffer.drop (firstBuffer.offsetOfLastTupleDelimiter + 1)).take
      sizeOfLeadingPartialTuple)
  | none => .error (.invariant "Partial tuple is larger than buffer size")

/-- The string of the partial tuple that starts in buffer `partialTupleStartIdx` and ends in buffer
`partialTupleEndIdx`. -/
def partialTuple (partialTupleStartIdx partialTupleEndIdx : Nat) (buffersToFormat : List StagedBuffer) :
    Except FormatterError Bytes :=
  if partialTupleStartIdx < partialTupleEndIdx then
    match buffersToFormat[partialTupleStartIdx]?, buffersToFormat[partialTupleEndIdx]? with
    | some firstBuffer, some lastBuffer => do
      let firstBytes ← f.firstBytesOfPartialTuple firstBuffer
      let inBetween :=
        (buffersToFormat.take partialTupleEndIdx).drop (partialTupleStartIdx + 1)
      .ok (firstBytes
        ++ inBetween.flatMap (fun buffer => buffer.getBuffer.take buffer.sizeOfBufferInBytes)
        ++ lastBuffer.getBuffer.take lastBuffer.offsetOfFirstTupleDelimiter)
    | _, _ => .error (.precondition "Partial tuple end index must be smaller than the size of the buffers.")
  else
    .error (.precondition "Partial tuple start index must be smaller than the end index.")

/-- Also returns whether the tuple was not empty. -/
def processPartialTuple (partialTupleStartIdx partialTupleEndIdx : Nat)
    (buffersToFormat : List StagedBuffer) (t : ProgressTracker) :
    Except FormatterError (ProgressTracker × Bool) := do
  let tuple ← f.partialTuple partialTupleStartIdx partialTupleEndIdx buffersToFormat
  let t ← t.processCurrentTuple f tuple
  .ok (t.progressOneTuple f, !tuple.isEmpty)

/-! ## One raw buffer -/

variable (rawTB : TupleBuffer)

/-- What `parseTupleBufferRaw` finds out about the raw buffer before it calls the shredder. -/
def stageRawBuffer : Bool × StagedBuffer :=
  match find f.tupleDelimiter rawTB.bytes 0 with
  | some offsetOfFirstTupleDelimiter =>
    (true,
      { buffer := some rawTB
        sizeOfBufferInBytes := rawTB.bytes.length
        offsetOfFirstTupleDelimiter := offsetOfFirstTupleDelimiter
        offsetOfLastTupleDelimiter :=
          (rfind f.tupleDelimiter rawTB.bytes).getD offsetOfFirstTupleDelimiter })
  | none =>
    (false,
      { buffer := some rawTB
        sizeOfBufferInBytes := rawTB.bytes.length
        offsetOfFirstTupleDelimiter := 0
        offsetOfLastTupleDelimiter := rawTB.bytes.length })

variable (originId : Nat) (pec : PipelineExecutionContext)

def trackerFor : ProgressTracker :=
  (ProgressTracker.create rawTB.sequenceNumber originId pec.allocateTupleBuffer).resetForNewRawTB f
    rawTB.bytes 0

/-- A single buffer with a single delimiter holds no tuple that could be parsed now. -/
def isSingleDelimiter : List StagedBuffer → Bool
  | [buffer] =>
    decide (buffer.offsetOfFirstTupleDelimiter = buffer.offsetOfLastTupleDelimiter)
  | _ => false

variable (result : SpanningTupleBuffers)

/-- The rest of the branch for a buffer with a tuple delimiter. -/
def formatWithTupleDelimiter (pec : PipelineExecutionContext) :
    Except FormatterError PipelineExecutionContext := do
  let indexOfBuffer := result.indexOfProcessedSequenceNumber
  let buffersToFormat := result.stagedBuffers
  if isSingleDelimiter buffersToFormat then
    .ok pec
  else
    match buffersToFormat[indexOfBuffer]? with
    | none => .error (.invariant "Index of buffer must be smaller than the size of the buffers.")
    | some bufferOfSequenceNumber => do
      let t := (f.trackerFor rawTB originId pec).setNewTupleBufferFormatted pec.allocateTupleBuffer
      let t ←
        (if indexOfBuffer ≠ 0 then do
          let (t, _) ← f.processPartialTuple 0 indexOfBuffer buffersToFormat t
          .ok t
        else
          .ok t)
      let buffer := t.tupleBufferFormatted
      let t :=
        { t with tupleBufferFormatted := { buffer with numberOfTuples := t.numTuplesInTBFormatted } }
      let t :=
        t.resetForNewRawTB f
          (bufferOfSequenceNumber.getBuffer.take bufferOfSequenceNumber.sizeOfBufferInBytes)
          (bufferOfSequenceNumber.offsetOfFirstTupleDelimiter + f.tupleDelimiter.length)
      let (pec, t) ← t.processCurrentBuffer f pec
      let (pec, t) ←
        (if indexOfBuffer < buffersToFormat.length - 1 then do
          let checked := t.checkAndHandleFullBuffer f pec
          let (t, _) ←
            f.processPartialTuple indexOfBuffer (buffersToFormat.length - 1) buffersToFormat
              checked.2
          .ok (checked.1, t)
        else
          .ok (pec, t))
      let buffer := t.tupleBufferFormatted
      .ok (pec.emitBuffer
        { buffer with numberOfTuples := t.numTuplesInTBFormatted, lastChunk := true })

/-- A buffer that holds one partial tuple and nothing else. -/
def formatSingleTuple (buffersToFormat : List StagedBuffer) (t : ProgressTracker)
    (pec : PipelineExecutionContext) : Except FormatterError (PipelineExecutionContext × Bool) := do
  let t := t.setNewTupleBufferFormatted pec.allocateTupleBuffer
  let (t, isNotEmpty) ← f.processPartialTuple 0 (buffersToFormat.length - 1) buffersToFormat t
  let buffer := t.tupleBufferFormatted
  .ok (pec.emitBuffer { buffer with numberOfTuples := buffer.numberOfTuples + 1, lastChunk := true },
    isNotEmpty)

/-- The rest of the branch for a buffer without a tuple delimiter. -/
def formatWithoutTupleDelimiter (pec : PipelineExecutionContext) :
    Except FormatterError PipelineExecutionContext := do
  if result.stagedBuffers.length < 3 then
    .ok pec
  else do
    let (pec, _) ← f.formatSingleTuple result.stagedBuffers (f.trackerFor rawTB originId pec) pec
    .ok pec

/-- What `parseTupleBufferRaw` does with the answer of the shredder. -/
def formatBuffers (pec : PipelineExecutionContext) :
    Except FormatterError PipelineExecutionContext :=
  if (f.stageRawBuffer rawTB).1 then
    f.formatWithTupleDelimiter rawTB originId result pec
  else
    f.formatWithoutTupleDelimiter rawTB originId result pec

/-- A whole call without interference by other threads. -/
def parseTupleBufferRaw (sequenceShredder : SequenceShredder) :
    Except FormatterError (SequenceShredder × PipelineExecutionContext) :=
  let (sequenceShredder, isInRange) := sequenceShredder.isInRange rawTB.sequenceNumber
  if isInRange then
    let (hasTupleDelimiter, stagedBuffer) := f.stageRawBuffer rawTB
    match sequenceShredder.processSequenceNumber hasTupleDelimiter stagedBuffer rawTB.sequenceNumber with
    | none => .error .shredder
    | some (sequenceShredder, result) => do
      let pec ← f.formatBuffers rawTB originId result pec
      .ok (sequenceShredder, pec)
  else
    .ok (sequenceShredder, pec.repeatBuffer rawTB)

/-! ## Flushing -/

/-- What `flushFinalTuple` does with the answer of the shredder. -/
def formatFlushedBuffers (flushed : SpanningTupleBuffers) (sequenceNumber : Nat)
    (pec : PipelineExecutionContext) : Except FormatterError PipelineExecutionContext := do
  if flushed.stagedBuffers.length = 1 then
    .ok pec
  else do
    let t := ProgressTracker.create sequenceNumber originId pec.allocateTupleBuffer
    let (flushedPec, isNotEmpty) ← f.formatSingleTuple flushed.stagedBuffers t pec
    .ok (if isNotEmpty then flushedPec else pec)

def flushFinalTuple (sequenceShredder : SequenceShredder) :
    Except FormatterError (SequenceShredder × PipelineExecutionContext) :=
  match sequenceShredder.flushFinalPartialTuple with
  | none => .error .shredder
  | some (sequenceShredder, flushed, sequenceNumber) => do
    let pec ← f.formatFlushedBuffers originId flushed sequenceNumber pec
    .ok (sequenceShredder, pec)

end CSVInputFormatter

end MobilityNebula.InputFormatters
