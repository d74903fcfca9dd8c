import MobilityNebula.InputFormatters.FormattedOutput
import MobilityNebula.InputFormatters.ShredderSystem

/-!
# RawStream — a byte stream that arrives in raw buffers

A source cuts its byte stream into non-empty raw buffers.  This module says which strings the formatter
puts together from the buffers of a stretch, for any tuple delimiter: `spanTuple` is the partial tuple
between two marks, `openTuple` the one behind the last mark.  Neither of them runs into an `INVARIANT`,
because a delimiter that was found fits into its buffer.
-/

namespace MobilityNebula.InputFormatters

open Library CSVInputFormatter SequenceShredder List

/-! ## Streams -/

/-- The raw buffers `1, …, N` of a source. -/
structure RawStream where
  buffers : List Bytes
  nonempty : ∀ b ∈ buffers, b ≠ []

namespace RawStream

variable (stream : RawStream)

def numberOfBuffers : Nat := stream.buffers.length

/-- The bytes of raw buffer `n`; there is nothing before the first and behind the last buffer. -/
def bytes : Nat → Bytes
  | 0 => []
  | n + 1 => stream.buffers.getD n []

def rawTB (n : Nat) : TupleBuffer := ⟨n, stream.bytes n⟩

def content : Bytes := stream.buffers.flatten

lemma bytes_ne_nil {n : Nat} (hpos : 0 < n) (hle : n ≤ stream.numberOfBuffers) : stream.bytes n ≠ [] := by
  cases n with
  | zero => omega
  | succ n =>
    rw [numberOfBuffers] at hle
    rw [bytes, getD_eq_getElem _ _ (by omega)]
    exact stream.nonempty _ (getElem_mem _)

end RawStream

/-- What the formatter announces to the shredder. -/
def CSVInputFormatter.rawBuffers (f : CSVInputFormatter) (stream : RawStream) : RawBuffers where
  sizeOfTupleDelimiter := f.tupleDelimiter.length
  hasTupleDelimiter := fun n => (f.stageRawBuffer (stream.rawTB n)).1
  stagedBuffer := fun n => (f.stageRawBuffer (stream.rawTB n)).2
  ownsBuffer := by
    intro n
    unfold stageRawBuffer
    split
    · exact ⟨_, rfl, rfl⟩
    · exact ⟨_, rfl, rfl⟩

/-! ## Partial tuples -/

namespace CSVInputFormatter

variable (f : CSVInputFormatter)

/-- The bytes a partial tuple takes from the buffer it starts in. -/
def trailingBytes (b : StagedBuffer) : Bytes :=
  (b.getBuffer.drop (b.offsetOfLastTupleDelimiter + 1)).take
    (b.sizeOfBufferInBytes - (b.offsetOfLastTupleDelimiter + f.tupleDelimiter.length))

variable (raw : ShredderInput)

def bytesBetween (s e : Nat) : Bytes :=
  (range' (s + 1) (e - (s + 1))).flatMap fun p =>
    (raw.staged p).getBuffer.take (raw.staged p).sizeOfBufferInBytes

/-- The string of the tuple that starts at mark `s` and ends at mark `e`. -/
def spanTuple (s e : Nat) : Bytes :=
  f.trailingBytes (raw.staged s) ++ bytesBetween raw s e
    ++ (raw.staged e).getBuffer.take (raw.staged e).offsetOfFirstTupleDelimiter

/-- The string behind the last mark among the buffers `1, …, m`. -/
def openTuple (m : Nat) : Bytes :=
  f.trailingBytes (raw.staged (Nat.findGreatest raw.Mark m))
    ++ bytesBetween raw (Nat.findGreatest raw.Mark m) (m + 1)

end CSVInputFormatter

section PartialTuples

variable {f : CSVInputFormatter} {stream : RawStream} {p : Nat}

lemma partialTuple_map (g : Nat → StagedBuffer) {a s e b : Nat} {firstBytes : Bytes} (has : a ≤ s)
    (hse : s < e) (heb : e ≤ b) (hfirst : f.firstBytesOfPartialTuple (g s) = .ok firstBytes) :
    f.partialTuple (s - a) (e - a) ((indicesOfSpan a b).map g) = .ok (firstBytes
          ++ (range' (s + 1) (e - (s + 1))).flatMap (fun p => (g p).getBuffer.take (g p).sizeOfBufferInBytes)
          ++ (g e).getBuffer.take (g e).offsetOfFirstTupleDelimiter) := by
  have hget : ∀ p, a ≤ p → p ≤ b → ((indicesOfSpan a b).map g)[p - a]? = some (g p) := by
    intro p hap hpb
    rw [getElem?_map, indicesOfSpan, getElem?_range' (by omega),
      Option.map_some]
    congr 2
    omega
  -- the buffers strictly between `s` and `e`
  have hbetween : (((indicesOfSpan a b).map g).take (e - a)).drop (s - a + 1)
      = (range' (s + 1) (e - (s + 1))).map g := by
    rw [indicesOfSpan, ← map_take, ← map_drop]
    congr 1
    refine ext_getElem (by simp; omega) fun i hi hi' => ?_
    simp only [getElem_drop, getElem_take, getElem_range']
    omega
  unfold partialTuple
  rw [if_pos (by omega), hget s has (by omega), hget e (by omega) heb]
  simp only [hfirst, hbetween, flatMap_map]
  rfl

lemma getBuffer_stagedBuffer (f : CSVInputFormatter) (stream : RawStream) (n : Nat) :
    ((f.rawBuffers stream).stagedBuffer n).getBuffer = stream.bytes n ∧
      ((f.rawBuffers stream).stagedBuffer n).sizeOfBufferInBytes = (stream.bytes n).length := by
  simp only [rawBuffers, stageRawBuffer]
  split
  · exact ⟨rfl, rfl⟩
  · exact ⟨rfl, rfl⟩

lemma lastTupleDelimiter_fits (h : (f.rawBuffers stream).Mark p) :
    ((f.rawBuffers stream).staged p).offsetOfLastTupleDelimiter + f.tupleDelimiter.length
      ≤ ((f.rawBuffers stream).staged p).sizeOfBufferInBytes := by
  unfold ShredderInput.staged
  split
  case isTrue =>
    simp [rawBuffers]
  case isFalse hne =>
    have hdelimiter := (ShredderInput.mark_iff_of_pos _ (Nat.pos_of_ne_zero hne)).1 h
    simp only [rawBuffers, stageRawBuffer] at hdelimiter ⊢
    split
    case h_1 first hfirst =>
      cases hlast : rfind f.tupleDelimiter (stream.rawTB p).bytes with
      | none => exact find_fits hfirst
      | some last => exact rfind_fits hlast
    case h_2 hnone =>
      rw [hnone] at hdelimiter
      cases hdelimiter

lemma firstBytesOfPartialTuple_eq (h : (f.rawBuffers stream).Mark p) :
    f.firstBytesOfPartialTuple ((f.rawBuffers stream).staged p)
      = .ok (f.trailingBytes ((f.rawBuffers stream).staged p)) := by
  rw [firstBytesOfPartialTuple, sub?, if_pos (lastTupleDelimiter_fits h)]
  rfl

lemma partialTuple_span {a s e b : Nat} (has : a ≤ s) (hse : s < e) (heb : e ≤ b)
    (hmark : (f.rawBuffers stream).Mark s) :
    f.partialTuple (s - a) (e - a) ((indicesOfSpan a b).map (f.rawBuffers stream).staged)
      = .ok (f.spanTuple (f.rawBuffers stream) s e) :=
  partialTuple_map _ has hse heb (firstBytesOfPartialTuple_eq hmark)

end PartialTuples

end MobilityNebula.InputFormatters
