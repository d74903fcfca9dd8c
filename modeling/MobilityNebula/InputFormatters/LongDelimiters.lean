import MobilityNebula.InputFormatters.CSVContent

/-!
# LongDelimiters — tuple delimiters of several bytes

Behind a tuple inside a buffer, and behind the last delimiter of a buffer, the formatter steps over one byte of the
delimiter where it should step over all of them, and it finds a delimiter only inside one buffer.  The content law
holds for streams in which a buffer with a delimiter ends in one, has at most one other in front of it, and no
delimiter is cut by a boundary (`content_of_delimiters_at_end`).
-/

namespace MobilityNebula.InputFormatters

open Library FormattedTupleBuffer CSVInputFormatter ShredderInput List ProcessSequenceNumberCall

/-- The pieces between the delimiters, without an empty piece at the end. -/
def piecesOfStream (delimiter text : Bytes) : List Bytes :=
  if (pieces delimiter 0 text).getLast? = some [] then (pieces delimiter 0 text).dropLast else pieces delimiter 0 text

/-- The last delimiter of a buffer ends it, and it is the first or the second one; text from several buffers has its
first delimiter where the last of them has it. -/
structure DelimitersAtEnd (delimiter : Bytes) (stream : RawStream) : Prop where
  atEnd : ∀ n i, find delimiter (stream.bytes n) 0 = some i →
    ∃ j, rfind delimiter (stream.bytes n) = some j ∧ j + delimiter.length = (stream.bytes n).length ∧
      (i = j ∨ find delimiter (stream.bytes n) (i + delimiter.length) = some j)
  uncut : ∀ s n, (∀ p, s < p → p ≤ n → find delimiter (stream.bytes p) 0 = none) →
    find delimiter ((range' (s + 1) (n - s)).flatMap stream.bytes ++ stream.bytes (n + 1)) 0
      = (find delimiter (stream.bytes (n + 1)) 0).map
          (((range' (s + 1) (n - s)).flatMap stream.bytes).length + ·)

section AtEnd

variable {f : CSVInputFormatter} {stream : RawStream} {n : Nat}

lemma stagedBuffer_eq (f : CSVInputFormatter) (stream : RawStream) (n : Nat) :
    (f.rawBuffers stream).hasTupleDelimiter n = (find f.tupleDelimiter (stream.bytes n) 0).isSome ∧
      ∀ i, find f.tupleDelimiter (stream.bytes n) 0 = some i →
        (f.rawBuffers stream).stagedBuffer n = ⟨some (stream.rawTB n), (stream.bytes n).length, i,
          (rfind f.tupleDelimiter (stream.bytes n)).getD i⟩ := by
  simp only [rawBuffers, stageRawBuffer, RawStream.rawTB]
  cases find f.tupleDelimiter (stream.bytes n) 0 with
  | none => exact ⟨rfl, fun _ h => by cases h⟩
  | some i => exact ⟨rfl, fun _ h => by cases h; rfl⟩

variable (hend : DelimitersAtEnd f.tupleDelimiter stream)

include hend

lemma trailingBytes_eq_nil (h : (f.rawBuffers stream).Mark n) :
    f.trailingBytes ((f.rawBuffers stream).staged n) = [] := by
  rcases Nat.eq_zero_or_pos n with rfl | hpos
  · simp [trailingBytes, staged, rawBuffers]
  · rw [mark_iff_of_pos _ hpos, (stagedBuffer_eq f stream n).1] at h
    rcases Option.isSome_iff_exists.1 h with ⟨i, hi⟩
    rcases hend.atEnd n i hi with ⟨j, hlast, hlength, _⟩
    rw [staged_of_pos _ hpos, (stagedBuffer_eq f stream n).2 i hi, trailingBytes, hlast]
    simp [hlength]

section

variable (hneedle : f.tupleDelimiter ≠ [])
include hneedle

/-- Behind the first delimiter comes nothing, or one tuple and the last delimiter. -/
lemma pieces_behind_first {i : Nat} (hi : find f.tupleDelimiter (stream.bytes n) 0 = some i) :
    pieces f.tupleDelimiter 0 ((stream.bytes n).drop (i + f.tupleDelimiter.length)) = f.insideTuples stream n ++ [[]] ∧
      (rfind f.tupleDelimiter (stream.bytes n) = some i → f.insideTuples stream n = []) := by
  rcases hend.atEnd n i hi with ⟨j, hlast, hlength, hcases⟩
  have hinside : f.insideTuples stream n
      = tuplesFrom f.tupleDelimiter (stream.bytes n) ((stream.bytes n).length + 2) (i + f.tupleDelimiter.length) := by
    rw [insideTuples, if_pos (by rw [(stagedBuffer_eq f stream n).1, hi]; rfl), innerTuples,
      (stagedBuffer_eq f stream n).2 i hi]
    simp [StagedBuffer.getBuffer, RawStream.rawTB]
  have hpos := length_pos_of_ne_nil hneedle
  rw [hinside, tuplesFrom]
  rcases hcases with rfl | hnext
  · -- the search starts at the end of the buffer
    rw [hlength, find_eq_none_of_lt (by omega)]
    simp [pieces]
  · have hbounds := find_bounds hnext
    rw [hnext, pieces_of_find_some hneedle (find_drop hnext), drop_drop,
      show i + f.tupleDelimiter.length + (j - (i + f.tupleDelimiter.length) + f.tupleDelimiter.length)
        = (stream.bytes n).length by omega, drop_length]
    refine ⟨?_, fun hfirst => absurd (hlast.symm.trans hfirst) (by simp; omega)⟩
    -- the next search starts too late for another delimiter
    have hnone : find f.tupleDelimiter (stream.bytes n) (j + 1) = none := find_eq_none_of_lt (by omega)
    simp [tuplesFrom, hnone, pieces]

lemma insideTuples_of_not_emits {call : ProcessSequenceNumberCall}
    (h : CallContract (f.rawBuffers stream) call) (hemits : call.emits (f.rawBuffers stream) = false) :
    f.insideTuples stream call.sequenceNumber = [] := by
  cases hdel : call.hasTupleDelimiter with
  | true =>
    have hyes : (f.rawBuffers stream).hasTupleDelimiter call.sequenceNumber = true := h.delimiter ▸ hdel
    rw [(stagedBuffer_eq f stream _).1] at hyes
    rcases Option.isSome_iff_exists.1 hyes with ⟨i, hi⟩
    rcases hend.atEnd _ i hi with ⟨j, hlast, _⟩
    refine (pieces_behind_first hend hneedle hi).2 ?_
    simp only [emits, hdel, if_true, (stagedBuffer_eq f stream _).2 i hi, hlast,
      Option.getD_some, Bool.or_eq_false_iff, decide_eq_false_iff_not, not_not] at hemits
    rw [hlast, hemits.2]
  | false => simp [insideTuples, ← h.delimiter, hdel]

/-- Cutting the stream buffer by buffer: the first delimiter of a buffer ends the span of the buffer. -/
lemma pieces_textUpTo (n : Nat) :
    ∃ done, pieces f.tupleDelimiter 0 (textUpTo stream.bytes n) = done ++ [f.openTuple (f.rawBuffers stream) n] ∧
      done.Perm ((spansUpTo (f.rawBuffers stream).Mark n).map
          (fun span => f.spanTuple (f.rawBuffers stream) span.1 span.2)
        ++ (range' 1 n).flatMap (f.insideTuples stream)) := by
  have hopen : ∀ m, f.openTuple (f.rawBuffers stream) m = (range' (Nat.findGreatest (f.rawBuffers stream).Mark m + 1)
          (m - Nat.findGreatest (f.rawBuffers stream).Mark m)).flatMap stream.bytes := by
    intro m
    rw [openTuple, trailingBytes_eq_nil hend (Nat.findGreatest_spec (Nat.zero_le m) (mark_zero _)), bytesBetween_eq,
      Nat.add_sub_add_right, nil_append]
  induction n with
  | zero => exact ⟨[], by simp [hopen, textUpTo, pieces], .refl _⟩
  | succ n ih =>
    rcases ih with ⟨done, hsplit, hperm⟩
    have hfind := hend.uncut (Nat.findGreatest (f.rawBuffers stream).Mark n) n (fun p hlt hle => by
      have hnot := Nat.findGreatest_is_greatest hlt hle
      rw [mark_iff_of_pos _ (by omega), (stagedBuffer_eq f stream p).1] at hnot
      simpa using hnot)
    have hle := Nat.findGreatest_le (P := (f.rawBuffers stream).Mark) n
    have hmark := (mark_iff_of_pos (f.rawBuffers stream).toShredderInput n.succ_pos).trans
      (by rw [(stagedBuffer_eq f stream (n + 1)).1])
    rw [← hopen] at hfind
    rw [textUpTo_succ, pieces_append hneedle hsplit, spansUpTo, range'_1_concat, flatMap_append,
      Nat.add_comm 1 n, flatMap_singleton]
    cases hnext : find f.tupleDelimiter (stream.bytes (n + 1)) 0 with
    | none =>
      rw [hnext] at hfind hmark
      have hnot : ¬ (f.rawBuffers stream).Mark (n + 1) := by simp [hmark]
      refine ⟨done, ?_, ?_⟩
      · rw [pieces_of_find_none hfind, hopen (n + 1), Nat.findGreatest_of_not hnot, hopen n,
          Nat.succ_sub hle, range'_1_concat, flatMap_append,
          show Nat.findGreatest (f.rawBuffers stream).Mark n + 1
            + (n - Nat.findGreatest (f.rawBuffers stream).Mark n) = n + 1 by omega]
        simp
      · rw [if_neg hnot, insideTuples, if_neg (by rw [(stagedBuffer_eq f stream _).1, hnext]; simp), append_nil]
        exact hperm
    | some i =>
      rw [hnext] at hfind hmark
      have hyes : (f.rawBuffers stream).Mark (n + 1) := by simp [hmark]
      have hspan : f.spanTuple (f.rawBuffers stream) (Nat.findGreatest (f.rawBuffers stream).Mark n) (n + 1)
          = f.openTuple (f.rawBuffers stream) n ++ (stream.bytes (n + 1)).take i := by
        rw [spanTuple, openTuple, staged_of_pos _ n.succ_pos, (stagedBuffer_eq f stream (n + 1)).2 i hnext]
        rfl
      refine ⟨done ++ f.spanTuple (f.rawBuffers stream) (Nat.findGreatest (f.rawBuffers stream).Mark n) (n + 1)
        :: f.insideTuples stream (n + 1), ?_, ?_⟩
      · rw [pieces_of_find_some hneedle hfind, hspan, hopen (n + 1), Nat.findGreatest_eq hyes,
          take_length_add_append, Nat.add_assoc, drop_length_add_append,
          (pieces_behind_first hend hneedle hnext).1]
        simp
      · rw [if_pos hyes, map_append, map_singleton]
        exact perm_append_both hperm

end

end AtEnd

/-- The content law for longer delimiters, if the stream has them where the formatter steps over them. -/
theorem content_of_delimiters_at_end (f : CSVInputFormatter) (hlength : 2 ≤ f.tupleDelimiter.length)
    (stream : RawStream) (hend : DelimitersAtEnd f.tupleDelimiter stream)
    (returned : List (ProcessSequenceNumberCall × SpanningTupleBuffers)) (flushed : SpanningTupleBuffers)
    (contract : ShredderContract (f.rawBuffers stream) stream.numberOfBuffers returned flushed)
    (originId flushNumber bufferSize : Nat) :
    ((∃ pec, f.formatAll stream originId returned flushed flushNumber ⟨bufferSize, [], []⟩ = .ok pec)
      ↔ ∀ w ∈ piecesOfStream f.tupleDelimiter stream.content, f.accepts w = true) ∧
    ∀ pec, f.formatAll stream originId returned flushed flushNumber ⟨bufferSize, [], []⟩ = .ok pec →
      (pec.emitted.flatMap processedTuples).Perm (piecesOfStream f.tupleDelimiter stream.content) ∧
      ∀ b ∈ pec.emitted, b.numberOfTuples = b.processedTuples.length := by
  have hneedle : f.tupleDelimiter ≠ [] := ne_nil_of_length_pos (by omega)
  have hdone := contract.tuples_perm_of fun result hresult =>
    (contract.call hresult).callTuples_perm (insideTuples_of_not_emits hend hneedle (contract.call hresult))
  rcases pieces_textUpTo hend hneedle stream.numberOfBuffers with ⟨done, hsplit, hperm⟩
  have hpieces : piecesOfStream f.tupleDelimiter stream.content
      = done ++ (if f.openTuple (f.rawBuffers stream) stream.numberOfBuffers = [] then []
          else [f.openTuple (f.rawBuffers stream) stream.numberOfBuffers]) := by
    rw [piecesOfStream, stream.content_eq, hsplit, getLast?_concat, dropLast_concat]
    by_cases hempty : f.openTuple (f.rawBuffers stream) stream.numberOfBuffers = []
    · simp [hempty]
    · simp [hempty]
  have hspec := contract.formatAll_of_pieces (hdone.trans hperm.symm) hpieces originId flushNumber ⟨bufferSize, [], []⟩
  refine ⟨hspec.exists_ok_iff, fun pec hrun => ?_⟩
  rcases (hspec.of_eq_ok hrun).2 with ⟨chunks, rfl, hemitted, hcounted⟩
  exact ⟨hemitted, hcounted⟩

/-! ### A single buffer -/

/-- Lines of one text that end with a carriage return and a line feed. -/
def textFormatter : CSVInputFormatter := ⟨[13, 10], [44], [parseVarsized], [4]⟩

def singleBuffer (c : UInt8) (rest : Bytes) : RawStream := ⟨[c :: rest], by simp⟩

def singleReturned (raw : ShredderInput) : List (ProcessSequenceNumberCall × SpanningTupleBuffers) :=
  [⟨1, true, raw.stagedBuffer 1, ⟨0, 0, true, false⟩, 63⟩].map fun call => (call, raw.buffersOf call)

def singleFlushed (raw : ShredderInput) : SpanningTupleBuffers :=
  ⟨1, [raw.staged 1, SequenceShredder.dummyStagedBuffer]⟩

lemma singleContract {raw : ShredderInput} (hyes : raw.hasTupleDelimiter 1 = true) :
    ShredderContract raw 1 (singleReturned raw) (singleFlushed raw) := by
  have hspans : spansUpTo raw.Mark 1 = [(0, 1)] := by simp [spansUpTo, Mark, hyes]
  refine ⟨.refl _, ?_, ?_, ?_, ?_, ?_, ?_⟩
  · simp [singleReturned, hyes]
  · simp [singleReturned]
  · simp [singleReturned, reportedSpans]
  · simp [singleReturned, reportedSpans]
  · intro s e
    rw [← mem_spansUpTo raw.mark_zero, hspans]
    simp [singleReturned, reportedSpans]
  · simp [singleFlushed, Nat.findGreatest, Mark, hyes, SequenceShredder.indicesOfSpan]

def twoLines : RawStream := singleBuffer 49 [13, 10, 50, 13, 10]

lemma twoLines_atEnd : DelimitersAtEnd [13, 10] twoLines := by
  have hnothing : ∀ p, p ≠ 1 → twoLines.bytes p = [] := by
    rintro (_ | _ | p) hne
    · rfl
    · exact absurd rfl hne
    · rfl
  constructor
  · intro n i hi
    by_cases hn : n = 1
    · subst hn
      cases hi
      decide
    · rw [hnothing n hn] at hi
      cases hi
  · intro s n hnone
    -- the only buffer with bytes has the delimiter
    have hempty : (range' (s + 1) (n - s)).flatMap twoLines.bytes = [] := by
      refine flatMap_eq_nil_iff.2 fun p hp => hnothing p ?_
      rintro rfl
      have hrange := mem_range'_1.1 hp
      exact absurd (hnone 1 (by omega) (by omega)) (by decide)
    simp [hempty]

theorem content_of_delimiters_at_end_lines : ∃ pec, textFormatter.formatAll twoLines 1
        (singleReturned (textFormatter.rawBuffers twoLines))
        (singleFlushed (textFormatter.rawBuffers twoLines)) 2 ⟨4096, [], []⟩ = .ok pec ∧
      (pec.emitted.flatMap processedTuples).Perm [[49], [50]] :=
  ⟨_, rfl, ((content_of_delimiters_at_end textFormatter (by decide) _ twoLines_atEnd _ _
    (singleContract (by decide)) 1 2 4096).2 _ rfl).1⟩

def threeLines : RawStream := singleBuffer 49 [13, 10, 50, 13, 10, 51, 13, 10]

/-- In one buffer, the third line starts with the line feed of the second. -/
theorem third_line_keeps_line_feed : ∃ pec, ShredderContract (textFormatter.rawBuffers threeLines) 1
        (singleReturned (textFormatter.rawBuffers threeLines)) (singleFlushed (textFormatter.rawBuffers threeLines)) ∧
      textFormatter.formatAll threeLines 1 (singleReturned (textFormatter.rawBuffers threeLines))
        (singleFlushed (textFormatter.rawBuffers threeLines)) 2 ⟨4096, [], []⟩ = .ok pec ∧
      pec.emitted.flatMap processedTuples = [[49], [50], [10, 51]] ∧
      piecesOfStream [13, 10] threeLines.content = [[49], [50], [51]] :=
  ⟨_, singleContract (by decide), rfl, by decide, by decide⟩

end MobilityNebula.InputFormatters
