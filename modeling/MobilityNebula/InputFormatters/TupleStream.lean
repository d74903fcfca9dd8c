import MobilityNebula.Library.Blocks
import MobilityNebula.InputFormatters.RawStream

/-!
# TupleStream — buffers and tuples for a tuple delimiter of one byte

For a tuple delimiter of one byte the offsets the formatter works with cut the stream at the delimiter: the
tuples inside a buffer are its inner pieces (`innerTuples_stagedBuffer`), the partial tuple of a span is the
text from delimiter to delimiter (`spanTuple_eq`), and what stands behind the last mark is the text behind
the last delimiter (`openTuple_eq`).
-/

namespace MobilityNebula.InputFormatters

open Library CSVInputFormatter List RawStream ShredderInput

/-! ## Streams and pieces -/

def piecesOf (d : UInt8) (text : Bytes) : List Bytes :=
  if (text.splitOn d).getLast? = some [] then (text.splitOn d).dropLast else text.splitOn d

lemma RawStream.content_eq (stream : RawStream) : stream.content = textUpTo stream.bytes stream.numberOfBuffers := by
  have hmap : (range' 1 stream.numberOfBuffers).map stream.bytes = stream.buffers := by
    refine ext_getElem (by simp [numberOfBuffers]) fun i hi hi' => ?_
    rw [getElem_map, getElem_range', Nat.one_mul, Nat.add_comm, bytes, getD_eq_getElem _ _ hi']
  rw [content, textUpTo, flatMap_def, hmap]

/-! ## Buffers and one-byte delimiters -/

section OneByte

variable {f : CSVInputFormatter} {d : UInt8} {stream : RawStream} {n p : Nat}

lemma tuplesFrom_eq (rest : Bytes) : ∀ (pre : Bytes) (fuel : Nat), rest.length + 1 ≤ fuel →
      tuplesFrom [d] (pre ++ rest) fuel pre.length = (rest.splitOn d).dropLast := by
  induction rest using splitOn_induction (d := d) with
  | single w hw =>
    intro pre fuel hfuel
    rcases Nat.exists_eq_succ_of_ne_zero (show fuel ≠ 0 by omega) with ⟨fuel, rfl⟩
    rw [tuplesFrom, find_eq_none hw, splitOn_eq_singleton hw]
    rfl
  | cons w rest hw ih =>
    intro pre fuel hfuel
    rw [length_append, length_cons] at hfuel
    rcases Nat.exists_eq_succ_of_ne_zero (show fuel ≠ 0 by omega) with ⟨fuel, rfl⟩
    rw [tuplesFrom, find_append_cons hw, splitOn_first hw, dropLast_cons_of_ne_nil (splitOn_ne_nil d rest)]
    -- the next round starts behind `w` and its delimiter
    have hnext := ih (pre ++ w ++ [d]) fuel (by omega)
    rw [show pre ++ w ++ [d] ++ rest = pre ++ (w ++ d :: rest) by simp,
      show (pre ++ w ++ [d]).length = pre.length + w.length + 1 by simp; omega] at hnext
    simp [hnext]

variable (hd : f.tupleDelimiter = [d])

include hd

lemma hasTupleDelimiter_iff : (f.rawBuffers stream).hasTupleDelimiter n = true ↔ d ∈ stream.bytes n := by
  rw [← find_singleton_isSome_iff]
  simp only [rawBuffers, stageRawBuffer, hd, rawTB]
  cases find [d] (stream.bytes n) 0 with
  | none => simp
  | some i => simp

lemma mark_iff : (f.rawBuffers stream).Mark p ↔ BlockMark d stream.bytes p := by
  rw [ShredderInput.Mark, BlockMark, hasTupleDelimiter_iff hd]

lemma stagedBuffer_of_mem (h : d ∈ stream.bytes n) : (f.rawBuffers stream).stagedBuffer n =
      ⟨some (stream.rawTB n), (stream.bytes n).length, (leading d (stream.bytes n)).length,
        (stream.bytes n).length - ((trailing d (stream.bytes n)).length + 1)⟩ := by
  have hfirst : find [d] (stream.bytes n) 0 = some (leading d (stream.bytes n)).length := by
    rcases eq_append_cons_of_mem h with ⟨w, rest, hbytes, hw⟩
    rw [hbytes, leading_first hw]
    simpa using @find_append_cons _ _ d [] w rest hw
  have hlast : rfind [d] (stream.bytes n)
      = some ((stream.bytes n).length - ((trailing d (stream.bytes n)).length + 1)) := by
    rcases exists_last_separator h with ⟨pre, w, hbytes, hw⟩
    rw [hbytes, trailing_last hw, rfind_append_cons hw]
    simp
  simp only [rawBuffers, stageRawBuffer, hd, rawTB, hfirst, hlast, Option.getD_some]

lemma innerTuples_stagedBuffer (h : d ∈ stream.bytes n) :
    f.innerTuples ((f.rawBuffers stream).stagedBuffer n) = inner d (stream.bytes n) := by
  have hparts := getBuffer_stagedBuffer f stream n
  unfold innerTuples
  rw [hparts.1, hparts.2, stagedBuffer_of_mem hd h, hd, take_length]
  rcases eq_append_cons_of_mem h with ⟨w, rest, hbytes, hw⟩
  have hloop := tuplesFrom_eq (d := d) rest (w ++ [d]) ((stream.bytes n).length + 2) (by
    rw [hbytes, length_append, length_cons]
    omega)
  rw [show w ++ [d] ++ rest = stream.bytes n by simp [hbytes], length_append] at hloop
  simp only [hbytes, leading_first hw, inner_first hw] at hloop ⊢
  exact hloop

/-! ## Partial tuples -/

/-- The first part of a partial tuple is what follows the last delimiter of its first buffer. -/
lemma trailingBytes_staged (h : (f.rawBuffers stream).Mark p) :
    f.trailingBytes ((f.rawBuffers stream).staged p) = trailing d (stream.bytes p) := by
  rcases (mark_iff hd).1 h with rfl | hmem
  · -- the implicit delimiter before the first buffer
    simp [trailingBytes, staged, bytes, trailing, splitOn_nil, StagedBuffer.getBuffer]
  · have hpos : 0 < p := by
      rcases Nat.eq_zero_or_pos p with rfl | hpos
      · simp [bytes] at hmem
      · exact hpos
    have hparts := getBuffer_stagedBuffer f stream p
    rw [staged_of_pos _ hpos, trailingBytes, hparts.1, hparts.2, stagedBuffer_of_mem hd hmem, hd]
    rcases exists_last_separator hmem with ⟨pre, w, hbytes, hw⟩
    have hlength : (stream.bytes p).length = pre.length + 1 + w.length := by
      rw [hbytes, length_append, length_cons]
      omega
    have hdrop : (stream.bytes p).drop (pre.length + 1) = w := by
      rw [hbytes, append_cons]
      exact drop_left' (by simp)
    have hoffset : (stream.bytes p).length - (w.length + 1) = pre.length := by omega
    have hsize : (stream.bytes p).length - (pre.length + 1) = w.length := by omega
    simp [hbytes ▸ @trailing_last _ _ d w pre hw, hoffset, hsize, hdrop]

omit hd in
lemma wholeBytes_staged (hpos : 0 < p) : ((f.rawBuffers stream).staged p).getBuffer.take
        ((f.rawBuffers stream).staged p).sizeOfBufferInBytes = stream.bytes p := by
  have hparts := getBuffer_stagedBuffer f stream p
  rw [staged_of_pos _ hpos, hparts.1, hparts.2, take_length]

/-- The last part of a partial tuple is what precedes the first delimiter of its last buffer. -/
lemma lastBytes_staged (hpos : 0 < p) (hmem : d ∈ stream.bytes p) : ((f.rawBuffers stream).staged p).getBuffer.take
        ((f.rawBuffers stream).staged p).offsetOfFirstTupleDelimiter = leading d (stream.bytes p) := by
  have hparts := getBuffer_stagedBuffer f stream p
  rw [staged_of_pos _ hpos, hparts.1, stagedBuffer_of_mem hd hmem]
  rcases eq_append_cons_of_mem hmem with ⟨w, rest, hbytes, hw⟩
  simp only [hbytes, leading_first hw]
  exact take_left

omit hd in
lemma bytesBetween_eq {s e : Nat} : bytesBetween (f.rawBuffers stream) s e
      = (range' (s + 1) (e - (s + 1))).flatMap stream.bytes := by
  refine flatMap_congr fun p hp => ?_
  have hrange := mem_range'_1.1 hp
  exact wholeBytes_staged (by omega)

lemma spanTuple_eq {s e : Nat} (hspan : Consecutive (f.rawBuffers stream).Mark s e) :
    f.spanTuple (f.rawBuffers stream) s e = spanText d stream.bytes s e := by
  have hlt := hspan.lt
  have hend : d ∈ stream.bytes e := by
    rcases (mark_iff hd).1 hspan.right with hzero | hmem
    · omega
    · exact hmem
  rw [spanTuple, trailingBytes_staged hd hspan.left, bytesBetween_eq,
    lastBytes_staged hd (by omega) hend, spanText]

lemma findGreatest_mark :
    Nat.findGreatest (f.rawBuffers stream).Mark n = Nat.findGreatest (BlockMark d stream.bytes) n :=
  le_antisymm (Nat.findGreatest_mono_left (fun _ => (mark_iff hd).1) n)
    (Nat.findGreatest_mono_left (fun _ => (mark_iff hd).2) n)

lemma openTuple_eq : f.openTuple (f.rawBuffers stream) n = openText d stream.bytes n := by
  have hmark : (f.rawBuffers stream).Mark (Nat.findGreatest (f.rawBuffers stream).Mark n) :=
    Nat.findGreatest_spec (Nat.zero_le n) (mark_zero _)
  rw [openTuple, trailingBytes_staged hd hmark, bytesBetween_eq, openText,
    ← findGreatest_mark hd, Nat.add_sub_add_right]

end OneByte

end MobilityNebula.InputFormatters
