import Mathlib.Data.List.Basic

/-!
# TCPSource — filling tuple buffers from a socket

Embedding of `fillTupleBuffer` and `fillBuffer`.  The socket and the clock are arbitrary functions of the
number of the `read` call.  Nothing bounds the loops, so the calls run in steps of one loop iteration: a
call that does not return is a run that never gets past it.  As in the source thread, a call that returns
no bytes is the last one.
-/

namespace MobilityNebula.Sources

open List

/-- A source with its socket and clock.  The result of `read` number `k` is `none` for an error, and otherwise
the bytes that are there, of which it takes as many as it was asked for; no bytes are the end of the file.
`elapsedMs k` is the time on the flush interval timer after that `read`. -/
structure TCPSource where
  rawTBSize : Nat
  flushIntervalInMs : Rat
  read : Nat → Option (List UInt8)
  elapsedMs : Nat → Int

/-- The calls of `fillTupleBuffer` so far: what `read` has delivered, what the buffer of the running call
holds (its first `numReceivedBytes` bytes) and what the finished calls returned. -/
structure TCPRun where
  delivered : List UInt8
  received : List UInt8
  returned : List (List UInt8)
  deriving DecidableEq

/-- Some call has returned 0. -/
def TCPRun.ended (s : TCPRun) : Bool := s.returned.contains []

/-- `fillBuffer` returns.  `fillTupleBuffer` calls it again if nothing was received and the read was valid;
otherwise it returns and the next call starts with an empty buffer. -/
def TCPRun.leaveFillBuffer (s : TCPRun) (readWasValid : Bool) : TCPRun :=
  if s.received = [] ∧ readWasValid then s
  else { s with received := [], returned := s.returned ++ [s.received] }

namespace TCPSource

variable (source : TCPSource) (k : Nat)

def flushIntervalPassed : Bool :=
  0 < source.flushIntervalInMs ∧ source.flushIntervalInMs ≤ source.elapsedMs k

/-- The end of an iteration: the loop goes on unless the interval has passed or the buffer is full. -/
def endIteration (s : TCPRun) : TCPRun :=
  if source.flushIntervalPassed k ∨ source.rawTBSize ≤ s.received.length then s.leaveFillBuffer true else s

/-- One iteration of the loop of `fillBuffer`, with `read` number `k`. -/
def step (s : TCPRun) : TCPRun :=
  if s.received.length < source.rawTBSize then
    match source.read k with
    | none => { s with received := [] }.leaveFillBuffer false
    | some available =>
      let bytes := available.take (source.rawTBSize - s.received.length)
      if bytes = [] ∧ s.received = [] then s.leaveFillBuffer false
      else source.endIteration k { s with delivered := s.delivered ++ bytes, received := s.received ++ bytes }
  else s.leaveFillBuffer true

def run : Nat → TCPRun
  | 0 => { delivered := [], received := [], returned := [] }
  | k + 1 => if (run k).ended then run k else source.step k (run k)

/-! ## What a step does -/

lemma endIteration_cases (s : TCPRun) (hne : s.received ≠ []) (hle : s.received.length ≤ source.rawTBSize) :
    source.flushIntervalPassed k = false ∧ s.received.length < source.rawTBSize ∧ source.endIteration k s = s ∨
    (source.flushIntervalPassed k = true ∨ s.received.length = source.rawTBSize) ∧
      source.endIteration k s = { s with received := [], returned := s.returned ++ [s.received] } := by
  by_cases hleave : source.flushIntervalPassed k ∨ source.rawTBSize ≤ s.received.length
  · refine .inr ⟨hleave.imp_right (Nat.le_antisymm hle), ?_⟩
    simp [endIteration, hleave, TCPRun.leaveFillBuffer, hne]
  · refine .inl ⟨by simpa using fun h => hleave (.inl h), by omega, ?_⟩
    simp [endIteration, hleave]

/-- A read in the loop ends the source, or its bytes are added to the buffer. -/
lemma step_cases {s : TCPRun} (hlt : s.received.length < source.rawTBSize) :
    ((source.read k = none ∨ source.read k = some [] ∧ s.received = []) ∧
      source.step k s = ⟨s.delivered, [], s.returned ++ [[]]⟩) ∨
    ∃ available bytes, source.read k = some available ∧
      bytes.length = min (source.rawTBSize - s.received.length) available.length ∧
      s.received ++ bytes ≠ [] ∧ (s.received ++ bytes).length ≤ source.rawTBSize ∧
      source.step k s = source.endIteration k ⟨s.delivered ++ bytes, s.received ++ bytes, s.returned⟩ := by
  simp only [step, if_pos hlt]
  cases source.read k with
  | none => exact .inl ⟨.inl rfl, by simp [TCPRun.leaveFillBuffer]⟩
  | some available =>
    have hroom : source.rawTBSize - s.received.length ≠ 0 := by omega
    by_cases hempty : available = [] ∧ s.received = []
    · exact .inl ⟨.inr (by simp [hempty]), by simp [hempty, TCPRun.leaveFillBuffer]⟩
    · refine .inr ⟨available, available.take (source.rawTBSize - s.received.length), rfl, length_take, ?_, ?_, ?_⟩
      · simpa [hroom, and_comm] using hempty
      · rw [length_append, length_take]
        omega
      · simp only [take_eq_nil_iff, hroom, false_or, if_neg hempty]

/-- What holds after every step.  Only full buffers are returned if there is no flush interval. -/
structure RunInvariant (s : TCPRun) : Prop where
  short : s.received = [] ∨ s.received.length < source.rawTBSize
  balanced : s.ended = false → s.delivered = s.returned.flatten ++ s.received
  full : ¬ 0 < source.flushIntervalInMs → source.rawTBSize ∣ s.returned.flatten.length

lemma RunInvariant.step {s : TCPRun} (inv : source.RunInvariant s) (hended : s.ended = false) (n : Nat) :
    source.RunInvariant (source.step n s) := by
  have hbalanced := inv.balanced hended
  by_cases hlt : s.received.length < source.rawTBSize
  · rcases source.step_cases n hlt with ⟨-, hstep⟩ | ⟨_, bytes, _, _, hne, hle, hstep⟩
    · exact ⟨by simp [hstep], by simp [hstep, TCPRun.ended], by simpa [hstep] using inv.full⟩
    · rcases source.endIteration_cases n ⟨_, _, _⟩ hne hle with ⟨-, hroom, heq⟩ | ⟨hleave, heq⟩
      · rw [hstep, heq]
        exact ⟨.inr hroom, fun _ => by simp [hbalanced], inv.full⟩
      · rw [hstep, heq]
        refine ⟨.inl rfl, fun _ => by simp [hbalanced], fun hzero => ?_⟩
        have hfull := hleave.resolve_left (by simp [flushIntervalPassed, hzero])
        rw [flatten_concat, length_append, hfull]
        exact Nat.dvd_add (inv.full hzero) (Nat.dvd_refl _)
  · have hempty := inv.short.resolve_right hlt
    have hstay : source.step n s = s := by
      rw [TCPSource.step, if_neg hlt, TCPRun.leaveFillBuffer, if_pos ⟨hempty, rfl⟩]
    exact hstay.symm ▸ inv

lemma run_succ {n : Nat} (h : (source.run n).ended = false) : source.run (n + 1) = source.step n (source.run n) := by
  simp [run, h]

lemma run_of_ended {n m : Nat} (h : (source.run n).ended = true) (hle : n ≤ m) : source.run m = source.run n := by
  obtain ⟨d, rfl⟩ := Nat.exists_eq_add_of_le hle
  induction d with
  | zero => rfl
  | succ d ih => rw [← Nat.add_assoc, run, ih (Nat.le_add_right n d), if_pos h]

lemma run_invariant (n : Nat) : source.RunInvariant (source.run n) := by
  induction n with
  | zero => exact ⟨.inl rfl, fun _ => rfl, fun _ => ⟨0, rfl⟩⟩
  | succ n ih =>
    cases hended : (source.run n).ended with
    | false => exact source.run_succ hended ▸ ih.step source hended n
    | true => rwa [source.run_of_ended hended (Nat.le_succ n)]

lemma balanced {n : Nat} (hended : (source.run n).ended = false) :
    (source.run n).delivered = (source.run n).returned.flatten ++ (source.run n).received :=
  (source.run_invariant n).balanced hended

/-! ## Every byte is returned -/

def total : Nat → Nat
  | 0 => 0
  | n + 1 => total n + ((source.read n).getD []).length

/-- After read `n` the interval has passed, or the bytes fill the buffer of a call that begins with read `first`. -/
def Leaves (first n : Nat) : Prop :=
  source.flushIntervalPassed n ∨ source.rawTBSize + source.total first ≤ source.total (n + 1)

instance (first n : Nat) : Decidable (source.Leaves first n) := inferInstanceAs (Decidable (_ ∨ _))

/-- The first read of the call that makes read `n`. -/
def firstRead : Nat → Nat
  | 0 => 0
  | n + 1 => if source.Leaves (firstRead n) n then n + 1 else firstRead n

/-- The first read of a call brings nothing. -/
def Ends (n : Nat) : Prop := source.firstRead n = n ∧ (source.read n = none ∨ source.read n = some [])

/-- No call before read `n` finds the end of the file. -/
def GoesOn (n : Nat) : Prop := ∀ i, i < n → ¬source.Ends i

/-- After the first read of a call no read fails. -/
def NeverFails (n : Nat) : Prop := ∀ i, i < n → source.firstRead i < i → source.read i ≠ none

lemma firstRead_le (n : Nat) : source.firstRead n ≤ n := by
  induction n with
  | zero => exact Nat.le_refl 0
  | succ n ih =>
    rw [firstRead]
    split
    · exact Nat.le_refl _
    · exact Nat.le_succ_of_le ih

section Calls

variable {source} {n : Nat}

/-- While the reads of a call go on, no call begins. -/
lemma goesOn_succ (hends : source.GoesOn n) (hfirst : source.firstRead n < n) : source.GoesOn (n + 1) := by
  intro i hi
  rcases Nat.lt_succ_iff_lt_or_eq.1 hi with hlt | rfl
  · exact hends i hlt
  · exact fun hend => Nat.ne_of_lt hfirst hend.1

variable (hpos : 0 < source.rawTBSize)
include hpos

lemma run_succ_of_end (hended : (source.run n).ended = false)
    (h : source.read n = none ∨ source.read n = some [] ∧ (source.run n).received = []) :
    source.run (n + 1) = ⟨(source.run n).delivered, [], (source.run n).returned ++ [[]]⟩ := by
  have hlt := (source.run_invariant n).short.elim (fun hempty => by rwa [hempty]) id
  rw [source.run_succ hended]
  rcases h with herror | ⟨heof, hempty⟩
  · simp [step, hlt, herror, TCPRun.leaveFillBuffer]
  · simp [step, hempty, hpos, heof, TCPRun.leaveFillBuffer]

/-- Until a call finds the end of the file, the buffer has what the reads of the running call brought. -/
lemma received_of_reads (hends : source.GoesOn n) (hvalid : source.NeverFails n) :
    (source.run n).ended = false ∧
      (source.run n).received.length + source.total (source.firstRead n) = source.total n ∧
      ((source.run n).received = [] ↔ source.firstRead n = n) := by
  induction n with
  | zero => exact ⟨rfl, rfl, iff_of_true rfl rfl⟩
  | succ n ih =>
    rcases ih (fun i hi => hends i (Nat.lt_succ_of_lt hi)) (fun i hi => hvalid i (Nat.lt_succ_of_lt hi)) with
      ⟨hended, hlength, hempty⟩
    have hend := hends n (Nat.lt_succ_self n)
    have hlt : (source.run n).received.length < source.rawTBSize :=
      (source.run_invariant n).short.elim (fun h => by rw [h]; exact hpos) id
    rw [source.run_succ hended]
    rcases source.step_cases n hlt with ⟨hread, -⟩ | ⟨available, bytes, hread, htaken, hne, hle, hstep⟩
    · refine absurd ?_ hend
      rcases Nat.lt_or_eq_of_le (source.firstRead_le n) with hbefore | hfirst
      · have hnone := hread.resolve_right fun h => Nat.ne_of_lt hbefore (hempty.1 h.2)
        exact absurd hnone (hvalid n (Nat.lt_succ_self n) hbefore)
      · exact ⟨hfirst, hread.imp_right And.left⟩
    · have htotal : source.total (n + 1) = source.total n + available.length := by rw [total, hread]; rfl
      have hbuffer : ((source.run n).received ++ bytes).length = (source.run n).received.length + bytes.length :=
        length_append
      rw [hstep]
      rcases source.endIteration_cases n ⟨_, _, _⟩ hne hle with ⟨hinterval, hroom, heq⟩ | ⟨hleave, heq⟩
      · have hroom' : ((source.run n).received ++ bytes).length < source.rawTBSize := hroom
        have hstays : ¬source.Leaves (source.firstRead n) n := by
          rintro (hpassed | hfull)
          · exact Bool.false_ne_true (hinterval.symm.trans hpassed)
          · omega
        rw [heq, firstRead, if_neg hstays]
        refine ⟨hended, ?_, iff_of_false hne (Nat.ne_of_lt (Nat.lt_succ_of_le (source.firstRead_le n)))⟩
        dsimp only
        omega
      · have hleaves : source.Leaves (source.firstRead n) n := by
          refine hleave.imp_right fun hfull => ?_
          have hfull' : ((source.run n).received ++ bytes).length = source.rawTBSize := hfull
          omega
        rw [heq, firstRead, if_pos hleaves]
        refine ⟨?_, Nat.zero_add _, iff_of_true rfl rfl⟩
        simp only [TCPRun.ended, contains_eq_mem, decide_eq_false_iff_not] at hended ⊢
        rw [mem_append, mem_singleton, not_or]
        exact ⟨hended, hne.symm⟩

/-- When a call begins everything has been returned. -/
lemma returned_of_firstRead (hends : source.GoesOn n) (hvalid : source.NeverFails n)
    (hfirst : source.firstRead n = n) : (source.run n).returned.flatten = (source.run n).delivered := by
  rcases received_of_reads hpos hends hvalid with ⟨hended, -, hempty⟩
  rw [source.balanced hended, hempty.2 hfirst, append_nil]

/-- Before the end of a call its bytes have not been returned, and a failing read discards them. -/
lemma not_returned (hends : source.GoesOn n) (hvalid : source.NeverFails n)
    (hfirst : source.firstRead n < n) : (source.run n).returned.flatten ≠ (source.run n).delivered ∧
      (source.read n = none → ∀ m, n + 1 ≤ m → (source.run m).returned.flatten ≠ (source.run m).delivered) := by
  rcases received_of_reads hpos hends hvalid with ⟨hended, -, hempty⟩
  have hreceived : (source.run n).received ≠ [] := fun h => Nat.ne_of_lt hfirst (hempty.1 h)
  refine ⟨by simpa [source.balanced hended] using hreceived, fun herror m hle => ?_⟩
  have hlost := run_succ_of_end hpos hended (.inl herror)
  rw [source.run_of_ended (by simp [hlost, TCPRun.ended]) hle, hlost, source.balanced hended]
  simpa using hreceived

/-- A call that finds the end of the file has lost nothing. -/
lemma returned_of_ends (hvalid : ∀ n, source.GoesOn n → source.NeverFails n) (n : Nat) :
    source.GoesOn n ∨
      (source.run n).ended = true ∧ (source.run n).returned.flatten = (source.run n).delivered := by
  induction n with
  | zero => exact .inl fun i hi => absurd hi (Nat.not_lt_zero i)
  | succ n ih =>
    rcases ih with hends | ⟨hended, heq⟩
    · by_cases hend : source.Ends n
      · refine .inr ?_
        rcases received_of_reads hpos hends (hvalid n hends) with ⟨hended, -, hempty⟩
        have hnil := hempty.2 hend.1
        rw [run_succ_of_end hpos hended (hend.2.imp_right fun heof => ⟨heof, hnil⟩), source.balanced hended, hnil]
        exact ⟨by simp [TCPRun.ended], by simp⟩
      · refine .inl fun i hi => ?_
        rcases Nat.lt_succ_iff_lt_or_eq.1 hi with hlt | rfl
        · exact hends i hlt
        · exact hend
    · rw [source.run_of_ended hended (Nat.le_succ n)]
      exact .inr ⟨hended, heq⟩

/-- Were a read to fail within a call, its bytes would never be returned. -/
lemma neverFails_of_returned (h : ∀ n, ∃ m, n ≤ m ∧ (source.run m).returned.flatten = (source.run m).delivered)
    (hends : source.GoesOn n) : source.NeverFails n := by
  intro i
  induction i using Nat.strongRecOn with
  | _ i ih =>
    intro hi hfirst herror
    have hends' : source.GoesOn i := fun j hj => hends j (Nat.lt_trans hj hi)
    rcases h (i + 1) with ⟨m, hle, heq⟩
    exact (not_returned hpos hends' (fun j hj => ih j hj (Nat.lt_trans hj hi)) hfirst).2 herror m hle heq

/-- A call that never leaves its loop never returns its bytes. -/
lemma exists_leaves_of_returned (h : ∀ n, ∃ m, n ≤ m ∧ (source.run m).returned.flatten = (source.run m).delivered)
    (hends : source.GoesOn n) (hfirst : source.firstRead n < n) :
    ∃ m, n ≤ m ∧ source.Leaves (source.firstRead n) m := by
  by_contra hnever
  have hsame : ∀ d, source.GoesOn (n + d) ∧ source.firstRead (n + d) = source.firstRead n := by
    intro d
    induction d with
    | zero => exact ⟨hends, rfl⟩
    | succ d ih =>
      have hbefore : source.firstRead (n + d) < n + d := by omega
      refine ⟨goesOn_succ ih.1 hbefore, ?_⟩
      rw [← Nat.add_assoc, firstRead, ih.2, if_neg fun hleaves => hnever ⟨n + d, Nat.le_add_right n d, hleaves⟩]
  rcases h n with ⟨m, hle, heq⟩
  obtain ⟨d, rfl⟩ := Nat.exists_eq_add_of_le hle
  rcases hsame d with ⟨hends', hfirst'⟩
  exact (not_returned hpos hends' (neverFails_of_returned hpos h hends') (by omega)).1 heq

/-- The induction is on the distance to the read after which the call leaves its loop. -/
lemma exists_returned_of_leaves (hvalid : ∀ n, source.GoesOn n → source.NeverFails n) (d : Nat)
    (hends : source.GoesOn n) (hfirst : source.firstRead n < n) (hleaves : source.Leaves (source.firstRead n) (n + d)) :
    ∃ m, n ≤ m ∧ (source.run m).returned.flatten = (source.run m).delivered := by
  induction d generalizing n with
  | zero =>
    have hends' := goesOn_succ hends hfirst
    exact ⟨n + 1, Nat.le_succ n, returned_of_firstRead hpos hends' (hvalid _ hends') (if_pos hleaves)⟩
  | succ d ih =>
    have hends' := goesOn_succ hends hfirst
    by_cases hnow : source.Leaves (source.firstRead n) n
    · exact ⟨n + 1, Nat.le_succ n, returned_of_firstRead hpos hends' (hvalid _ hends') (if_pos hnow)⟩
    · have hnext : source.firstRead (n + 1) = source.firstRead n := by rw [firstRead, if_neg hnow]
      rcases ih hends' (by omega) (by rwa [hnext, Nat.add_right_comm]) with ⟨m, hle, heq⟩
      exact ⟨m, Nat.le_of_succ_le hle, heq⟩

end Calls

/-- The returned buffers together are the bytes `read` delivered, again and again while the calls go on and
for good once a call has returned 0, if and only if, until the first read of a call brings nothing, no read after the
first one of a call fails, and after each of them there is one at which the bytes of the call fill the buffer or the
flush interval has passed.  (Into a buffer of no bytes nothing is read.) -/
theorem returned_eq_delivered_iff :
    (∀ n, ∃ m, n ≤ m ∧ (source.run m).returned.flatten = (source.run m).delivered) ↔
      source.rawTBSize = 0 ∨ ∀ n, source.GoesOn n → source.firstRead n < n →
        source.read n ≠ none ∧ ∃ m, n ≤ m ∧ source.Leaves (source.firstRead n) m := by
  rcases Nat.eq_zero_or_pos source.rawTBSize with hzero | hpos
  · have hrun : ∀ n, source.run n = ⟨[], [], []⟩ := by
      intro n
      induction n with
      | zero => rfl
      | succ n ih => simp [run, ih, step, hzero, TCPRun.ended, TCPRun.leaveFillBuffer]
    exact iff_of_true (fun n => ⟨n, Nat.le_refl n, by rw [hrun n]; rfl⟩) (.inl hzero)
  · constructor
    · intro h
      refine .inr fun n hends hfirst => ⟨?_, exists_leaves_of_returned hpos h hends hfirst⟩
      exact neverFails_of_returned hpos h (goesOn_succ hends hfirst) n (Nat.lt_succ_self n) hfirst
    · intro h n
      have hreads := h.resolve_left (Nat.ne_of_gt hpos)
      have hvalid : ∀ n, source.GoesOn n → source.NeverFails n :=
        fun n hends i hi hfirst => (hreads i (fun j hj => hends j (Nat.lt_trans hj hi)) hfirst).1
      rcases returned_of_ends hpos hvalid n with hends | ⟨-, heq⟩
      · rcases Nat.lt_or_eq_of_le (source.firstRead_le n) with hfirst | hfirst
        · rcases (hreads n hends hfirst).2 with ⟨m, hle, hleaves⟩
          obtain ⟨d, rfl⟩ := Nat.exists_eq_add_of_le hle
          exact exists_returned_of_leaves hpos hvalid d hends hfirst hleaves
        · exact ⟨n, Nat.le_refl n, returned_of_firstRead hpos hends (hvalid n hends) hfirst⟩
      · exact ⟨n, Nat.le_refl n, heq⟩

def afterOneByte (size : Nat) (later : Option (List UInt8)) : TCPSource where
  rawTBSize := size
  flushIntervalInMs := 0
  read := fun k => if k = 0 then some [97] else later
  elapsedMs := fun _ => 0

/-- The byte before a failing read is lost. -/
theorem byte_lost : (afterOneByte 2 none).run 2 = ⟨[97], [], [[]]⟩ ∧
    ∀ n, 2 ≤ n → (afterOneByte 2 none).run n = (afterOneByte 2 none).run 2 := by
  have hended : ((afterOneByte 2 none).run 2).ended = true := by decide
  exact ⟨by decide, fun n => run_of_ended _ hended⟩

/-! ## The end of the stream is reported -/

/-- A peer that sends data in `m` reads and then closes the connection.  Time goes on: after every read
there is a later one at which the flush interval has passed. -/
structure ClosesAfter (m : Nat) : Prop where
  sends : ∀ k, k < m → ∃ bytes, bytes ≠ [] ∧ source.read k = some bytes
  closed : ∀ k, m ≤ k → source.read k = some []
  timePasses : ∀ k, ∃ j, k ≤ j ∧ source.flushIntervalInMs ≤ source.elapsedMs j

/-- How many bytes the first `n` reads take if a buffer is only returned when it is full: a read is asked for what
the buffer lacks. -/
def taken : Nat → Nat
  | 0 => 0
  | n + 1 => taken n + min (source.rawTBSize - taken n % source.rawTBSize) ((source.read n).getD []).length

lemma taken_of_closed {m n : Nat} (hpeer : source.ClosesAfter m) (hle : m ≤ n) : source.taken n = source.taken m := by
  obtain ⟨d, rfl⟩ := Nat.exists_eq_add_of_le hle
  induction d with
  | zero => rfl
  | succ d ih =>
    rw [← Nat.add_assoc, taken, ih (Nat.le_add_right m d), hpeer.closed (m + d) (Nat.le_add_right m d)]
    exact congrArg (source.taken m + ·) (Nat.min_zero _)

/-- Without an interval the reads of a source that goes on deliver what they can take. -/
lemma length_delivered {n : Nat} (hinterval : ¬0 < source.flushIntervalInMs) (hended : (source.run n).ended = false) :
    (source.run n).delivered.length = source.taken n := by
  induction n with
  | zero => rfl
  | succ n ih =>
    have hended' : (source.run n).ended = false := by
      refine Bool.eq_false_iff.2 fun h => ?_
      rw [source.run_of_ended h (Nat.le_succ n), h] at hended
      cases hended
    have inv := source.run_invariant n
    rw [source.run_succ hended'] at hended ⊢
    by_cases hlt : (source.run n).received.length < source.rawTBSize
    · rcases source.step_cases n hlt with ⟨-, hstep⟩ | ⟨available, bytes, hread, htaken, hne, hle, hstep⟩
      · rw [hstep] at hended
        simp [TCPRun.ended] at hended
      · have hdelivered : (source.step n (source.run n)).delivered = (source.run n).delivered ++ bytes := by
          rw [hstep]
          rcases source.endIteration_cases n ⟨_, _, _⟩ hne hle with ⟨-, -, heq⟩ | ⟨-, heq⟩ <;> rw [heq]
        -- the returned buffers are full, so what is in the buffer is the remainder
        have hmod : source.taken n % source.rawTBSize = (source.run n).received.length := by
          rcases inv.full hinterval with ⟨buffers, hbuffers⟩
          rw [← ih hended', source.balanced hended', length_append, hbuffers, Nat.mul_add_mod_self_left,
            Nat.mod_eq_of_lt hlt]
        rw [hdelivered, length_append, ih hended', htaken, taken, hmod, hread]
        rfl
    · have hempty := inv.short.resolve_right hlt
      have hzero : source.rawTBSize = 0 := by
        rw [hempty] at hlt
        exact Nat.eq_zero_of_not_pos hlt
      rw [step, if_neg hlt, TCPRun.leaveFillBuffer, if_pos ⟨hempty, rfl⟩, ih hended', taken, hzero, Nat.zero_sub,
        Nat.zero_min, Nat.add_zero]

/-- `fillTupleBuffer` returns 0 at some time if and only if buffers are not empty and there is a flush
interval or the bytes that the reads take fill whole buffers. -/
theorem reports_end_of_stream_iff {m : Nat} (hpeer : source.ClosesAfter m) :
    (∃ n, (source.run n).ended = true) ↔
      0 < source.rawTBSize ∧ (0 < source.flushIntervalInMs ∨ source.rawTBSize ∣ source.taken m) := by
  constructor
  · rintro ⟨n, hn⟩
    induction n with
    | zero => cases hn
    | succ n ih =>
      cases hended : (source.run n).ended with
      | true => exact ih hended
      | false =>
        have inv := source.run_invariant n
        rw [source.run_succ hended] at hn
        by_cases hlt : (source.run n).received.length < source.rawTBSize
        · refine ⟨by omega, or_iff_not_imp_left.2 fun hzero => ?_⟩
          rcases source.step_cases n hlt with ⟨hread, -⟩ | ⟨_, bytes, _, _, hne, hle, hstep⟩
          · have hclosed : m ≤ n := by
              by_contra hopen
              rcases hpeer.sends n (Nat.lt_of_not_le hopen) with ⟨bytes, hbytes, hdata⟩
              simp [hdata, hbytes] at hread
            have hempty : (source.run n).received = [] := by simpa [hpeer.closed n hclosed] using hread
            rw [← source.taken_of_closed hpeer hclosed, ← source.length_delivered hzero hended,
              source.balanced hended, hempty, append_nil]
            exact inv.full hzero
          · simp only [TCPRun.ended, contains_eq_mem, decide_eq_true_eq, decide_eq_false_iff_not] at hn hended
            rcases source.endIteration_cases n ⟨_, _, _⟩ hne hle with ⟨-, -, heq⟩ | ⟨-, heq⟩
            · rw [hstep, heq] at hn
              exact absurd hn hended
            · rw [hstep, heq, mem_append, mem_singleton] at hn
              exact (hn.elim hended (Ne.symm hne)).elim
        · rw [step, if_neg hlt, TCPRun.leaveFillBuffer, if_pos ⟨inv.short.resolve_right hlt, rfl⟩, hended] at hn
          cases hn
  · rintro ⟨hpos, hcases⟩
    by_contra hnever
    have hended : ∀ n, (source.run n).ended = false := fun n => Bool.eq_false_iff.2 fun h => hnever ⟨n, h⟩
    have hlt : ∀ n, (source.run n).received.length < source.rawTBSize :=
      fun n => (source.run_invariant n).short.elim (fun h => by simpa [h] using hpos) id
    -- with an empty buffer the end of the file would end the source
    have hreceived : ∀ n, m ≤ n → (source.run n).received ≠ [] := by
      intro n hle hempty
      have hnext := hended (n + 1)
      rw [source.run_succ (hended n)] at hnext
      simp [step, hpos, hpeer.closed n hle, hempty, TCPRun.leaveFillBuffer, TCPRun.ended] at hnext
    by_cases hinterval : 0 < source.flushIntervalInMs
    · rcases hpeer.timePasses m with ⟨j, hle, hpassed⟩
      refine hreceived (j + 1) (by omega) ?_
      rw [source.run_succ (hended j)]
      simp [step, hlt, hpeer.closed j hle, hreceived j hle, endIteration, flushIntervalPassed, hinterval, hpassed,
        TCPRun.leaveFillBuffer]
    · have hdvd := hcases.resolve_left hinterval
      refine hreceived m (Nat.le_refl m) ?_
      rw [← source.length_delivered hinterval (hended m), source.balanced (hended m), length_append,
        Nat.dvd_add_right ((source.run_invariant m).full hinterval)] at hdvd
      exact length_eq_zero_iff.1 (Nat.eq_zero_of_dvd_of_lt hdvd (hlt m))

lemma closesAfter_afterOneByte (size : Nat) : (afterOneByte size (some [])).ClosesAfter 1 := by
  refine ⟨fun k hk => ⟨[97], by simp, ?_⟩, fun k hk => ?_, fun k => ⟨k, Nat.le_refl k, by simp [afterOneByte]⟩⟩
  · simp [afterOneByte, Nat.lt_one_iff.1 hk]
  · simp [afterOneByte, Nat.ne_of_gt hk]

theorem reports_end_of_stream_oneByte : ∃ n, ((afterOneByte 1 (some [])).run n).ended = true :=
  (reports_end_of_stream_iff _ (closesAfter_afterOneByte 1)).2 ⟨by decide, .inr (by decide)⟩

/-- After one byte in a buffer of two, the first call reads the end of the file forever. -/
theorem call_never_returns : (afterOneByte 2 (some [])).ClosesAfter 1 ∧
    ∀ n, (afterOneByte 2 (some [])).run (n + 1) = ⟨[97], [97], []⟩ := by
  refine ⟨closesAfter_afterOneByte 2, fun n => ?_⟩
  induction n with
  | zero => rfl
  | succ n ih => rw [run, ih]; rfl

end TCPSource

end MobilityNebula.Sources
