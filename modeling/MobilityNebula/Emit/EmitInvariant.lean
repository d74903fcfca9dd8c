import MobilityNebula.Emit.EmitSystem

/-!
# EmitInvariant — chunk numbers without gaps, one last chunk, no state left

The task that completes a sequence number is the last one to process its chunk.  All other tasks are done by
then, so nobody draws a chunk number from a counter that was removed and nobody is told a second time that the
sequence number is complete.  The invariant of one sequence number says this for every state of every schedule;
`emitted_chunks_of_schedule` reads the result off the final state.
-/

namespace MobilityNebula.Emit

open Library Sequencing Function OutputChunk List SequenceView

universe u

/-! ## The invariant -/

/-- The task has not removed the counter of its sequence number. -/
def TaskState.KeepsCounter : TaskState → Prop
  | .filling _ => True
  | .closing _ => True
  | .completed _ => True
  | .removing _ => False
  | .done => False

/-- The chunk number of the latest draw of a task: the draws are numbered from 1 on. -/
def lastDraw : List Nat → Nat → Nat
  | [], _ => 0
  | d :: rest, c => if d = c then rest.length + 1 else lastDraw rest c

lemma lastDraw_cons_self (c : Nat) (rest : List Nat) : lastDraw (c :: rest) c = rest.length + 1 := if_pos rfl

lemma lastDraw_cons_of_ne {c d : Nat} (hne : d ≠ c) (rest : List Nat) :
    lastDraw (d :: rest) c = lastDraw rest c := if_neg hne

lemma lastDraw_le (drawn : List Nat) (c : Nat) : lastDraw drawn c ≤ drawn.length := by
  induction drawn with
  | nil => exact le_refl 0
  | cons d rest ih =>
    rw [lastDraw]
    split_ifs
    · exact le_refl _
    · exact ih.trans (Nat.le_succ _)

namespace SequenceView

/-- All chunk numbers that were drawn: those of emitted buffers and those that tasks hold. -/
def numbers (k : Nat) (view : SequenceView) : List Nat :=
  view.emitted.map chunkNumber ++ (range' 1 k).flatMap fun c => (view.tasks c).held

def AllDone (k : Nat) (view : SequenceView) : Prop := ∀ c, 1 ≤ c → c ≤ k → view.tasks c = .done

/-- When one task changes its state, the numbers change as those of that task do. -/
lemma numbers_update (extra : List Nat) {k c : Nat} (hpos : 1 ≤ c) (hle : c ≤ k) {view view' : SequenceView}
    {t : TaskState}
    (htasks : view'.tasks = update view.tasks c t)
    (h : (view'.emitted.map chunkNumber ++ t.held).Perm
      (extra ++ (view.emitted.map chunkNumber ++ (view.tasks c).held))) :
    (view'.numbers k).Perm (extra ++ view.numbers k) := by
  have hmem : c ∈ range' 1 k := mem_range'_1.2 ⟨hpos, by omega⟩
  have hother : ∀ x, x ≠ c → (view'.tasks x).held = (view.tasks x).held := by
    intro x hx
    rw [htasks, update_of_ne hx]
  rcases exists_flatMap_perm nodup_range' hmem hother with ⟨rest, hnew, hold⟩
  rw [htasks, update_self] at hnew
  unfold numbers
  rw [htasks]
  refine (hnew.append_left _).trans ?_
  rw [← append_assoc]
  refine (h.append_right rest).trans ?_
  rw [append_assoc, append_assoc]
  exact (hold.symm.append_left _).append_left extra

end SequenceView

structure SequenceInvariant (k : Nat) (view : SequenceView) : Prop where
  processed : IsChunkSet k view.processed
  processed_iff : ∀ c, 1 ≤ c → c ≤ k → (c ∈ view.processed ↔ (view.tasks c).IsProcessed)
  numbers : (view.numbers k).Perm (range' 1 view.drawn.length)
  held : ∀ c n, n ∈ (view.tasks c).held → n = lastDraw view.drawn c
  counter : ∀ c, 1 ≤ c → c ≤ k → (view.tasks c).KeepsCounter → view.nextChunk.getD 0 = view.drawn.length
  state : ∀ c, 1 ≤ c → c ≤ k → view.tasks c ≠ .done →
    view.chunkState.getD .initial = .after k view.processed
  finishing : ∀ c n, 1 ≤ c → c ≤ k → view.tasks c = .completed n ∨ view.tasks c = .removing n →
    view.processed.head? = some c ∧ ∀ c', 1 ≤ c' → c' ≤ k → c' ≠ c → view.tasks c' = .done
  removing : ∀ c n, 1 ≤ c → c ≤ k → view.tasks c = .removing n → view.nextChunk = none
  unflagged : ∀ c, 1 ≤ c → c ≤ k → view.tasks c ≠ .done → ∀ b ∈ view.emitted, b.lastChunk = false
  finished : view.AllDone k → view.nextChunk = none ∧ view.chunkState = none ∧
    ∃ c rest, view.processed.head? = some c ∧ view.emitted = ⟨lastDraw view.drawn c, true⟩ :: rest ∧
      ∀ b ∈ rest, b.lastChunk = false

namespace SequenceInvariant

variable {k : Nat} {view : SequenceView}

lemma initial (hk : 0 < k) : SequenceInvariant k initial where
  processed := .nil k
  processed_iff c _ _ := by simp [SequenceView.initial, TaskState.IsProcessed]
  numbers := by simp [SequenceView.numbers, SequenceView.initial, TaskState.held]
  held c n hn := absurd hn not_mem_nil
  counter _ _ _ _ := rfl
  state _ _ _ _ := by simp [SequenceView.initial, SequenceState.after, SequenceState.initial]
  finishing c n _ _ h := by simp [SequenceView.initial] at h
  removing c n _ _ h := by simp [SequenceView.initial] at h
  unflagged _ _ _ _ b hb := absurd hb not_mem_nil
  finished hall := by
    have hfirst := hall 1 (le_refl 1) hk
    simp [SequenceView.initial] at hfirst

/-! ## Drawing a chunk number -/

lemma perm_range_succ {numbers : List Nat} {D : Nat} (h : numbers.Perm (range' 1 D)) :
    ([D + 1] ++ numbers).Perm (range' 1 (D + 1)) := by
  rw [range'_concat, Nat.one_mul, Nat.add_comm 1 D]
  exact (h.append_left [D + 1]).trans perm_append_comm

variable (inv : SequenceInvariant k view)
include inv

variable {c : Nat} {t : TaskState}

/-- A task that stays on its side of `processChunkNumber`. -/
lemma processed_iff_update (ht : t.IsProcessed ↔ (view.tasks c).IsProcessed) {c' : Nat}
    (hpos' : 1 ≤ c') (hle' : c' ≤ k) : c' ∈ view.processed ↔ (update view.tasks c t c').IsProcessed := by
  rw [inv.processed_iff c' hpos' hle']
  by_cases heq : c' = c
  · rw [heq, update_self, ht]
  · rw [update_of_ne heq]

lemma not_finishing_update (hpos : 1 ≤ c) (hle : c ≤ k) (hnotdone : view.tasks c ≠ .done)
    (ht : ∀ n, ¬ (t = .completed n ∨ t = .removing n)) (c' n : Nat) (hpos' : 1 ≤ c') (hle' : c' ≤ k) :
    ¬ (update view.tasks c t c' = .completed n ∨ update view.tasks c t c' = .removing n) := by
  intro hfinish
  by_cases heq : c' = c
  · rw [heq, update_self] at hfinish
    exact ht n hfinish
  · rw [update_of_ne heq] at hfinish
    exact hnotdone ((inv.finishing c' n hpos' hle' hfinish).2 c hpos hle (Ne.symm heq))

/-- A task that has not called `processChunkNumber` draws a number and stays in front of that call. -/
lemma draw (hpos : 1 ≤ c) (hle : c ≤ k) {full : Nat} (htask : view.tasks c = .filling full) {view' : SequenceView}
    (htasks : view'.tasks = update view.tasks c t)
    (hcases : t = .filling (full + 1) ∧ view'.emitted = ⟨view.nextChunk.getD 0 + 1, false⟩ :: view.emitted ∨
      t = .closing (view.nextChunk.getD 0 + 1) ∧ view'.emitted = view.emitted)
    (hnext : view'.nextChunk = some (view.nextChunk.getD 0 + 1)) (hdrawn : view'.drawn = c :: view.drawn)
    (hstate : view'.chunkState = view.chunkState) (hprocessed : view'.processed = view.processed) :
    SequenceInvariant k view' := by
  have hcounter := inv.counter c hpos hle (by rw [htask]; trivial)
  have hnotdone : view.tasks c ≠ .done := by simp [htask]
  have hself : view'.tasks c = t := by rw [htasks, update_self]
  have hother : ∀ c', c' ≠ c → view'.tasks c' = view.tasks c' := by
    intro c' hne
    rw [htasks, update_of_ne hne]
  have ht : ¬ t.IsProcessed ∧ t ≠ .done ∧ ∀ n, ¬ (t = .completed n ∨ t = .removing n) := by
    rcases hcases with ⟨rfl, _⟩ | ⟨rfl, _⟩
    · exact ⟨not_false, by simp, by simp⟩
    · exact ⟨not_false, by simp, by simp⟩
  have hnofinish := inv.not_finishing_update hpos hle hnotdone ht.2.2
  rw [← htasks] at hnofinish
  refine
    { processed := hprocessed ▸ inv.processed
      processed_iff := ?_
      numbers := ?_
      held := ?_
      counter := ?_
      state := ?_
      finishing := fun c' n hpos' hle' h => absurd h (hnofinish c' n hpos' hle')
      removing := fun c' n hpos' hle' h => absurd (.inr h) (hnofinish c' n hpos' hle')
      unflagged := ?_
      finished := fun hall => absurd (hself.symm.trans (hall c hpos hle)) ht.2.1 }
  · intro c' hpos' hle'
    rw [hprocessed, htasks]
    exact inv.processed_iff_update (iff_of_false ht.1 (htask ▸ not_false)) hpos' hle'
  · rw [hdrawn, length_cons, ← hcounter]
    have hnumbers := inv.numbers
    rw [← hcounter] at hnumbers
    refine (numbers_update [_] hpos hle htasks ?_).trans (perm_range_succ hnumbers)
    rw [htask]
    rcases hcases with ⟨rfl, hemitted⟩ | ⟨rfl, hemitted⟩
    · rw [hemitted]
      exact .refl _
    · rw [hemitted]
      simp only [TaskState.held, append_nil]
      exact perm_append_comm
  · intro c' n hn
    rw [hdrawn]
    by_cases heq : c' = c
    · rw [heq, hself] at hn
      rw [heq, lastDraw_cons_self, ← hcounter]
      rcases hcases with ⟨rfl, _⟩ | ⟨rfl, _⟩
      · cases hn
      · exact mem_singleton.1 hn
    · rw [hother c' heq] at hn
      rw [lastDraw_cons_of_ne (Ne.symm heq)]
      exact inv.held c' n hn
  · intro c' _ _ _
    rw [hnext, hdrawn, length_cons, ← hcounter]
    rfl
  · intro c' _ _ _
    rw [hstate, hprocessed]
    exact inv.state c hpos hle hnotdone
  · intro c' _ _ _ b hb
    have hold := inv.unflagged c hpos hle hnotdone
    rcases hcases with ⟨_, hemitted⟩ | ⟨_, hemitted⟩
    · rw [hemitted] at hb
      rcases mem_cons.1 hb with rfl | hb
      · rfl
      · exact hold b hb
    · rw [hemitted] at hb
      exact hold b hb

/-! ## Processing a chunk -/

lemma processed_cons {n : Nat} (hpos : 1 ≤ c) (hle : c ≤ k) (htask : view.tasks c = .closing n) :
    c ∉ view.processed ∧ IsChunkSet k (c :: view.processed) ∧
      (view.chunkState.getD .initial).process c (c == k) = .after k (c :: view.processed) := by
  have hnot : c ∉ view.processed := by
    rw [inv.processed_iff c hpos hle, htask]
    exact not_false
  refine ⟨hnot, inv.processed.cons hnot hpos hle, ?_⟩
  rw [inv.state c hpos hle (by simp [htask]), SequenceState.process_after]

lemma processed_iff_cons (c : Nat) (ht : t.IsProcessed) {c' : Nat} (hpos' : 1 ≤ c') (hle' : c' ≤ k) :
    c' ∈ c :: view.processed ↔ (update view.tasks c t c').IsProcessed := by
  by_cases heq : c' = c
  · rw [heq, update_self]
    exact iff_of_true mem_cons_self ht
  · rw [update_of_ne heq, ← inv.processed_iff c' hpos' hle', mem_cons]
    exact or_iff_right heq

lemma others_done {n : Nat} (hpos : 1 ≤ c) (hle : c ≤ k)
    (htask : view.tasks c = .closing n) (hall : AllChunks k (c :: view.processed)) {c' : Nat} (hpos' : 1 ≤ c')
    (hle' : c' ≤ k) (hne : c' ≠ c) : view.tasks c' = .done := by
  have hmem : c' ∈ view.processed := (mem_cons.1 (hall c' hpos' hle')).resolve_left hne
  have hprocessed := (inv.processed_iff c' hpos' hle').1 hmem
  cases hstate : view.tasks c' with
  | filling full | closing m => rw [hstate] at hprocessed; cases hprocessed
  | completed m =>
    have hdone := (inv.finishing c' m hpos' hle' (.inl hstate)).2 c hpos hle (Ne.symm hne)
    rw [htask] at hdone
    cases hdone
  | removing m =>
    have hdone := (inv.finishing c' m hpos' hle' (.inr hstate)).2 c hpos hle (Ne.symm hne)
    rw [htask] at hdone
    cases hdone
  | done => rfl

/-- Chunk numbers of closing buffers do not change when a chunk is processed or state is removed. -/
lemma held_update (ht : t.held ⊆ (view.tasks c).held) {c' n : Nat}
    (hn : n ∈ (update view.tasks c t c').held) : n = lastDraw view.drawn c' := by
  by_cases heq : c' = c
  · rw [heq, update_self] at hn
    rw [heq]
    exact inv.held c n (ht hn)
  · rw [update_of_ne heq] at hn
    exact inv.held c' n hn

omit inv in
lemma eq_of_finishing {t : TaskState}
    (hothers : ∀ c', 1 ≤ c' → c' ≤ k → c' ≠ c → update view.tasks c t c' = .done) {c' n : Nat} (hpos' : 1 ≤ c')
    (hle' : c' ≤ k) (hfinish : update view.tasks c t c' = .completed n ∨ update view.tasks c t c' = .removing n) :
    c' = c := by
  by_contra hne
  simp [hothers c' hpos' hle' hne] at hfinish

section

variable {n : Nat} (hpos : 1 ≤ c) (hle : c ≤ k)
include hpos hle

lemma process_last (htask : view.tasks c = .closing n) (hall : AllChunks k (c :: view.processed)) :
    SequenceInvariant k { view with
      chunkState := some (.after k (c :: view.processed))
      tasks := update view.tasks c (.completed n)
      processed := c :: view.processed } := by
  have hnotdone : view.tasks c ≠ .done := by simp [htask]
  have hothers : ∀ c', 1 ≤ c' → c' ≤ k → c' ≠ c → update view.tasks c (.completed n) c' = .done := by
    intro c' hpos' hle' hne
    rw [update_of_ne hne]
    exact inv.others_done hpos hle htask hall hpos' hle' hne
  have hself : update view.tasks c (.completed n) c = .completed n := update_self _ _ _
  refine
    { processed := (inv.processed_cons hpos hle htask).2.1
      processed_iff := fun c' => inv.processed_iff_cons c (show (TaskState.completed n).IsProcessed from trivial)
      numbers := ?_
      held := fun c' m hm => inv.held_update (by rw [htask]; exact .refl _) hm
      counter := fun _ _ _ _ => inv.counter c hpos hle (by rw [htask]; trivial)
      state := fun _ _ _ _ => rfl
      finishing := ?_
      removing := ?_
      unflagged := fun _ _ _ _ => inv.unflagged c hpos hle hnotdone
      finished := ?_ }
  · refine (numbers_update [] hpos hle rfl ?_).trans inv.numbers
    rw [htask]
    exact .refl _
  · intro c' m hpos' hle' hfinish
    rw [eq_of_finishing hothers hpos' hle' hfinish]
    exact ⟨rfl, hothers⟩
  · intro c' m hpos' hle' h
    rw [eq_of_finishing hothers hpos' hle' (.inr h)] at h
    cases hself.symm.trans h
  · intro hdone
    cases hself.symm.trans (hdone c hpos hle)

lemma process_pending (htask : view.tasks c = .closing n) (hnotall : ¬ AllChunks k (c :: view.processed)) :
    SequenceInvariant k { view with
      chunkState := some (.after k (c :: view.processed))
      tasks := update view.tasks c .done
      emitted := ⟨n, false⟩ :: view.emitted
      processed := c :: view.processed } := by
  have hnotdone : view.tasks c ≠ .done := by simp [htask]
  have hnofinish := inv.not_finishing_update hpos hle hnotdone (t := .done) (by simp)
  refine
    { processed := (inv.processed_cons hpos hle htask).2.1
      processed_iff := fun c' => inv.processed_iff_cons c (show TaskState.done.IsProcessed from trivial)
      numbers := ?_
      held := fun c' m hm => inv.held_update (nil_subset _) hm
      counter := fun _ _ _ _ => inv.counter c hpos hle (by rw [htask]; trivial)
      state := fun _ _ _ _ => rfl
      finishing := fun c' m hpos' hle' h => absurd h (hnofinish c' m hpos' hle')
      removing := fun c' m hpos' hle' h => absurd (.inr h) (hnofinish c' m hpos' hle')
      unflagged := fun _ _ _ _ =>
        forall_mem_cons.2 ⟨rfl, inv.unflagged c hpos hle hnotdone⟩
      finished := ?_ }
  · refine (numbers_update [] hpos hle rfl ?_).trans inv.numbers
    rw [htask]
    simp only [TaskState.held, append_nil, map_cons, nil_append]
    exact (perm_append_singleton n _).symm
  · -- some chunk is still to be processed, so not all tasks are done
    intro hdone
    refine absurd (fun c' hpos' hle' => ?_) hnotall
    have hprocessed : (update view.tasks c .done c').IsProcessed := by
      have h : update view.tasks c .done c' = .done := hdone c' hpos' hle'
      rw [h]
      trivial
    exact (inv.processed_iff_cons c (show TaskState.done.IsProcessed from trivial) hpos' hle').2 hprocessed

/-! ## Removing the state -/

lemma remove_output (htask : view.tasks c = .completed n) : SequenceInvariant k { view with
      nextChunk := none
      tasks := update view.tasks c (.removing n) } := by
  have hnotdone : view.tasks c ≠ .done := by simp [htask]
  rcases inv.finishing c n hpos hle (.inl htask) with ⟨hhead, hothers⟩
  have hself : update view.tasks c (.removing n) c = .removing n := update_self _ _ _
  have hothers' : ∀ c', 1 ≤ c' → c' ≤ k → c' ≠ c → update view.tasks c (.removing n) c' = .done := by
    intro c' hpos' hle' hne
    rw [update_of_ne hne]
    exact hothers c' hpos' hle' hne
  refine
    { processed := inv.processed
      processed_iff := fun c' => inv.processed_iff_update (by rw [htask]; exact .rfl)
      numbers := ?_
      held := fun c' m hm => inv.held_update (by rw [htask]; exact .refl _) hm
      counter := ?_
      state := fun _ _ _ _ => inv.state c hpos hle hnotdone
      finishing := ?_
      removing := fun _ _ _ _ _ => rfl
      unflagged := fun _ _ _ _ => inv.unflagged c hpos hle hnotdone
      finished := ?_ }
  · refine (numbers_update [] hpos hle rfl ?_).trans inv.numbers
    rw [htask]
    exact .refl _
  · intro c' hpos' hle' hkeeps
    have hkeeps' : (update view.tasks c (.removing n) c').KeepsCounter := hkeeps
    by_cases heq : c' = c
    · rw [heq, hself] at hkeeps'
      cases hkeeps'
    · rw [hothers' c' hpos' hle' heq] at hkeeps'
      cases hkeeps'
  · intro c' m hpos' hle' hfinish
    rw [eq_of_finishing hothers' hpos' hle' hfinish]
    exact ⟨hhead, hothers'⟩
  · intro hdone
    cases hself.symm.trans (hdone c hpos hle)

lemma remove_input (htask : view.tasks c = .removing n) : SequenceInvariant k { view with
      chunkState := none
      tasks := update view.tasks c .done
      emitted := ⟨n, true⟩ :: view.emitted } := by
  have hnotdone : view.tasks c ≠ .done := by simp [htask]
  rcases inv.finishing c n hpos hle (.inr htask) with ⟨hhead, hothers⟩
  have hall : ∀ c', 1 ≤ c' → c' ≤ k → update view.tasks c .done c' = .done := by
    intro c' hpos' hle'
    by_cases heq : c' = c
    · rw [heq, update_self]
    · rw [update_of_ne heq]
      exact hothers c' hpos' hle' heq
  refine
    { processed := inv.processed
      processed_iff := fun c' => inv.processed_iff_update (by rw [htask]; exact .rfl)
      numbers := ?_
      held := fun c' m hm => inv.held_update (nil_subset _) hm
      counter := ?_
      state := fun c' hpos' hle' h => absurd (hall c' hpos' hle') h
      finishing := ?_
      removing := fun c' m hpos' hle' h => by cases (hall c' hpos' hle').symm.trans h
      unflagged := fun c' hpos' hle' h => absurd (hall c' hpos' hle') h
      finished := ?_ }
  · refine (numbers_update [] hpos hle rfl ?_).trans inv.numbers
    rw [htask]
    simp only [TaskState.held, append_nil, map_cons, nil_append]
    exact (perm_append_singleton n _).symm
  · intro c' hpos' hle' hkeeps
    have hkeeps' : (update view.tasks c .done c').KeepsCounter := hkeeps
    rw [hall c' hpos' hle'] at hkeeps'
    cases hkeeps'
  · intro c' m hpos' hle' hfinish
    rcases hfinish with h | h
    · cases (hall c' hpos' hle').symm.trans h
    · cases (hall c' hpos' hle').symm.trans h
  · intro _
    have hn : n = lastDraw view.drawn c := inv.held c n (by rw [htask]; exact mem_singleton_self n)
    refine ⟨inv.removing c n hpos hle htask, rfl, c, view.emitted, hhead, ?_, inv.unflagged c hpos hle hnotdone⟩
    rw [hn]

end

/-! ## All schedules -/

lemma step (fullBuffers : Nat → Nat) (hpos : 1 ≤ c) (hle : c ≤ k) :
    SequenceInvariant k (view.step k fullBuffers c) := by
  unfold SequenceView.step
  cases htask : view.tasks c with
  | filling full =>
    simp only
    split_ifs
    · exact inv.draw hpos hle htask rfl (.inl ⟨rfl, rfl⟩) rfl rfl rfl rfl
    · exact inv.draw hpos hle htask rfl (.inr ⟨rfl, rfl⟩) rfl rfl rfl rfl
  | closing n =>
    rcases inv.processed_cons hpos hle htask with ⟨_, hset, hprocess⟩
    simp only [hprocess]
    by_cases hall : AllChunks k (c :: view.processed)
    · rw [if_pos ((SequenceState.seen_eq_last_iff hset).2 hall)]
      exact inv.process_last hpos hle htask hall
    · rw [if_neg fun heq => hall ((SequenceState.seen_eq_last_iff hset).1 heq)]
      exact inv.process_pending hpos hle htask hall
  | completed n => exact inv.remove_output hpos hle htask
  | removing n => exact inv.remove_input hpos hle htask
  | done => exact inv

end SequenceInvariant

namespace EmitSystem

variable {κ : Type u} [LinearOrder κ]

lemma sequenceInvariant_of_run {input : EmitInput κ} {schedule : List (κ × Nat)} {sys : EmitSystem κ}
    (hrun : run input schedule = some sys) (key : κ) : SequenceInvariant (input.numberOfChunks key) (sys.view key) := by
  refine runFrom_invariant (fun s : EmitSystem κ => ∀ key,
    SequenceInvariant (input.numberOfChunks key) (s.view key)) ?_ ?_ hrun key
  · rintro s ⟨key, c⟩ s' inv hstep key'
    rcases view_step hstep with ⟨hpos, hle, _, hview, hother⟩
    by_cases heq : key' = key
    · rw [heq, hview]
      exact (inv key).step _ hpos hle
    · rw [hother key' heq]
      exact inv key'
  · intro key
    exact .initial (input.numberOfChunks_pos key)

/-! ## Every schedule can be completed -/

variable (input : EmitInput κ)

/-- How many locked sections a task still has in front of it, at most. -/
def remaining (key : κ) (c : Nat) : TaskState → Nat
  | .filling full => input.fullBuffers key c - full + 4
  | .closing _ => 3
  | .completed _ => 2
  | .removing _ => 1
  | .done => 0

def remainingOf (sys : EmitSystem κ) (key : κ) : Nat :=
  ∑ c ∈ Finset.Icc 1 (input.numberOfChunks key), remaining input key c (sys.tasks (key, c))

lemma exists_step {input : EmitInput κ} {sys : EmitSystem κ} {key : κ} {c : Nat} (hpos : 1 ≤ c)
    (hle : c ≤ input.numberOfChunks key) (hnotdone : sys.tasks (key, c) ≠ .done) :
    ∃ sys' t, sys.step input (key, c) = some sys' ∧ sys'.tasks = update sys.tasks (key, c) t ∧
      remaining input key c t < remaining input key c (sys.tasks (key, c)) := by
  have hchunk : ¬ (c = 0 ∨ input.numberOfChunks key < c) := by omega
  unfold step
  simp only [if_neg hchunk]
  cases htask : sys.tasks (key, c) with
  | filling full =>
    by_cases hfull : full < input.fullBuffers key c
    · simp only [if_pos hfull]
      exact ⟨_, _, rfl, rfl, by simp only [remaining]; omega⟩
    · simp only [if_neg hfull]
      exact ⟨_, _, rfl, rfl, by simp only [remaining]; omega⟩
  | closing n =>
    by_cases hlast : (sys.handler.processChunkNumber key c (c == input.numberOfChunks key)).2 = true
    · simp only [if_pos hlast]
      exact ⟨_, _, rfl, rfl, by simp [remaining]⟩
    · simp only [if_neg hlast]
      exact ⟨_, _, rfl, rfl, by simp [remaining]⟩
  | completed n | removing n => exact ⟨_, _, rfl, rfl, by simp [remaining]⟩
  | done => exact absurd htask hnotdone

lemma exists_completion (sys : EmitSystem κ) (key : κ) :
    ∃ rest sys', runFrom (step input) sys rest = some sys' ∧ sys'.AllDone input key := by
  -- by induction on the number of sections that the tasks of the sequence number have in front of them
  induction hm : sys.remainingOf input key using Nat.strong_induction_on generalizing sys with
  | h m ih =>
    by_cases hall : sys.AllDone input key
    · exact ⟨[], sys, rfl, hall⟩
    · unfold AllDone at hall
      push Not at hall
      rcases hall with ⟨c, hpos, hle, hnotdone⟩
      rcases exists_step hpos hle hnotdone with ⟨sys', t, hstep, htasks, hlt⟩
      have hself : sys'.tasks (key, c) = t := by rw [htasks, update_self]
      have hdecreases : sys'.remainingOf input key < m := by
        rw [← hm]
        refine Finset.sum_lt_sum (fun c' _ => ?_) ⟨c, Finset.mem_Icc.2 ⟨hpos, hle⟩, ?_⟩
        · by_cases heq : c' = c
          · rw [heq, hself]
            exact hlt.le
          · rw [htasks, update_of_ne fun h => heq (Prod.mk.inj h).2]
        · rw [hself]
          exact hlt
      rcases ih _ hdecreases sys' rfl with ⟨rest, sys'', hrun, hdone⟩
      exact ⟨(key, c) :: rest, sys'', by rw [runFrom_cons_of_step hstep]; exact hrun, hdone⟩

/-! ## The emitted chunks -/

lemma numbers_of_allDone {k : Nat} {view : SequenceView} (inv : SequenceInvariant k view) (hall : view.AllDone k) :
    (view.emitted.map chunkNumber).Perm (range' 1 view.drawn.length) := by
  have hheld : (range' 1 k).flatMap (fun c => (view.tasks c).held) = [] := by
    refine flatMap_eq_nil_iff.2 fun c hc => ?_
    rcases mem_range'_1.1 hc with ⟨hpos, hlt⟩
    rw [hall c hpos (by omega)]
    rfl
  have hnumbers := inv.numbers
  rwa [numbers, hheld, append_nil] at hnumbers

/-- Two input chunks; the first one is split into two output buffers. -/
def twoChunkInput : EmitInput Nat where
  numberOfChunks _ := 2
  numberOfChunks_pos _ := by decide
  fullBuffers _ c := if c = 1 then 1 else 0

end EmitSystem

end MobilityNebula.Emit
