import Mathlib

/-!
# QueryLog — status changes of a query and their summary

The log of a query is a list of status changes, ordered by timestamp.  `getQuerySummary` folds it into runs: a
change goes into the last run, unless that run has such a change already.

The fold is described by what it has seen so far (`Summarises`).  If the log has at most one `Started` and at
most one `Running`, then every terminal change (`Failed` or `Stopped`) ends a run of its own, and there are no
other runs.
-/

namespace MobilityNebula.Listeners

open List Option

variable {χ : Type}

/-! ## The log -/

inductive QueryStatus where
  | Registered
  | Started
  | Running
  | Stopped
  | Failed
  deriving DecidableEq, Repr

structure QueryStatusChange (χ : Type) where
  state : QueryStatus
  timestamp : Nat
  exception : Option χ
  deriving DecidableEq, Repr

namespace QueryStatusChange

def ofStatus (state : QueryStatus) (timestamp : Nat) : QueryStatusChange χ := ⟨state, timestamp, none⟩

def ofException (exception : χ) (timestamp : Nat) : QueryStatusChange χ := ⟨.Failed, timestamp, some exception⟩

def isTerminal (change : QueryStatusChange χ) : Bool :=
  change.state = .Failed ∨ change.state = .Stopped

def isLifecycle (change : QueryStatusChange χ) : Bool := change.state ≠ .Registered

end QueryStatusChange

abbrev Log (χ : Type) : Type := List (QueryStatusChange χ)

namespace Log

variable (log : Log χ)

/-- Insertion at the `upper_bound` of the timestamp. -/
def insert (change : QueryStatusChange χ) : Log χ :=
  orderedInsert (fun new old => new.timestamp < old.timestamp) change log

lemma perm_insert (change : QueryStatusChange χ) : (log.insert change).Perm (change :: log) :=
  perm_orderedInsert _ change log

def terminals : Nat := log.countP QueryStatusChange.isTerminal

def starts : Nat := log.countP fun change => change.state = .Started

def runnings : Nat := log.countP fun change => change.state = .Running

def FailuresHaveExceptions : Prop :=
  ∀ change ∈ log, change.state = .Failed → change.exception.isSome = true

def lastFailed : Bool :=
  (log.filter QueryStatusChange.isTerminal).getLast?.any fun change => change.state = .Failed

end Log

/-- The log of one query in the map of all logs; there is none before the first status change. -/
def logQueryStatusChange (log : Option (Log χ)) (status : QueryStatus) (timestamp : Nat) : Option (Log χ) :=
  some ((log.getD []).insert (.ofStatus status timestamp))

def logQueryFailure (log : Option (Log χ)) (exception : χ) (timestamp : Nat) : Option (Log χ) :=
  log.map fun log => log.insert (.ofException exception timestamp)

/-! ## The summary -/

structure QueryRunSummary (χ : Type) where
  start : Option Nat := none
  running : Option Nat := none
  stop : Option Nat := none
  error : Option χ := none
  deriving DecidableEq, Repr

structure QuerySummary (χ : Type) where
  currentStatus : QueryStatus
  runs : List (QueryRunSummary χ)
  deriving DecidableEq, Repr

/-- Update the last run, after a new one has been appended if there is none or the last one is complete. -/
def onBack (complete : QueryRunSummary χ → Bool) (update : QueryRunSummary χ → QueryRunSummary χ)
    (runs : List (QueryRunSummary χ)) : List (QueryRunSummary χ) :=
  match runs.getLast? with
  | none => [update {}]
  | some back => if complete back then runs ++ [update {}] else runs.dropLast ++ [update back]

def addChange (runs : List (QueryRunSummary χ)) (change : QueryStatusChange χ) : List (QueryRunSummary χ) :=
  match change.state with
  | .Failed =>
    onBack (fun run => run.stop.isSome)
      (fun run => { run with stop := some change.timestamp, error := change.exception }) runs
  | .Stopped => onBack (fun run => run.stop.isSome) (fun run => { run with stop := some change.timestamp }) runs
  | .Started => onBack (fun run => run.start.isSome) (fun run => { run with start := some change.timestamp }) runs
  | .Running =>
    onBack (fun run => run.running.isSome) (fun run => { run with running := some change.timestamp }) runs
  | .Registered => runs

def currentStatus (runs : List (QueryRunSummary χ)) : QueryStatus :=
  match runs.getLast? with
  | none => .Registered
  | some back =>
    if back.stop.isNone then .Running
    else if back.error.isSome then .Failed
    else .Stopped

def getQuerySummary (log : Log χ) : QuerySummary χ :=
  let runs := log.foldl addChange []
  { currentStatus := currentStatus runs, runs := runs }

lemma onBack_concat (complete : QueryRunSummary χ → Bool) (update : QueryRunSummary χ → QueryRunSummary χ)
    (earlier : List (QueryRunSummary χ)) (back : QueryRunSummary χ) :
    onBack complete update (earlier ++ [back])
      = if complete back then earlier ++ [back] ++ [update {}] else earlier ++ [update back] := by
  simp [onBack]

/-! ## What the fold has seen -/

/-- The runs after the changes of `log`. -/
structure Summarises (log : Log χ) (runs : List (QueryRunSummary χ)) : Prop where
  length : runs.length = max log.terminals (if log.any QueryStatusChange.isLifecycle then 1 else 0)
  stops : runs.countP (fun run => run.stop.isSome) = log.terminals
  stop : ∀ back, runs.getLast? = some back → (back.stop.isSome = true ↔ 0 < log.terminals)
  start : ∀ back, runs.getLast? = some back → back.start.isSome = true → 0 < log.starts
  running : ∀ back, runs.getLast? = some back → back.running.isSome = true → 0 < log.runnings
  error : ∀ back, runs.getLast? = some back → back.error.isSome = log.lastFailed

lemma summarises_nil : Summarises ([] : Log χ) [] where
  length := rfl
  stops := rfl
  stop _ h := absurd h (by simp)
  start _ h := absurd h (by simp)
  running _ h := absurd h (by simp)
  error _ h := absurd h (by simp)

namespace Log

variable (log : Log χ) (change : QueryStatusChange χ)

lemma terminals_concat : (log ++ [change]).terminals = log.terminals + if change.isTerminal then 1 else 0 := by
  simp [terminals, countP_append, countP_singleton]

lemma starts_concat : (log ++ [change]).starts = log.starts + if change.state = .Started then 1 else 0 := by
  simp [starts, countP_append, countP_singleton]

lemma runnings_concat : (log ++ [change]).runnings = log.runnings + if change.state = .Running then 1 else 0 := by
  simp [runnings, countP_append, countP_singleton]

lemma starts_le : log.starts ≤ (log ++ [change]).starts := by
  rw [starts_concat]
  exact Nat.le_add_right _ _

lemma runnings_le : log.runnings ≤ (log ++ [change]).runnings := by
  rw [runnings_concat]
  exact Nat.le_add_right _ _

lemma lastFailed_concat :
    (log ++ [change]).lastFailed = if change.isTerminal then decide (change.state = .Failed) else log.lastFailed := by
  unfold lastFailed
  cases hterminal : change.isTerminal with
  | true => simp [hterminal]
  | false => simp [hterminal]

lemma any_isLifecycle_concat : (log ++ [change]).any QueryStatusChange.isLifecycle
      = (log.any QueryStatusChange.isLifecycle || change.isLifecycle) := by
  simp

variable {log change}

lemma terminals_of_not_terminal (h : change.isTerminal = false) : (log ++ [change]).terminals = log.terminals := by
  rw [terminals_concat, h]
  rfl

lemma lastFailed_of_not_terminal (h : change.isTerminal = false) : (log ++ [change]).lastFailed = log.lastFailed := by
  rw [lastFailed_concat, h]
  rfl

end Log

lemma any_isLifecycle_of_terminals {log : Log χ} (h : 0 < log.terminals) :
    log.any QueryStatusChange.isLifecycle = true := by
  rcases countP_pos_iff.1 h with ⟨change, hmem, hterminal⟩
  refine any_eq_true.2 ⟨change, hmem, ?_⟩
  simp only [QueryStatusChange.isTerminal, decide_eq_true_eq] at hterminal
  simp only [QueryStatusChange.isLifecycle, ne_eq, decide_not, Bool.not_eq_true', decide_eq_false_iff_not]
  rcases hterminal with hstate | hstate <;> rw [hstate] <;> decide

namespace Summarises

variable {log : Log χ} {runs : List (QueryRunSummary χ)} {change : QueryStatusChange χ}

lemma terminals_eq_zero (h : Summarises log []) : log.terminals = 0 := h.stops.symm

lemma lastFailed_eq_false (h : log.terminals = 0) : log.lastFailed = false := by
  have hnone : log.filter QueryStatusChange.isTerminal = [] := by
    rw [← length_eq_zero_iff, ← countP_eq_length_filter]
    exact h
  rw [Log.lastFailed, hnone]
  rfl

/-- What is known of the last run. -/
structure LastRun (log : Log χ) (back : QueryRunSummary χ) : Prop where
  stop : back.stop.isSome = true ↔ 0 < log.terminals
  start : back.start.isSome = true → 0 < log.starts
  running : back.running.isSome = true → 0 < log.runnings
  error : back.error.isSome = log.lastFailed

variable {earlier : List (QueryRunSummary χ)} {back : QueryRunSummary χ}

lemma lastRun (h : Summarises log (earlier ++ [back])) : LastRun log back :=
  ⟨h.stop back getLast?_concat, h.start back getLast?_concat, h.running back getLast?_concat,
    h.error back getLast?_concat⟩

/-- Only the last run matters, apart from the number of runs and stops. -/
lemma of_concat
    (hlength : earlier.length + 1 = max log.terminals (if log.any QueryStatusChange.isLifecycle then 1 else 0))
    (hstops : (earlier ++ [back]).countP (fun run => run.stop.isSome) = log.terminals) (hback : LastRun log back) :
    Summarises log (earlier ++ [back]) := by
  refine ⟨length_append.trans hlength, hstops, ?_, ?_, ?_, ?_⟩
  all_goals
    intro run hrun
    cases getLast?_concat.symm.trans hrun
  · exact hback.stop
  · exact hback.start
  · exact hback.running
  · exact hback.error

variable (h : Summarises log runs)
include h

variable {update : QueryRunSummary χ → QueryRunSummary χ}

/-- A terminal change ends the last run, or a new one if that has ended. -/
lemma terminal (hterminal : change.isTerminal = true) (hstop : ∀ run, (update run).stop.isSome = true)
    (hstart : ∀ run, (update run).start = run.start) (hrunning : ∀ run, (update run).running = run.running)
    (herror : ∀ run, run.error = none → (update run).error.isSome = decide (change.state = .Failed)) :
    Summarises (log ++ [change]) (onBack (fun run => run.stop.isSome) update runs) := by
  have hcount : (log ++ [change]).terminals = log.terminals + 1 := by
    rw [Log.terminals_concat, if_pos hterminal]
  have hany : (log ++ [change]).any QueryStatusChange.isLifecycle = true :=
    any_isLifecycle_of_terminals (by rw [hcount]; exact Nat.succ_pos _)
  have hfailed : (log ++ [change]).lastFailed = decide (change.state = .Failed) := by
    rw [Log.lastFailed_concat, if_pos hterminal]
  have hended : ∀ run, (run.start.isSome = true → 0 < log.starts) → (run.running.isSome = true → 0 < log.runnings) →
      run.error = none → LastRun (log ++ [change]) (update run) := by
    intro run hstarted hran hnone
    refine ⟨?_, ?_, ?_, ?_⟩
    · rw [hcount]
      exact iff_of_true (hstop run) (Nat.succ_pos _)
    · rw [hstart]
      exact fun hset => (hstarted hset).trans_le (log.starts_le change)
    · rw [hrunning]
      exact fun hset => (hran hset).trans_le (log.runnings_le change)
    · rw [hfailed]
      exact herror run hnone
  -- a new run that the change ends
  have hnew : ∀ earlier : List (QueryRunSummary χ), earlier.length = log.terminals →
      earlier.countP (fun run => run.stop.isSome) = log.terminals →
      Summarises (log ++ [change]) (earlier ++ [update {}]) := by
    intro earlier hlength hstops
    refine of_concat ?_ ?_ (hended {} nofun nofun rfl)
    · rw [hcount, hany, hlength, if_pos rfl, Nat.max_eq_left (Nat.succ_pos _)]
    · rw [countP_append, hstops, countP_singleton, if_pos (hstop _), hcount]
  rcases eq_nil_or_concat' runs with rfl | ⟨earlier, back, rfl⟩
  · exact hnew [] h.terminals_eq_zero.symm h.stops
  · have hback := h.lastRun
    have hlength := h.length
    rw [onBack_concat]
    by_cases hstopped : back.stop.isSome = true
    · have hpos := hback.stop.1 hstopped
      rw [if_pos hstopped]
      rw [any_isLifecycle_of_terminals hpos, if_pos rfl, Nat.max_eq_left hpos] at hlength
      exact hnew _ hlength h.stops
    · have hzero : log.terminals = 0 := Nat.eq_zero_of_not_pos (mt hback.stop.2 hstopped)
      have hnone : back.error = none := by
        have herr := hback.error
        rw [lastFailed_eq_false hzero] at herr
        exact isSome_eq_false_iff.1 herr |> isNone_iff_eq_none.1
      have hstops := h.stops
      rw [if_neg hstopped]
      refine of_concat ?_ ?_ (hended back hback.start hback.running hnone)
      · rw [hcount, hany, hzero]
        rw [length_append, length_singleton, hzero] at hlength
        split at hlength <;> simp only [if_true] <;> omega
      · rw [countP_append, countP_singleton, if_neg hstopped, hzero] at hstops
        rw [countP_append, countP_singleton, if_pos (hstop _), hcount, hzero]
        omega

/-- A first `Started` or `Running` goes into the last run. -/
lemma progress (hterminal : change.isTerminal = false)
    (hlifecycle : change.isLifecycle = true) {complete : QueryRunSummary χ → Bool}
    (hcomplete : ∀ back, runs.getLast? = some back → complete back = false)
    (hstop : ∀ run, (update run).stop = run.stop) (herror : ∀ run, (update run).error = run.error)
    (hstart : ∀ run, (update run).start.isSome = true → run.start.isSome = true ∨ change.state = .Started)
    (hrunning : ∀ run, (update run).running.isSome = true → run.running.isSome = true ∨ change.state = .Running) :
    Summarises (log ++ [change]) (onBack complete update runs) := by
  have hcount := log.terminals_of_not_terminal hterminal
  have hany : (log ++ [change]).any QueryStatusChange.isLifecycle = true := by
    rw [Log.any_isLifecycle_concat, hlifecycle, Bool.or_true]
  -- the run before the update, and what is known of it
  have hupdated : ∀ (earlier : List (QueryRunSummary χ)) (back : QueryRunSummary χ),
      (earlier ++ [back]).length = max log.terminals 1 →
      (earlier ++ [back]).countP (fun run => run.stop.isSome) = log.terminals →
      LastRun log back → Summarises (log ++ [change]) (earlier ++ [update back]) := by
    intro earlier back hlength hstops hback
    refine of_concat ?_ ?_ ⟨?_, fun hset => ?_, fun hset => ?_, ?_⟩
    · rw [hcount, hany]
      simpa using hlength
    · rw [hcount, ← hstops, countP_append, countP_append, countP_singleton, countP_singleton,
        hstop]
    · rw [hcount, hstop]
      exact hback.stop
    · rcases hstart back hset with hold | hnew
      · exact (hback.start hold).trans_le (log.starts_le change)
      · rw [Log.starts_concat, if_pos hnew]
        exact Nat.succ_pos _
    · rcases hrunning back hset with hold | hnew
      · exact (hback.running hold).trans_le (log.runnings_le change)
      · rw [Log.runnings_concat, if_pos hnew]
        exact Nat.succ_pos _
    · rw [Log.lastFailed_of_not_terminal hterminal, herror]
      exact hback.error
  rcases eq_nil_or_concat' runs with rfl | ⟨earlier, back, rfl⟩
  · have hzero := h.terminals_eq_zero
    refine hupdated [] {} (by rw [hzero]; rfl) (by rw [hzero]; rfl) ⟨?_, nofun, nofun, ?_⟩
    · rw [hzero]
      exact iff_of_false Bool.false_ne_true (Nat.lt_irrefl 0)
    · rw [lastFailed_eq_false hzero]
      rfl
  · rw [onBack_concat, hcomplete back getLast?_concat]
    refine hupdated earlier back ?_ h.stops h.lastRun
    have hlength := h.length
    rw [length_append, length_singleton] at hlength ⊢
    split at hlength <;> omega

/-- One more change, of a log with at most one `Started` and one `Running`. -/
lemma addChange (hstarts : (log ++ [change]).starts ≤ 1)
    (hrunnings : (log ++ [change]).runnings ≤ 1)
    (hexception : change.state = .Failed → change.exception.isSome = true) :
    Summarises (log ++ [change]) (addChange runs change) := by
  have hterminal : change.isTerminal = decide (change.state = .Failed ∨ change.state = .Stopped) := rfl
  have hlifecycle : change.isLifecycle = decide (change.state ≠ .Registered) := rfl
  unfold Listeners.addChange
  cases hstate : change.state with
  | Failed =>
    rw [hstate] at hterminal
    refine h.terminal hterminal (fun _ => rfl) (fun _ => rfl) (fun _ => rfl) (fun run _ => ?_)
    rw [hstate]
    exact hexception hstate
  | Stopped =>
    rw [hstate] at hterminal
    refine h.terminal hterminal (fun _ => rfl) (fun _ => rfl) (fun _ => rfl) (fun run hrun => ?_)
    rw [hstate]
    rw [hrun]
    rfl
  | Started =>
    rw [hstate] at hterminal hlifecycle
    refine h.progress hterminal hlifecycle (fun back hback => ?_) (fun _ => rfl) (fun _ => rfl)
      (fun _ _ => .inr hstate) (fun _ hset => .inl hset)
    -- a second start is excluded
    rw [Log.starts_concat, if_pos hstate] at hstarts
    by_contra hset
    have hpos := h.start back hback (Bool.eq_true_of_not_eq_false hset)
    omega
  | Running =>
    rw [hstate] at hterminal hlifecycle
    refine h.progress hterminal hlifecycle (fun back hback => ?_) (fun _ => rfl) (fun _ => rfl)
      (fun _ hset => .inl hset) (fun _ _ => .inr hstate)
    rw [Log.runnings_concat, if_pos hstate] at hrunnings
    by_contra hset
    have hpos := h.running back hback (Bool.eq_true_of_not_eq_false hset)
    omega
  | Registered =>
    rw [hstate] at hterminal hlifecycle
    have hcount := log.terminals_of_not_terminal hterminal
    have hany : (log ++ [change]).any QueryStatusChange.isLifecycle = log.any QueryStatusChange.isLifecycle := by
      rw [Log.any_isLifecycle_concat, hlifecycle]
      exact Bool.or_false _
    refine ⟨?_, ?_, ?_, fun back hback hset => (h.start back hback hset).trans_le (log.starts_le change),
      fun back hback hset => (h.running back hback hset).trans_le (log.runnings_le change), ?_⟩
    · rw [hcount, hany]
      exact h.length
    · rw [hcount]
      exact h.stops
    · rw [hcount]
      exact h.stop
    · rw [Log.lastFailed_of_not_terminal hterminal]
      exact h.error

end Summarises

/-- The runs of a log with at most one `Started` and one `Running`. -/
lemma summarises_foldl (log : Log χ) (hstarts : log.starts ≤ 1) (hrunnings : log.runnings ≤ 1)
    (hexceptions : log.FailuresHaveExceptions) : Summarises log (log.foldl addChange []) := by
  induction log using reverseRecOn with
  | nil => exact summarises_nil
  | append_singleton log change ih =>
    rw [foldl_append, foldl_cons, foldl_nil]
    have hstarts' : Log.starts log ≤ 1 := by
      rw [Log.starts_concat] at hstarts
      omega
    have hrunnings' : Log.runnings log ≤ 1 := by
      rw [Log.runnings_concat] at hrunnings
      omega
    have hprevious := ih hstarts' hrunnings' (fun c hc => hexceptions c (mem_append_left _ hc))
    exact hprevious.addChange hstarts hrunnings (hexceptions change (mem_append_right _ (mem_singleton.2 rfl)))

/-- Every terminal change ends a run of its own, and there is no other run but the first. -/
lemma length_runs_getQuerySummary {log : Log χ} (hstarts : log.starts ≤ 1) (hrunnings : log.runnings ≤ 1)
    (hexceptions : log.FailuresHaveExceptions) (hany : log.any QueryStatusChange.isLifecycle = true) :
    (getQuerySummary log).runs.length = max log.terminals 1
      ∧ (getQuerySummary log).runs.countP (fun run => run.stop.isSome) = log.terminals := by
  have h := summarises_foldl log hstarts hrunnings hexceptions
  refine ⟨?_, h.stops⟩
  have hlength := h.length
  rw [hany] at hlength
  exact hlength

/-- Once a run has ended, the status is that of the last terminal change. -/
lemma currentStatus_getQuerySummary {log : Log χ} (hstarts : log.starts ≤ 1) (hrunnings : log.runnings ≤ 1)
    (hexceptions : log.FailuresHaveExceptions) (hterminals : 0 < log.terminals) :
    (getQuerySummary log).currentStatus = if log.lastFailed then .Failed else .Stopped := by
  have h := summarises_foldl log hstarts hrunnings hexceptions
  have hne : log.foldl addChange [] ≠ [] := by
    intro hnil
    rw [hnil] at h
    rw [h.terminals_eq_zero] at hterminals
    cases hterminals
  rcases eq_nil_or_concat' (log.foldl addChange []) with hnil | ⟨earlier, back, hconcat⟩
  · exact absurd hnil hne
  · have hlast : (log.foldl addChange []).getLast? = some back := by
      rw [hconcat]
      exact getLast?_concat
    have hstop := (h.stop back hlast).2 hterminals
    show currentStatus (log.foldl addChange []) = _
    rw [currentStatus, hlast]
    have hsome : back.stop.isNone = false := by
      rw [← not_isSome, hstop]
      rfl
    simp only [hsome, h.error back hlast, Bool.false_eq_true, if_false]

end MobilityNebula.Listeners
