import MobilityNebula.Library.TransitionSystem
import MobilityNebula.Listeners.QueryLog

/-!
# QueryCatalog — the lifecycle of a query and its history

`QueryCatalog::start` creates the state of a query and a listener.  The callbacks of the listener may be called
by any worker: each of them reads the clock, then tries a transition of the state, and then logs, whether the
transition was possible or not.  Other callbacks may come between these actions, and the clock need not agree
with the order in which they happen.

`one_run_iff` says when the summary of the log is what one expects of one start: if at most one call of
`onFailure` or `onDestruction` has come to its log step.  Two tasks that fail are enough to break this
(`two_failures_two_runs`).
-/

namespace MobilityNebula.QueryEngine

open Library Listeners QueryStatusChange List Option

variable {χ : Type}

/-! ## The state of a query -/

inductive TerminationReason where
  | Failed
  | Stopped
  deriving DecidableEq, Repr

/-- The alternatives of the `AtomicState` in the catalog. -/
inductive CatalogState where
  | Reserved
  | Starting
  | Running
  | Stopping
  | Terminated (reason : TerminationReason)
  deriving DecidableEq, Repr

namespace CatalogState

/-- No result if the `INVARIANT` against jumping from reserved to running fails. -/
def onRunning : CatalogState → Option CatalogState
  | .Reserved => none
  | .Starting => some .Running
  | state => some state

def onFailure : CatalogState → CatalogState := fun _ => .Terminated .Failed

def onDestruction : CatalogState → CatalogState
  | .Starting | .Running | .Stopping => .Terminated .Stopped
  | state => state

def stopQuery : CatalogState → CatalogState
  | .Starting | .Running => .Stopping
  | state => state

end CatalogState

/-! ## Callbacks -/

inductive Callback (χ : Type) where
  | start
  | onRunning
  | onFailure (exception : χ)
  | onDestruction
  deriving DecidableEq, Repr

namespace Callback

def isStart : Callback χ → Bool
  | .start => true
  | _ => false

def isOnRunning : Callback χ → Bool
  | .onRunning => true
  | _ => false

/-- The callback ends a run.  `logQueryFailure` does nothing for a query that has no log. -/
def ends (log : Option (Log χ)) : Callback χ → Bool
  | .onFailure _ => log.isSome
  | .onDestruction => true
  | _ => false

/-- What the callback writes to the log. -/
def log (timestamp : Nat) (log : Option (Log χ)) : Callback χ → Option (Log χ)
  | .start => logQueryStatusChange log .Started timestamp
  | .onRunning => logQueryStatusChange log .Running timestamp
  | .onFailure exception => logQueryFailure log exception timestamp
  | .onDestruction => logQueryStatusChange log .Stopped timestamp

end Callback

structure Lifecycle (χ : Type) where
  state : CatalogState
  log : Option (Log χ)
  /-- The calls that have read the clock. -/
  entered : List (Callback χ × Nat)
  /-- The calls that have passed their transition and are about to log. -/
  leaving : List (Callback χ × Nat)
  onRunningCalled : Bool
  onDestructionCalled : Bool
  deriving DecidableEq, Repr

inductive LifecycleEvent (χ : Type) where
  /-- All pipelines are set up. -/
  | onRunning (timestamp : Nat)
  /-- A task or a source has failed. -/
  | onFailure (exception : χ) (timestamp : Nat)
  /-- All pipelines have expired. -/
  | onDestruction (timestamp : Nat)
  | transition (i : Nat)
  | log (i : Nat)
  | stopQuery
  deriving DecidableEq, Repr

namespace Lifecycle

/-- `QueryCatalog::start` has read the clock and reserved the state.  The query may have been registered. -/
def start (registered : Option Nat) (timestamp : Nat) : Lifecycle χ where
  state := .Reserved
  log := registered.map fun t => [.ofStatus .Registered t]
  entered := [(.start, timestamp)]
  leaving := []
  onRunningCalled := false
  onDestructionCalled := false

variable (s : Lifecycle χ)

/-- `QueryCatalog::start` has not returned; it holds the mutex of the catalog and the setup callback. -/
def IsStarting : Prop := ∃ call ∈ s.entered ++ s.leaving, call.1.isStart = true

instance : Decidable s.IsStarting := inferInstanceAs (Decidable (∃ call ∈ _, _))

def Enabled : LifecycleEvent χ → Prop
  | .onRunning _ => s.onRunningCalled = false ∧ ¬ s.IsStarting
  | .onFailure _ _ => True
  | .onDestruction _ =>
    s.onDestructionCalled = false ∧ (s.state = .Starting ∨ s.state = .Running ∨ s.state = .Stopping)
  | .transition i => i < s.entered.length
  | .log i => i < s.leaving.length
  | .stopQuery => ¬ s.IsStarting

instance : (event : LifecycleEvent χ) → Decidable (s.Enabled event)
  | .onRunning _ | .onDestruction _ => inferInstanceAs (Decidable (_ ∧ _))
  | .onFailure _ _ => inferInstanceAs (Decidable True)
  | .transition _ | .log _ => inferInstanceAs (Decidable (_ < _))
  | .stopQuery => inferInstanceAs (Decidable (¬ _))

def pass (i : Nat) (call : Callback χ × Nat) (state : CatalogState) : Lifecycle χ :=
  { s with state := state, entered := s.entered.eraseIdx i, leaving := s.leaving ++ [call] }

def step : LifecycleEvent χ → Option (Lifecycle χ)
  | .onRunning t => some { s with entered := s.entered ++ [(.onRunning, t)], onRunningCalled := true }
  | .onFailure exception t => some { s with entered := s.entered ++ [(.onFailure exception, t)] }
  | .onDestruction t =>
    some { s with entered := s.entered ++ [(.onDestruction, t)], onDestructionCalled := true }
  | .transition i =>
    match s.entered[i]? with
    | none => none
    | some (.start, t) =>
      -- if the query has failed meanwhile, the plan is disposed of, and nothing is logged
      if s.state = .Reserved then some (s.pass i (.start, t) .Starting)
      else some { s with entered := s.entered.eraseIdx i }
    | some (.onRunning, t) => s.state.onRunning.map fun state => s.pass i (.onRunning, t) state
    | some (.onFailure exception, t) => some (s.pass i (.onFailure exception, t) s.state.onFailure)
    | some (.onDestruction, t) => some (s.pass i (.onDestruction, t) s.state.onDestruction)
  | .log i =>
    match s.leaving[i]? with
    | none => none
    | some (callback, t) => some { s with log := callback.log t s.log, leaving := s.leaving.eraseIdx i }
  | .stopQuery => some { s with state := s.state.stopQuery }

/-- A call of `onFailure` or `onDestruction` comes to its log step. -/
def ends : LifecycleEvent χ → Bool
  | .log i => s.leaving[i]?.any fun call => call.1.ends s.log
  | _ => false

/-- How many calls of `onFailure` and `onDestruction` come to their log step in a run. -/
def endings : Lifecycle χ → List (LifecycleEvent χ) → Nat
  | _, [] => 0
  | s, event :: events => (if s.ends event then 1 else 0) + (s.step event).elim 0 fun s' => s'.endings events

/-! ## What the log of one start contains -/

def underWay (p : Callback χ → Bool) : Nat := (s.entered ++ s.leaving).countP fun call => p call.1

structure History (s : Lifecycle χ) : Prop where
  starts : (s.log.getD []).starts + s.underWay Callback.isStart ≤ 1
  runnings : (s.log.getD []).runnings + s.underWay Callback.isOnRunning ≤ if s.onRunningCalled then 1 else 0
  exceptions : (s.log.getD []).FailuresHaveExceptions

lemma countP_eraseIdx {α : Type} {l : List α} {i : Nat} {a : α} (h : l[i]? = some a) (p : α → Bool) :
    l.countP p = (l.eraseIdx i).countP p + if p a then 1 else 0 := by
  rcases List.getElem?_eq_some_iff.1 h with ⟨hi, ha⟩
  have hperm : l.Perm (a :: l.eraseIdx i) := by
    rw [← ha]
    exact (getElem_cons_eraseIdx_perm hi).symm
  rw [hperm.countP_eq, countP_cons]

end Lifecycle

namespace Callback

variable (callback : Callback χ) (timestamp : Nat)
include callback timestamp

variable (log : Option (Log χ))

/-- The callback inserts one change, whose state tells which callback it was; a failure is not logged if there is
no log yet. -/
lemma log_eq :
    (callback.log timestamp log = log ∧ callback.isStart = false ∧ callback.isOnRunning = false)
      ∨ ∃ change, callback.log timestamp log = some ((log.getD []).insert change)
        ∧ (change.state = .Started ↔ callback.isStart = true) ∧ (change.state = .Running ↔ callback.isOnRunning = true)
        ∧ (change.state = .Failed → change.exception.isSome = true) := by
  cases callback with
  | start | onRunning | onDestruction =>
    exact .inr ⟨_, rfl, by simp [ofStatus, isStart], by simp [ofStatus, isOnRunning], by simp [ofStatus]⟩
  | onFailure exception =>
    cases log with
    | none => exact .inl ⟨rfl, rfl, rfl⟩
    | some log => exact .inr ⟨_, rfl, by simp [ofException, isStart], by simp [ofException, isOnRunning], fun _ => rfl⟩

lemma starts_log :
    ((callback.log timestamp log).getD []).starts = (log.getD []).starts + if callback.isStart then 1 else 0 := by
  rcases callback.log_eq timestamp log with ⟨heq, hstart, _⟩ | ⟨change, heq, hstart, _⟩
  · simp [heq, hstart]
  · rw [heq, getD_some, Log.starts, (Log.perm_insert _ change).countP_eq, countP_cons]
    simp [Log.starts, hstart]

lemma runnings_log : ((callback.log timestamp log).getD []).runnings
      = (log.getD []).runnings + if callback.isOnRunning then 1 else 0 := by
  rcases callback.log_eq timestamp log with ⟨heq, _, hrunning⟩ | ⟨change, heq, _, hrunning, _⟩
  · simp [heq, hrunning]
  · rw [heq, getD_some, Log.runnings, (Log.perm_insert _ change).countP_eq, countP_cons]
    simp [Log.runnings, hrunning]

/-- What ends a run is a terminal change. -/
lemma terminals_log : ((callback.log timestamp log).getD []).terminals
      = (log.getD []).terminals + if callback.ends log then 1 else 0 := by
  have hinsert : ∀ (log : Log χ) (change : QueryStatusChange χ),
      (log.insert change).terminals = log.terminals + if change.isTerminal then 1 else 0 := by
    intro log change
    rw [Log.terminals, (Log.perm_insert log change).countP_eq, countP_cons, Log.terminals]
  cases callback with
  | start | onRunning | onDestruction => exact hinsert _ _
  | onFailure exception =>
    cases log with
    | none => rfl
    | some log => exact hinsert _ _

lemma exceptions_log {log : Option (Log χ)}
    (h : (log.getD []).FailuresHaveExceptions) : ((callback.log timestamp log).getD []).FailuresHaveExceptions := by
  rcases callback.log_eq timestamp log with ⟨heq, _⟩ | ⟨change, heq, _, _, hfailed⟩
  · rwa [heq]
  · rw [heq]
    intro c hc
    rcases mem_cons.1 ((Log.perm_insert _ change).mem_iff.1 hc) with rfl | hold
    · exact hfailed
    · exact h c hold

end Callback

namespace Lifecycle

variable {s s' : Lifecycle χ}

lemma history_start (registered : Option Nat) (timestamp : Nat) :
    (start registered timestamp : Lifecycle χ).History := by
  cases registered with
  | none => exact ⟨Nat.le_refl 1, Nat.le_refl 0, fun _ hmem => absurd hmem not_mem_nil⟩
  | some t =>
    refine ⟨Nat.le_refl 1, Nat.le_refl 0, fun change hmem hstate => ?_⟩
    rw [mem_singleton.1 hmem] at hstate
    cases hstate

lemma underWay_enter (call : Callback χ × Nat) (p : Callback χ → Bool) :
    ({ s with entered := s.entered ++ [call] } : Lifecycle χ).underWay p
      = s.underWay p + if p call.1 then 1 else 0 := by
  simp only [underWay, countP_append, countP_singleton]
  omega

section

variable {i : Nat} {call : Callback χ × Nat}

lemma underWay_pass (h : s.entered[i]? = some call) (state : CatalogState)
    (p : Callback χ → Bool) : (s.pass i call state).underWay p = s.underWay p := by
  have hcount := countP_eraseIdx h (fun call => p call.1)
  simp only [underWay, pass, countP_append, countP_singleton]
  omega

lemma underWay_dropEntered (h : s.entered[i]? = some call) (p : Callback χ → Bool) :
    s.underWay p = ({ s with entered := s.entered.eraseIdx i } : Lifecycle χ).underWay p
      + if p call.1 then 1 else 0 := by
  have hcount := countP_eraseIdx h (fun call => p call.1)
  simp only [underWay, countP_append]
  omega

lemma underWay_dropLeaving (h : s.leaving[i]? = some call) (p : Callback χ → Bool) :
    s.underWay p = ({ s with leaving := s.leaving.eraseIdx i } : Lifecycle χ).underWay p
      + if p call.1 then 1 else 0 := by
  have hcount := countP_eraseIdx h (fun call => p call.1)
  simp only [underWay, countP_append]
  omega

lemma history_pass (h : s.entered[i]? = some call) (state : CatalogState)
    (hs : s.History) : (s.pass i call state).History where
  starts := by
    rw [underWay_pass h]
    exact hs.starts
  runnings := by
    rw [underWay_pass h]
    exact hs.runnings
  exceptions := hs.exceptions

end

/-- A call that is neither a start nor `onRunning` does not count. -/
lemma history_enter {call : Callback χ × Nat} (hstart : call.1.isStart = false) (hrunning : call.1.isOnRunning = false)
    (hs : s.History) : ({ s with entered := s.entered ++ [call] } : Lifecycle χ).History := by
  refine ⟨?_, ?_, hs.exceptions⟩ <;> rw [underWay_enter]
  · rw [hstart]
    exact hs.starts
  · rw [hrunning]
    exact hs.runnings

lemma history_step {event : LifecycleEvent χ} (henabled : s.Enabled event) (h : s.step event = some s')
    (hs : s.History) : s'.History := by
  revert h
  fun_cases step s event
  case case7 hcall =>
    intro h
    rcases map_eq_some_iff.1 h with ⟨state, _, rfl⟩
    exact history_pass hcall _ hs
  all_goals rintro ⟨⟩
  case case1 t =>
    have hrunnings := hs.runnings
    rw [henabled.1, if_neg Bool.false_ne_true] at hrunnings
    refine ⟨?_, ?_, hs.exceptions⟩
    · show _ + ({ s with entered := s.entered ++ [(.onRunning, t)] } : Lifecycle χ).underWay _ ≤ 1
      rw [underWay_enter]
      exact hs.starts
    · show _ + ({ s with entered := s.entered ++ [(.onRunning, t)] } : Lifecycle χ).underWay _ ≤ 1
      rw [underWay_enter]
      simp only [Callback.isOnRunning, if_true]
      omega
  case case2 => exact history_enter rfl rfl hs
  case case3 t =>
    have hentered : ({ s with entered := s.entered ++ [(.onDestruction, t)] } : Lifecycle χ).History :=
      history_enter rfl rfl hs
    exact ⟨hentered.starts, hentered.runnings, hentered.exceptions⟩
  case case5 hcall _ | case8 hcall | case9 hcall => exact history_pass hcall _ hs
  case case6 hcall _ =>
    have hstarts := hs.starts
    have hrunnings := hs.runnings
    rw [underWay_dropEntered hcall] at hstarts hrunnings
    exact ⟨Nat.le_trans (Nat.add_le_add_left (Nat.le_add_right _ _) _) hstarts, hrunnings, hs.exceptions⟩
  case case11 i callback t hcall =>
    have hstarts := hs.starts
    have hrunnings := hs.runnings
    rw [underWay_dropLeaving hcall] at hstarts hrunnings
    refine ⟨?_, ?_, callback.exceptions_log t hs.exceptions⟩
    · show ((callback.log t s.log).getD []).starts
        + ({ s with leaving := s.leaving.eraseIdx i } : Lifecycle χ).underWay _ ≤ 1
      rw [Callback.starts_log]
      dsimp only at hstarts
      omega
    · show ((callback.log t s.log).getD []).runnings
        + ({ s with leaving := s.leaving.eraseIdx i } : Lifecycle χ).underWay _ ≤ _
      rw [Callback.runnings_log]
      dsimp only at hrunnings ⊢
      omega
  case case12 => exact ⟨hs.starts, hs.runnings, hs.exceptions⟩

lemma terminals_step {event : LifecycleEvent χ} (h : s.step event = some s') :
    (s'.log.getD []).terminals = (s.log.getD []).terminals + if s.ends event then 1 else 0 := by
  revert h
  fun_cases step s event
  case case7 =>
    intro h
    rcases map_eq_some_iff.1 h with ⟨state, _, rfl⟩
    rfl
  case case11 i callback t hcall =>
    rintro ⟨⟩
    rw [ends, hcall]
    exact callback.terminals_log t s.log
  all_goals rintro ⟨⟩
  all_goals rfl

/-- The terminal changes in the log are those of the calls that came to their log step. -/
lemma terminals_run {events : List (LifecycleEvent χ)} (h : runGuarded Enabled step s events = some s') :
    (s'.log.getD []).terminals = (s.log.getD []).terminals + s.endings events := by
  induction events generalizing s with
  | nil =>
    rw [← some.inj h]
    rfl
  | cons event events ih =>
    rw [runGuarded] at h
    split at h
    case isTrue =>
      rcases Option.bind_eq_some_iff.1 h with ⟨next, hstep, hrest⟩
      rw [ih hrest, terminals_step hstep, endings, hstep, Nat.add_assoc]
      rfl
    case isFalse => cases h

/-! ## The summary -/

lemma lastFailed_of_terminals_le_one {log : Log χ} (hone : log.terminals ≤ 1)
    {change : QueryStatusChange χ} (hmem : change ∈ log) (hfailed : change.state = .Failed) :
    log.lastFailed = true := by
  have hterminal : change ∈ log.filter isTerminal := mem_filter.2 ⟨hmem, by simp [isTerminal, hfailed]⟩
  have hlength : (log.filter isTerminal).length ≤ 1 := by
    rw [← countP_eq_length_filter]
    exact hone
  unfold Log.lastFailed
  cases hfilter : log.filter isTerminal with
  | nil =>
    rw [hfilter] at hterminal
    cases hterminal
  | cons first rest =>
    rw [hfilter, length_cons] at hlength
    have hrest : rest = [] := length_eq_zero_iff.1 (by omega)
    rw [hfilter, hrest, mem_singleton] at hterminal
    rw [hrest, ← hterminal]
    simp [hfailed]

/-- For one start and every interleaving of the callbacks: the summary has exactly one run, which ends at most
once, and shows a failure that has been logged, if and only if at most one call of `onFailure` or `onDestruction`
has come to its log step. -/
theorem one_run_iff (registered : Option Nat) (timestamp : Nat) (events : List (LifecycleEvent χ)) (s : Lifecycle χ)
    (h : runGuarded Enabled step (start registered timestamp) events = some s) (log : Log χ) (hlog : s.log = some log)
    (hany : log.any isLifecycle = true) :
    ((getQuerySummary log).runs.length = 1 ∧ (getQuerySummary log).runs.countP (fun run => run.stop.isSome) ≤ 1
        ∧ ((∃ change ∈ log, change.state = .Failed) → (getQuerySummary log).currentStatus = .Failed))
      ↔ (start registered timestamp : Lifecycle χ).endings events ≤ 1 := by
  have hhistory : s.History := (Reachable.initial.of_runGuarded h).invariant History
    (history_start registered timestamp) (fun _ _ _ hs henabled hstep => history_step henabled hstep hs)
  have hsame : s.log.getD [] = log := by rw [hlog]; rfl
  have hterminals : log.terminals = (start registered timestamp : Lifecycle χ).endings events := by
    have hrun := terminals_run h
    have hnone : ((start registered timestamp : Lifecycle χ).log.getD []).terminals = 0 := by
      cases registered <;> rfl
    rw [hsame, hnone, Nat.zero_add] at hrun
    exact hrun
  rw [← hterminals]
  have hstarts : log.starts ≤ 1 := by
    have hle := hhistory.starts
    rw [hsame] at hle
    omega
  have hrunnings : log.runnings ≤ 1 := by
    have hle := hhistory.runnings
    rw [hsame] at hle
    split at hle <;> omega
  have hexceptions : log.FailuresHaveExceptions := hsame ▸ hhistory.exceptions
  rcases length_runs_getQuerySummary hstarts hrunnings hexceptions hany with ⟨hlength, hstops⟩
  constructor
  · rintro ⟨hone, _, _⟩
    omega
  · intro hone
    refine ⟨?_, ?_, ?_⟩
    · rw [hlength]
      exact Nat.max_eq_right hone
    · rw [hstops]
      exact hone
    · rintro ⟨change, hmem, hfailed⟩
      have hpos : 0 < log.terminals := countP_pos_iff.2 ⟨change, hmem, by simp [isTerminal, hfailed]⟩
      rw [currentStatus_getQuerySummary hstarts hrunnings hexceptions hpos,
        lastFailed_of_terminals_le_one hone hmem hfailed]
      rfl

def failOnce : List (LifecycleEvent Unit) :=
  [.transition 0, .log 0, .onRunning 3, .transition 0, .log 0, .onFailure () 4, .transition 0, .log 0]

theorem one_run_iff_failOnce :
    ∃ (s : Lifecycle Unit) (log : Log Unit), runGuarded Enabled step (start (some 1) 2) failOnce = some s
      ∧ s.log = some log ∧ (start (some 1) 2 : Lifecycle Unit).endings failOnce = 1
      ∧ (getQuerySummary log).runs.length = 1 ∧ (getQuerySummary log).currentStatus = .Failed := by
  have hrun : ∃ s log, runGuarded Enabled step (start (some 1) 2 : Lifecycle Unit) failOnce = some s
      ∧ s.log = some log ∧ log.any isLifecycle = true ∧ ∃ change ∈ log, change.state = .Failed :=
    ⟨_, _, rfl, rfl, rfl, ⟨.Failed, 4, some ()⟩, by decide, rfl⟩
  rcases hrun with ⟨s, log, hrun, hlog, hany, hfailed⟩
  have hone : (start (some 1) 2 : Lifecycle Unit).endings failOnce = 1 := rfl
  have hsummary := (one_run_iff (some 1) 2 failOnce s hrun log hlog hany).2 (Nat.le_of_eq hone)
  exact ⟨s, log, hrun, hlog, hone, hsummary.1, hsummary.2.2 hfailed⟩

/-- Two tasks of a running query fail at the same time. -/
def failTwice : List (LifecycleEvent Unit) :=
  [.transition 0, .log 0, .onRunning 3, .transition 0, .log 0, .onFailure () 4, .onFailure () 5,
    .transition 0, .transition 0, .log 0, .log 0]

/-- Both failures are logged, and the summary of the one start has two runs. -/
theorem two_failures_two_runs :
    ∃ (s : Lifecycle Unit) (log : Log Unit), Reachable (start (some 1) 2) Enabled step s ∧ s.log = some log
      ∧ (getQuerySummary log).runs = [⟨some 2, some 3, some 4, some ()⟩, ⟨none, none, some 5, some ()⟩] := by
  have hrun : ∃ s log, runGuarded Enabled step (start (some 1) 2 : Lifecycle Unit) failTwice = some s ∧ s.log = some log
      ∧ (getQuerySummary log).runs = [⟨some 2, some 3, some 4, some ()⟩, ⟨none, none, some 5, some ()⟩] :=
    ⟨_, _, rfl, rfl, rfl⟩
  rcases hrun with ⟨s, log, hrun, hlog, hruns⟩
  exact ⟨s, log, Reachable.initial.of_runGuarded hrun, hlog, hruns⟩

end Lifecycle

end MobilityNebula.QueryEngine
