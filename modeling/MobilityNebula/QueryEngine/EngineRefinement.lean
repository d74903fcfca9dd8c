import MobilityNebula.QueryEngine.EngineSteps

/-!
# EngineRefinement — the engine refines its ledger

The ledger of an engine is what is left when the places of the tasks are forgotten.  Every event of the
engine is a step of the ledger, with the label of the event, or leaves the ledger alone (`step_refines`).
Invariants of the ledger are therefore invariants of the engine.
-/

namespace MobilityNebula.QueryEngine

open Ledger Option Multiset List

open scoped List

variable {β : Type}

/-! ## Forgetting the places -/

namespace Ledger

def addTasks (L : Ledger β) (tasks : List (Task β)) : Ledger β :=
  { L with tasks := (tasks : Multiset (Task β)) + L.tasks }

def addFrame (L : Ledger β) (frame : Frame β) : Ledger β :=
  { L with
    tasks := (frame.tasks : Multiset (Task β)) + L.tasks
    activities := (frame.activities : Multiset (Activity β)) + L.activities }

end Ledger

namespace Engine

variable (e : Engine β)

def ledger : Ledger β where
  plan := e.plan
  tasks := e.tasks
  activities := e.activities
  accepted := e.accepted
  executed := e.executed

lemma ledger_eq {L : Ledger β} (hplan : e.plan = L.plan) (htasks : (e.tasks : Multiset (Task β)) = L.tasks)
    (hactivities : (e.activities : Multiset (Activity β)) = L.activities)
    (haccepted : (e.accepted : Multiset (WorkTask β)) = L.accepted)
    (hexecuted : (e.executed : Multiset (WorkTask β)) = L.executed) : e.ledger = L := by
  rw [ledger, hplan, htasks, hactivities, haccepted, hexecuted]

lemma ledger_enqueue (task : Task β) : (e.enqueue task).ledger = e.ledger.addTasks [task] := by
  refine ledger_eq _ rfl ?_ rfl rfl rfl
  exact coe_eq_coe.2 (e.tasks_enqueue task)

lemma ledger_writeAdmission (task : Task β) : (e.writeAdmission task).ledger = e.ledger.addTasks [task] := by
  refine ledger_eq _ rfl ?_ rfl rfl rfl
  exact coe_eq_coe.2 (e.tasks_writeAdmission task)

lemma ledger_push (frame : Frame β) : (e.push frame).ledger = e.ledger.addFrame frame := by
  refine ledger_eq _ rfl ?_ ?_ rfl rfl
  · exact coe_eq_coe.2 (e.tasks_push frame)
  · exact coe_eq_coe.2 (e.activities_push frame)

lemma ledger_push_running (activity : Activity β) :
    (e.push (.running activity)).ledger = { e.ledger with activities := activity ::ₘ e.ledger.activities } := by
  rw [ledger_push]
  simp [addFrame, Frame.tasks, Frame.activities]

lemma ledger_append_frames {frames : List (Frame β)} {tasks : List (Task β)}
    (htasks : frames.flatMap Frame.tasks = tasks) (hactivities : frames.flatMap Frame.activities = []) :
    ({ e with frames := e.frames ++ frames } : Engine β).ledger = e.ledger.addTasks tasks := by
  refine ledger_eq _ rfl ?_ ?_ rfl rfl
  · refine coe_eq_coe.2 ?_
    show (e.admissionQueue ++ e.internalTaskQueue ++ (e.frames ++ frames).flatMap Frame.tasks).Perm _
    rw [flatMap_append, htasks, ← append_assoc]
    exact perm_append_comm
  · show (((e.frames ++ frames).flatMap Frame.activities : List (Activity β)) : Multiset (Activity β)) = _
    rw [flatMap_append, hactivities, append_nil]
    rfl

lemma ledger_addAll (tasks : List (Task β)) : (e.addAll tasks).ledger = e.ledger.addTasks tasks := by
  refine e.ledger_append_frames ?_ ?_
  · rw [flatMap_map]
    exact flatMap_singleton' tasks
  · rw [flatMap_map]
    exact flatMap_eq_nil_iff.2 (fun _ _ => rfl)

lemma ledger_removeFrame {i : Nat} {frame : Frame β} (h : e.frames[i]? = some frame) :
    e.ledger = (e.removeFrame i).ledger.addFrame frame := by
  rcases List.getElem?_eq_some_iff.1 h with ⟨hi, hframe⟩
  have hperm : e.frames.Perm (frame :: e.frames.eraseIdx i) := by
    rw [← hframe]
    exact (getElem_cons_eraseIdx_perm hi).symm
  refine ledger_eq _ rfl ?_ ?_ rfl rfl
  · refine coe_eq_coe.2 ?_
    calc
      e.admissionQueue ++ e.internalTaskQueue ++ e.frames.flatMap Frame.tasks
          ~ e.admissionQueue ++ e.internalTaskQueue ++ (frame :: e.frames.eraseIdx i).flatMap Frame.tasks :=
            (hperm.flatMap_right _).append_left _
      _ ~ frame.tasks ++ (e.removeFrame i).tasks := by
            exact perm_append_comm_assoc _ _ _
  · exact coe_eq_coe.2 (hperm.flatMap_right _)

lemma ledger_removeFrame_running {i : Nat} {activity : Activity β} (h : e.frames[i]? = some (.running activity)) :
    e.ledger = { (e.removeFrame i).ledger with activities := activity ::ₘ (e.removeFrame i).ledger.activities } := by
  rw [e.ledger_removeFrame h]
  simp [addFrame, Frame.tasks, Frame.activities]

lemma ledger_pollAdmission : e.pollAdmission.ledger = e.ledger := by
  unfold pollAdmission
  split
  case h_1 => rfl
  case h_2 task rest hqueue =>
    rw [ledger_push]
    refine (ledger_eq e rfl ?_ rfl rfl rfl).symm
    rw [tasks, hqueue]
    rfl

lemma ledger_pollAdmission_if (c : Prop) [Decidable c] : (if c then e.pollAdmission else e).ledger = e.ledger := by
  split
  case isTrue => exact ledger_pollAdmission e
  case isFalse => rfl

lemma ledger_internalTaskQueue {task : Task β} {rest : List (Task β)} (h : e.internalTaskQueue = task :: rest) :
    e.ledger = ({ e with internalTaskQueue := rest } : Engine β).ledger.addTasks [task] := by
  refine ledger_eq e rfl ?_ rfl rfl rfl
  refine coe_eq_coe.2 ?_
  show (e.admissionQueue ++ e.internalTaskQueue ++ e.frames.flatMap Frame.tasks).Perm
    (task :: (e.admissionQueue ++ rest ++ e.frames.flatMap Frame.tasks))
  rw [h, append_assoc, append_assoc]
  exact perm_middle

end Engine

/-! ## Visitors are steps -/

def Task.label : Task β → Ledger.Label
  | .stopQuery => .stopQuery
  | .failSource _ => .failure
  | _ => .ordinary

namespace Engine

variable {e e' : Engine β} {L : Ledger β}

/-- A visited task: before, the ledger had the task; afterwards, it has what the visitor left. -/
lemma visit_refines {task : Task β} {alive : PipelineId → Bool} (hL : L = e.ledger.addTasks [task])
    (halive : ∀ p, alive p = true ↔ L.Referenced p) (h : e.visit alive task = some e') :
    e'.ledger = L ∨ Ledger.Step L task.label e'.ledger := by
  subst hL
  have htasks : (e.ledger.addTasks [task]).tasks = task ::ₘ e.ledger.tasks := rfl
  revert h
  fun_cases visit e alive task <;> rintro ⟨⟩
  case case1 hp =>
    rw [ledger_push]
    exact .inr (.beginWork htasks ((halive _).1 hp))
  case case2 hp => exact .inr (.expireWork htasks fun href => hp ((halive _).2 href))
  case case3 hp =>
    rw [ledger_push]
    exact .inr (.beginStart htasks ((halive _).1 hp))
  case case4 hp => exact .inr (.expireStart htasks fun href => hp ((halive _).2 href))
  case case6 hflag => exact .inr (.dropPendingStop htasks (.inl hflag))
  case case7 =>
    rw [ledger_push, ledger_pollAdmission_if]
    exact .inr (.retryPendingStop htasks)
  case case8 hnonneg _ hpos =>
    exact .inr (.dropPendingStop htasks (.inr (Int.le_antisymm (not_lt.1 hpos) (not_lt.1 hnonneg))))
  case case9 =>
    rw [ledger_push]
    exact .inr (.beginStop htasks)
  case case10 hmem hstatus =>
    rw [ledger_addAll]
    exact .inr (.unregister htasks hmem hstatus)
  case case11 | case12 => exact .inl (ledger_push e _)
  case case13 | case14 => exact .inr (.dropStopSource htasks)
  case case15 | case16 | case17 => exact .inr (.failSource htasks alive)
  case case18 => exact .inr (.dropFailSource htasks)
  case case19 => exact .inr (.stopQuery htasks)

/-! ## Emission and completion are steps -/

lemma ledger_accept (e : Engine β) (task : WorkTask β) :
    (e.accept task).ledger = { e.ledger with accepted := task ::ₘ e.ledger.accepted } := by
  refine ledger_eq _ rfl rfl rfl ?_ rfl
  exact coe_eq_coe.2 (perm_append_singleton task e.accepted)

lemma ledger_recordExecuted (e : Engine β) (task : WorkTask β) :
    (e.recordExecuted task).ledger = { e.ledger with executed := task ::ₘ e.ledger.executed } := by
  refine ledger_eq _ rfl rfl rfl rfl ?_
  exact coe_eq_coe.2 (perm_append_singleton task e.executed)

/-- An accepted work task is counted and recorded; a refused one leaves no trace. -/
lemma ledger_emitWork (e : Engine β) (task : WorkTask β) (policy : ContinuationPolicy) (full : Bool) :
    (e.emitWork task policy full).1.ledger = e.ledger ∨ (e.emitWork task policy full).1.ledger = { e.ledger with
          plan := e.plan.addPending task.pipeline 1
          tasks := .work task ::ₘ e.ledger.tasks
          accepted := task ::ₘ e.ledger.accepted } := by
  fun_cases emitWork e task policy full
  case case1 =>
    rw [ledger_accept, ledger_push]
    exact .inr rfl
  case case2 | case4 | case6 =>
    rw [ledger_accept, ledger_enqueue]
    exact .inr rfl
  case case3 | case5 =>
    refine .inl (congrArg (fun plan => { e.ledger with plan }) ?_)
    exact RunningQueryPlan.addPending_addPending_neg ..

variable {activity : Activity β} {i : Nat}

lemma mem_activities (h : e.frames[i]? = some (.running activity)) : activity ∈ e.ledger.activities := by
  have hmem : Frame.running activity ∈ e.frames := mem_of_getElem? h
  exact mem_coe.2 (List.mem_flatMap.2 ⟨_, hmem, List.mem_singleton.2 rfl⟩)

lemma mayEmit_of_emits {policy : ContinuationPolicy} {q : PipelineId} {b : β}
    (h : e.frames[i]? = some (.running activity)) (hemits : activity.Emits e.plan policy q) :
    e.ledger.MayEmit ⟨q, b, activity.keepsAlive⟩ := by
  have hmem := mem_activities h
  cases activity with
  | executing task =>
    simp only [Activity.Emits] at hemits
    split at hemits
    case isTrue => exact .inr (.inl ⟨task, hmem, .inl hemits, rfl⟩)
    case isFalse => exact .inr (.inl ⟨task, hmem, .inr hemits, rfl⟩)
  | starting p | failing p k => cases hemits
  | stopping p => exact .inr (.inr ⟨p, hmem, hemits⟩)

lemma ledger_reduceReferenceCount {task : WorkTask β}
    (hL : L = { e.ledger with activities := .executing task ::ₘ e.ledger.activities })
    (h : e.reduceReferenceCount task = some e') :
    e'.ledger = { e.ledger with plan := L.reduced task e.ledger.activities } := by
  subst hL
  revert h
  fun_cases reduceReferenceCount e task <;> rintro ⟨⟩
  case case2 halive _ => exact congrArg (fun plan => { e.ledger with plan }) (if_pos halive).symm
  case case3 halive => exact congrArg (fun plan => { e.ledger with plan }) (if_neg halive).symm

lemma completeTask_refines (hL : L = { e.ledger with activities := activity ::ₘ e.ledger.activities })
    (h : e.completeTask activity = some e') : Ledger.Step L .ordinary e'.ledger := by
  have hactivities : L.activities = activity ::ₘ e.ledger.activities := congrArg Ledger.activities hL
  revert h
  fun_cases completeTask e activity
  case case1 task =>
    intro h
    rcases map_eq_some_iff.1 h with ⟨e₁, hreduced, rfl⟩
    rw [ledger_recordExecuted, ledger_reduceReferenceCount hL hreduced]
    subst hL
    exact .finishWork hactivities
  all_goals rintro ⟨⟩
  all_goals subst hL
  case case2 p href =>
    have hstep := Ledger.Step.finishStart hactivities
    rwa [Ledger.started, if_pos (show e.ledger.Referenced p from href)] at hstep
  case case3 p href =>
    have hstep := Ledger.Step.finishStart hactivities
    rwa [Ledger.started, if_neg (show ¬ e.ledger.Referenced p from href)] at hstep
  case case4 =>
    rw [ledger_addAll]
    exact .finishStop hactivities

lemma failTask_refines (hL : L = { e.ledger with activities := activity ::ₘ e.ledger.activities })
    (h : e.failTask activity = some e') : Ledger.Step L .failure e'.ledger := by
  have hactivities : L.activities = activity ::ₘ e.ledger.activities := congrArg Ledger.activities hL
  revert h
  fun_cases failTask e activity
  case case1 task =>
    intro h
    rcases map_eq_some_iff.1 h with ⟨e₁, hreduced, rfl⟩
    rw [ledger_push_running, ledger_recordExecuted, ledger_reduceReferenceCount hL hreduced]
    subst hL
    exact .failWork hactivities
  all_goals rintro ⟨⟩
  all_goals subst hL
  case case2 =>
    rw [ledger_push_running]
    exact .failStart hactivities
  case case3 =>
    exact .failStop hactivities fun q => decide (e.Referenced q)

/-! ## Events are steps -/

def label (e : Engine β) : Event β → Ledger.Label
  | .sourceError _ => .failure
  | .exitSource s => if (e.plan.source s).status = .closing then .closed s else .ordinary
  | .requestStop => .stopQuery
  | .runNext =>
    match e.internalTaskQueue with
    | [] => .ordinary
    | task :: _ => task.label
  | .runHand i =>
    match e.frames[i]? with
    | some (.hand task) => task.label
    | _ => .ordinary
  | .throwAdding _ => .tooMuchWork
  | .fail _ => .failure
  | .reportFailure _ => .failure
  | _ => .ordinary

lemma decide_referenced (e : Engine β) (p : PipelineId) : decide (e.Referenced p) = true ↔ e.ledger.Referenced p := by
  exact decide_eq_true_iff

/-! ### Moving tasks -/

lemma ledger_storeHand (h : e.step (.storeHand i) = some e') : e'.ledger = e.ledger := by
  simp only [step] at h
  split at h
  case h_1 task hframe =>
    rw [← some.inj h, ledger_enqueue, e.ledger_removeFrame hframe]
    simp [addFrame, addTasks, Frame.tasks, Frame.activities]
  case h_2 => cases h

lemma ledger_writeAdding (h : e.step (.writeAdding i) = some e') : e'.ledger = e.ledger := by
  simp only [step] at h
  split at h
  case h_1 task taken level hframe =>
    have hhands : ({ (e.removeFrame i).enqueue task with
        frames := (e.removeFrame i).frames ++ taken.map .hand } : Engine β).ledger
        = ((e.removeFrame i).enqueue task).ledger.addTasks taken := by
      refine ledger_append_frames _ ?_ ?_
      · rw [flatMap_map]
        exact flatMap_singleton' taken
      · rw [flatMap_map]
        exact flatMap_eq_nil_iff.2 (fun _ _ => rfl)
    rw [← some.inj h, hhands, ledger_enqueue, e.ledger_removeFrame hframe]
    have htasks : (taken : Multiset (Task β)) + (([task] : List (Task β)) + (e.removeFrame i).ledger.tasks)
        = ((task :: taken : List (Task β)) : Multiset (Task β)) + (e.removeFrame i).ledger.tasks := by
      rw [← Multiset.add_assoc, Multiset.coe_add]
      exact congrArg (· + _) (coe_eq_coe.2 (perm_append_singleton task taken))
    simp only [addTasks, addFrame, Frame.tasks, Frame.activities, htasks, Multiset.coe_nil, Multiset.zero_add]
  case h_2 => cases h

lemma ledger_nextAdding (h : e.step (.nextAdding i) = some e') : e'.ledger = e.ledger := by
  simp only [step] at h
  split at h
  case h_1 task taken level next rest hframe hqueue =>
    have hnext : (e.removeFrame i).ledger
        = ({ e.removeFrame i with internalTaskQueue := rest } : Engine β).ledger.addTasks [next] :=
      (e.removeFrame i).ledger_internalTaskQueue hqueue
    rw [← some.inj h, ledger_push, e.ledger_removeFrame hframe, hnext]
    simp only [addTasks, addFrame, Frame.tasks, Frame.activities]
    rw [← Multiset.add_assoc, Multiset.coe_add]
    rfl
  case h_2 => cases h

lemma ledger_missAdding (h : e.step (.missAdding i) = some e') : e'.ledger = e.ledger := by
  simp only [step] at h
  split at h
  case h_1 task taken level hframe =>
    rw [← some.inj h, ledger_push, e.ledger_removeFrame hframe]
    rfl
  case h_2 => cases h

/-- The tasks of a call that gives up are gone. -/
lemma ledger_throwAdding (henabled : e.Enabled (.throwAdding i)) (h : e.step (.throwAdding i) = some e') :
    ∃ T ≤ e.ledger.tasks, e'.ledger = { e.ledger with tasks := T } := by
  rcases henabled.exists with ⟨task, taken, level, hframe, _⟩
  rw [← some.inj h, e.ledger_removeFrame hframe]
  refine ⟨(e.removeFrame i).ledger.tasks, le_add_left _ _, ?_⟩
  simp [addFrame, Frame.activities]

/-- Every event is a step of the ledger, or only moves tasks from one place to another. -/
lemma step_refines {event : Event β} (henabled : e.Enabled event) (h : e.step event = some e') :
    e'.ledger = e.ledger ∨ Ledger.Step e.ledger (e.label event) e'.ledger := by
  cases event with
  | emitFromSource s p b =>
    right
    rcases henabled with ⟨hs, hstatus, hmem⟩
    rw [← some.inj h, ledger_accept, ledger_writeAdmission]
    have hemit : e.ledger.MayEmit ⟨p, b, false⟩ := .inl ⟨s, hs, hstatus, hmem, rfl⟩
    exact .accept hemit
  | endOfStream s =>
    right
    rw [← some.inj h, ledger_writeAdmission]
    exact .endOfStream henabled.1 henabled.2
  | sourceError s =>
    right
    rw [← some.inj h, ledger_writeAdmission]
    exact .error henabled.1 henabled.2
  | exitSource s =>
    right
    rcases henabled with ⟨hs, hstatus⟩
    rw [← some.inj h]
    rcases hstatus with hstatus | hstatus
    · simp only [label, hstatus]
      exact .exit hs hstatus
    · simp only [label, hstatus]
      exact .close hs hstatus
  | requestStop =>
    right
    rw [← some.inj h, ledger_writeAdmission]
    exact .requestStop
  | startSources =>
    right
    rcases henabled with ⟨hstate, htasks, hactivities⟩
    rw [← some.inj h]
    refine .startSources hstate (fun p hp => ?_) (fun p hp => ?_)
    · exact absurd (htasks _ hp) (by simp [Task.isStart])
    · exact absurd (hactivities _ hp) (by simp [Activity.isStart])
  | pollAdmission =>
    left
    rw [← some.inj h, ledger_pollAdmission]
  | runNext =>
    simp only [step] at h
    split at h
    case h_1 => cases h
    case h_2 task rest hqueue =>
      simp only [label, hqueue]
      exact visit_refines (e.ledger_internalTaskQueue hqueue) e.decide_referenced h
  | storeHand i => exact .inl (ledger_storeHand h)
  | runHand i =>
    simp only [step] at h
    split at h
    case h_1 task hframe =>
      simp only [label, hframe]
      refine visit_refines ?_ e.decide_referenced h
      rw [e.ledger_removeFrame hframe]
      simp [addFrame, addTasks, Frame.tasks, Frame.activities]
    case h_2 => cases h
  | writeAdding i => exact .inl (ledger_writeAdding h)
  | nextAdding i => exact .inl (ledger_nextAdding h)
  | missAdding i => exact .inl (ledger_missAdding h)
  | throwAdding i =>
    right
    rcases ledger_throwAdding henabled h with ⟨T, htasks, hledger⟩
    rw [hledger]
    exact .tooMuchWork htasks
  | emit i q b policy =>
    rcases henabled.exists with ⟨activity, hframe, hemits⟩
    simp only [step, hframe] at h
    rw [← some.inj h]
    rcases e.ledger_emitWork ⟨q, b, activity.keepsAlive⟩ policy (decide e.IsFull) with hsame | haccepted
    · exact .inl hsame
    · right
      rw [haccepted]
      exact .accept (mayEmit_of_emits hframe (of_decide_eq_true hemits))
  | complete i =>
    right
    simp only [step] at h
    split at h
    case h_1 activity hframe => exact completeTask_refines (e.ledger_removeFrame_running hframe) h
    case h_2 => cases h
  | fail i =>
    right
    simp only [step] at h
    split at h
    case h_1 activity hframe => exact failTask_refines (e.ledger_removeFrame_running hframe) h
    case h_2 => cases h
  | reportFailure i =>
    right
    simp only [step] at h
    split at h
    case h_1 p k hframe =>
      rw [← some.inj h, e.ledger_removeFrame_running hframe]
      unfold reportFailure
      split
      case isTrue =>
        exact .reportFailure rfl (fun q => decide ((e.removeFrame i).Referenced q))
      case isFalse => exact .dropFailure rfl
    case h_2 => cases h
  | release p =>
    right
    rcases henabled with ⟨hmem, hshared, href⟩
    simp only [step] at h
    split at h
    case isTrue hflag =>
      rw [← some.inj h, ledger_addAll]
      exact .release hmem hshared href hflag
    case isFalse hflag =>
      rw [← some.inj h]
      exact .discard hmem hshared href (Bool.not_eq_true _ ▸ hflag)

end Engine

end MobilityNebula.QueryEngine
