import Mathlib
import MobilityNebula.QueryEngine.GracefulStop

/-!
# Termination — how the tasks run out when the engine shuts down

When the catalog is cleared, the sources are gone and the plan is over.  What the workers do from then on brings
no tasks from outside: a task leads to other tasks only through the pipelines that it stops, and `remaining`
counts them all.

A pending stop is put back as long as its pipeline counts work.  `ShuttingDown` says that the counters are right
where a pending stop may read them (`Awaited`), and that they are nowhere too low.
-/

namespace MobilityNebula.QueryEngine

open Multiset RunningQueryPlan

variable {β : Type}

def Task.isStartOf (p : PipelineId) : Task β → Bool
  | .startPipeline q => q = p
  | _ => false

def Activity.isStartOf (p : PipelineId) : Activity β → Bool
  | .starting q => q = p
  | _ => false

def Task.isPendingStopOf (p : PipelineId) : Task β → Bool
  | .pendingPipelineStop q _ => q = p
  | _ => false

namespace Ledger

/-! ## Pipelines that a pending stop may meet -/

variable (L : Ledger β)

/-- Pipeline `p` has to be stopped, or will have to be once it is started. -/
def MayRequireTermination (p : PipelineId) : Prop :=
  (L.plan.node p).requiresTermination = true ∨ (∃ task ∈ L.tasks, task.isStartOf p = true)
    ∨ ∃ activity ∈ L.activities, activity.isStartOf p = true

/-- Pipeline `m` is being stopped, or will be once nobody refers to it. -/
def ToBeStopped (m : PipelineId) : Prop :=
  (L.plan.node m).status = .stopping ∨ (L.plan.node m).status = .shared ∧ L.MayRequireTermination m

/-- A pending stop for pipeline `p` exists, or will exist once a pipeline before `p` is stopped. -/
def WillBePending (p : PipelineId) : Prop :=
  (∃ task ∈ L.tasks, task.isPendingStopOf p = true)
    ∨ ∃ m ∈ L.plan.pipelines, p ∈ (L.plan.node m).successors ∧ L.ToBeStopped m

/-- A pending stop reads, or may come to read, the counter of pipeline `p`. -/
def Awaited (p : PipelineId) : Prop := L.MayRequireTermination p ∧ L.WillBePending p

instance (p : PipelineId) : Decidable (L.MayRequireTermination p) :=
  have : Decidable (∃ task ∈ L.tasks, task.isStartOf p = true) := Multiset.decidableExistsMultiset
  have : Decidable (∃ activity ∈ L.activities, activity.isStartOf p = true) := Multiset.decidableExistsMultiset
  inferInstanceAs (Decidable (_ ∨ _ ∨ _))

instance (m : PipelineId) : Decidable (L.ToBeStopped m) := inferInstanceAs (Decidable (_ ∨ _))

instance (p : PipelineId) : Decidable (L.WillBePending p) :=
  have : Decidable (∃ task ∈ L.tasks, task.isPendingStopOf p = true) := Multiset.decidableExistsMultiset
  inferInstanceAs (Decidable (_ ∨ _))

instance (p : PipelineId) : Decidable (L.Awaited p) := inferInstanceAs (Decidable (_ ∧ _))

variable {L} {L' : Ledger β} {p : PipelineId}

lemma Awaited.referenced (h : L.Awaited p) : L.Referenced p := by
  rcases h.2 with ⟨task, htask, hstop⟩ | ⟨m, hm, hsuccessor, hstop⟩
  · refine referenced_of_task htask ?_
    cases task with
    | pendingPipelineStop q attempts =>
      rw [← of_decide_eq_true hstop]
      exact List.mem_singleton.2 rfl
    | _ => cases hstop
  · refine .inl (.inr ⟨m, hm, ?_, hsuccessor⟩)
    rcases hstop with hstopping | ⟨hshared, _⟩
    · exact .inr hstopping
    · exact .inl hshared

lemma Awaited.of_le {T : Multiset (Task β)} (hT : T ≤ L.tasks) (h : ({ L with tasks := T } : Ledger β).Awaited p) :
    L.Awaited p := by
  have hmay : ∀ m, ({ L with tasks := T } : Ledger β).MayRequireTermination m → L.MayRequireTermination m := by
    rintro m (hflag | ⟨task, htask, hstart⟩ | hactivity)
    · exact .inl hflag
    · exact .inr (.inl ⟨task, mem_of_le hT htask, hstart⟩)
    · exact .inr (.inr hactivity)
  refine ⟨hmay p h.1, ?_⟩
  rcases h.2 with ⟨task, htask, hstop⟩ | ⟨m, hm, hsuccessor, hstop⟩
  · exact .inl ⟨task, mem_of_le hT htask, hstop⟩
  · refine .inr ⟨m, hm, hsuccessor, hstop.imp_right fun hshared => ⟨hshared.1, hmay m hshared.2⟩⟩

/-! ### No pipeline comes to be awaited -/

variable {label : Label}

lemma requiresTermination_destroy (plan : RunningQueryPlan) (p q : PipelineId) (status : NodeStatus) :
    ((plan.destroy p status).node q).requiresTermination
      = if q = p then false else (plan.node q).requiresTermination := by
  rw [destroy, node_modifyNode]
  split <;> rfl

lemma requiresTermination_dispose {plan : RunningQueryPlan} {alive : PipelineId → Bool}
    (h : ((plan.dispose alive).node p).requiresTermination = true) : (plan.node p).requiresTermination = true := by
  unfold dispose at h
  cases hstate : plan.state with
  | starting | running =>
    rw [hstate] at h
    dsimp only at h
    split at h
    case isTrue => cases h
    case isFalse => exact h
  | stopping | failed =>
    rw [hstate] at h
    exact h

lemma Step.requiresTermination (h : Step L label L') (hflag : (L'.plan.node p).requiresTermination = true) :
    (L.plan.node p).requiresTermination = true ∨ .starting p ∈ L.activities := by
  have hdestroy : ∀ (m : PipelineId) (status : NodeStatus),
      ((L.plan.destroy m status).node p).requiresTermination = true → (L.plan.node p).requiresTermination = true := by
    intro m status hflag
    rw [requiresTermination_destroy] at hflag
    split at hflag
    case isTrue => cases hflag
    case isFalse => exact hflag
  cases h with
  | accept _ => exact .inl (requiresTermination_addPending _ _ _ ▸ hflag)
  | finishWork _ | failWork _ => exact .inl (L.requiresTermination_reduced _ _ _ ▸ hflag)
  | @finishStart q A hactivities =>
    by_cases heq : p = q
    · exact .inr (heq ▸ mem_self_of_eq_cons hactivities)
    · left
      dsimp only at hflag
      unfold Ledger.started at hflag
      split at hflag
      case isTrue =>
        rw [setRequiresTermination, node_modifyNode, if_neg heq] at hflag
        exact hflag
      case isFalse => exact hflag
  | finishStop _ => exact .inl (hdestroy _ _ hflag)
  | failStop _ alive => exact .inl (hdestroy _ _ (requiresTermination_dispose hflag))
  | release _ _ _ _ | discard _ _ _ _ => exact .inl (requiresTermination_setStatus _ _ _ ▸ hflag)
  | stopQuery _ => exact .inl (by rw [← node_stop]; exact hflag)
  | failSource _ alive | reportFailure _ alive => exact .inl (requiresTermination_dispose hflag)
  | _ => exact .inl hflag

/-- Starts of pipelines are never created: a `StartPipelineTask` becomes the start of its pipeline. -/
lemma Step.mayRequireTermination (h : Step L label L') (hp : L'.MayRequireTermination p) :
    L.MayRequireTermination p := by
  have hstarting : .starting p ∈ L.activities → L.MayRequireTermination p :=
    fun hactivity => .inr (.inr ⟨_, hactivity, decide_eq_true rfl⟩)
  have htask : ∀ {task : Task β}, task ∈ L.tasks → task.isStartOf p = true → L.MayRequireTermination p :=
    fun hmem hstart => .inr (.inl ⟨_, hmem, hstart⟩)
  have hactivity : ∀ {activity : Activity β}, activity ∈ L.activities → activity.isStartOf p = true →
      L.MayRequireTermination p := fun hmem hstart => .inr (.inr ⟨_, hmem, hstart⟩)
  rcases hp with hflag | ⟨task, hmem, hstart⟩ | ⟨activity, hmem, hstart⟩
  · exact (h.requiresTermination hflag).elim .inl hstarting
  · cases h with
    | accept _ | retryPendingStop _ | release _ _ _ _ | endOfStream _ _ | error _ _ | requestStop =>
      -- what is new is not the start of a pipeline
      rcases mem_cons.1 hmem with rfl | hold
      · cases hstart
      · first
        | exact htask hold hstart
        | exact htask (mem_of_eq_cons (by assumption) hold) hstart
    | finishStop _ | unregister _ _ _ =>
      rcases mem_add.1 hmem with hnew | hold
      · rcases mem_pendingStops hnew with ⟨q, _, rfl⟩
        cases hstart
      · first
        | exact htask hold hstart
        | exact htask (mem_of_eq_cons (by assumption) hold) hstart
    | tooMuchWork hT => exact htask (mem_of_le hT hmem) hstart
    | _ =>
      first
      | exact htask hmem hstart
      | exact htask (mem_of_eq_cons (by assumption) hmem) hstart
  · cases h with
    | beginWork _ _ | beginStop _ =>
      rcases mem_cons.1 hmem with rfl | hold
      · cases hstart
      · exact hactivity hold hstart
    | @beginStart q T htasks _ =>
      rcases mem_cons.1 hmem with rfl | hold
      · exact htask (mem_self_of_eq_cons htasks) hstart
      · exact hactivity hold hstart
    | failWork hactivities | failStart hactivities =>
      rcases mem_cons.1 hmem with rfl | hold
      · cases hstart
      · exact hactivity (mem_of_eq_cons hactivities hold) hstart
    | _ =>
      first
      | exact hactivity hmem hstart
      | exact hactivity (mem_of_eq_cons (by assumption) hmem) hstart

lemma Step.toBeStopped (h : Step L label L') (howned : L.Owned) {m : PipelineId} (hm : L'.ToBeStopped m) :
    L.ToBeStopped m := by
  have hkept : (L'.plan.node m).status = (L.plan.node m).status → L.ToBeStopped m := by
    intro hstatus
    rw [ToBeStopped, ← hstatus]
    exact hm.imp_right fun hshared => ⟨hshared.1, h.mayRequireTermination hshared.2⟩
  cases h.stopEffect howned m with
  | none hstatus _ | drop _ hstatus _ => exact hkept hstatus
  | release _ hshared _ hflag _ _ => exact .inr ⟨hshared, .inl hflag⟩
  | gone _ hdead _ => exact absurd (hm.symm.imp_left And.left) hdead

/-- Pending stops are for the successors of a pipeline that has been stopped. -/
lemma Step.willBePending (h : Step L label L') (howned : L.Owned) (hclosed : ∀ s, ¬ (L.plan.source s).status.IsAlive)
    (hp : L'.WillBePending p) : L.WillBePending p := by
  have hsource : ∀ {s : OriginId} {status : SourceStatus}, (L.plan.source s).status = status → status.IsAlive →
      L.WillBePending p := fun hstatus halive => absurd (hstatus ▸ halive) (hclosed _)
  have htask : ∀ {task : Task β}, task ∈ L.tasks → task.isPendingStopOf p = true → L.WillBePending p :=
    fun hmem hstop => .inl ⟨_, hmem, hstop⟩
  rcases hp with ⟨task, hmem, hstop⟩ | ⟨m, hm, hsuccessor, hstop⟩
  · cases h with
    | accept _ | release _ _ _ _ | requestStop =>
      rcases mem_cons.1 hmem with rfl | hold
      · cases hstop
      · exact htask hold hstop
    | @retryPendingStop q attempts T htasks =>
      rcases mem_cons.1 hmem with rfl | hold
      · exact htask (mem_self_of_eq_cons htasks) hstop
      · exact htask (mem_of_eq_cons htasks hold) hstop
    | @finishStop m A hactivities =>
      rcases mem_add.1 hmem with hnew | hold
      · rcases mem_pendingStops hnew with ⟨q, hq, rfl⟩
        have hstatus := howned.stopping_of_activity (mem_self_of_eq_cons hactivities)
        exact .inr ⟨m, howned.stopping_mem m hstatus, of_decide_eq_true hstop ▸ hq, .inl hstatus⟩
      · exact htask hold hstop
    | endOfStream _ hstatus | error _ hstatus | unregister _ _ hstatus => exact hsource hstatus (by decide)
    | tooMuchWork hT => exact htask (mem_of_le hT hmem) hstop
    | _ =>
      first
      | exact htask hmem hstop
      | exact htask (mem_of_eq_cons (by assumption) hmem) hstop
  · rw [h.evolves.pipelines] at hm
    rw [h.evolves.node_successors m] at hsuccessor
    exact .inr ⟨m, hm, hsuccessor, h.toBeStopped howned hstop⟩

/-! ## Counters -/

/-- The engine after the catalog has been cleared. -/
structure ShuttingDown (L : Ledger β) : Prop where
  owned : L.Owned
  closed : ∀ s, ¬ (L.plan.source s).status.IsAlive
  counted : ∀ p, L.Referenced p → L.pendingWork p ≤ (L.plan.node p).pendingTasks
  awaited : ∀ p, L.Awaited p → (L.plan.node p).pendingTasks = L.pendingWork p

lemma Step.shuttingDown (h : Step L label L') (hlabel : label ≠ .tooMuchWork) (hL : L.ShuttingDown) :
    L'.ShuttingDown where
  owned := h.owned hL.owned
  closed s halive := hL.closed s (h.evolves.source_alive s halive)
  counted p hp := by
    have hsame := h.surplus hlabel hL.owned hp
    have hbefore := hL.counted p (h.referenced hL.owned hp)
    omega
  awaited p hp := by
    have hbefore : L.Awaited p := ⟨h.mayRequireTermination hp.1, h.willBePending hL.owned hL.closed hp.2⟩
    have hsame := h.surplus hlabel hL.owned hp.referenced
    have hequal := hL.awaited p hbefore
    omega

/-- Tasks disappear, but no work task of a pipeline that is still awaited. -/
lemma ShuttingDown.drop {T : Multiset (Task β)} (hL : L.ShuttingDown) (hT : T ≤ L.tasks)
    (hkept : ∀ p, ({ L with tasks := T } : Ledger β).Awaited p →
      ({ L with tasks := T } : Ledger β).pendingWork p = L.pendingWork p) :
    ({ L with tasks := T } : Ledger β).ShuttingDown where
  owned := (Step.tooMuchWork hT).owned hL.owned
  closed := hL.closed
  counted p hp := by
    have hle : ({ L with tasks := T } : Ledger β).pendingWork p ≤ L.pendingWork p :=
      countP_le_of_le _ (Multiset.add_le_add_right (filterMap_le_filterMap _ hT))
    have hbefore := hL.counted p ((Step.tooMuchWork hT).referenced hL.owned hp)
    exact (Int.ofNat_le.2 hle).trans hbefore
  awaited p hp := by
    rw [hkept p hp]
    exact hL.awaited p (hp.of_le hT)

/-! ## Tasks run out -/

/-- How many tasks a task can still lead to, itself included. -/
def taskWeight (plan : RunningQueryPlan) : Task β → Nat
  | .stopPipeline p => 1 + (plan.node p).successors.length
  | _ => 1

def activityWeight (plan : RunningQueryPlan) : Activity β → Nat
  | .stopping p => (plan.node p).successors.length
  | _ => 0

/-- A node that is shared may still become a `StopPipelineTask`. -/
def nodeWeight (plan : RunningQueryPlan) (p : PipelineId) : Nat :=
  if (plan.node p).status = .shared then 1 + (plan.node p).successors.length else 0

/-- How many tasks can still be executed, if no work task is emitted and no pending stop is put back. -/
def remaining (L : Ledger β) : Nat :=
  (L.tasks.map (taskWeight L.plan)).sum + (L.activities.map (activityWeight L.plan)).sum
    + (L.plan.pipelines.map (nodeWeight L.plan)).sum

variable {plan plan' : RunningQueryPlan}

lemma taskWeight_evolves (h : plan.Evolves plan') : (taskWeight plan' : Task β → Nat) = taskWeight plan := by
  funext task
  cases task with
  | stopPipeline p => simp only [taskWeight, h.node_successors]
  | _ => rfl

lemma activityWeight_evolves (h : plan.Evolves plan') :
    (activityWeight plan' : Activity β → Nat) = activityWeight plan := by
  funext activity
  cases activity with
  | stopping p => simp only [activityWeight, h.node_successors]
  | _ => rfl

lemma sum_taskWeight_pendingStops (plan : RunningQueryPlan) (successors : List PipelineId) :
    ((pendingStops successors : Multiset (Task β)).map (taskWeight plan)).sum = successors.length := by
  simp only [pendingStops, map_coe, sum_coe, List.map_map]
  induction successors with
  | nil => rfl
  | cons q rest ih =>
    rw [List.map_cons, List.sum_cons, ih, List.length_cons]
    exact Nat.add_comm 1 _

/-- One element has lost its weight, and the others have not gained any. -/
lemma sum_map_add_le {f f' : PipelineId → Nat} {l : List PipelineId} (hmem : p ∈ l)
    (hself : f' p = 0) (hle : ∀ q, f' q ≤ f q) : (l.map f').sum + f p ≤ (l.map f).sum := by
  calc
    (l.map f').sum + f p = ((l.erase p).map f').sum + f p := by
          rw [← List.sum_map_erase f' hmem, hself, Nat.zero_add]
    _ ≤ ((l.erase p).map f).sum + f p := Nat.add_le_add_right (List.sum_le_sum (fun q _ => hle q)) _
    _ = (l.map f).sum := by
          rw [Nat.add_comm]
          exact List.sum_map_erase f hmem

lemma Step.nodeWeight_le (h : Step L label L') (howned : L.Owned) (q : PipelineId) :
    nodeWeight L'.plan q ≤ nodeWeight L.plan q := by
  unfold nodeWeight
  rw [h.evolves.node_successors q]
  cases h.stopEffect howned q with
  | none hstatus _ | drop _ hstatus _ => rw [hstatus]
  | release _ _ _ _ hstatus _ =>
    rw [hstatus, if_neg (by decide)]
    exact Nat.zero_le _
  | gone _ hdead _ =>
    rw [if_neg fun hshared => hdead (.inl hshared)]
    exact Nat.zero_le _

/-- Apart from the tasks that are emitted, a step brings no new ones. -/
lemma Step.remaining_le (h : Step L label L') (hlabel : label ≠ .stopQuery) (howned : L.Owned)
    (hclosed : ∀ s, ¬ (L.plan.source s).status.IsAlive) :
    L'.remaining + L.accepted.card ≤ L.remaining + L'.accepted.card := by
  have hnodes : (L'.plan.pipelines.map (nodeWeight L'.plan)).sum ≤ (L.plan.pipelines.map (nodeWeight L.plan)).sum := by
    rw [h.evolves.pipelines]
    exact List.sum_le_sum fun q _ => h.nodeWeight_le howned q
  have hsource : ∀ {s : OriginId} {status : SourceStatus}, (L.plan.source s).status = status → ¬ status.IsAlive :=
    fun hstatus halive => hclosed _ (hstatus ▸ halive)
  -- all weights are those of the plan before the step
  have htaskWeight := taskWeight_evolves (β := β) h.evolves
  have hactivityWeight := activityWeight_evolves (β := β) h.evolves
  have hweights := h.nodeWeight_le howned
  have hpipelines := h.evolves.pipelines
  unfold remaining
  rw [htaskWeight, hactivityWeight]
  cases h with
  | @release p hmem hshared _ _ =>
    have hself : nodeWeight L.plan p = 1 + (L.plan.node p).successors.length := if_pos hshared
    have hzero : nodeWeight (L.plan.setStatus p .stopping) p = 0 := by
      rw [nodeWeight, status_setStatus, if_pos rfl, if_neg (by decide)]
    have hless := sum_map_add_le hmem hzero hweights
    rw [hpipelines]
    simp only [map_cons, sum_cons, taskWeight]
    omega
  | endOfStream _ hstatus | error _ hstatus | unregister _ _ hstatus => exact absurd (by decide) (hsource hstatus)
  | requestStop | stopQuery _ => exact absurd rfl hlabel
  | finishStop hactivities =>
    simp only [hactivities, map_cons, Multiset.map_add, sum_cons, sum_add, sum_taskWeight_pendingStops, activityWeight]
    dsimp only at hnodes ⊢
    omega
  | tooMuchWork hT =>
    rcases Multiset.le_iff_exists_add.1 hT with ⟨rest, hrest⟩
    rw [hrest, Multiset.map_add, sum_add]
    dsimp only at hnodes ⊢
    omega
  | _ =>
    simp only [map_cons, sum_cons, card_cons, taskWeight, activityWeight, *]
    dsimp only at hnodes ⊢
    omega

end Ledger

end MobilityNebula.QueryEngine
