import MobilityNebula.QueryEngine.Ledger

/-!
# LedgerInvariants — ownership of nodes and accounting of work

* `Step.owned`: a node to which somebody refers is owned by the shared pointers, and a node that is being
  stopped by exactly one `StopPipelineTask`.
* `Step.accounting`: the counter `pendingTasks` of a node that is alive is the number of its work tasks, as
  long as no task is dropped by `addTaskOrDoNextTask`.

Both follow from what a step does to the references (`Step.referenced`) and to the work tasks (`Step.works`).
-/

namespace MobilityNebula.QueryEngine

open RunningQueryPlan Multiset Activity

variable {β : Type}

/-! ## Ownership is kept -/

namespace Ledger

/-- From one plan to the next, at most counters and flags of nodes change. -/
structure KeepsStatus (plan plan' : RunningQueryPlan) : Prop where
  state : plan'.state = plan.state
  source : plan'.source = plan.source
  status : ∀ q, (plan'.node q).status = (plan.node q).status

lemma keeps_addPending (plan : RunningQueryPlan) (p : PipelineId) (n : Int) : KeepsStatus plan (plan.addPending p n) :=
  ⟨rfl, rfl, (status_addPending p · n)⟩

lemma keeps_reduced (L : Ledger β) (task : WorkTask β) (A : Multiset (Activity β)) :
    KeepsStatus L.plan (L.reduced task A) := by
  unfold reduced
  split
  case isTrue => exact keeps_addPending _ _ _
  case isFalse => exact ⟨rfl, rfl, fun _ => rfl⟩

lemma keeps_started (L : Ledger β) (p : PipelineId) (A : Multiset (Activity β)) :
    KeepsStatus L.plan (L.started p A) := by
  unfold started
  split
  case isTrue => exact ⟨rfl, rfl, (status_setRequiresTermination p · _)⟩
  case isFalse => exact ⟨rfl, rfl, fun _ => rfl⟩

variable (successors : List PipelineId)

lemma stopTasks_pendingStops (p : PipelineId) :
    (pendingStops successors : Multiset (Task β)).countP (fun task => task.isStopOf p = true) = 0 := by
  refine countP_eq_zero.2 ?_
  intro task htask
  rcases mem_pendingStops htask with ⟨q, _, rfl⟩
  exact Bool.false_ne_true

variable {L L' : Ledger β} {label : Label}

/-- What a step does to the status of node `q` and to its `StopPipelineTask`s. -/
inductive StopEffect (L L' : Ledger β) (label : Label) (q : PipelineId) : Prop where
  | none (hstatus : (L'.plan.node q).status = (L.plan.node q).status) (hstop : L'.stopTasks q = L.stopTasks q)
  | release (hmem : q ∈ L.plan.pipelines) (hshared : (L.plan.node q).status = .shared) (hreferenced : ¬ L.Referenced q)
      (htermination : (L.plan.node q).requiresTermination = true)
      (hstatus : (L'.plan.node q).status = .stopping) (hstop : L'.stopTasks q = 1)
  | gone (hreferenced : ¬ L.Referenced q) (hdead : ¬ (L'.plan.node q).status.IsAlive) (hstop : L'.stopTasks q = 0)
  | drop (hlabel : label = .tooMuchWork) (hstatus : (L'.plan.node q).status = (L.plan.node q).status)
      (hstop : L'.stopTasks q ≤ L.stopTasks q)

variable {p : PipelineId}

lemma Owned.stopTasks_of_shared (hL : L.Owned) (hshared : (L.plan.node p).status = .shared) : L.stopTasks p = 0 := by
  have hle := hL.stopTasks_le p
  rw [hshared, if_neg (by decide)] at hle
  exact Nat.le_zero.1 hle

/-- The only `StopPipelineTask` of a node is over. -/
lemma Owned.stopEffect_of_destroy {A : Multiset (Activity β)} (status : NodeStatus) (hL : L.Owned)
    (hactivities : L.activities = .stopping p ::ₘ A) (hactivities' : L'.activities = A)
    (htasks : ∀ q, L'.tasks.countP (fun task => task.isStopOf q = true)
      = L.tasks.countP (fun task => task.isStopOf q = true)) (hdead : ¬ status.IsAlive)
    (hstatus : ∀ q, (L'.plan.node q).status = if q = p then status else (L.plan.node q).status) (q : PipelineId) :
    StopEffect L L' label q := by
  have hstopping := hL.stopping_of_activity (mem_self_of_eq_cons hactivities)
  have hle := hL.stopTasks_le q
  simp only [stopTasks, hactivities, countP_cons, Activity.isStopOf_iff, stopping.injEq] at hle
  by_cases heq : q = p
  · rw [← heq] at hstopping
    refine .gone (hL.not_referenced_of_stopping hstopping) (by rw [hstatus, if_pos heq]; exact hdead) ?_
    rw [hstopping, if_pos rfl, if_pos heq.symm] at hle
    simp only [stopTasks, htasks, hactivities', isStopOf_iff]
    omega
  · refine .none (by rw [hstatus, if_neg heq]) ?_
    simp [stopTasks, htasks, hactivities', hactivities, Ne.symm heq]

lemma Step.stopEffect (h : Step L label L') (hL : L.Owned) (q : PipelineId) : StopEffect L L' label q := by
  cases h with
  | accept _ => exact .none ((keeps_addPending _ _ _).status q) (by simp [stopTasks])
  | finishWork hactivities | failWork hactivities =>
    exact .none ((L.keeps_reduced _ _).status q) (by simp [stopTasks, hactivities])
  | finishStart hactivities => exact .none ((L.keeps_started _ _).status q) (by simp [stopTasks, hactivities])
  | beginStop htasks =>
    refine .none rfl ?_
    simp only [stopTasks, htasks, countP_cons, Task.isStopOf_iff, isStopOf_iff, Task.stopPipeline.injEq, stopping.injEq]
    omega
  | finishStop hactivities =>
    refine hL.stopEffect_of_destroy .stopped hactivities rfl (fun q => ?_) (by decide) (status_destroy _ · .stopped) q
    rw [countP_add, stopTasks_pendingStops, Nat.zero_add]
  | failStop hactivities alive =>
    refine hL.stopEffect_of_destroy .discarded hactivities rfl (fun q => ?_) (by decide) (fun q => ?_) q
    · rfl
    · rw [(node_dispose alive q).2.1, status_destroy]
  | @release p hmem hshared hreferenced htermination =>
    by_cases heq : q = p
    · subst heq
      refine .release hmem hshared hreferenced htermination (by rw [status_setStatus, if_pos rfl]) ?_
      have hnone := hL.stopTasks_of_shared hshared
      simp only [stopTasks] at hnone
      simp only [stopTasks, countP_cons, Task.isStopOf_iff, if_true]
      omega
    · exact .none (by rw [status_setStatus, if_neg heq]) (by simp [stopTasks, Ne.symm heq])
  | @discard p _ hshared hreferenced _ =>
    by_cases heq : q = p
    · subst heq
      refine .gone hreferenced ?_ (hL.stopTasks_of_shared hshared)
      rw [status_setStatus, if_pos rfl]
      decide
    · exact .none (by rw [status_setStatus, if_neg heq]) rfl
  | unregister htasks _ _ => exact .none rfl (by simp [stopTasks, htasks, stopTasks_pendingStops])
  | stopQuery htasks => exact .none (by rw [node_stop]) (by simp [stopTasks, htasks])
  | failSource htasks alive => exact .none (node_dispose alive q).2.1 (by simp [stopTasks, htasks])
  | reportFailure hactivities alive => exact .none (node_dispose alive q).2.1 (by simp [stopTasks, hactivities])
  | tooMuchWork htasks => exact .drop rfl rfl (Nat.add_le_add_right (countP_le_of_le _ htasks) _)
  | _ =>
    -- the other steps leave the nodes alone and move no `StopPipelineTask`
    exact .none rfl (by simp [stopTasks, *])

lemma Step.owned (h : Step L label L') (hL : L.Owned) : L'.Owned where
  referenced_mem p hp := h.evolves.pipelines ▸ hL.referenced_mem p (h.referenced hL hp)
  referenced_shared p hp := by
    have hold := h.referenced hL hp
    cases h.stopEffect hL p with
    | none hstatus _ | drop _ hstatus _ => rw [hstatus, hL.referenced_shared p hold]
    | release _ _ hreferenced _ _ _ | gone hreferenced _ _ => exact absurd hold hreferenced
  stopping_mem p hp := by
    rw [h.evolves.pipelines]
    cases h.stopEffect hL p with
    | none hstatus _ | drop _ hstatus _ => exact hL.stopping_mem p (hstatus ▸ hp)
    | release hmem _ _ _ _ _ => exact hmem
    | gone _ hdead _ => exact absurd (.inr hp) hdead
  stopTasks_le p := by
    cases h.stopEffect hL p with
    | none hstatus hstop => rw [hstatus, hstop]; exact hL.stopTasks_le p
    | release _ _ _ _ hstatus hstop => rw [hstatus, hstop, if_pos rfl]
    | gone _ _ hstop => rw [hstop]; exact Nat.zero_le _
    | drop _ hstatus hstop => rw [hstatus]; exact Nat.le_trans hstop (hL.stopTasks_le p)

variable {A : Multiset (Activity β)}

/-! ## Work -/

/-- What a step does to the work tasks and to the counters of the nodes that are still alive afterwards. -/
inductive WorkEffect (L L' : Ledger β) : Prop where
  | none (hworks : L'.works = L.works)
      (hpending : ∀ p, (L'.plan.node p).pendingTasks = (L.plan.node p).pendingTasks)
      (haccepted : L'.accepted = L.accepted) (hexecuted : L'.executed = L.executed)
  | accept (task : WorkTask β) (hemit : L.MayEmit task) (hworks : L'.works = task ::ₘ L.works)
      (hplan : L'.plan = L.plan.addPending task.pipeline 1) (htasks : L'.tasks = .work task ::ₘ L.tasks)
      (haccepted : L'.accepted = task ::ₘ L.accepted) (hexecuted : L'.executed = L.executed)
  | expire (task : WorkTask β) (hreferenced : ¬ L.Referenced task.pipeline) (hworks : L.works = task ::ₘ L'.works)
      (hpending : ∀ p, (L'.plan.node p).pendingTasks = (L.plan.node p).pendingTasks)
      (haccepted : L'.accepted = L.accepted) (hexecuted : L'.executed = L.executed)
  | finish (task : WorkTask β) (hactivity : .executing task ∈ L.activities) (hworks : L.works = task ::ₘ L'.works)
      (hpending : ∀ p, L'.Referenced p → (L'.plan.node p).pendingTasks
        = (L.plan.node p).pendingTasks + if p = task.pipeline then -1 else 0)
      (haccepted : L'.accepted = L.accepted) (hexecuted : L'.executed = task ::ₘ L.executed)

variable {task : WorkTask β}

lemma pendingTasks_reduced
    (h : p = task.pipeline → task.keepsAlive = true ∨ ({ L with activities := A } : Ledger β).Referenced p) :
    ((L.reduced task A).node p).pendingTasks = (L.plan.node p).pendingTasks + if p = task.pipeline then -1 else 0 := by
  unfold reduced
  split
  case isTrue => exact pendingTasks_addPending _ _ _
  case isFalse hnot =>
    have hne : p ≠ task.pipeline := by
      intro heq
      have halive := h heq
      rw [heq] at halive
      exact hnot halive
    rw [if_neg hne, Int.add_zero]

variable {T : Multiset (Task β)}

lemma works_cons_task (L : Ledger β) {task : Task β} (htasks : L.tasks = task ::ₘ T)
    (htask : task.work? = none) : L.works = ({ L with tasks := T } : Ledger β).works := by
  rw [works, works, htasks, filterMap_cons_none _ _ htask]

lemma works_cons_activity (L : Ledger β) {activity : Activity β}
    (hactivities : L.activities = activity ::ₘ A) (hactivity : activity.work? = none) :
    L.works = ({ L with activities := A } : Ledger β).works := by
  rw [works, works, hactivities, filterMap_cons_none _ _ hactivity]

lemma filterMap_pendingStops : (pendingStops successors : Multiset (Task β)).filterMap Task.work? = 0 := by
  refine eq_zero_of_forall_notMem ?_
  intro work hwork
  rcases (mem_filterMap _ _).1 hwork with ⟨task, htask, hsome⟩
  rcases mem_pendingStops htask with ⟨q, _, rfl⟩
  cases hsome

lemma works_executing (L : Ledger β) (hactivities : L.activities = .executing task ::ₘ A) :
    L.works = task ::ₘ ({ L with activities := A } : Ledger β).works := by
  rw [works, works, hactivities, filterMap_cons_some work? (.executing task) A rfl, add_cons]

lemma works_work (L : Ledger β)
    (htasks : L.tasks = .work task ::ₘ T) : L.works = task ::ₘ ({ L with tasks := T } : Ledger β).works := by
  rw [works, works, htasks, filterMap_cons_some Task.work? (.work task) T rfl, cons_add]

lemma Step.works (h : Step L label L') (hlabel : label ≠ .tooMuchWork) : WorkEffect L L' := by
  cases h with
  | @accept task hemit =>
    refine .accept task hemit ?_ rfl rfl rfl rfl
    exact works_work { L with tasks := .work task ::ₘ L.tasks } rfl
  | @beginWork task T htasks _ =>
    refine .none ?_ (fun _ => rfl) rfl rfl
    rw [works_work L htasks]
    exact works_executing { L with tasks := T, activities := .executing task ::ₘ L.activities } rfl
  | @expireWork task T htasks hreferenced =>
    exact .expire task hreferenced (works_work L htasks) (fun _ => rfl) rfl rfl
  | @finishWork task A hactivities =>
    refine .finish task (mem_self_of_eq_cons hactivities) (works_executing L hactivities) ?_ rfl rfl
    intro p hp
    refine pendingTasks_reduced (fun _ => .inr ?_)
    exact hp.mono (fun h => .inl ((L.evolves_reduced task A).holds h))
      (fun t ht href => referenced_of_task ht href) (fun a ha href => referenced_of_activity ha href)
  | @failWork task A hactivities =>
    refine .finish task (mem_self_of_eq_cons hactivities) ?_ ?_ rfl rfl
    · simp [Ledger.works, filterMap_cons, hactivities, work?]
    · intro p hp
      refine pendingTasks_reduced (fun heq => ?_)
      by_cases hkeeps : task.keepsAlive = true
      · exact .inl hkeeps
      · refine .inr (hp.mono (fun h => .inl ((L.evolves_reduced task A).holds h))
          (fun t ht href => referenced_of_task ht href) (fun a ha href => ?_))
        rcases mem_cons.1 ha with rfl | hold
        · exact absurd href (by simp [references, hkeeps])
        · exact referenced_of_activity hold href
  | @finishStart p A hactivities =>
    refine .none (works_cons_activity L hactivities rfl).symm (fun q => ?_) rfl rfl
    unfold started
    split
    case isTrue => exact pendingTasks_setRequiresTermination _ _ _
    case isFalse => rfl
  | @finishStop p A hactivities =>
    refine .none ?_ (pendingTasks_destroy p · _) rfl rfl
    simp [Ledger.works, filterMap_cons, hactivities, work?, filterMap_pendingStops]
  | @failStop p A hactivities alive =>
    refine .none (works_cons_activity L hactivities rfl).symm (fun q => ?_) rfl rfl
    rw [(node_dispose alive q).2.2, pendingTasks_destroy]
  | @release p _ _ _ _ =>
    refine .none ?_ (pendingTasks_setStatus p · _) rfl rfl
    simp [Ledger.works, filterMap_cons, Task.work?]
  | @discard p _ _ _ _ => exact .none rfl (pendingTasks_setStatus p · _) rfl rfl
  | stopQuery htasks =>
    refine .none (works_cons_task L htasks rfl).symm (fun q => ?_) rfl rfl
    rw [node_stop]
  | failSource htasks alive =>
    exact .none (works_cons_task L htasks rfl).symm (fun q => (node_dispose alive q).2.2) rfl rfl
  | reportFailure hactivities alive =>
    exact .none (works_cons_activity L hactivities rfl).symm (fun q => (node_dispose alive q).2.2) rfl rfl
  | tooMuchWork _ => exact absurd rfl hlabel
  | _ =>
    -- the others leave the nodes alone and move tasks without work
    refine .none ?_ (fun _ => rfl) rfl rfl
    simp [Ledger.works, filterMap_cons, Task.work?, work?, filterMap_pendingStops, *]

/-! ## Accounting -/

/-- The counter of every node that is alive is the number of its work tasks. -/
def Accounting (L : Ledger β) : Prop :=
  ∀ p, L.Referenced p → (L.plan.node p).pendingTasks = L.pendingWork p

lemma pendingWork_cons (h : L'.works = task ::ₘ L.works) (p : PipelineId) :
    L'.pendingWork p = L.pendingWork p + if p = task.pipeline then 1 else 0 := by
  rw [pendingWork, h, countP_cons, pendingWork]
  simp only [eq_comm]

/-- As long as no task is dropped, a counter that is too high stays too high by as much. -/
lemma Step.surplus (h : Step L label L') (hlabel : label ≠ .tooMuchWork) (howned : L.Owned) (hp : L'.Referenced p) :
    (L'.plan.node p).pendingTasks - L'.pendingWork p = (L.plan.node p).pendingTasks - L.pendingWork p := by
  cases h.works hlabel with
  | none hworks hpending _ _ => rw [hpending, pendingWork, pendingWork, hworks]
  | accept task _ hworks hplan _ _ _ =>
    rw [hplan, pendingTasks_addPending, pendingWork_cons hworks]
    split <;> omega
  | expire task hreferenced hworks hpending _ _ =>
    have hne : p ≠ task.pipeline := fun heq => hreferenced (heq ▸ h.referenced howned hp)
    rw [hpending, pendingWork_cons hworks, if_neg hne, Nat.add_zero]
  | finish task _ hworks hpending _ _ =>
    rw [hpending p hp, pendingWork_cons hworks]
    split <;> omega

lemma Step.accounting (h : Step L label L') (hlabel : label ≠ .tooMuchWork)
    (howned : L.Owned) (hL : L.Accounting) : L'.Accounting := by
  intro p hp
  have hcount := hL p (h.referenced howned hp)
  have hsurplus := h.surplus hlabel howned hp
  omega

end Ledger
end MobilityNebula.QueryEngine
