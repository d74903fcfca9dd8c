import MobilityNebula.LogicalOperators.LogicalOperator

/-!
# LogicalPlan — looking up and replacing operators

`replaceOperator` finds an operator by its id.  On a tree whose ids are distinct it changes one label and nothing
else (`fst_replaceOperatorRecursion_eq_iff`).
-/

namespace MobilityNebula.LogicalOperators

open Library Library.RoseTree List

variable {F A : Type}

structure LogicalPlan (F A : Type) where
  rootOperators : List (LogicalOperator F A)

def operatorIds (operator : LogicalOperator F A) : List Nat := operator.subtrees.map fun op => op.label.id

/-! ## Replacing an operator -/

mutual

/-- The operator with the replacement at the topmost places where the target stands, and whether there are any. -/
def replaceOperatorRecursion (target : Nat) (replacement : OperatorNode F A) :
    LogicalOperator F A → LogicalOperator F A × Bool
  | node current children =>
    if current.id = target then
      (node replacement children, true)
    else
      let (newChildren, replaced) := replaceInChildren target replacement children
      if replaced then (node current newChildren, true) else (node current children, false)

def replaceInChildren (target : Nat) (replacement : OperatorNode F A) :
    List (LogicalOperator F A) → List (LogicalOperator F A) × Bool
  | [] => ([], false)
  | child :: children =>
    let (newChild, replaced) := replaceOperatorRecursion target replacement child
    let (newChildren, replacedInRest) := replaceInChildren target replacement children
    (newChild :: newChildren, replaced || replacedInRest)

end

namespace LogicalPlan

/-- Roots without the target are not part of the new plan. -/
def replaceOperator (plan : LogicalPlan F A) (target : Nat) (replacement : OperatorNode F A) :
    Option (LogicalPlan F A) :=
  let newRoots := plan.rootOperators.filterMap fun root =>
    let (newRoot, replaced) := replaceOperatorRecursion target replacement root
    if replaced then some newRoot else none
  if newRoots.isEmpty then none else some ⟨newRoots⟩

/-- The operators that assign an origin id, each root in breadth-first order. -/
def getOriginIdAssigners (plan : LogicalPlan F A) : List (LogicalOperator F A) :=
  plan.rootOperators.flatMap fun root =>
    (breadthFirst [root]).filter fun op => op.label.operator.hasOriginIdAssignerTrait

end LogicalPlan

/-! ## Trees with distinct ids -/

def replaceLabel (target : Nat) (replacement label : OperatorNode F A) : OperatorNode F A :=
  if label.id = target then replacement else label

lemma operatorIds_node (label : OperatorNode F A) (children : List (LogicalOperator F A)) :
    operatorIds (node label children) = label.id :: children.flatMap operatorIds := by
  rw [operatorIds, subtrees_node, map_cons, map_flatMap]
  rfl

variable {operator : LogicalOperator F A}

lemma operatorIds_mapLabels {f : OperatorNode F A → OperatorNode F A}
    (h : ∀ op ∈ operator.subtrees, (f op.label).id = op.label.id) :
    operatorIds (mapLabels f operator) = operatorIds operator := by
  rw [operatorIds, subtrees_mapLabels, map_map, operatorIds]
  refine map_congr_left fun op hop => ?_
  rw [Function.comp_apply, label_mapLabels]
  exact h op hop

lemma mem_operatorIds {id : Nat} : id ∈ operatorIds operator ↔ ∃ op ∈ operator.subtrees, op.label.id = id := mem_map

/-! ## What a replacement changes -/

section

variable {target : Nat} {replacement current : OperatorNode F A} {children : List (LogicalOperator F A)}

lemma replaceInChildren_eq (children : List (LogicalOperator F A)) :
    replaceInChildren target replacement children =
      (children.map fun child => (replaceOperatorRecursion target replacement child).1,
        children.any fun child => (replaceOperatorRecursion target replacement child).2) := by
  induction children with
  | nil => rfl
  | cons child children ih =>
    rw [replaceInChildren, ih]
    rfl

lemma replaceOperatorRecursion_node (hid : current.id ≠ target) :
    replaceOperatorRecursion target replacement (node current children) =
      if children.any fun child => (replaceOperatorRecursion target replacement child).2 then
        (node current (children.map fun child => (replaceOperatorRecursion target replacement child).1), true)
      else (node current children, false) := by
  rw [replaceOperatorRecursion, if_neg hid, replaceInChildren_eq]

lemma snd_replaceOperatorRecursion (operator : LogicalOperator F A) :
    (replaceOperatorRecursion target replacement operator).2 = true ↔ target ∈ operatorIds operator := by
  induction operator using RoseTree.induction with
  | node current children ih =>
    rw [operatorIds_node, mem_cons, mem_flatMap]
    by_cases hid : current.id = target
    · rw [replaceOperatorRecursion, if_pos hid]
      exact iff_of_true rfl (.inl hid.symm)
    · rw [replaceOperatorRecursion_node hid, or_iff_right (Ne.symm hid), ← exists_congr fun c => and_congr_right (ih c),
        ← any_eq_true]
      split_ifs with hany
      · exact iff_of_true rfl hany
      · exact iff_of_false nofun hany

lemma fst_replaceOperatorRecursion_of_not {operator : LogicalOperator F A}
    (hnot : ¬ (replaceOperatorRecursion target replacement operator).2 = true) :
    (replaceOperatorRecursion target replacement operator).1 = operator := by
  cases operator with
  | node current children =>
    by_cases hid : current.id = target
    · rw [replaceOperatorRecursion, if_pos hid] at hnot
      exact absurd rfl hnot
    · rw [replaceOperatorRecursion_node hid] at hnot ⊢
      split_ifs at hnot ⊢
      · exact absurd rfl hnot
      · rfl

/-- Another operator keeps its place, above what becomes of its children. -/
lemma fst_replaceOperatorRecursion_node (hid : current.id ≠ target) :
    (replaceOperatorRecursion target replacement (node current children)).1 =
      node current (children.map fun child => (replaceOperatorRecursion target replacement child).1) := by
  rw [replaceOperatorRecursion_node hid]
  split_ifs with hany
  · rfl
  · refine congrArg (node current) ?_
    conv_lhs => rw [← map_id children]
    refine map_congr_left fun child hchild => (fst_replaceOperatorRecursion_of_not fun hreplaced => hany ?_).symm
    exact any_eq_true.2 ⟨child, hchild, hreplaced⟩

/-- Below the target there is no operator with the same id, unless it is the replacement. -/
def TargetIsTopmost (target : Nat) (replacement : OperatorNode F A) (operator : LogicalOperator F A) : Prop :=
  ∀ op ∈ operator.subtrees, op.label.id = target → ∀ child ∈ op.children, ∀ below ∈ child.subtrees,
    below.label.id = target → below.label = replacement

lemma mapLabels_replaceLabel_eq_self_iff : mapLabels (replaceLabel target replacement) operator = operator ↔
    ∀ op ∈ operator.subtrees, op.label.id = target → op.label = replacement := by
  conv_lhs => rhs; rw [← mapLabels_id operator]
  rw [mapLabels_eq_mapLabels_iff]
  refine forall₂_congr fun op _ => ?_
  unfold replaceLabel
  split_ifs with hid
  · exact ⟨fun h _ => h.symm, fun h => (h hid).symm⟩
  · exact iff_of_true rfl fun h => absurd h hid

lemma fst_replaceOperatorRecursion_eq_iff (operator : LogicalOperator F A) :
    (replaceOperatorRecursion target replacement operator).1 = mapLabels (replaceLabel target replacement) operator ↔
      TargetIsTopmost target replacement operator := by
  induction operator using RoseTree.induction with
  | node current children ih =>
    by_cases hid : current.id = target
    · rw [replaceOperatorRecursion, if_pos hid, mapLabels_node, replaceLabel, if_pos hid, node.injEq]
      have hmap : children = children.map (mapLabels (replaceLabel target replacement)) ↔
          ∀ child ∈ children, ∀ op ∈ child.subtrees, op.label.id = target → op.label = replacement := by
        conv_lhs => lhs; rw [← map_id children]
        rw [map_inj_left]
        exact forall₂_congr fun child _ => eq_comm.trans mapLabels_replaceLabel_eq_self_iff
      rw [and_iff_right rfl, hmap]
      refine ⟨fun h op hop _ child hchild below hbelow => ?_, fun h => h _ (mem_subtrees_self _) hid⟩
      rcases mem_subtrees_node.1 hop with rfl | ⟨child', hchild', hop⟩
      · exact h child hchild below hbelow
      · exact h child' hchild' below (mem_subtrees_trans (mem_subtrees_of_mem_children hop hchild) hbelow)
    · rw [fst_replaceOperatorRecursion_node hid, mapLabels_node, replaceLabel, if_neg hid, node.injEq,
        and_iff_right rfl, map_inj_left]
      refine (forall₂_congr ih).trans ⟨fun h op hop hop' => ?_, fun h child hchild op hop => ?_⟩
      · rcases mem_subtrees_node.1 hop with rfl | ⟨child, hchild, hop⟩
        · exact absurd hop' hid
        · exact h child hchild op hop hop'
      · exact h op (mem_subtrees_node.2 (.inr ⟨child, hchild, hop⟩))

end

lemma id_ne_of_below {op child below : LogicalOperator F A} (hnodup : (operatorIds operator).Nodup)
    (hop : op ∈ operator.subtrees) (hchild : child ∈ op.children) (hbelow : below ∈ child.subtrees) :
    below.label.id ≠ op.label.id := by
  rcases op with ⟨label, children⟩
  have hids : (operatorIds (node label children)).Nodup := hnodup.sublist ((subtrees_sublist hop).map _)
  rw [operatorIds_node, nodup_cons] at hids
  intro hid
  exact hids.1 (mem_flatMap.2 ⟨child, hchild, mem_operatorIds.2 ⟨below, hbelow, hid⟩⟩)

/-- On a plan with one root whose ids are distinct, one label changes. -/
lemma LogicalPlan.replaceOperator_eq {target : Nat} {replacement : OperatorNode F A} {root : LogicalOperator F A}
    (hnodup : (operatorIds root).Nodup) (hmem : target ∈ operatorIds root) :
    LogicalPlan.replaceOperator ⟨[root]⟩ target replacement =
      some ⟨[mapLabels (replaceLabel target replacement) root]⟩ := by
  have htopmost : TargetIsTopmost target replacement root := fun op hop hid child hchild below hbelow hbelowid =>
    absurd (hbelowid.trans hid.symm) (id_ne_of_below hnodup hop hchild hbelow)
  simp only [replaceOperator, filterMap_cons, filterMap_nil, (snd_replaceOperatorRecursion root).2 hmem, if_true,
    (fst_replaceOperatorRecursion_eq_iff root).2 htopmost, isEmpty_cons, Bool.false_eq_true, if_false]

namespace LogicalPlan

variable (plan : LogicalPlan F A) (target : Nat) (replacement : OperatorNode F A)

/-- The plan in which every occurrence of the target is the replacement and everything else is as it was. -/
def replacedOperator : Option (LogicalPlan F A) :=
  if ∃ root ∈ plan.rootOperators, target ∈ operatorIds root then
    some ⟨plan.rootOperators.map (mapLabels (replaceLabel target replacement))⟩
  else none

lemma replaceOperator_eq_filter :
    plan.replaceOperator target replacement =
      if ∃ root ∈ plan.rootOperators, target ∈ operatorIds root then
        some ⟨(plan.rootOperators.filter fun root => target ∈ operatorIds root).map fun root =>
          (replaceOperatorRecursion target replacement root).1⟩
      else none := by
  have hroots : ∀ roots : List (LogicalOperator F A), (roots.filterMap fun root =>
      if (replaceOperatorRecursion target replacement root).2 then
        some (replaceOperatorRecursion target replacement root).1 else none) =
      (roots.filter fun root => target ∈ operatorIds root).map fun root =>
        (replaceOperatorRecursion target replacement root).1 := by
    intro roots
    simp only [snd_replaceOperatorRecursion]
    rw [← filterMap_eq_map, filterMap_filter]
    simp
  have hempty : (plan.rootOperators.filter fun root => target ∈ operatorIds root) = [] ↔
      ¬ ∃ root ∈ plan.rootOperators, target ∈ operatorIds root := by
    simp [filter_eq_nil_iff]
  simp only [replaceOperator, hroots, List.isEmpty_iff, map_eq_nil_iff, hempty, ite_not]

/-- A root without the target is lost, so every root has to have it or none. -/
theorem replaceOperator_eq_replacedOperator_iff :
    plan.replaceOperator target replacement = plan.replacedOperator target replacement ↔
      (∀ root ∈ plan.rootOperators, target ∉ operatorIds root) ∨
        ∀ root ∈ plan.rootOperators, target ∈ operatorIds root ∧ TargetIsTopmost target replacement root := by
  rw [replaceOperator_eq_filter, replacedOperator]
  by_cases hany : ∃ root ∈ plan.rootOperators, target ∈ operatorIds root
  · rw [if_pos hany, if_pos hany, Option.some_inj, LogicalPlan.mk.injEq]
    constructor
    · intro h
      have hlength := congrArg length h
      rw [length_map, length_map, length_filter_eq_length_iff] at hlength
      have hfilter := filter_eq_self.2 hlength
      rw [hfilter, map_inj_left] at h
      exact .inr fun root hroot => ⟨of_decide_eq_true (hlength root hroot),
        (fst_replaceOperatorRecursion_eq_iff root).1 (h root hroot)⟩
    · rintro (hnone | hall)
      · rcases hany with ⟨root, hroot, hmem⟩
        exact absurd hmem (hnone root hroot)
      · rw [filter_eq_self.2 fun root hroot => decide_eq_true (hall root hroot).1]
        exact map_congr_left fun root hroot => (fst_replaceOperatorRecursion_eq_iff root).2 (hall root hroot).2
  · rw [if_neg hany, if_neg hany]
    exact iff_of_true rfl (.inl fun root hroot hmem => hany ⟨root, hroot, hmem⟩)

/-- The second of two sinks is gone from the plan. -/
theorem replaceOperator_loses_root :
    LogicalPlan.replaceOperator ⟨[node (.create 1 .sink) [], node (.create 2 .sink) []]⟩ 1 (.create 3 .sink) =
      some (⟨[node (.create 3 .sink) []]⟩ : LogicalPlan Unit Unit) := rfl

end LogicalPlan

lemma eq_of_id_eq {root op op' : LogicalOperator F A} (hnodup : (operatorIds root).Nodup)
    (hop : op ∈ root.subtrees) (hop' : op' ∈ root.subtrees) (hid : op.label.id = op'.label.id) : op = op' :=
  inj_on_of_nodup_map hnodup hop hop' hid

end MobilityNebula.LogicalOperators
