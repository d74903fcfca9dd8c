import MobilityNebula.LegacyOptimizer.OriginIdInferencePhase
import MobilityNebula.Watermark.MultiOriginWatermarkProcessor

/-!
# OriginsAtRunTime — the origins that an operator records and the origins that reach it

At run time a source stamps its buffers with its origin id, a join or an aggregation stamps the buffers of its
windows with its own origin id, and every other operator passes on the buffers of all its inputs.  `Emits` and
`Reaches` say which origins that gives at each operator; `origin_inference_iff` compares them with the origins that
the phase writes into the plan.
-/

namespace MobilityNebula.LegacyOptimizer

open LogicalOperators Library Library.RoseTree Watermark List MultiOriginWatermarkProcessor OriginIdInferencePhase

variable {F A : Type}

/-! ## Origins at run time -/

inductive Emits : LogicalOperator F A → Nat → Prop where
  | assigned {op : LogicalOperator F A} {origin : Nat} :
      op.label.operator.hasOriginIdAssignerTrait = true → origin ∈ op.label.outputOriginIds → Emits op origin
  | forwarded {op child : LogicalOperator F A} {origin : Nat} :
      op.label.operator.hasOriginIdAssignerTrait = false → child ∈ op.children → Emits child origin → Emits op origin

/-- A buffer of the origin can reach the operator.  What reaches a source is what it reads itself. -/
def Reaches (op : LogicalOperator F A) (origin : Nat) : Prop :=
  if op.label.operator.isSourceDescriptor then origin ∈ op.label.outputOriginIds
  else ∃ child ∈ op.children, Emits child origin

variable {op : LogicalOperator F A}

lemma emits_iff_of_assigner (h : op.label.operator.hasOriginIdAssignerTrait = true)
    (origin : Nat) : Emits op origin ↔ origin ∈ op.label.outputOriginIds := by
  constructor
  · intro hemits
    cases hemits with
    | assigned _ hmem => exact hmem
    | forwarded hforwards _ _ => exact absurd (h.symm.trans hforwards) nofun
  · exact .assigned h

lemma emits_iff_of_forwarder (h : op.label.operator.hasOriginIdAssignerTrait = false)
    (origin : Nat) : Emits op origin ↔ ∃ child ∈ op.children, Emits child origin := by
  constructor
  · intro hemits
    cases hemits with
    | assigned hassigns _ => exact absurd (hassigns.symm.trans h) nofun
    | forwarded _ hchild hemits => exact ⟨_, hchild, hemits⟩
  · rintro ⟨child, hchild, hemits⟩
    exact .forwarded h hchild hemits

def assignedOrigins (op : LogicalOperator F A) : List Nat :=
  op.subtrees.flatMap fun op => if op.label.operator.hasOriginIdAssignerTrait then op.label.outputOriginIds else []

lemma assignedOrigins_node (label : OperatorNode F A) (children : List (LogicalOperator F A)) :
    assignedOrigins (node label children) =
      (if label.operator.hasOriginIdAssignerTrait then label.outputOriginIds else []) ++
        children.flatMap assignedOrigins := by
  rw [assignedOrigins, subtrees_node, flatMap_cons, flatMap_assoc]
  rfl

variable {origin : Nat}

lemma Emits.mem_assignedOrigins (h : Emits op origin) : origin ∈ assignedOrigins op := by
  induction h with
  | @assigned op origin htrait hmem =>
    cases op
    rw [label_node] at htrait hmem
    rw [assignedOrigins_node, if_pos htrait]
    exact mem_append_left _ hmem
  | @forwarded op child origin _ hchild _ ih =>
    cases op
    rw [assignedOrigins_node]
    exact mem_append_right _ (mem_flatMap.2 ⟨child, hchild, ih⟩)

/-! ## What the phase should achieve -/

/-- A plan as the earlier phases leave it: a sink at the root, physical sources at the leaves and nowhere else, and
no id twice. -/
structure IsExpandedPlan (sink : LogicalOperator F A) : Prop where
  ids_nodup : (operatorIds sink).Nodup
  root_isSink : sink.label.operator = .sink
  leaf_iff : ∀ op ∈ sink.subtrees, op.children = [] ↔ op.label.operator.isSourceDescriptor = true
  not_sourceName : ∀ op ∈ sink.subtrees, ∀ name, op.label.operator ≠ .sourceName name

/-- Every assigner has an origin of its own, every operator records exactly the origins that reach it, and so the
watermark processor of a windowed operator knows every origin it meets and waits for no other. -/
structure OriginsInferred (sink : LogicalOperator F A) : Prop where
  one : ∀ op ∈ sink.subtrees, op.label.operator.hasOriginIdAssignerTrait = true →
    ∃ origin, op.label.outputOriginIds = [origin]
  distinct : (assignedOrigins sink).Nodup
  exact_input : ∀ op ∈ sink.subtrees, ∀ origin, origin ∈ op.label.inputOriginIds.flatten ↔ Reaches op origin
  known : ∀ op ∈ sink.subtrees, op.label.operator.isWindowed = true → ∀ origin, Reaches op origin →
    origin ∈ (create op.label.inputOriginIds.flatten).origins
  heard : ∀ op ∈ sink.subtrees, op.label.operator.isWindowed = true →
    ∀ origin ∈ (create op.label.inputOriginIds.flatten).origins, Reaches op origin

lemma origins_create (ids : List Nat) : (create ids).origins = ids := by
  rw [origins, create, map_map]
  exact map_id ids

/-! ## Plans with the declared inputs -/

open OriginIdInferencePhase

def HasSourceOrigin (node : OperatorNode F A) : Prop :=
  node.operator.isSourceDescriptor = true → ∃ origin, node.inputOriginIds = [[origin]] ∧ node.outputOriginIds = [origin]

variable {node' : OperatorNode F A}

/-- An operator with its declared inputs records what all its children emit. -/
lemma Propagated.inputOriginIds_eq {node : OperatorNode F A} {children : List (OperatorNode F A)}
    (h : Propagated node children node') (hinputs : HasDeclaredInputs node children.length)
    (hsource : node.operator.isSourceDescriptor = false) : node'.inputOriginIds = children.map (·.outputOriginIds) := by
  rcases h.input hsource with ⟨copy, hrecorded, heq⟩
  by_cases hbinary : node.operator.isBinary = true
  · exact heq.trans (hrecorded.of_binary hbinary).2
  · rw [Bool.not_eq_true] at hbinary
    have hjoin : node.operator.isJoin = false := (Bool.or_eq_false_iff.1 hbinary).2
    rcases length_eq_one_iff.1 (hinputs.unary hsource hjoin) with ⟨child, rfl⟩
    rcases hrecorded.of_unary hbinary with ⟨_, _, hids, hinput⟩
    cases hids
    exact heq.trans hinput

lemma mem_flatten_outputs {ops : List (LogicalOperator F A)} :
    origin ∈ ((ops.map label).map (·.outputOriginIds)).flatten ↔ ∃ op ∈ ops, origin ∈ op.label.outputOriginIds := by
  rw [map_map, ← flatMap_def, mem_flatMap]
  rfl

lemma not_source_of_not_assigner {operator : Operator F A} (h : operator.hasOriginIdAssignerTrait = false) :
    operator.isSourceDescriptor = false ∧ operator.isJoin = false := by
  cases operator with
  | sourceDescriptor _ => cases h
  | join _ _ _ => cases h
  | _ => exact ⟨rfl, rfl⟩

variable {children : List (LogicalOperator F A)}

/-- One operator: if each child's output is what the child emits, so is the operator's, and its input is what reaches
it. -/
lemma exact_of_propagated {label : OperatorNode F A}
    (h : Propagated label (children.map RoseTree.label) node') (hinputs : HasDeclaredInputs label children.length)
    (hsource : HasSourceOrigin label)
    (hchildren : ∀ child ∈ children, ∀ origin, origin ∈ child.label.outputOriginIds ↔ Emits child origin) :
    (∀ origin, origin ∈ node'.outputOriginIds ↔ Emits (node node' children) origin) ∧
      ∀ origin, origin ∈ node'.inputOriginIds.flatten ↔ Reaches (node node' children) origin := by
  have hout : ∀ origin, (∃ child ∈ children, origin ∈ child.label.outputOriginIds) ↔
      ∃ child ∈ children, Emits child origin := fun origin =>
    exists_congr fun child => and_congr_right fun hchild => hchildren child hchild origin
  constructor
  · intro origin
    by_cases htrait : label.operator.hasOriginIdAssignerTrait = true
    · have htrait' : (node node' children).label.operator.hasOriginIdAssignerTrait = true :=
        (congrArg _ h.operator_eq).trans htrait
      exact (emits_iff_of_assigner htrait' origin).symm
    · rw [Bool.not_eq_true] at htrait
      have htrait' : (node node' children).label.operator.hasOriginIdAssignerTrait = false :=
        (congrArg _ h.operator_eq).trans htrait
      have hclass := not_source_of_not_assigner htrait
      rw [emits_iff_of_forwarder htrait', children_node, ← hout]
      rcases length_eq_one_iff.1 (hinputs.unary hclass.1 hclass.2) with ⟨child, rfl⟩
      rcases h.output_of_forwarder htrait with ⟨_, _, hfirst, houtput⟩
      cases hfirst
      rw [houtput]
      simp only [mem_singleton, exists_eq_left]
  · intro origin
    unfold Reaches
    by_cases hclass : label.operator.isSourceDescriptor = true
    · rcases hsource hclass with ⟨own, hin, hown⟩
      have htrait : label.operator.hasOriginIdAssignerTrait = true := Bool.or_eq_true_iff.2 (.inl hclass)
      rw [label_node, h.operator_eq, if_pos hclass, h.input_of_source hclass, hin, h.output_of_assigner htrait, hown]
      rfl
    · rw [label_node, h.operator_eq, if_neg hclass]
      rw [Bool.not_eq_true] at hclass
      rw [Propagated.inputOriginIds_eq h (by rwa [length_map]) hclass, mem_flatten_outputs, hout]
      rfl

/-- On a plan whose operators have their declared inputs the propagation succeeds, and every operator records exactly
what reaches it. -/
lemma exists_relabelled (op : LogicalOperator F A) (hsource : ∀ op' ∈ op.subtrees, HasSourceOrigin op'.label)
    (hname : ∀ op' ∈ op.subtrees, ∀ name, op'.label.operator ≠ .sourceName name)
    (hinputs : ∀ op' ∈ op.subtrees, HasDeclaredInputs op'.label op'.children.length) :
    ∃ inferred, Relabelled propagateOriginIds op inferred ∧
      (∀ origin, origin ∈ inferred.label.outputOriginIds ↔ Emits inferred origin) ∧
      ∀ op' ∈ inferred.subtrees, ∀ origin, origin ∈ op'.label.inputOriginIds.flatten ↔ Reaches op' origin := by
  induction op using RoseTree.induction with
  | node label children ih =>
    have hbelow : ∀ {child op'}, child ∈ children → op' ∈ child.subtrees → op' ∈ (node label children).subtrees :=
      fun hchild hop' => mem_subtrees_node.2 (.inr ⟨_, hchild, hop'⟩)
    have hself : node label children ∈ (node label children).subtrees := mem_subtrees_self _
    rcases exists_forall₂ fun child hchild => ih child hchild (fun op' hop' => hsource op' (hbelow hchild hop'))
      (fun op' hop' => hname op' (hbelow hchild hop')) (fun op' hop' => hinputs op' (hbelow hchild hop'))
      with ⟨inferred, hinferred⟩
    have hall : ∀ op' ∈ inferred, (∀ origin, origin ∈ op'.label.outputOriginIds ↔ Emits op' origin) ∧
        ∀ op'' ∈ op'.subtrees, ∀ origin, origin ∈ op''.label.inputOriginIds.flatten ↔ Reaches op'' origin := by
      intro op' hop'
      rcases getElem_of_mem hop' with ⟨i, hi, rfl⟩
      exact ((forall₂_iff_get.1 hinferred).2 i (hinferred.length_eq ▸ hi) hi).2
    have hdeclared : HasDeclaredInputs label inferred.length := hinferred.length_eq ▸ hinputs _ hself
    have hdeclared' : HasDeclaredInputs label (inferred.map RoseTree.label).length := by rwa [length_map]
    rcases propagateOriginIds_isSome (hname _ hself) hdeclared' with ⟨label', hlabel'⟩
    have hexact := exact_of_propagated (propagateOriginIds_spec hlabel') hdeclared (hsource _ hself)
      fun op' hop' => (hall op' hop').1
    refine ⟨node label' inferred, .node label children label' inferred (hinferred.imp fun _ _ h => h.1) hlabel',
      hexact.1, fun op' hop' => ?_⟩
    rcases mem_subtrees_node.1 hop' with rfl | ⟨child, hchild, hop'⟩
    · exact hexact.2
    · exact (hall child hchild).2 op' hop'

/-! ## Plans with other inputs -/

variable {inferred : LogicalOperator F A}

lemma emits_of_mem_output (h : Relabelled propagateOriginIds op inferred)
    (hmem : origin ∈ inferred.label.outputOriginIds) : Emits inferred origin := by
  revert hmem
  refine Relabelled.induction (motive := fun _ inferred =>
    origin ∈ inferred.label.outputOriginIds → Emits inferred origin) ?_ h
  intro label children label' inferred _ ih hlabel' hmem
  have hpropagated := propagateOriginIds_spec hlabel'
  by_cases htrait : label.operator.hasOriginIdAssignerTrait = true
  · exact .assigned ((congrArg _ hpropagated.operator_eq).trans htrait) hmem
  · rw [Bool.not_eq_true] at htrait
    rcases hpropagated.output_of_forwarder htrait with ⟨first, rest, hchildren, houtput⟩
    rcases map_eq_cons_iff.1 hchildren with ⟨child, _, rfl, rfl, _⟩
    rw [label_node, houtput] at hmem
    rcases forall₂_cons_right_iff.1 ih with ⟨_, _, hchild, _, _⟩
    exact .forwarded ((congrArg _ hpropagated.operator_eq).trans htrait) mem_cons_self (hchild hmem)

variable {sink : LogicalOperator F A}

lemma exists_emits (hone : ∀ op ∈ sink.subtrees, op.label.operator.hasOriginIdAssignerTrait = true →
      ∃ origin, op.label.outputOriginIds = [origin])
    (hleaf : ∀ op ∈ sink.subtrees, op.children = [] → op.label.operator.hasOriginIdAssignerTrait = true) :
    ∃ origin, Emits sink origin := by
  induction sink using RoseTree.induction with
  | node label children ih =>
    have hself : node label children ∈ (node label children).subtrees := mem_subtrees_self _
    by_cases htrait : label.operator.hasOriginIdAssignerTrait = true
    · rcases hone _ hself htrait with ⟨origin, horigin⟩
      exact ⟨origin, .assigned htrait (horigin ▸ mem_singleton_self origin)⟩
    · cases children with
      | nil => exact absurd (hleaf _ hself rfl) htrait
      | cons child rest =>
        have hbelow : ∀ op ∈ child.subtrees, op ∈ (node label (child :: rest)).subtrees :=
          fun op hop => mem_subtrees_node.2 (.inr ⟨child, mem_cons_self, hop⟩)
        rcases ih child mem_cons_self (fun op hop => hone op (hbelow op hop))
          (fun op hop => hleaf op (hbelow op hop)) with ⟨origin, hemits⟩
        exact ⟨origin, .forwarded (Bool.not_eq_true _ ▸ htrait) mem_cons_self hemits⟩

/-- Where no origin is assigned twice, two children of an operator have no origin in common. -/
lemma pairwise_emits {label : OperatorNode F A} (h : (assignedOrigins (node label children)).Nodup) :
    children.Pairwise fun child child' => ∀ origin, Emits child origin → ¬Emits child' origin := by
  rw [assignedOrigins_node] at h
  have hchildren := (nodup_flatMap.1 (nodup_append.1 h).2.1).2
  refine hchildren.imp fun hdisjoint origin hemits hemits' => ?_
  exact hdisjoint hemits.mem_assignedOrigins hemits'.mem_assignedOrigins

lemma Propagated.exists_of_mem_input {label : OperatorNode F A}
    (h : Propagated label (children.map RoseTree.label) node') (hsource : label.operator.isSourceDescriptor = false)
    (hmem : origin ∈ node'.inputOriginIds.flatten) :
    ∃ child ∈ children, origin ∈ child.label.outputOriginIds := by
  rcases h.input hsource with ⟨copy, hrecorded, heq⟩
  rw [← mem_flatten_outputs]
  by_cases hbinary : label.operator.isBinary = true
  · rwa [heq, (hrecorded.of_binary hbinary).2] at hmem
  · rcases hrecorded.of_unary (Bool.not_eq_true _ ▸ hbinary) with ⟨first, rest, hids, hinput⟩
    rw [heq, hinput, flatten_cons, flatten_nil, append_nil] at hmem
    rw [hids, flatten_cons]
    exact mem_append_left _ hmem

/-- The outcome of the propagation, with a sink at the root and sources as leaves, that meets its purpose. -/
structure ExactPlan (op inferred : LogicalOperator F A) : Prop where
  relabelled : Relabelled propagateOriginIds op inferred
  origins : OriginsInferred inferred
  root_isSink : inferred.label.operator = .sink
  leaf_iff : ∀ op' ∈ inferred.subtrees, op'.children = [] ↔ op'.label.operator.isSourceDescriptor = true

namespace ExactPlan

variable {op inferred : LogicalOperator F A}

section

variable (h : ExactPlan op inferred) {label : OperatorNode F A} {children : List (LogicalOperator F A)}
  (hmem : node label children ∈ inferred.subtrees)
include h hmem

lemma propagated : ∃ old, Propagated old (children.map RoseTree.label) label ∧
      ∀ child ∈ children, ∀ origin ∈ child.label.outputOriginIds, Emits child origin := by
  rcases h.relabelled.exists_of_mem_subtrees hmem with ⟨_, _, hrelabelled⟩
  cases hrelabelled with
  | node old olds _ _ hchildren hlabel =>
    refine ⟨old, propagateOriginIds_spec hlabel, fun child hchild origin horigin => ?_⟩
    rcases getElem_of_mem hchild with ⟨i, hi, rfl⟩
    exact emits_of_mem_output ((forall₂_iff_get.1 hchildren).2 i (hchildren.length_eq ▸ hi) hi) horigin

lemma pairwise : children.Pairwise fun child child' => ∀ origin, Emits child origin → ¬Emits child' origin :=
  pairwise_emits (h.origins.distinct.sublist ((subtrees_sublist hmem).flatMap _))

lemma eq_of_emits {child child' : LogicalOperator F A} (hchild : child ∈ children)
    (hchild' : child' ∈ children) {origin : Nat} (hemits : Emits child origin) (hemits' : Emits child' origin) :
    child = child' := by
  have hsymm : Std.Symm fun child child' : LogicalOperator F A => ∀ origin, Emits child origin → ¬Emits child' origin :=
    ⟨fun _ _ hdisjoint origin hemits' hemits => hdisjoint origin hemits hemits'⟩
  by_contra hne
  exact (h.pairwise hmem).forall hchild hchild' hne origin hemits hemits'

end

variable (h : ExactPlan op inferred)
include h

variable {op' : LogicalOperator F A}

lemma exists_emits (hop' : op' ∈ inferred.subtrees) : ∃ origin, Emits op' origin :=
  LegacyOptimizer.exists_emits (fun op'' hop'' => h.origins.one op'' (mem_subtrees_trans hop' hop''))
    fun op'' hop'' hleaf =>
      Bool.or_eq_true_iff.2 (.inl ((h.leaf_iff op'' (mem_subtrees_trans hop' hop'')).1 hleaf))

section

variable {label : OperatorNode F A} {children : List (LogicalOperator F A)}
  (hmem : node label children ∈ inferred.subtrees)
include hmem

lemma exact_of_not_source (hsource : label.operator.isSourceDescriptor = false) (origin : Nat) :
    origin ∈ label.inputOriginIds.flatten ↔ ∃ child ∈ children, Emits child origin := by
  have hexact := h.origins.exact_input _ hmem origin
  rwa [Reaches, label_node, hsource, if_neg Bool.false_ne_true, children_node] at hexact

lemma length_eq_one (hsource : label.operator.isSourceDescriptor = false)
    (hbinary : label.operator.isBinary = false) : children.length = 1 := by
  rcases h.propagated hmem with ⟨old, hpropagated, hemits⟩
  have hoperator := hpropagated.operator_eq
  rcases hpropagated.input (hoperator ▸ hsource) with ⟨copy, hrecorded, heq⟩
  rcases hrecorded.of_unary (hoperator ▸ hbinary) with ⟨first, rest, hids, hinput⟩
  match children, hids with
  | [child], _ => rfl
  | child :: second :: others, hids =>
    have hpairwise := pairwise_cons.1 (h.pairwise hmem)
    have hsecond : second ∈ inferred.subtrees := mem_subtrees_of_mem_children hmem (mem_cons_of_mem _ mem_cons_self)
    rcases h.exists_emits hsecond with ⟨origin, horigin⟩
    have hreaches : origin ∈ label.inputOriginIds.flatten :=
      (h.exact_of_not_source hmem hsource origin).2 ⟨second, mem_cons_of_mem _ mem_cons_self, horigin⟩
    rw [heq, hinput, flatten_cons, flatten_nil, append_nil] at hreaches
    have hfirst : child.label.outputOriginIds = first := (cons.inj hids).1
    have hchild : Emits child origin := hemits child mem_cons_self origin (hfirst ▸ hreaches)
    exact absurd horigin (hpairwise.1 second mem_cons_self origin hchild)

/-- There is no union: its parent would not know the origins of the right input. -/
lemma not_union : label.operator.isUnion = false := by
  rw [Bool.eq_false_iff]
  intro hunion
  have hclass : label.operator.isBinary = true ∧ label.operator.hasOriginIdAssignerTrait = false ∧
      label.operator ≠ .sink := by
    cases hoperator : label.operator with
    | union => exact ⟨rfl, rfl, nofun⟩
    | _ => rw [hoperator] at hunion; cases hunion
  rcases h.propagated hmem with ⟨old, hpropagated, hemits⟩
  have hoperator := hpropagated.operator_eq
  rcases hpropagated.output_of_forwarder (hoperator ▸ hclass.2.1) with ⟨first, rest, hchildren, houtput⟩
  have hnotSource : old.operator.isSourceDescriptor = false := (not_source_of_not_assigner (hoperator ▸ hclass.2.1)).1
  rcases hpropagated.input hnotSource with ⟨copy, hrecorded, heq⟩
  have hlength := (hrecorded.of_binary (hoperator ▸ hclass.1)).1
  -- an origin of the right input is emitted by the union but is not among its output origins
  match children, hlength with
  | [left, right], _ =>
    have hright : right ∈ inferred.subtrees := mem_subtrees_of_mem_children hmem (mem_cons_of_mem _ mem_cons_self)
    rcases h.exists_emits hright with ⟨origin, horigin⟩
    have hnotLeft : origin ∉ label.outputOriginIds := by
      intro hout
      have hfirst : left.label = first := (cons.inj hchildren).1
      rw [houtput, ← hfirst] at hout
      have hpairwise := pairwise_cons.1 (h.pairwise hmem)
      exact hpairwise.1 right mem_cons_self origin (hemits left mem_cons_self origin hout) horigin
    have hunionEmits : Emits (node label [left, right]) origin :=
      .forwarded hclass.2.1 (mem_cons_of_mem _ mem_cons_self) horigin
    -- so the parent's record cannot have it
    have hne : node label [left, right] ≠ inferred := by
      intro heq
      have hroot := h.root_isSink
      rw [← heq] at hroot
      exact hclass.2.2 hroot
    rcases exists_parent hmem hne with ⟨⟨parentLabel, siblings⟩, hparent, hchild⟩
    have hparentNotSource : parentLabel.operator.isSourceDescriptor = false := by
      rw [Bool.eq_false_iff]
      intro hsource
      have hnil := (h.leaf_iff _ hparent).2 hsource
      rw [hnil] at hchild
      exact not_mem_nil hchild
    have hin := (h.exact_of_not_source hparent hparentNotSource origin).2 ⟨_, hchild, hunionEmits⟩
    rcases h.propagated hparent with ⟨oldParent, hparentPropagated, hparentEmits⟩
    rcases Propagated.exists_of_mem_input hparentPropagated (hparentPropagated.operator_eq ▸ hparentNotSource) hin with
      ⟨sibling, hsibling, hout⟩
    have hsame := h.eq_of_emits hparent hsibling hchild (hparentEmits sibling hsibling origin hout) hunionEmits
    rw [hsame] at hout
    exact hnotLeft hout

end

lemma hasDeclaredInputs (hop' : op' ∈ inferred.subtrees) : HasDeclaredInputs op'.label op'.children.length := by
  rcases op' with ⟨label, children⟩
  have hunion := h.not_union hop'
  refine ⟨hunion, fun hjoin => ?_, fun hsource hjoin => ?_⟩
  · have hbinary : label.operator.isBinary = true := Bool.or_eq_true_iff.2 (.inr hjoin)
    have hnotSource : label.operator.isSourceDescriptor = false := by
      rw [label_node] at hjoin
      cases hoperator : label.operator with
      | sourceDescriptor _ => rw [hoperator] at hjoin; cases hjoin
      | _ => rfl
    rcases h.propagated hop' with ⟨old, hpropagated, _⟩
    rcases hpropagated.input (hpropagated.operator_eq ▸ hnotSource) with ⟨copy, hrecorded, _⟩
    have hlength := (hrecorded.of_binary (hpropagated.operator_eq ▸ hbinary)).1
    rwa [length_map, length_map] at hlength
  · exact h.length_eq_one hop' hsource (Bool.or_eq_false_iff.2 ⟨hunion, hjoin⟩)

end ExactPlan

/-! ## The whole phase -/

def assignersOf (sink : LogicalOperator F A) : List (OperatorNode F A) :=
  (LogicalPlan.getOriginIdAssigners ⟨[sink]⟩).map label

def numbered (sink : LogicalOperator F A) : LogicalOperator F A :=
  mapLabels (assignOrigin (assignersOf sink) initialOriginId) sink

lemma mem_assignersOf {label : OperatorNode F A} : label ∈ assignersOf sink ↔
      ∃ op ∈ sink.subtrees, op.label.operator.hasOriginIdAssignerTrait = true ∧ op.label = label := by
  rw [assignersOf, LogicalPlan.getOriginIdAssigners, flatMap_singleton, mem_map]
  simp only [mem_filter, (breadthFirst_perm sink).mem_iff, and_assoc]

section

variable (hids : (operatorIds sink).Nodup)
include hids

lemma nodup_assignersOf : ((assignersOf sink).map OperatorNode.id).Nodup := by
  rw [assignersOf, LogicalPlan.getOriginIdAssigners, flatMap_singleton, map_map]
  have hperm := (breadthFirst_perm sink).map fun op => op.label.id
  exact (hperm.nodup_iff.2 hids).sublist (filter_sublist.map _)

lemma label_numbered (hop : op ∈ sink.subtrees) : assignOrigin (assignersOf sink) initialOriginId op.label =
      if op.label.operator.hasOriginIdAssignerTrait then
        withOrigin op.label (originOf (assignersOf sink) initialOriginId op.label.id)
      else op.label := by
  have hiff : op.label.id ∈ (assignersOf sink).map OperatorNode.id ↔
      op.label.operator.hasOriginIdAssignerTrait = true := by
    constructor
    · intro hmem
      rcases mem_map.1 hmem with ⟨label, hlabel, hid⟩
      rcases mem_assignersOf.1 hlabel with ⟨op', hop', htrait, rfl⟩
      exact eq_of_id_eq hids hop' hop hid ▸ htrait
    · intro htrait
      exact mem_map_of_mem (mem_assignersOf.2 ⟨op, hop, htrait, rfl⟩)
  simp only [assignOrigin, hiff]

lemma apply_eq_some_iff {plan : LogicalPlan F A} : apply ⟨[sink]⟩ = some plan ↔
      ∃ inferred, Relabelled propagateOriginIds (numbered sink) inferred ∧ plan = ⟨[inferred]⟩ := by
  have hassign : assignOriginIds (assignersOf sink) initialOriginId ⟨[sink]⟩ = some ⟨[numbered sink]⟩ := by
    refine assignOriginIds_eq hids (nodup_assignersOf hids) (fun label hlabel => ?_) fun label hlabel => ?_
    · rcases mem_assignersOf.1 hlabel with ⟨op, hop, _, rfl⟩
      exact ⟨op, hop, rfl⟩
    · rcases mem_assignersOf.1 hlabel with ⟨op, _, htrait, rfl⟩
      exact htrait
  have happly : apply ⟨[sink]⟩ = (relabelAll propagateOriginIds [numbered sink]).bind fun newSinks => some ⟨newSinks⟩ :=
    (congrArg (Option.bind · _) hassign).trans (Option.bind_some ..)
  rw [happly, Option.bind_eq_some_iff]
  constructor
  · rintro ⟨newSinks, hsinks, hplan⟩
    rcases forall₂_cons_left_iff.1 (relabelAll_eq_some.1 hsinks) with ⟨inferred, rest, hinferred, hrest, rfl⟩
    cases hrest
    exact ⟨inferred, relabel_eq_some_iff.1 hinferred, (Option.some.inj hplan).symm⟩
  · rintro ⟨inferred, hinferred, rfl⟩
    exact ⟨[inferred], relabelAll_eq_some.2 (.cons (relabel_eq_some_iff.2 hinferred) .nil), rfl⟩

end

lemma assignedOrigins_eq (h : Relabelled propagateOriginIds op inferred) :
    assignedOrigins inferred = assignedOrigins op := by
  refine Relabelled.induction (motive := fun op inferred => assignedOrigins inferred = assignedOrigins op) ?_ h
  intro label children label' inferred _ ih hlabel'
  have hpropagated := propagateOriginIds_spec hlabel'
  have hchildren : inferred.flatMap assignedOrigins = children.flatMap assignedOrigins := by
    refine congrArg flatten ?_
    exact (forall₂_eq_eq_eq ▸ forall₂_map_left_iff.2 (forall₂_map_right_iff.2 ih.flip))
  rw [assignedOrigins_node, assignedOrigins_node, hchildren, hpropagated.operator_eq]
  by_cases htrait : label.operator.hasOriginIdAssignerTrait = true
  · rw [if_pos htrait, if_pos htrait, hpropagated.output_of_assigner htrait]
  · rw [if_neg htrait, if_neg htrait]

lemma nodup_assignedOrigins (hids : (operatorIds sink).Nodup) : (assignedOrigins (numbered sink)).Nodup := by
  have hlabels : assignedOrigins (numbered sink) = sink.subtrees.flatMap fun op =>
      if op.label.operator.hasOriginIdAssignerTrait then
        [originOf (assignersOf sink) initialOriginId op.label.id] else [] := by
    rw [assignedOrigins, numbered, subtrees_mapLabels, flatMap_map, flatMap_def, flatMap_def]
    refine congrArg flatten (map_congr_left fun op hop => ?_)
    rw [label_mapLabels, label_numbered hids hop]
    by_cases htrait : op.label.operator.hasOriginIdAssignerTrait = true
    · have htrait' : (withOrigin op.label (originOf (assignersOf sink) initialOriginId
          op.label.id)).operator.hasOriginIdAssignerTrait = true := htrait
      rw [if_pos htrait, if_pos htrait', if_pos htrait]
      rfl
    · rw [if_neg htrait, if_neg htrait, if_neg htrait]
  rw [hlabels, nodup_flatMap]
  constructor
  · intro op _
    split
    · exact nodup_singleton _
    · exact nodup_nil
  · have hpairwise : sink.subtrees.Pairwise fun op op' => op.label.id ≠ op'.label.id := pairwise_map.1 hids
    refine hpairwise.imp_of_mem fun {op op'} hop _ hne origin h h' => ?_
    simp only [mem_ite_nil_right, mem_singleton] at h h'
    have hmem : op.label.id ∈ (assignersOf sink).map OperatorNode.id :=
      mem_map_of_mem (mem_assignersOf.2 ⟨op, hop, h.1, rfl⟩)
    exact hne (originOf_injOn hmem (h.2.symm.trans h'.2))

def SameShape (op op' : LogicalOperator F A) : Prop :=
  op'.label.operator = op.label.operator ∧ op'.children.length = op.children.length

lemma sameShape_numbered (hids : (operatorIds sink).Nodup) (hop : op ∈ sink.subtrees) :
    SameShape op (mapLabels (assignOrigin (assignersOf sink) initialOriginId) op) := by
  refine ⟨?_, ?_⟩
  · rw [label_mapLabels, label_numbered hids hop]
    split <;> rfl
  · rw [children_mapLabels, length_map]

lemma sameShape_of_relabelled (h : Relabelled propagateOriginIds op inferred) : SameShape op inferred := by
  cases h with
  | node _ _ _ _ hchildren hlabel => exact ⟨(propagateOriginIds_spec hlabel).operator_eq, hchildren.length_eq.symm⟩

lemma HasDeclaredInputs.of_sameShape {op' : LogicalOperator F A} (h : SameShape op op')
    (hinputs : HasDeclaredInputs op.label op.children.length) : HasDeclaredInputs op'.label op'.children.length := by
  rcases hinputs with ⟨hunion, hjoin, hunary⟩
  rw [h.2]
  exact ⟨h.1 ▸ hunion, h.1 ▸ hjoin, h.1 ▸ hunary⟩

lemma exists_of_mem_numbered (hop : op ∈ (numbered sink).subtrees) :
    ∃ old ∈ sink.subtrees, op = mapLabels (assignOrigin (assignersOf sink) initialOriginId) old := by
  rw [numbered, subtrees_mapLabels] at hop
  rcases mem_map.1 hop with ⟨old, hold, rfl⟩
  exact ⟨old, hold, rfl⟩

lemma hasSourceOrigin_numbered (hids : (operatorIds sink).Nodup)
    (hop : op ∈ (numbered sink).subtrees) : HasSourceOrigin op.label := by
  rcases exists_of_mem_numbered hop with ⟨old, hold, rfl⟩
  intro hsource
  rw [(sameShape_numbered hids hold).1] at hsource
  have htrait : old.label.operator.hasOriginIdAssignerTrait = true := Bool.or_eq_true_iff.2 (.inl hsource)
  refine ⟨originOf (assignersOf sink) initialOriginId old.label.id, ?_, ?_⟩
  · rw [label_mapLabels, label_numbered hids hold, if_pos htrait]
    exact if_pos hsource
  · rw [label_mapLabels, label_numbered hids hold, if_pos htrait]
    rfl

lemma exists_output_eq (hids : (operatorIds sink).Nodup)
    (hrelabelled : Relabelled propagateOriginIds (numbered sink) inferred) (hop : op ∈ inferred.subtrees)
    (htrait : op.label.operator.hasOriginIdAssignerTrait = true) : ∃ origin, op.label.outputOriginIds = [origin] := by
  rcases hrelabelled.exists_of_mem_subtrees hop with ⟨old, hold, h⟩
  rcases exists_of_mem_numbered hold with ⟨original, horiginal, rfl⟩
  have hshape := sameShape_of_relabelled h
  rw [hshape.1, (sameShape_numbered hids horiginal).1] at htrait
  refine ⟨originOf (assignersOf sink) initialOriginId original.label.id, ?_⟩
  generalize hnumbered : mapLabels (assignOrigin (assignersOf sink) initialOriginId) original = numberedOp at h hshape
  cases h with
  | node label _ label' _ _ hlabel =>
    have hlabel' : label
        = withOrigin original.label (originOf (assignersOf sink) initialOriginId original.label.id) := by
      have heq := congrArg RoseTree.label hnumbered
      rw [label_mapLabels, label_numbered hids horiginal, if_pos htrait] at heq
      exact heq.symm
    rw [label_node, (propagateOriginIds_spec hlabel).output_of_assigner (hlabel' ▸ htrait), hlabel']
    rfl

/-- The phase succeeds, numbers the assigners apart and records at every operator exactly the origins that reach it,
if and only if the plan has no union and every other operator has the inputs that it is declared with: one, or two
for a join.  A union forwards the buffers of both inputs under the origins of the left one alone, and an operator
above several physical sources of one logical source has several inputs. -/
theorem origin_inference_iff (sink : LogicalOperator F A) (hplan : IsExpandedPlan sink) :
    (∃ inferred, apply ⟨[sink]⟩ = some ⟨[inferred]⟩ ∧ OriginsInferred inferred) ↔
      ∀ op ∈ sink.subtrees, HasDeclaredInputs op.label op.children.length := by
  have hids := hplan.ids_nodup
  constructor
  · rintro ⟨inferred, happly, hinferred⟩ op hop
    rcases (apply_eq_some_iff hids).1 happly with ⟨_, hrelabelled, heq⟩
    cases heq
    have hroot : SameShape sink (numbered sink) := sameShape_numbered hids (mem_subtrees_self sink)
    have hexact : ExactPlan (numbered sink) inferred := by
      refine ⟨hrelabelled, hinferred, ?_, fun op' hop' => ?_⟩
      · rw [(sameShape_of_relabelled hrelabelled).1, hroot.1, hplan.root_isSink]
      · rcases hrelabelled.exists_of_mem_subtrees hop' with ⟨_, hnumbered, h⟩
        rcases exists_of_mem_numbered hnumbered with ⟨original, horiginal, rfl⟩
        have hshape := sameShape_of_relabelled h
        have hshape' := sameShape_numbered hids horiginal
        rw [hshape.1, hshape'.1, ← hplan.leaf_iff original horiginal, ← length_eq_zero_iff, hshape.2, hshape'.2,
          length_eq_zero_iff]
    have hnumbered : mapLabels (assignOrigin (assignersOf sink) initialOriginId) op ∈ (numbered sink).subtrees := by
      rw [numbered, subtrees_mapLabels]
      exact mem_map_of_mem hop
    rcases hrelabelled.exists_mem_subtrees hnumbered with ⟨op', hop', h⟩
    have hshape := sameShape_of_relabelled h
    have hshape' := sameShape_numbered hids hop
    exact HasDeclaredInputs.of_sameShape ⟨(hshape.1.trans hshape'.1).symm, (hshape.2.trans hshape'.2).symm⟩
      (hexact.hasDeclaredInputs hop')
  · intro hinputs
    have hsource : ∀ op ∈ (numbered sink).subtrees, HasSourceOrigin op.label :=
      fun op hop => hasSourceOrigin_numbered hids hop
    have hname : ∀ op ∈ (numbered sink).subtrees, ∀ name, op.label.operator ≠ .sourceName name := by
      intro op hop name
      rcases exists_of_mem_numbered hop with ⟨original, horiginal, rfl⟩
      rw [(sameShape_numbered hids horiginal).1]
      exact hplan.not_sourceName original horiginal name
    have hinputs' : ∀ op ∈ (numbered sink).subtrees, HasDeclaredInputs op.label op.children.length := by
      intro op hop
      rcases exists_of_mem_numbered hop with ⟨original, horiginal, rfl⟩
      exact HasDeclaredInputs.of_sameShape (sameShape_numbered hids horiginal) (hinputs original horiginal)
    rcases exists_relabelled (numbered sink) hsource hname hinputs' with ⟨inferred, hrelabelled, _, hexact⟩
    refine ⟨inferred, (apply_eq_some_iff hids).2 ⟨inferred, hrelabelled, rfl⟩, ?_⟩
    refine ⟨fun op hop htrait => exists_output_eq hids hrelabelled hop htrait, ?_, hexact, fun op hop _ origin h => ?_,
      fun op hop _ origin h => ?_⟩
    · rw [assignedOrigins_eq hrelabelled]
      exact nodup_assignedOrigins hids
    · rw [origins_create]
      exact (hexact op hop origin).2 h
    · rw [origins_create] at h
      exact (hexact op hop origin).1 h

def aggregationOverSource : LogicalOperator Unit Unit :=
  node (.create 1 .sink) [node (.create 2 (.windowedAggregation [] [] ⟨.ingestionTime⟩ ⟨[], []⟩))
    [node (.create 3 .ingestionTimeWatermarkAssigner) [node (.create 4 (.sourceDescriptor default)) []]]]

theorem origin_inference_iff_aggregationOverSource : IsExpandedPlan aggregationOverSource ∧
    ∃ inferred, apply ⟨[aggregationOverSource]⟩ = some ⟨[inferred]⟩ ∧ OriginsInferred inferred := by
  have hplan : IsExpandedPlan aggregationOverSource := by
    refine ⟨by decide, rfl, ?_, ?_⟩
    · simp [aggregationOverSource, subtrees, subtreesOfAll, OperatorNode.create, Operator.isSourceDescriptor]
    · simp [aggregationOverSource, subtrees, subtreesOfAll, OperatorNode.create]
  refine ⟨hplan, (origin_inference_iff aggregationOverSource hplan).2 ?_⟩
  simp only [aggregationOverSource, subtrees, subtreesOfAll, OperatorNode.create, mem_cons, append_nil,
    not_mem_nil, or_false, forall_eq_or_imp, forall_eq, label_node, children_node]
  refine ⟨⟨rfl, ?_, fun _ _ => rfl⟩, ⟨rfl, ?_, fun _ _ => rfl⟩, ⟨rfl, ?_, fun _ _ => rfl⟩, ⟨rfl, ?_, ?_⟩⟩
  all_goals rintro ⟨⟩

/-- A windowed aggregation over the union of two physical sources. -/
def aggregationOverUnion : LogicalOperator Unit Unit :=
  node (.create 1 .sink) [node (.create 2 (.windowedAggregation [] [] ⟨.ingestionTime⟩ ⟨[], []⟩))
    [node (.create 3 .ingestionTimeWatermarkAssigner) [node (.create 4 .union)
      [node (.create 5 (.sourceDescriptor default)) [], node (.create 6 (.sourceDescriptor default)) []]]]]

/-- The same plan below the aggregation after the phase, with origins `3` and `4` for the sources. -/
def inferredUnion : LogicalOperator Unit Unit :=
  node { OperatorNode.create 3 .ingestionTimeWatermarkAssigner with inputOriginIds := [[3]], outputOriginIds := [3] }
    [node { OperatorNode.create 4 .union with inputOriginIds := [[3], [4]], outputOriginIds := [3] }
      [node { OperatorNode.create 5 (.sourceDescriptor default) with
        inputOriginIds := [[3]], outputOriginIds := [3] } [],
       node { OperatorNode.create 6 (.sourceDescriptor default) with
        inputOriginIds := [[4]], outputOriginIds := [4] } []]]

lemma emits_inferredUnion : Emits inferredUnion 4 :=
  .forwarded rfl mem_cons_self (.forwarded rfl (mem_cons_of_mem _ mem_cons_self) (.assigned rfl mem_cons_self))

/-- The buffers of the right source reach the aggregation under an origin that its watermark processor does not
know. -/
theorem union_drops_right_origins : IsExpandedPlan aggregationOverUnion ∧
    ∃ inferred aggregation, apply ⟨[aggregationOverUnion]⟩ = some ⟨[inferred]⟩ ∧
      aggregation ∈ inferred.subtrees ∧ aggregation.label.operator.isWindowed = true ∧
      aggregation.label.inputOriginIds = [[3]] ∧ Reaches aggregation 4 ∧
      updateWatermark (.create aggregation.label.inputOriginIds.flatten) 0 ⟨1, 1, true⟩ 4 = none := by
  refine ⟨⟨by decide, rfl, ?_, ?_⟩, _, node { OperatorNode.create 2
    (.windowedAggregation [] [] ⟨.ingestionTime⟩ ⟨[], []⟩) with inputOriginIds := [[3]], outputOriginIds := [2] }
    [inferredUnion], rfl, mem_cons_of_mem _ mem_cons_self, rfl, rfl, ?_, rfl⟩
  · simp [aggregationOverUnion, subtrees, subtreesOfAll, OperatorNode.create, Operator.isSourceDescriptor]
  · simp [aggregationOverUnion, subtrees, subtreesOfAll, OperatorNode.create]
  · exact ⟨inferredUnion, mem_cons_self, emits_inferredUnion⟩

end MobilityNebula.LegacyOptimizer
