import MobilityNebula.SqlParser.QueryPlanCreator

/-!
# QueryShape — when the plan has the shape of the query

A `UNION` inside of a subquery puts its plan into the helper of the enclosing query, where a `UNION` that it is an
operand of does not look.  A query is *accepted* if that does not happen and if parentheses stand only around the
operands of a `UNION`.  `createLogicalQueryPlan_iff` says that exactly the accepted queries have a plan, and that it
has the shape of the query.
-/

namespace MobilityNebula.SqlParser

open Library Library.RoseTree AntlrSQLHelper Except List QueryTerm

variable {F : Type}

mutual

/-- `inSubquery` says that the listener has a helper, `asOperand` that the term is an operand of a `UNION`. -/
def QueryTerm.Accepted (inSubquery asOperand : Bool) : QueryTerm F → Prop
  | .primaryQuery primary => primary.Accepted asOperand
  | .setOperation left right =>
    ¬ (inSubquery = true ∧ asOperand = true) ∧ left.Accepted inSubquery true ∧ right.Accepted inSubquery true

def QueryPrimary.Accepted (asOperand : Bool) : QueryPrimary F → Prop
  | .queryPrimaryDefault _ fromClause _ _ => fromClause.Accepted
  | .subquery query => asOperand = true ∧ query.Accepted true false

def RelationPrimary.Accepted : RelationPrimary F → Prop
  | .tableName _ => True
  | .aliasedQuery query => query.Accepted true false

end

namespace AntlrSQLQueryPlanCreator

variable {s : AntlrSQLQueryPlanCreator F}

/-! ## Runs -/

section

variable {s' : AntlrSQLQueryPlanCreator F}

lemma run_append {events : List (ListenerEvent F)}
    (h : s.run events = .ok s') (more : List (ListenerEvent F)) : s.run (events ++ more) = s'.run more := by
  unfold run at h ⊢
  rw [foldlM_append, h]
  rfl

variable {event : ListenerEvent F}

lemma run_cons
    (h : s.step event = .ok s') (more : List (ListenerEvent F)) : s.run (event :: more) = s'.run more := by
  unfold run
  rw [foldlM_cons, h]
  rfl

lemma run_append_eq_ok {events more : List (ListenerEvent F)}
    (h : s.run (events ++ more) = .ok s') : ∃ t, s.run events = .ok t ∧ t.run more = .ok s' := by
  unfold run at h ⊢
  rw [foldlM_append] at h
  cases ht : events.foldlM step s with
  | error _ => rw [ht] at h; cases h
  | ok t => rw [ht] at h; exact ⟨t, rfl, h⟩

lemma run_cons_eq_ok {more : List (ListenerEvent F)}
    (h : s.run (event :: more) = .ok s') : ∃ t, s.step event = .ok t ∧ t.run more = .ok s' := by
  have hcut : s.run ([event] ++ more) = .ok s' := h
  rcases run_append_eq_ok hcut with ⟨t, ht, hmore⟩
  refine ⟨t, ?_, hmore⟩
  unfold run at ht
  rw [foldlM_cons] at ht
  cases hstep : s.step event with
  | error _ => rw [hstep] at ht; cases ht
  | ok t' => rw [hstep] at ht; exact ht

end

/-! ## Passing a plan on -/

variable (s)

/-- The plan of an operand goes to the stack, and so does the plan of the whole query; the plan of another query
goes to the helper it is inside of. -/
def deliver (asOperand : Bool) (plan : QueryPlan F) : AntlrSQLQueryPlanCreator F :=
  match s.helpers with
  | top :: rest =>
    if asOperand then { s with queryPlans := plan :: s.queryPlans }
    else { s with helpers := { top with queryPlans := top.queryPlans ++ [plan] } :: rest }
  | [] => { s with queryPlans := plan :: s.queryPlans }

def withSinks (sinks : List String) : AntlrSQLQueryPlanCreator F :=
  { s with sinkNames := s.sinkNames ++ sinks }

def push (helper : AntlrSQLHelper F) : AntlrSQLQueryPlanCreator F :=
  { s with helpers := helper :: s.helpers }

variable {s}

lemma withSinks_withSinks (sinks sinks' : List String) :
    (s.withSinks sinks).withSinks sinks' = s.withSinks (sinks ++ sinks') := by
  simp [withSinks, append_assoc]

lemma withSinks_nil : s.withSinks [] = s := by simp [withSinks]

lemma deliver_withSinks (asOperand : Bool) (plan : QueryPlan F) (sinks : List String) :
    (s.withSinks sinks).deliver asOperand plan = (s.deliver asOperand plan).withSinks sinks := by
  unfold deliver withSinks
  cases s.helpers with
  | nil => rfl
  | cons top rest => cases asOperand <;> rfl

lemma step_exitPrimaryQuery (s : AntlrSQLQueryPlanCreator F) (helper : AntlrSQLHelper F) :
    (s.push helper).step .exitPrimaryQuery = .ok (s.deliver helper.isSetOperation (planOf helper)) := by
  unfold step exitPrimaryQuery push deliver
  dsimp only
  cases hhelpers : s.helpers with
  | nil => rfl
  | cons top rest =>
    cases helper.isSetOperation with
    | true => rfl
    | false => rfl

lemma step_exitSetOperation {asOperand : Bool} (haccepted : ¬ ((!s.helpers.isEmpty) = true ∧ asOperand = true))
    (left right : RoseTree (QueryOperator F)) :
    ({ s with queryPlans := ⟨[right]⟩ :: ⟨[left]⟩ :: s.queryPlans }).step .exitSetOperation
      = .ok (s.deliver asOperand ⟨[node .union [left, right]]⟩) := by
  unfold step exitSetOperation deliver
  cases hhelpers : s.helpers with
  | nil => rfl
  | cons top rest =>
    have hoperand : asOperand = false := by
      cases asOperand with
      | true => exact absurd ⟨by rw [hhelpers]; rfl, rfl⟩ haccepted
      | false => rfl
    rw [hoperand]
    rfl

lemma deliver_operand (plan : QueryPlan F) : s.deliver true plan = { s with queryPlans := plan :: s.queryPlans } := by
  unfold deliver
  cases s.helpers <;> rfl

/-! ## The clauses of a query -/

variable (helper : AntlrSQLHelper F)

lemma run_selectClause (fields : List F) :
    (s.push helper).run (fields.map .exitNamedExpression)
      = .ok (s.push { helper with projectionFields := helper.projectionFields ++ fields }) := by
  induction fields generalizing helper with
  | nil => simp [run, pure, Except.pure]
  | cons field fields ih =>
    refine (ih _).trans ?_
    simp [append_assoc]

lemma run_whereClause (whereClause : Option F) :
    (s.push helper).run (whereClause.toList.map .exitWhereClause)
      = .ok (s.push { helper with whereClauses := helper.whereClauses ++ whereClause.toList }) := by
  cases whereClause with
  | none => simp [run, pure, Except.pure]
  | some predicate => rfl

lemma run_sinkEvents (sinks : List String) : s.run (sinkEvents sinks) = .ok (s.withSinks sinks) := by
  cases sinks with
  | nil => exact congrArg ok withSinks_nil.symm
  | cons sink rest => rfl

end AntlrSQLQueryPlanCreator

variable (helper : AntlrSQLHelper F)

/-- The helper of a query whose `FROM` clause is over, with the condition that follows. -/
def AntlrSQLHelper.close (whereClause : Option F) : AntlrSQLHelper F :=
  { helper with isFrom := false, whereClauses := helper.whereClauses ++ whereClause.toList }

lemma AntlrSQLQueryPlanCreator.run_close (s : AntlrSQLQueryPlanCreator F) (helper : AntlrSQLHelper F)
    (whereClause : Option F) (sinks : List String) :
    (s.push helper).run (.exitFromClause :: (whereClause.toList.map .exitWhereClause ++ sinkEvents sinks))
      = .ok ((s.push (helper.close whereClause)).withSinks sinks) := by
  calc (s.push helper).run (.exitFromClause :: (whereClause.toList.map .exitWhereClause ++ sinkEvents sinks))
      = (s.push { helper with isFrom := false }).run
          (whereClause.toList.map .exitWhereClause ++ sinkEvents sinks) := run_cons rfl _
    _ = (s.push (helper.close whereClause)).run (sinkEvents sinks) := run_append (run_whereClause _ whereClause) _
    _ = .ok ((s.push (helper.close whereClause)).withSinks sinks) := run_sinkEvents sinks

/-- The helper of a query after its `FROM` clause. -/
def AntlrSQLHelper.withInput : RelationPrimary F → AntlrSQLHelper F
  | .tableName name => { helper with source := name }
  | .aliasedQuery query => { helper with queryPlans := helper.queryPlans ++ [⟨[query.plan]⟩] }

/-- The helper of a query before it is left. -/
def AntlrSQLHelper.ofClauses (asOperand : Bool) (fields : List F) (fromClause : RelationPrimary F)
    (whereClause : Option F) : AntlrSQLHelper F :=
  (withInput ⟨[], true, asOperand, "", fields, []⟩ fromClause).close whereClause

lemma AntlrSQLHelper.planOf_ofClauses (asOperand : Bool) (fields : List F) (fromClause : RelationPrimary F)
    (whereClause : Option F) :
    AntlrSQLQueryPlanCreator.planOf (ofClauses asOperand fields fromClause whereClause)
      = ⟨[projected fields (selected whereClause fromClause.plan)]⟩ := by
  cases fromClause <;> cases whereClause <;> cases fields <;> rfl

/-! ## Accepted queries -/

open AntlrSQLQueryPlanCreator

mutual

lemma QueryTerm.walk : ∀ (term : QueryTerm F) (s : AntlrSQLQueryPlanCreator F) (asOperand : Bool),
    s.canEnter = true → term.Accepted (!s.helpers.isEmpty) asOperand →
      s.run (term.events asOperand) = .ok ((s.deliver asOperand ⟨[term.plan]⟩).withSinks term.sinks)
  | .primaryQuery primary, s, asOperand, henter, haccepted => by
    rcases primary.walk s asOperand haccepted with ⟨helper, hrun, hplan, hoperand⟩
    have hstep : s.step (.enterPrimaryQuery asOperand) = .ok (s.push ⟨[], false, asOperand, "", [], []⟩) := by
      rw [step, enterPrimaryQuery, if_pos henter]
      rfl
    have hexit := step_exitPrimaryQuery (s.withSinks primary.sinks) helper
    rw [hplan, hoperand, deliver_withSinks] at hexit
    rw [events, run_cons hstep, run_append hrun]
    exact run_cons hexit []
  | .setOperation left right, s, asOperand, henter, haccepted => by
    rcases haccepted with ⟨hchain, hleft, hright⟩
    have hrunLeft := left.walk s true henter hleft
    rw [deliver_operand] at hrunLeft
    have hrunRight := right.walk
      (withSinks { s with queryPlans := ⟨[left.plan]⟩ :: s.queryPlans } left.sinks) true henter hright
    rw [deliver_operand] at hrunRight
    have hexit := step_exitSetOperation (s := s.withSinks (left.sinks ++ right.sinks)) hchain left.plan right.plan
    rw [deliver_withSinks] at hexit
    rw [events, run_append hrunLeft, run_append hrunRight]
    have hsinks : withSinks { withSinks { s with queryPlans := ⟨[left.plan]⟩ :: s.queryPlans } left.sinks with
          queryPlans := ⟨[right.plan]⟩ :: ⟨[left.plan]⟩ :: s.queryPlans } right.sinks
        = { s.withSinks (left.sinks ++ right.sinks) with
          queryPlans := ⟨[right.plan]⟩ :: ⟨[left.plan]⟩ :: s.queryPlans } := by
      simp [withSinks, append_assoc]
    exact (congrArg (run · _) hsinks).trans (run_cons hexit [])

lemma QueryPrimary.walk : ∀ (primary : QueryPrimary F) (s : AntlrSQLQueryPlanCreator F) (asOperand : Bool),
    primary.Accepted asOperand → ∃ helper, (s.push ⟨[], false, asOperand, "", [], []⟩).run primary.events
          = .ok ((s.push helper).withSinks primary.sinks)
        ∧ planOf helper = ⟨[primary.plan]⟩ ∧ helper.isSetOperation = asOperand
  | .queryPrimaryDefault fields fromClause whereClause sinks, s, asOperand, haccepted => by
    let helper := withInput ⟨[], true, asOperand, "", fields, []⟩ fromClause
    have hrun : (s.push ⟨[], false, asOperand, "", [], []⟩).run
        (QueryPrimary.queryPrimaryDefault fields fromClause whereClause sinks).events
        = .ok ((s.push (ofClauses asOperand fields fromClause whereClause)).withSinks (fromClause.sinks ++ sinks)) := by
      calc (s.push ⟨[], false, asOperand, "", [], []⟩).run
            (QueryPrimary.queryPrimaryDefault fields fromClause whereClause sinks).events
          = (s.push ⟨[], false, asOperand, "", fields, []⟩).run (.enterFromClause :: (fromClause.events
              ++ (.exitFromClause :: (whereClause.toList.map .exitWhereClause ++ sinkEvents sinks)))) :=
            run_append (run_selectClause _ fields) _
        _ = (s.push ⟨[], true, asOperand, "", fields, []⟩).run (fromClause.events
              ++ (.exitFromClause :: (whereClause.toList.map .exitWhereClause ++ sinkEvents sinks))) :=
            run_cons rfl _
        _ = ((s.withSinks fromClause.sinks).push helper).run
              (.exitFromClause :: (whereClause.toList.map .exitWhereClause ++ sinkEvents sinks)) :=
            run_append (fromClause.walk s _ rfl haccepted) _
        _ = .ok ((s.push (ofClauses asOperand fields fromClause whereClause)).withSinks
              (fromClause.sinks ++ sinks)) := by
            rw [run_close, ← withSinks_withSinks]
            rfl
    refine ⟨_, hrun, planOf_ofClauses asOperand fields fromClause whereClause, ?_⟩
    cases fromClause <;> rfl
  | .subquery query, s, asOperand, haccepted => by
    rcases haccepted with ⟨rfl, haccepted⟩
    have hrun := query.walk (s.push ⟨[], false, true, "", [], []⟩) false rfl haccepted
    exact ⟨⟨[⟨[query.plan]⟩], false, true, "", [], []⟩, hrun, rfl, rfl⟩

lemma RelationPrimary.walk : ∀ (relation : RelationPrimary F) (s : AntlrSQLQueryPlanCreator F)
    (helper : AntlrSQLHelper F), helper.isFrom = true → relation.Accepted →
      (s.push helper).run relation.events = .ok ((s.push (helper.withInput relation)).withSinks relation.sinks)
  | .tableName name, s, helper, _, _ => by
    rw [RelationPrimary.events, RelationPrimary.sinks, withSinks_nil]
    rfl
  | .aliasedQuery query, s, helper, hfrom, haccepted => by
    have henter : (s.push helper).canEnter = true := by simp [canEnter, push, hfrom]
    exact query.walk (s.push helper) false henter haccepted

end

/-! ## Queries that are not accepted -/

namespace AntlrSQLQueryPlanCreator

variable (s : AntlrSQLQueryPlanCreator F)

def flags : List (Bool × Bool) :=
  s.helpers.map fun helper => (helper.isFrom, helper.isSetOperation)

lemma isEmpty_helpers_of_flags {s s' : AntlrSQLQueryPlanCreator F} (h : s'.flags = s.flags) :
    s'.helpers.isEmpty = s.helpers.isEmpty := by
  have hlength := congrArg length h
  rw [flags, flags, length_map, length_map] at hlength
  cases hs : s.helpers <;> cases hs' : s'.helpers <;> simp_all

lemma exists_push_of_flags {s : AntlrSQLQueryPlanCreator F} {isFrom isSetOperation : Bool} {rest : List (Bool × Bool)}
    (h : s.flags = (isFrom, isSetOperation) :: rest) :
    ∃ (t : AntlrSQLQueryPlanCreator F) (helper : AntlrSQLHelper F), s = t.push helper ∧ t.flags = rest
      ∧ helper.isFrom = isFrom ∧ helper.isSetOperation = isSetOperation ∧ t.queryPlans = s.queryPlans := by
  cases hhelpers : s.helpers with
  | nil => exact absurd h (by simp [flags, hhelpers])
  | cons top others =>
    rw [flags, hhelpers, map_cons, cons.injEq, Prod.mk.injEq] at h
    refine ⟨{ s with helpers := others }, top, ?_, h.2, h.1.1, h.1.2, rfl⟩
    rw [push, ← hhelpers]

/-- The plans that a query passes on through the stack. -/
def delivered (asOperand : Bool) : Nat :=
  if asOperand || s.helpers.isEmpty then 1 else 0

lemma deliver_spec (asOperand : Bool) (plan : QueryPlan F) :
    (s.deliver asOperand plan).flags = s.flags
      ∧ (s.deliver asOperand plan).queryPlans.length = s.queryPlans.length + s.delivered asOperand := by
  unfold deliver flags delivered
  cases hhelpers : s.helpers with
  | nil => cases asOperand <;> simp
  | cons top rest => cases asOperand <;> simp

/-- A `UNION` takes two plans from the stack, and returns one if it is not in a subquery. -/
lemma exitSetOperation_spec {s s' : AntlrSQLQueryPlanCreator F} (h : s.step .exitSetOperation = .ok s') :
    s'.flags = s.flags ∧ s'.queryPlans.length + 2 = s.queryPlans.length + s.delivered false := by
  rw [step, exitSetOperation] at h
  split at h
  case h_1 rightQuery leftQuery rest hplans =>
    split at h
    case h_1 queryPlan _ =>
      cases hhelpers : s.helpers with
      | nil =>
        rw [hhelpers, isEmpty_nil, if_pos rfl] at h
        rw [← ok.inj h]
        simp [flags, delivered, hhelpers, hplans]
      | cons top others =>
        rw [hhelpers, isEmpty_cons, if_neg Bool.false_ne_true, modifyTop] at h
        rw [← ok.inj h]
        simp [flags, delivered, hhelpers, hplans]
    case h_2 => cases h
  case h_2 => cases h

end AntlrSQLQueryPlanCreator

lemma QueryTerm.events_eq_cons : ∀ (term : QueryTerm F) (asOperand : Bool),
    ∃ parentIsQueryTerm rest, term.events asOperand = .enterPrimaryQuery parentIsQueryTerm :: rest
  | .primaryQuery primary, asOperand => ⟨asOperand, _, rfl⟩
  | .setOperation left right, asOperand => by
    rcases left.events_eq_cons true with ⟨parentIsQueryTerm, rest, hleft⟩
    exact ⟨parentIsQueryTerm, rest ++ (right.events true ++ [.exitSetOperation]), by rw [events, hleft]; rfl⟩

mutual

/-- A walk that succeeds leaves the helpers as they were.  It may leave too few plans on the stack; if it does not,
then the term is accepted. -/
lemma QueryTerm.walk_ok : ∀ (term : QueryTerm F) (s s' : AntlrSQLQueryPlanCreator F) (asOperand : Bool),
    s.run (term.events asOperand) = .ok s' →
      s'.flags = s.flags ∧ ∃ lost, s'.queryPlans.length + lost = s.queryPlans.length + s.delivered asOperand
        ∧ (lost = 0 → term.Accepted (!s.helpers.isEmpty) asOperand)
  | .primaryQuery primary, s, s', asOperand, h => by
    rcases run_cons_eq_ok h with ⟨t, henter, hrest⟩
    rcases run_append_eq_ok hrest with ⟨t', hprimary, hexit⟩
    rw [step, enterPrimaryQuery] at henter
    split at henter
    case isTrue =>
      rw [← ok.inj henter] at hprimary
      rcases primary.walk_ok s t' asOperand hprimary with ⟨hflags, lost, hlength, haccepted⟩
      rcases exists_push_of_flags hflags with ⟨u, helper, rfl, hu, _, hoperand, hplans⟩
      have hs' : s' = u.deliver asOperand (planOf helper) := by
        have hrun := run_cons (step_exitPrimaryQuery u helper) []
        rw [hoperand] at hrun
        exact ok.inj (hexit.symm.trans hrun)
      rcases deliver_spec u asOperand (planOf helper) with ⟨hflags', hlength'⟩
      have hdelivered : u.delivered asOperand = s.delivered asOperand := by
        rw [delivered, delivered, isEmpty_helpers_of_flags hu]
      rw [hs']
      refine ⟨hflags'.trans hu, lost, ?_, haccepted⟩
      rw [hlength', hplans, hdelivered]
      omega
    case isFalse => cases henter
  | .setOperation left right, s, s', asOperand, h => by
    rcases run_append_eq_ok h with ⟨t, hleft, hrest⟩
    rcases run_append_eq_ok hrest with ⟨u, hright, hexit⟩
    rcases left.walk_ok s t true hleft with ⟨hflagsLeft, lostLeft, hlengthLeft, hacceptedLeft⟩
    rcases right.walk_ok t u true hright with ⟨hflagsRight, lostRight, hlengthRight, hacceptedRight⟩
    rcases run_cons_eq_ok hexit with ⟨u', hstep, hnil⟩
    have hu' : u' = s' := ok.inj hnil
    rcases exitSetOperation_spec (hu' ▸ hstep) with ⟨hflags, hlength⟩
    have hflagsBoth : u.flags = s.flags := hflagsRight.trans hflagsLeft
    rw [isEmpty_helpers_of_flags hflagsLeft] at hacceptedRight
    have hoperands : u.queryPlans.length + (lostLeft + lostRight) = s.queryPlans.length + 2 := by
      have hone : s.delivered true = 1 ∧ t.delivered true = 1 := ⟨rfl, rfl⟩
      omega
    have hdelivered : u.delivered false = s.delivered false := by
      rw [delivered, delivered, isEmpty_helpers_of_flags hflagsBoth]
    have haccepted : lostLeft = 0 → lostRight = 0 → ¬ ((!s.helpers.isEmpty) = true ∧ asOperand = true) →
        (setOperation left right).Accepted (!s.helpers.isEmpty) asOperand :=
      fun hl hr hchain => ⟨hchain, hacceptedLeft hl, hacceptedRight hr⟩
    refine ⟨hflags.trans hflagsBoth, ?_⟩
    by_cases hchain : (!s.helpers.isEmpty) = true ∧ asOperand = true
    · -- the plan went to the helper, where the next `UNION` does not look for it
      have hnone : s.delivered false = 0 ∧ s.delivered asOperand = 1 := by
        rw [delivered, delivered, hchain.2]
        simpa using hchain.1
      exact ⟨lostLeft + lostRight + 1, by omega, fun hlost => absurd hlost (by omega)⟩
    · have hsame : s.delivered asOperand = s.delivered false := by
        rw [delivered, delivered]
        cases asOperand with
        | false => rfl
        | true => simpa using hchain
      exact ⟨lostLeft + lostRight, by omega, fun hlost => haccepted (by omega) (by omega) hchain⟩

lemma QueryPrimary.walk_ok : ∀ (primary : QueryPrimary F) (s s' : AntlrSQLQueryPlanCreator F) (asOperand : Bool),
    (s.push ⟨[], false, asOperand, "", [], []⟩).run primary.events = .ok s' →
      s'.flags = (false, asOperand) :: s.flags ∧ ∃ lost, s'.queryPlans.length + lost = s.queryPlans.length
        ∧ (lost = 0 → primary.Accepted asOperand)
  | .queryPrimaryDefault fields fromClause whereClause sinks, s, s', asOperand, h => by
    rw [QueryPrimary.events, run_append (run_selectClause _ fields), run_cons rfl] at h
    rcases run_append_eq_ok h with ⟨t, hfrom, hrest⟩
    rcases fromClause.walk_ok s t ⟨[], true, asOperand, "", fields, []⟩ hfrom with ⟨hflags, lost, hlength, haccepted⟩
    rcases exists_push_of_flags hflags with ⟨u, helper, rfl, hu, _, hoperand, _⟩
    -- the remaining clauses only change the helper
    have hs' : s' = (u.push (helper.close whereClause)).withSinks sinks :=
      ok.inj (hrest.symm.trans (run_close u helper whereClause sinks))
    rw [hs']
    refine ⟨?_, lost, hlength, haccepted⟩
    have hflags' : (false, helper.isSetOperation) :: u.flags = (false, asOperand) :: s.flags := by
      rw [hoperand, hu]
      rfl
    exact hflags'
  | .subquery query, s, s', asOperand, h => by
    cases asOperand with
    | false =>
      -- a query in parentheses that is no operand cannot be entered
      rcases query.events_eq_cons false with ⟨parentIsQueryTerm, rest, hevents⟩
      rw [QueryPrimary.events, hevents] at h
      rcases run_cons_eq_ok h with ⟨t, henter, _⟩
      cases henter
    | true =>
      rcases query.walk_ok _ s' false h with ⟨hflags, lost, hlength, haccepted⟩
      exact ⟨hflags, lost, hlength, fun hlost => ⟨rfl, haccepted hlost⟩⟩

lemma RelationPrimary.walk_ok : ∀ (relation : RelationPrimary F) (s s' : AntlrSQLQueryPlanCreator F)
    (helper : AntlrSQLHelper F), (s.push helper).run relation.events = .ok s' →
      s'.flags = (s.push helper).flags ∧ ∃ lost, s'.queryPlans.length + lost = s.queryPlans.length
        ∧ (lost = 0 → relation.Accepted)
  | .tableName name, s, s', helper, h => by
    have hs' : s' = s.push { helper with source := name } := (ok.inj h).symm
    rw [hs']
    exact ⟨rfl, 0, rfl, fun _ => trivial⟩
  | .aliasedQuery query, s, s', helper, h => by
    rcases query.walk_ok _ s' false h with ⟨hflags, lost, hlength, haccepted⟩
    exact ⟨hflags, lost, hlength, haccepted⟩

end

/-! ## The plan of a query -/

/-- A query that has a sink has a plan exactly if it is accepted, and then the plan has the shape of the query:
each `UNION` is a union of the plans of its operands, left before right, and each subquery is the input of the query
around it. -/
theorem createLogicalQueryPlan_iff (query : QueryTerm F) {sink : String} {sinks : List String}
    (hsinks : query.sinks = sink :: sinks) :
    (createLogicalQueryPlan query = .ok ⟨[node (.sink sink) [query.plan]]⟩ ↔ query.Accepted false false)
      ∧ (¬ query.Accepted false false → ∃ error, createLogicalQueryPlan query = .error error) := by
  have hplan : query.Accepted false false → createLogicalQueryPlan query = .ok ⟨[node (.sink sink) [query.plan]]⟩ := by
    intro haccepted
    have hrun := query.walk initial false rfl haccepted
    rw [createLogicalQueryPlan, hrun, hsinks]
    rfl
  have herror : ¬ query.Accepted false false → ∃ error, createLogicalQueryPlan query = .error error := by
    intro hnot
    rw [createLogicalQueryPlan]
    cases hrun : initial.run (query.events false) with
    | error error => exact ⟨error, rfl⟩
    | ok creator =>
      rcases query.walk_ok initial creator false hrun with ⟨_, lost, hlength, haccepted⟩
      have hlost : lost ≠ 0 := fun hzero => hnot (haccepted hzero)
      have hone : creator.queryPlans.length + lost = 1 := hlength
      have hempty : creator.queryPlans = [] := eq_nil_of_length_eq_zero (by omega)
      cases hnames : creator.sinkNames with
      | nil => exact ⟨.noSink, by simp [bind, Except.bind, getQueryPlan, hnames]⟩
      | cons name names => exact ⟨.notParsed, by simp [bind, Except.bind, getQueryPlan, hnames, hempty]⟩
  refine ⟨⟨fun hok => ?_, hplan⟩, herror⟩
  by_contra hnot
  rcases herror hnot with ⟨error, herror⟩
  rw [herror] at hok
  cases hok

/-! ### Chains of unions -/

def selectFrom (name : String) : QueryTerm Unit := .primaryQuery (.queryPrimaryDefault [] (.tableName name) none [])

def selectFromQuery (query : QueryTerm Unit) : QueryTerm Unit :=
  .primaryQuery (.queryPrimaryDefault [] (.aliasedQuery query) none ["sink"])

/-- A union of two sources in `FROM`. -/
theorem union_in_subquery : createLogicalQueryPlan (selectFromQuery (.setOperation (selectFrom "a") (selectFrom "b")))
      = .ok ⟨[node (.sink "sink") [node .union [node (.sourceName "a") [], node (.sourceName "b") []]]]⟩ :=
  (createLogicalQueryPlan_iff (selectFromQuery (.setOperation (selectFrom "a") (selectFrom "b"))) rfl).1.2
    ⟨by simp, trivial, trivial⟩

/-- A union of three sources in `FROM` is refused. -/
theorem union_chain_in_subquery_refused : createLogicalQueryPlan (selectFromQuery
        (.setOperation (.setOperation (selectFrom "a") (selectFrom "b")) (selectFrom "c")))
      = .error .insufficientQueryPlans := rfl

end MobilityNebula.SqlParser
