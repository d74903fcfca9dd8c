import MobilityNebula.Library.RoseTree

/-!
# QueryPlanCreator — the listener that turns a parse tree into a logical plan

A query is a parse tree of the rules `query`, `queryTerm`, `queryPrimary` and `relationPrimary`.  The walker visits
it depth first and calls the listener when it enters and leaves a node; the listener keeps one helper for each
primary query it is inside of, and it passes finished plans on in two ways: through the stack `queryPlans`, which
`UNION` reads its operands from, and through the list `queryPlans` of the enclosing helper, which a query reads its
input from.

Of the clauses of a query the model has those that decide about the shape of the plan: the selected fields, the
relation in `FROM`, the `WHERE` clause and the sinks.
-/

namespace MobilityNebula.SqlParser

open Library Library.RoseTree

variable {F : Type}

/-! ## Plans -/

inductive QueryOperator (F : Type) where
  | sourceName (logicalSourceName : String)
  | selection (predicate : F)
  | projection (functions : List F)
  | union
  | sink (sinkName : String)
  deriving DecidableEq, Repr

/-- A logical plan is given by its root operators. -/
structure QueryPlan (F : Type) where
  rootOperators : List (RoseTree (QueryOperator F))

namespace QueryPlan

def promoteOperatorToRoot (plan : QueryPlan F) (newRoot : QueryOperator F) : QueryPlan F :=
  ⟨[node newRoot plan.rootOperators]⟩

def createLogicalPlan (logicalSourceName : String) : QueryPlan F := ⟨[node (.sourceName logicalSourceName) []]⟩

def addSelection (predicate : F) (plan : QueryPlan F) : QueryPlan F := plan.promoteOperatorToRoot (.selection predicate)

def addProjection (functions : List F) (plan : QueryPlan F) : QueryPlan F :=
  plan.promoteOperatorToRoot (.projection functions)

def addSink (sinkName : String) (plan : QueryPlan F) : QueryPlan F := plan.promoteOperatorToRoot (.sink sinkName)

/-- The first root of the right plan is read without a check. -/
def addBinaryOperatorAndUpdateSource (operator : QueryOperator F) (left right : QueryPlan F) : Option (QueryPlan F) :=
  match right.rootOperators with
  | root :: _ => some (promoteOperatorToRoot ⟨left.rootOperators ++ [root]⟩ operator)
  | [] => none

def addUnion (left right : QueryPlan F) : Option (QueryPlan F) := addBinaryOperatorAndUpdateSource .union left right

end QueryPlan

/-! ## The listener -/

inductive ParserError where
  /-- `Subqueries are only supported in FROM clauses, but got {}` -/
  | subqueryOutsideFrom
  /-- `Union does not have sufficient amount of QueryPlans for unifying.` -/
  | insufficientQueryPlans
  /-- `Query does not contain sink` -/
  | noSink
  /-- `Query could not be parsed` -/
  | notParsed
  /-- An empty stack or vector is read. -/
  | undefinedBehaviour
  deriving DecidableEq, Repr

structure AntlrSQLHelper (F : Type) where
  queryPlans : List (QueryPlan F)
  isFrom : Bool
  isSetOperation : Bool
  source : String
  projectionFields : List F
  whereClauses : List F

structure AntlrSQLQueryPlanCreator (F : Type) where
  /-- The top of the stack is the first. -/
  helpers : List (AntlrSQLHelper F)
  /-- The top of the stack is the first. -/
  queryPlans : List (QueryPlan F)
  sinkNames : List String

inductive ListenerEvent (F : Type) where
  /-- The flag says that the rule of the parent is `queryTerm`. -/
  | enterPrimaryQuery (parentIsQueryTerm : Bool)
  | exitPrimaryQuery
  | exitSetOperation
  | enterFromClause
  | exitFromClause
  /-- An identifier that is the name of a table in `FROM`. -/
  | enterIdentifier (name : String)
  /-- The expression is a field. -/
  | exitNamedExpression (field : F)
  | exitWhereClause (predicate : F)
  | enterSinkClause (sinks : List String)

namespace AntlrSQLQueryPlanCreator

def initial : AntlrSQLQueryPlanCreator F := ⟨[], [], []⟩

variable (s : AntlrSQLQueryPlanCreator F)

def modifyTop (f : AntlrSQLHelper F → AntlrSQLHelper F) : Except ParserError (AntlrSQLQueryPlanCreator F) :=
  match s.helpers with
  | top :: rest => .ok { s with helpers := f top :: rest }
  | [] => .error .undefinedBehaviour

/-- A subquery may be entered at the top level, in a `FROM` clause and in an operand of a set operation. -/
def canEnter : Bool :=
  match s.helpers with
  | top :: _ => top.isFrom || top.isSetOperation
  | [] => true

def enterPrimaryQuery (parentIsQueryTerm : Bool) : Except ParserError (AntlrSQLQueryPlanCreator F) :=
  if s.canEnter then
    .ok { s with helpers := ⟨[], false, parentIsQueryTerm, "", [], []⟩ :: s.helpers }
  else
    .error .subqueryOutsideFrom

/-- The plan of a helper, from its input to its projection. -/
def planOf (helper : AntlrSQLHelper F) : QueryPlan F :=
  let queryPlan :=
    match helper.queryPlans with
    | first :: _ => first
    | [] => .createLogicalPlan helper.source
  let queryPlan := helper.whereClauses.reverse.foldl (fun plan predicate => plan.addSelection predicate) queryPlan
  if helper.projectionFields.isEmpty then queryPlan else queryPlan.addProjection helper.projectionFields

def exitPrimaryQuery : Except ParserError (AntlrSQLQueryPlanCreator F) :=
  match s.helpers with
  | [] => .error .undefinedBehaviour
  | top :: rest =>
    if rest.isEmpty || top.isSetOperation then
      .ok { s with helpers := rest, queryPlans := planOf top :: s.queryPlans }
    else
      { s with helpers := rest }.modifyTop fun helper =>
        { helper with queryPlans := helper.queryPlans ++ [planOf top] }

def exitSetOperation : Except ParserError (AntlrSQLQueryPlanCreator F) :=
  match s.queryPlans with
  | rightQuery :: leftQuery :: rest =>
    match QueryPlan.addUnion leftQuery rightQuery with
    | some queryPlan =>
      if s.helpers.isEmpty then .ok { s with queryPlans := queryPlan :: rest }
      else
        -- in a subquery
        { s with queryPlans := rest }.modifyTop fun helper =>
          { helper with queryPlans := helper.queryPlans ++ [queryPlan] }
    | none => .error .undefinedBehaviour
  | _ => .error .insufficientQueryPlans

def step : ListenerEvent F → Except ParserError (AntlrSQLQueryPlanCreator F)
  | .enterPrimaryQuery parentIsQueryTerm => s.enterPrimaryQuery parentIsQueryTerm
  | .exitPrimaryQuery => s.exitPrimaryQuery
  | .exitSetOperation => s.exitSetOperation
  | .enterFromClause => s.modifyTop fun helper => { helper with isFrom := true }
  | .exitFromClause => s.modifyTop fun helper => { helper with isFrom := false }
  | .enterIdentifier name => s.modifyTop fun helper => { helper with source := name }
  | .exitNamedExpression field =>
    s.modifyTop fun helper => { helper with projectionFields := helper.projectionFields ++ [field] }
  | .exitWhereClause predicate =>
    s.modifyTop fun helper => { helper with whereClauses := helper.whereClauses ++ [predicate] }
  | .enterSinkClause sinks => .ok { s with sinkNames := s.sinkNames ++ sinks }

def run (events : List (ListenerEvent F)) : Except ParserError (AntlrSQLQueryPlanCreator F) :=
  events.foldlM step s

def getQueryPlan : Except ParserError (QueryPlan F) :=
  match s.sinkNames, s.queryPlans with
  | [], _ => .error .noSink
  | _, [] => .error .notParsed
  | sink :: _, plan :: _ => .ok (plan.addSink sink)

end AntlrSQLQueryPlanCreator

/-! ## Parse trees and the walker -/

mutual

/-- The rule `queryTerm`; a `query` is a `queryTerm` with clauses that the listener ignores. -/
inductive QueryTerm (F : Type) where
  | primaryQuery (primary : QueryPrimary F)
  | setOperation (left right : QueryTerm F)

/-- The rule `queryPrimary`, a query specification or a query in parentheses. -/
inductive QueryPrimary (F : Type) where
  | queryPrimaryDefault (selectClause : List F) (fromClause : RelationPrimary F) (whereClause : Option F)
      (sinkClause : List String)
  | subquery (query : QueryTerm F)

/-- The rule `relationPrimary`, the name of a source or a query in parentheses. -/
inductive RelationPrimary (F : Type) where
  | tableName (name : String)
  | aliasedQuery (query : QueryTerm F)

end

/-- A query has the sink clause only if there are sinks. -/
def sinkEvents (sinks : List String) : List (ListenerEvent F) :=
  if sinks.isEmpty then [] else [.enterSinkClause sinks]

mutual

/-- The walk over a query term whose parent is a `queryTerm`, or a `query`. -/
def QueryTerm.events (parentIsQueryTerm : Bool) : QueryTerm F → List (ListenerEvent F)
  | .primaryQuery primary => .enterPrimaryQuery parentIsQueryTerm :: (primary.events ++ [.exitPrimaryQuery])
  | .setOperation left right => left.events true ++ (right.events true ++ [.exitSetOperation])

def QueryPrimary.events : QueryPrimary F → List (ListenerEvent F)
  | .queryPrimaryDefault selectClause fromClause whereClause sinkClause =>
    selectClause.map .exitNamedExpression ++ (.enterFromClause :: (fromClause.events ++ (.exitFromClause ::
      (whereClause.toList.map .exitWhereClause ++ sinkEvents sinkClause))))
  | .subquery query => query.events false

def RelationPrimary.events : RelationPrimary F → List (ListenerEvent F)
  | .tableName name => [.enterIdentifier name]
  | .aliasedQuery query => query.events false

end

/-- `createLogicalQueryPlanFromSQLString` on a query that has been parsed. -/
def createLogicalQueryPlan (query : QueryTerm F) : Except ParserError (QueryPlan F) := do
  let creator ← AntlrSQLQueryPlanCreator.initial.run (query.events false)
  creator.getQueryPlan

/-! ## The shape of a query -/

def selected (whereClause : Option F) (plan : RoseTree (QueryOperator F)) : RoseTree (QueryOperator F) :=
  match whereClause with
  | some predicate => node (.selection predicate) [plan]
  | none => plan

def projected (fields : List F) (plan : RoseTree (QueryOperator F)) : RoseTree (QueryOperator F) :=
  if fields.isEmpty then plan else node (.projection fields) [plan]

mutual

/-- The plan that has the shape of the query. -/
def QueryTerm.plan : QueryTerm F → RoseTree (QueryOperator F)
  | .primaryQuery primary => primary.plan
  | .setOperation left right => node .union [left.plan, right.plan]

def QueryPrimary.plan : QueryPrimary F → RoseTree (QueryOperator F)
  | .queryPrimaryDefault selectClause fromClause whereClause _ =>
    projected selectClause (selected whereClause fromClause.plan)
  | .subquery query => query.plan

def RelationPrimary.plan : RelationPrimary F → RoseTree (QueryOperator F)
  | .tableName name => node (.sourceName name) []
  | .aliasedQuery query => query.plan

end

mutual

def QueryTerm.sinks : QueryTerm F → List String
  | .primaryQuery primary => primary.sinks
  | .setOperation left right => left.sinks ++ right.sinks

def QueryPrimary.sinks : QueryPrimary F → List String
  | .queryPrimaryDefault _ fromClause _ sinkClause => fromClause.sinks ++ sinkClause
  | .subquery query => query.sinks

def RelationPrimary.sinks : RelationPrimary F → List String
  | .tableName _ => []
  | .aliasedQuery query => query.sinks

end

end MobilityNebula.SqlParser
