import OneBase.Execution.Expressions

set_option relaxedAutoImplicit false
set_option autoImplicit false

/-!
# Plans

`execution/plans/*.h`: the trees that the binder returns and the optimizer rewrites. An
`AbstractPlanNodeRef` or an `AbstractExpressionRef` may be a `nullptr`.

## Main definitions

* `OneBase.PlanNode` — the trees, with `getOutputSchema`.
-/

namespace OneBase

/-- `AggregationType`. -/
inductive AggregationType
  | countStarAggregate
  | countAggregate
  | sumAggregate
  | minAggregate
  | maxAggregate
  deriving DecidableEq, Repr

/-- `UtilityType`. -/
inductive UtilityType
  | createIndex
  | dropIndex
  | showTables
  | showIndexes
  | showSchema
  deriving DecidableEq, Repr

/-- `AbstractPlanNodeRef`. -/
inductive PlanNode
  /-- The `nullptr`. -/
  | null
  | seqScan (outputSchema : Schema) (tableOid : ℕ) (predicate : Expression)
  | indexScan (outputSchema : Schema) (tableOid indexOid : ℕ) (lookupKey predicate : Expression)
  | insert (outputSchema : Schema) (child : PlanNode) (tableOid : ℕ)
  | delete (outputSchema : Schema) (child : PlanNode) (tableOid : ℕ)
  | update (outputSchema : Schema) (child : PlanNode) (tableOid : ℕ)
      (updateExprs : List Expression)
  | nestedLoopJoin (outputSchema : Schema) (left right : PlanNode) (predicate : Expression)
  | hashJoin (outputSchema : Schema) (left right : PlanNode)
      (leftKeyExpr rightKeyExpr : Expression)
  | aggregation (outputSchema : Schema) (child : PlanNode) (groupBys aggregates : List Expression)
      (aggTypes : List AggregationType)
  | sort (outputSchema : Schema) (child : PlanNode) (orderBys : List (Bool × Expression))
  | limit (outputSchema : Schema) (child : PlanNode) (limit : ℕ)
  | projection (outputSchema : Schema) (child : PlanNode) (expressions : List Expression)
  | utility (outputSchema : Schema) (utilityType : UtilityType) (tableName indexName : String)
      (keyAttrs : List ℕ) (objectNames : List String) (missingOk : Bool)
  deriving DecidableEq, Repr, Inhabited

/-- `GetOutputSchema`. -/
def PlanNode.getOutputSchema : PlanNode → Schema
  | null => { columns := [], tupleLength := 0 }
  | seqScan outputSchema .. => outputSchema
  | indexScan outputSchema .. => outputSchema
  | insert outputSchema .. => outputSchema
  | delete outputSchema .. => outputSchema
  | update outputSchema .. => outputSchema
  | nestedLoopJoin outputSchema .. => outputSchema
  | hashJoin outputSchema .. => outputSchema
  | aggregation outputSchema .. => outputSchema
  | sort outputSchema .. => outputSchema
  | limit outputSchema .. => outputSchema
  | projection outputSchema .. => outputSchema
  | utility outputSchema .. => outputSchema

end OneBase
