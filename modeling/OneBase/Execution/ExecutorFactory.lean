import OneBase.Execution.Executors

set_option relaxedAutoImplicit false
set_option autoImplicit false

/-!
# The executor factory

`execution/executors/utility_executor.cpp`, `executor_factory.cpp`, and the engine on a plan.

## Main definitions

* `OneBase.utilityExecutor` — index statements and the `SHOW` statements.
* `OneBase.createExecutor`, `OneBase.executePlan` — the executor of a plan, and its execution.
-/

namespace OneBase

open Exec

/-- `MakeCommandRow` and `MakeTableRow`: a row of texts. -/
def textRow (texts : List String) : Cpp Tuple :=
  Tuple.ofValues (texts.map fun text => { payload := .varchar (textBytes text) })

/-- `Column::TypeIdToString`. -/
def TypeId.toText : TypeId → String
  | .boolean => "BOOLEAN"
  | .integer => "INTEGER"
  | .float => "FLOAT"
  | .varchar => "VARCHAR"
  | .invalid => "INVALID"

/-- `Column::ToString`. -/
def Column.toText (c : Column) : String := c.name ++ ":" ++ c.type.toText

/-- The name of the table with an index of this name, by the loop of `DROP INDEX` over the
tables; `matched` is what it found so far. -/
def matchTable (catalog : Catalog) (indexName : String) (matched : String)
    (tableInfo : TableInfo) : Cpp String := do
  if (← catalog.getIndexByName indexName tableInfo.name).isSome then
    if matched ≠ "" then throw (.runtimeError ("Ambiguous index name: " ++ indexName))
    else pure tableInfo.name
  else pure matched

/-- The body of the loop of `DROP INDEX` over the names. -/
def dropNamedIndex (missingOk : Bool) (removedAny : Bool) (indexName : String) : Exec Bool := do
  let catalog ← getCatalog
  let matched ← ofCpp (catalog.getAllTables.foldlM (matchTable catalog indexName) "")
  if matched = "" then
    if missingOk then pure removedAny
    else throw (.runtimeError ("Index not found: " ++ indexName))
  else
    let removed := (catalog.dropIndex indexName matched).1
    modifyCatalog fun c => (c.dropIndex indexName matched).2
    pure (removed || removedAny)

/-- The order of the rows of `SHOW INDEXES`. -/
def indexBefore (lhs rhs : IndexInfo) : Bool :=
  if lhs.name ≠ rhs.name then decide (textBytes lhs.name < textBytes rhs.name)
  else if lhs.tableName ≠ rhs.tableName then
    decide (textBytes lhs.tableName < textBytes rhs.tableName)
  else decide (lhs.oid < rhs.oid)

section Factory

variable (std : StandardLibrary) (fuel : ℕ)

/-- The rows that `UtilityExecutor::Init` makes. -/
def utilityRows (utilityType : UtilityType) (tableName indexName : String) (keyAttrs : List ℕ)
    (objectNames : List String) (missingOk : Bool) : Exec (List Tuple) :=
  match utilityType with
  | .createIndex => do
    match ← Catalog.createIndex fuel indexName tableName keyAttrs with
    | none => throw (.runtimeError ("Failed to create index: " ++ indexName))
    | some _ =>
      let row ← ofCpp (textRow ["CREATE INDEX " ++ indexName])
      pure [row]
  | .dropIndex => do
    let removedAny ← objectNames.foldlM (dropNamedIndex missingOk) false
    let row ← ofCpp (textRow [if removedAny then "DROP INDEX" else "DROP INDEX (0 rows)"])
    pure [row]
  | .showTables => do
    let catalog ← getCatalog
    let tables ← ofCpp (std.sort
      (fun lhs rhs => pure (decide (textBytes lhs.name < textBytes rhs.name)))
      catalog.getAllTables)
    ofCpp (tables.mapM fun tableInfo => textRow [tableInfo.name])
  | .showIndexes => do
    let catalog ← getCatalog
    let indexes ← ofCpp (std.sort (fun lhs rhs => pure (indexBefore lhs rhs))
      catalog.getAllIndexes)
    ofCpp (indexes.mapM fun indexInfo => textRow
      [indexInfo.name, indexInfo.tableName,
        ",".intercalate (indexInfo.keySchema.columns.map Column.name)])
  | .showSchema => do
    let catalog ← getCatalog
    match ← ofCpp (catalog.getTableByName tableName) with
    | none => throw (.runtimeError ("Table not found: " ++ tableName))
    | some tableInfo =>
      ofCpp (tableInfo.schema.columns.mapM fun column => textRow [column.name, column.toText])

/-- `UtilityExecutor`. -/
def utilityExecutor (outputSchema : Schema) (utilityType : UtilityType)
    (tableName indexName : String) (keyAttrs : List ℕ) (objectNames : List String)
    (missingOk : Bool) : Executor where
  State := Materialized Unit
  fresh := { children := () }
  init _ := do
    let resultRows ← utilityRows std fuel utilityType tableName indexName keyAttrs objectNames
      missingOk
    pure { children := (), resultTuples := resultRows }
  next := nextResult
  outputSchema := outputSchema

/-- The executor of a `nullptr`, which has no defined behaviour. -/
def undefinedExecutor : Executor where
  State := Unit
  fresh := ()
  init _ := undefined
  next _ := undefined
  outputSchema := { columns := [], tupleLength := 0 }

/-- `ExecutorFactory::CreateExecutor`. -/
def createExecutor : PlanNode → Executor
  | .null => undefinedExecutor
  | .seqScan out tableOid predicate => seqScanExecutor fuel out tableOid predicate
  | .indexScan out tableOid indexOid lookupKey _ =>
    indexScanExecutor out tableOid indexOid lookupKey
  | .insert out child tableOid => insertExecutor fuel out (createExecutor child) tableOid
  | .delete out child tableOid => deleteExecutor fuel out (createExecutor child) tableOid
  | .update out child tableOid updateExprs =>
    updateExecutor fuel out (createExecutor child) tableOid updateExprs
  | .nestedLoopJoin out left right predicate =>
    nestedLoopJoinExecutor fuel out (createExecutor left) (createExecutor right) predicate
  | .hashJoin out left right leftKeyExpr rightKeyExpr =>
    hashJoinExecutor fuel out (createExecutor left) (createExecutor right) leftKeyExpr rightKeyExpr
  | .aggregation out child groupBys aggregates aggTypes =>
    aggregationExecutor std fuel out (createExecutor child) groupBys aggregates aggTypes
  | .sort out child orderBys => sortExecutor std fuel out (createExecutor child) orderBys
  | .limit out child limit => limitExecutor out (createExecutor child) limit
  | .projection out child expressions =>
    projectionExecutor out (createExecutor child) expressions
  | .utility out utilityType tableName indexName keyAttrs objectNames missingOk =>
    utilityExecutor std fuel out utilityType tableName indexName keyAttrs objectNames missingOk

/-- An executor has the output schema of its plan. -/
lemma outputSchema_createExecutor (plan : PlanNode) :
    (createExecutor std fuel plan).outputSchema = plan.getOutputSchema := by
  cases plan <;> rfl

/-- `ExecutionEngine::Execute` on a plan. -/
def executePlan (plan : PlanNode) : Exec (List Tuple) := execute fuel (createExecutor std fuel plan)

end Factory

/-- From some amount of fuel on, the plan returns these rows and leaves this context. -/
def Completes (std : StandardLibrary) (plan : PlanNode) (ctx : ExecutorContext)
    (rows : List Tuple) (ctx' : ExecutorContext) : Prop :=
  ∃ fuel₀, ∀ fuel ≥ fuel₀, Returns (executePlan std fuel plan) ctx rows ctx'

end OneBase
