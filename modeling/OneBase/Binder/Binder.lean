import OneBase.Binder.ParseTree
import OneBase.Catalog.Catalog
import OneBase.Execution.Plans

set_option relaxedAutoImplicit false
set_option autoImplicit false

/-!
# The binder

`binder/binder.cpp`: from the parse tree of a statement to its plan. `std::stof`, which reads the
text of a float constant, is a parameter.

## Main definitions

* `OneBase.TableScope`, `OneBase.resolveColumn` — the names that an expression can use.
* `OneBase.bindExpression` — the binding of an expression.
* `OneBase.bindSelect`, `bindInsert`, `bindDelete`, `bindUpdate` — the statements.
* `OneBase.bindQuery` — `Binder::BindQuery` behind the parser.

## Main results

* `OneBase.resolveColumn_spec` — the column that a name is resolved to.
-/

namespace OneBase

/-! ## Names -/

/-- `TableScope`. -/
structure TableScope where
  tableAlias : String
  info : TableInfo
  tupleIdx : ℕ

/-- `LowerCopy`, in the locale of a program that sets none. -/
def lowerCopy (text : String) : String := text.map Char.toLower

/-- `NodeToQualifiedName`. -/
def nodeToQualifiedName : ObjectName → String
  | .string str => str
  | .list parts => ".".intercalate (parts.map nodeToQualifiedName)
  | .rangeVar relname => relname.getD ""
  | .other => ""

/-- The inner loop of `ResolveColumn`: the first column of that name, and its type. -/
def findColumn (schema : Schema) (colName : String) : Option (ℕ × TypeId) :=
  (List.range schema.getColumnCount).findSome? fun i =>
    match schema.getColumn i with
    | some column => if column.name = colName then some (i, column.type) else none
    | none => none

/-- `ResolveColumn`. -/
def resolveColumn (colName tableQualifier : String) :
    List TableScope → Cpp (ℕ × ℕ × TypeId)
  | [] => throw (.runtimeError ("Column not found: " ++
      if tableQualifier = "" then colName else tableQualifier ++ "." ++ colName))
  | scope :: scopes =>
    if tableQualifier ≠ "" ∧ tableQualifier ≠ scope.tableAlias then
      resolveColumn colName tableQualifier scopes
    else
      match findColumn scope.info.schema colName with
      | some (i, type) => pure (scope.tupleIdx, i, type)
      | none => resolveColumn colName tableQualifier scopes

/-- A column of the schema that the loop can reach, with its name and type. -/
lemma findColumn_spec {schema : Schema} {colName : String} {i : ℕ} {type : TypeId}
    (h : findColumn schema colName = some (i, type)) :
    i < schema.getColumnCount ∧
      ∃ column, schema.getColumn i = some column ∧ column.name = colName ∧ column.type = type := by
  obtain ⟨j, hj, hfound⟩ := List.exists_of_findSome?_eq_some h
  cases hcolumn : schema.getColumn j with
  | none =>
    simp only [hcolumn] at hfound
    cases hfound
  | some column =>
    simp only [hcolumn] at hfound
    split_ifs at hfound with hname
    cases hfound
    exact ⟨List.mem_range.1 hj, column, hcolumn, hname, rfl⟩

/-- A name is resolved to a column of one of the tables that the qualifier admits. -/
lemma resolveColumn_spec {colName tableQualifier : String} {scopes : List TableScope}
    {tupleIdx i : ℕ} {type : TypeId}
    (h : resolveColumn colName tableQualifier scopes = pure (tupleIdx, i, type)) :
    ∃ scope ∈ scopes, scope.tupleIdx = tupleIdx ∧
      (tableQualifier = "" ∨ tableQualifier = scope.tableAlias) ∧
      findColumn scope.info.schema colName = some (i, type) := by
  induction scopes with
  | nil => cases h
  | cons scope scopes ih =>
    rw [resolveColumn] at h
    split_ifs at h with hskip
    · obtain ⟨scope', hmem, hrest⟩ := ih h
      exact ⟨scope', List.mem_cons_of_mem _ hmem, hrest⟩
    · cases hfound : findColumn scope.info.schema colName with
      | none =>
        simp only [hfound] at h
        obtain ⟨scope', hmem, hrest⟩ := ih h
        exact ⟨scope', List.mem_cons_of_mem _ hmem, hrest⟩
      | some found =>
        simp only [hfound] at h
        cases h
        refine ⟨scope, List.mem_cons_self, rfl, ?_, hfound⟩
        tauto

/-- The lookup of a table by every statement. -/
def lookupTable (catalog : Catalog) (tableName : String) : Cpp TableInfo := do
  match ← catalog.getTableByName tableName with
  | some info => pure info
  | none => throw (.runtimeError ("Table not found: " ++ tableName))

/-! ## Expressions -/

section Expressions

variable (stof : String → Cpp (BitVec 32)) (scopes : List TableScope)

/-- The column name and the qualifier that `BindColumnRef` takes from the fields; none for a
star. Reading a star as a string is undefined. -/
def columnRefNames : List Field → Cpp (Option (String × String))
  | [.string colName] => pure (some (colName, ""))
  | [.aStar] => pure none
  | [.string _, .aStar] => pure none
  | [.string tableQualifier, .string colName] => pure (some (colName, tableQualifier))
  | [.aStar, _] => Cpp.undefined
  | _ => pure (some ("", ""))

/-- `BindColumnRef`. -/
def bindColumnRef (fields : List Field) : Cpp Expression := do
  match ← columnRefNames fields with
  | none => pure .null
  | some (colName, tableQualifier) =>
    let (tupleIdx, colIdx, type) ← resolveColumn colName tableQualifier scopes
    pure (.columnValue tupleIdx colIdx type)

/-- `BindConstant`. -/
def bindConstant : Constant → Cpp Expression
  | .integer ival => pure (.constantValue { payload := .integer (ival.setWidth 32) })
  | .float str => do
    let f ← stof str
    pure (.constantValue { payload := .float f })
  | .string str => pure (.constantValue { payload := .varchar (textBytes str) })
  | .other => throw (.runtimeError "Unsupported constant type")

/-- The part of `BindAExpr` that looks at the name of the operator. -/
def operatorExpression (opName : String) (left right : Expression) : Cpp Expression :=
  if opName = "=" then pure (.comparison left right .equal)
  else if opName = "<>" ∨ opName = "!=" then pure (.comparison left right .notEqual)
  else if opName = "<" then pure (.comparison left right .lessThan)
  else if opName = "<=" then pure (.comparison left right .lessThanOrEqual)
  else if opName = ">" then pure (.comparison left right .greaterThan)
  else if opName = ">=" then pure (.comparison left right .greaterThanOrEqual)
  else if opName = "+" then pure (.arithmetic left right .plus)
  else if opName = "-" then pure (.arithmetic left right .minus)
  else if opName = "*" then pure (.arithmetic left right .multiply)
  else if opName = "/" then pure (.arithmetic left right .divide)
  else if opName = "%" then pure (.arithmetic left right .modulo)
  else throw (.runtimeError ("Unsupported operator: " ++ opName))

mutual

/-- `BindExpression`, with `BindAExpr` and `BindBoolExpr`. -/
def bindExpression : Node → Cpp Expression
  | .null => pure .null
  | .columnRef fields => bindColumnRef scopes fields
  | .aConst val => bindConstant stof val
  | .aExpr _ name lexpr rexpr => do
    let left ← bindExpression lexpr
    let right ← bindExpression rexpr
    match name with
    | opName :: _ => operatorExpression opName left right
    | [] => Cpp.undefined
  | .boolExpr .and args => bindBoolExpr .and args
  | .boolExpr .or args => bindBoolExpr .or args
  | .boolExpr .not _ => throw (.runtimeError "Unsupported BoolExpr type")
  | .funcCall _ _ _ => throw (.runtimeError "Unsupported expression node type: 359")
  | .aStar => throw (.runtimeError "Unsupported expression node type: 360")
  | .other type => throw (.runtimeError ("Unsupported expression node type: " ++ toString type))

/-- The binding of `AND` and `OR`: the first operand, which must exist, then the loop. -/
def bindBoolExpr (logicType : LogicType) : List Node → Cpp Expression
  | [] => Cpp.undefined
  | arg :: args => do
    let result ← bindExpression arg
    bindChain logicType result args

/-- The loop of `BindBoolExpr`. -/
def bindChain (logicType : LogicType) (result : Expression) : List Node → Cpp Expression
  | [] => pure result
  | arg :: args => do
    let right ← bindExpression arg
    bindChain logicType (.logic result right logicType) args

end

end Expressions

/-! ## The clauses of a `SELECT` -/

/-- `CountSchema`. -/
def countSchema : Schema := .new [.new "count" .integer]

/-- `CollectAllColumns`. -/
def collectAllColumns (scopes : List TableScope) : Schema :=
  .new (scopes.flatMap fun scope => scope.info.schema.columns.take scope.info.schema.getColumnCount)

/-- `GetOutputSchema` through a pointer. -/
def outputSchemaOf : PlanNode → Cpp Schema
  | .null => Cpp.undefined
  | plan => pure plan.getOutputSchema

/-- What the loop over the `fromClause` fills. -/
structure FromState where
  scopes : List TableScope := []
  fromPlans : List PlanNode := []
  basePlan : PlanNode := .null

/-- The name under which the columns of a table are found. -/
def RangeVar.getAlias (rv : RangeVar) : String := rv.aliasname.getD rv.relname

section Clauses

variable (stof : String → Cpp (BitVec 32)) (catalog : Catalog)

/-- A side of a join, which is taken for a range variable without a look at its kind. -/
def asRangeVar : FromItem → Cpp RangeVar
  | .rangeVar rv => pure rv
  | _ => Cpp.undefined

/-- The body of the loop over the `fromClause`. -/
def bindFromItem (st : FromState) : FromItem → Cpp FromState
  | .rangeVar rv => do
    let info ← lookupTable catalog rv.relname
    let scope : TableScope := ⟨rv.getAlias, info, st.scopes.length % 2 ^ 32⟩
    pure
      { st with
        scopes := st.scopes ++ [scope]
        fromPlans := st.fromPlans ++ [.seqScan info.schema info.oid .null] }
  | .joinExpr _ _ larg rarg _ quals => do
    let left ← asRangeVar larg
    let leftInfo ← lookupTable catalog left.relname
    let right ← asRangeVar rarg
    let rightInfo ← lookupTable catalog right.relname
    let scopes := st.scopes ++ [⟨left.getAlias, leftInfo, 0⟩, ⟨right.getAlias, rightInfo, 1⟩]
    let joinPredicate ← bindExpression stof scopes quals
    pure
      { scopes := scopes
        fromPlans := []
        basePlan := .nestedLoopJoin (collectAllColumns scopes)
          (.seqScan leftInfo.schema leftInfo.oid .null)
          (.seqScan rightInfo.schema rightInfo.oid .null) joinPredicate }
  | .other => pure st

/-- The `FROM` clause: the scopes and the base plan. -/
def bindFrom (fromClause : List FromItem) : Cpp (List TableScope × PlanNode) :=
  if fromClause = [] then throw (.runtimeError "SELECT without FROM not supported")
  else do
    let st ← fromClause.foldlM (bindFromItem stof catalog) {}
    match st.fromPlans with
    | plan :: _ => pure (st.scopes, plan)
    | [] => pure (st.scopes, st.basePlan)

variable (scopes : List TableScope)

/-- The base plan with the predicate of the `WHERE` clause. -/
def attachPredicate (predicate : Expression) : PlanNode → Cpp PlanNode
  | .null => Cpp.undefined
  | .seqScan _ _ _ =>
    match scopes with
    | scope :: _ => pure (.seqScan scope.info.schema scope.info.oid predicate)
    | [] => Cpp.undefined
  | .nestedLoopJoin outputSchema left right joinPredicate =>
    pure (.nestedLoopJoin outputSchema left right
      (if joinPredicate = .null then predicate else .logic joinPredicate predicate .and))
  | plan => pure plan

/-- The `WHERE` clause. -/
def bindWhere (whereClause : Node) (basePlan : PlanNode) : Cpp PlanNode :=
  if whereClause.isNull then pure basePlan
  else do
    let predicate ← bindExpression stof scopes whereClause
    attachPredicate scopes predicate basePlan

/-- What the loop over the `targetList` fills. -/
structure Targets where
  hasAggregates : Bool := false
  aggCalls : List (AggregationType × Expression) := []
  outputExprs : List Expression := []
  outputNames : List String := []
  isStar : Bool := false

/-- The aggregate functions, by name. -/
def aggregateNamed (fname : String) : Option AggregationType :=
  if fname = "count" then some .countAggregate
  else if fname = "sum" then some .sumAggregate
  else if fname = "min" then some .minAggregate
  else if fname = "max" then some .maxAggregate
  else none

/-- Whether the argument list is that of `COUNT(*)`. -/
def isCountStar (args : List Node) (aggStar : Bool) : Bool :=
  aggStar ||
    match args with
    | .aStar :: _ => true
    | _ => false

/-- `AggCall`. Reading the first argument of an empty list is undefined. -/
def bindAggCall (aggType : AggregationType) (args : List Node) (aggStar : Bool) :
    Cpp (AggregationType × Expression) :=
  if aggType = .countAggregate ∧ isCountStar args aggStar = true then
    pure (.countStarAggregate, .columnValue 0 0 .integer)
  else
    match args with
    | arg :: _ => do
      let expr ← bindExpression stof scopes arg
      pure (aggType, expr)
    | [] => Cpp.undefined

/-- The name of an output column, where `size` names precede it. -/
def outputName (res : ResTarget) (size : ℕ) : String :=
  match res.name, res.val with
  | some name, _ => name
  | none, .columnRef fields =>
    match fields.getLast? with
    | some (.string str) => str
    | _ => ""
  | none, _ => "col_" ++ toString size

/-- A target that is neither a star nor an aggregate. -/
def bindRegular (targets : Targets) (res : ResTarget) : Cpp Targets := do
  let expr ← bindExpression stof scopes res.val
  pure
    { targets with
      outputExprs := targets.outputExprs ++ [expr]
      outputNames := targets.outputNames ++ [outputName res targets.outputNames.length] }

/-- The body of the loop over the `targetList`. -/
def bindTarget (targets : Targets) (res : ResTarget) : Cpp Targets :=
  match res.val with
  | .null => pure targets
  | .aStar => pure { targets with isStar := true }
  | .columnRef [] => Cpp.undefined
  | .columnRef (.aStar :: _) => pure { targets with isStar := true }
  | .funcCall funcname args aggStar =>
    match funcname.getLast? with
    | none => Cpp.undefined
    | some fname =>
      match aggregateNamed (lowerCopy fname) with
      | some aggType => do
        let aggCall ← bindAggCall stof scopes aggType args aggStar
        pure
          { targets with
            hasAggregates := true
            aggCalls := targets.aggCalls ++ [aggCall] }
      | none => bindRegular stof scopes targets res
  | _ => bindRegular stof scopes targets res

/-- The aggregation above the base plan, if there are aggregates. The `GROUP BY` clause is looked
at only then. -/
def bindAggregation (targets : Targets) (groupClause : List Node) (basePlan : PlanNode) :
    Cpp PlanNode :=
  if targets.hasAggregates then do
    let groupBys ← groupClause.mapM (bindExpression stof scopes)
    let columns := (List.range groupBys.length).map (fun i => Column.new s!"group_{i}" .integer) ++
      (List.range targets.aggCalls.length).map fun i => Column.new s!"agg_{i}" .integer
    pure (.aggregation (.new columns) basePlan groupBys (targets.aggCalls.map Prod.snd)
      (targets.aggCalls.map Prod.fst))
  else pure basePlan

/-- An element of the `ORDER BY` clause. -/
def bindSortBy (sortBy : SortBy) : Cpp (Bool × Expression) := do
  let sortExpr ← bindExpression stof scopes sortBy.node
  pure (decide (sortBy.sortbyDir ≠ .desc), sortExpr)

/-- The sort above the base plan. -/
def bindSort (sortClause : List SortBy) (basePlan : PlanNode) : Cpp PlanNode :=
  if sortClause.isEmpty then pure basePlan
  else do
    let orderBys ← sortClause.mapM (bindSortBy stof scopes)
    let schema ← outputSchemaOf basePlan
    pure (.sort schema basePlan orderBys)

/-- The limit above the base plan. The node is taken for an integer constant without a look at its
kind. -/
def bindLimit (limitCount : Node) (basePlan : PlanNode) : Cpp PlanNode :=
  match limitCount with
  | .null => pure basePlan
  | .aConst (.integer ival) => do
    let schema ← outputSchemaOf basePlan
    pure (.limit schema basePlan ival.toNat)
  | _ => Cpp.undefined

/-- A column of the schema of a projection. -/
def projectedColumn (name : String) : Expression → Cpp Column
  | .null => Cpp.undefined
  | expr => pure (.new name expr.getReturnType)

/-- The projection above the base plan. -/
def bindProjection (targets : Targets) (basePlan : PlanNode) : Cpp PlanNode :=
  if targets.isStar = false ∧ targets.hasAggregates = false ∧ targets.outputExprs ≠ [] then do
    let columns ← (targets.outputNames.zip targets.outputExprs).mapM fun target =>
      projectedColumn target.1 target.2
    pure (.projection (.new columns) basePlan targets.outputExprs)
  else pure basePlan

end Clauses

/-! ## Statements -/

section Statements

variable (stof : String → Cpp (BitVec 32)) (catalog : Catalog)

/-- The `SELECT` statement. -/
def bindSelect (select : SelectStmt) : Cpp PlanNode := do
  let (scopes, basePlan) ← bindFrom stof catalog select.fromClause
  let basePlan ← bindWhere stof scopes select.whereClause basePlan
  let targets ← select.targetList.foldlM (bindTarget stof scopes) {}
  let basePlan ← bindAggregation stof scopes targets select.groupClause basePlan
  let basePlan ← bindSort stof scopes select.sortClause basePlan
  let basePlan ← bindLimit select.limitCount basePlan
  bindProjection targets basePlan

/-- The body of the loop of `INSERT` over the `fromClause`; only tables are looked at. -/
def bindSource (whereClause : Node) (sub : List TableScope × PlanNode) :
    FromItem → Cpp (List TableScope × PlanNode)
  | .rangeVar rv => do
    let srcInfo ← lookupTable catalog rv.relname
    let subScopes := sub.1 ++ [⟨rv.relname, srcInfo, 0⟩]
    let subPredicate ← bindExpression stof subScopes whereClause
    pure (subScopes, .seqScan srcInfo.schema srcInfo.oid subPredicate)
  | _ => pure sub

/-- The `INSERT` statement. -/
def bindInsert (tableName : String) (selectStmt : Option SelectStmt) : Cpp PlanNode := do
  let info ← lookupTable catalog tableName
  match selectStmt with
  | none => Cpp.undefined
  | some subSelect =>
    if subSelect.fromClause.isEmpty ∧ ¬ subSelect.valuesLists.isEmpty then
      throw (.runtimeError "INSERT ... VALUES not supported yet")
    else
      let (_, subPlan) ← subSelect.fromClause.foldlM
        (bindSource stof catalog subSelect.whereClause) ([], .null)
      pure (.insert countSchema subPlan info.oid)

/-- The `DELETE` statement. -/
def bindDelete (tableName : String) (whereClause : Node) : Cpp PlanNode := do
  let info ← lookupTable catalog tableName
  let predicate ← bindExpression stof [⟨tableName, info, 0⟩] whereClause
  pure (.delete countSchema (.seqScan info.schema info.oid predicate) info.oid)

/-- The body of the loop of `UPDATE` over the `SET` clause. -/
def bindSet (scopes : List TableScope) (setExprs : String → Option Expression)
    (res : ResTarget) : Cpp (String → Option Expression) :=
  match res.name with
  | none => Cpp.undefined
  | some colName => do
    let expr ← bindExpression stof scopes res.val
    pure (Function.update setExprs colName (some expr))

/-- The expression that `UPDATE` evaluates for column `i`. -/
def updateExpr (setExprs : String → Option Expression) (i : ℕ) (column : Column) : Expression :=
  (setExprs column.name).getD (.columnValue 0 i column.type)

/-- The `UPDATE` statement. -/
def bindUpdate (tableName : String) (targetList : List ResTarget) (whereClause : Node) :
    Cpp PlanNode := do
  let info ← lookupTable catalog tableName
  let scopes : List TableScope := [⟨tableName, info, 0⟩]
  let setExprs ← targetList.foldlM (bindSet stof scopes) fun _ => none
  let updateExprs := (info.schema.columns.take info.schema.getColumnCount).mapIdx
    (updateExpr setExprs)
  let predicate ← bindExpression stof scopes whereClause
  pure (.update countSchema (.seqScan info.schema info.oid predicate) info.oid updateExprs)

/-- A key column of `CREATE INDEX`. -/
def bindIndexElem (info : TableInfo) (elem : IndexElem) : Cpp ℕ :=
  match elem.name with
  | none => throw (.runtimeError "Only column-based CREATE INDEX is supported")
  | some name =>
    if elem.expr.isNull then
      let columnIdx := info.schema.getColumnIdx name
      if columnIdx = 2 ^ 32 - 1 then throw (.runtimeError ("Column not found: " ++ name))
      else pure columnIdx
    else throw (.runtimeError "Only column-based CREATE INDEX is supported")

/-- The `CREATE INDEX` statement. -/
def bindCreateIndex (relation idxname : Option String) (indexParams : List IndexElem) :
    Cpp PlanNode :=
  match relation, idxname with
  | some relname, some idxname => do
    let info ← lookupTable catalog relname
    let keyAttrs ← indexParams.mapM (bindIndexElem info)
    pure (.utility (.new [.new "command_tag" .varchar]) .createIndex relname idxname keyAttrs []
      false)
  | _, _ => throw (.runtimeError "Invalid CREATE INDEX statement")

/-- The `DROP INDEX` statement. -/
def bindDropIndex (objects : List ObjectName) (missingOk : Bool) : PlanNode :=
  .utility (.new [.new "command_tag" .varchar]) .dropIndex "" "" []
    ((objects.map nodeToQualifiedName).filter fun name => name ≠ "") missingOk

/-- The plan of `SHOW TABLES`. -/
def showTablesPlan : PlanNode :=
  .utility (.new [.new "table_name" .varchar]) .showTables "" "" [] [] false

/-- The error of a statement of another kind, by its `PGNodeTag`. -/
def unsupportedStatement (type : ℕ) : Exception :=
  .runtimeError ("Unsupported statement type: " ++ toString type)

/-- The `SHOW` statements that name a relation. -/
def bindShowRelation (relationName : String) : Cpp PlanNode :=
  let normalizedRelationName := lowerCopy relationName
  if normalizedRelationName = "tables" then pure showTablesPlan
  else if normalizedRelationName = "index" ∨ normalizedRelationName = "indexes" then
    pure (.utility
      (.new [.new "index_name" .varchar, .new "table_name" .varchar, .new "columns" .varchar])
      .showIndexes "" "" [] [] false)
  else do
    match ← catalog.getTableByName relationName with
    | some _ => pure (.utility
        (.new [.new "column_name" .varchar, .new "column_type" .varchar])
        .showSchema relationName "" [] [] false)
    | none => throw (unsupportedStatement 276)

/-- The `SHOW` statements. -/
def bindShow (set relation : Option String) : Cpp PlanNode :=
  let setName := (set.map lowerCopy).getD ""
  if setName = "__show_tables_expanded" ∨ setName = "__show_tables_from_database" then
    pure showTablesPlan
  else
    match relation with
    | some relationName => bindShowRelation catalog relationName
    | none => throw (unsupportedStatement 276)

/-- The dispatch of `BindQuery` on the kind of the statement. -/
def bindStatement : Statement → Cpp PlanNode
  | .indexStmt relation idxname indexParams => bindCreateIndex catalog relation idxname indexParams
  | .dropStmt true objects missingOk => pure (bindDropIndex objects missingOk)
  | .dropStmt false _ _ => throw (unsupportedStatement 248)
  | .variableShowStmt set relation => bindShow catalog set relation
  | .selectStmt select => bindSelect stof catalog select
  | .insertStmt relname selectStmt => bindInsert stof catalog relname selectStmt
  | .deleteStmt relname whereClause => bindDelete stof catalog relname whereClause
  | .updateStmt relname targetList whereClause =>
    bindUpdate stof catalog relname targetList whereClause
  | .other type => throw (unsupportedStatement type)

/-- `Binder::BindQuery`, on what the parser makes of the text. -/
def bindQuery : ParseResult → Cpp PlanNode
  | .failure errorMessage => throw (.runtimeError ("Parse error: " ++ errorMessage))
  | .success [] => throw (.runtimeError "Empty parse tree")
  | .success (stmt :: _) => bindStatement stof catalog stmt

end Statements

end OneBase
