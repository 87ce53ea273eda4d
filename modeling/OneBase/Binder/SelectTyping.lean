import OneBase.Binder.Clauses
import OneBase.Binder.Faults
import OneBase.Optimizer.Preservation

set_option relaxedAutoImplicit false
set_option autoImplicit false

/-!
# The types of a `SELECT`

The binder looks up the type of every column that an expression names, and computes the types of
the columns of a projection from its expressions. On one table, and without aggregates, the plan is
well typed. If the table has no index then the optimizer does not touch it.

## Main definitions

* `OneBase.HoldsOfBound` — a property of expressions that the operators keep.
* `OneBase.SelectStmt.IsTyped` — the statements.
* `OneBase.PlanNode.Types` — a well-typed plan that the optimizer does not touch.

## Main results

* `OneBase.HoldsOfBound.bindExpression` — such a property holds of every bound expression.
* `OneBase.types_bindSelect` — the plan of such a statement.
-/

namespace OneBase

/-! ## Bound expressions -/

/-- The property holds of the columns that names are resolved to and of constants, and the operators
keep it. -/
structure HoldsOfBound (scopes : List TableScope) (P : Expression → Prop) : Prop where
  null : P .null
  columnValue : ∀ {colName tableQualifier : String} {tupleIdx colIdx : ℕ} {type : TypeId},
    resolveColumn colName tableQualifier scopes = pure (tupleIdx, colIdx, type) →
      P (.columnValue tupleIdx colIdx type)
  constantValue : ∀ val : Value, val.isNull = false → P (.constantValue val)
  comparison : ∀ {left right : Expression} (compType : ComparisonType), P left → P right →
    P (.comparison left right compType)
  arithmetic : ∀ {left right : Expression} (arithType : ArithmeticType), P left → P right →
    P (.arithmetic left right arithType)
  logic : ∀ {left right : Expression} (logicType : LogicType), P left → P right →
    P (.logic left right logicType)

section Expressions

variable {stof : String → Cpp (BitVec 32)} {scopes : List TableScope} {P : Expression → Prop}

/-- A bound column reference has the property. -/
lemma HoldsOfBound.bindColumnRef (h : HoldsOfBound scopes P) {fields : List Field}
    {expr : Expression} (hbind : bindColumnRef scopes fields = pure expr) : P expr := by
  obtain ⟨names, -, hbind⟩ := Cpp.bind_eq_pure.1 hbind
  cases names with
  | none =>
    cases hbind
    exact h.null
  | some names =>
    obtain ⟨⟨tupleIdx, colIdx, type⟩, hfound, hbind⟩ := Cpp.bind_eq_pure.1 hbind
    cases hbind
    exact h.columnValue hfound

/-- A bound constant has the property. -/
lemma HoldsOfBound.bindConstant (h : HoldsOfBound scopes P) {val : Constant} {expr : Expression}
    (hbind : bindConstant stof val = pure expr) : P expr := by
  cases val with
  | float str =>
    obtain ⟨f, -, hbind⟩ := Cpp.bind_eq_pure.1 hbind
    cases hbind
    exact h.constantValue _ rfl
  | integer | string =>
    cases hbind
    exact h.constantValue _ rfl
  | other => cases hbind

mutual

/-- The rule for bound expressions. -/
lemma HoldsOfBound.bindExpression (h : HoldsOfBound scopes P) : ∀ {node : Node} {expr : Expression},
    bindExpression stof scopes node = pure expr → P expr
  | .null, expr, hbind => by
    rw [OneBase.bindExpression] at hbind
    cases hbind
    exact h.null
  | .columnRef fields, expr, hbind => by
    rw [OneBase.bindExpression] at hbind
    exact h.bindColumnRef hbind
  | .aConst val, expr, hbind => by
    rw [OneBase.bindExpression] at hbind
    exact h.bindConstant hbind
  | .aExpr _ name lexpr rexpr, expr, hbind => by
    rw [OneBase.bindExpression] at hbind
    obtain ⟨left, hleft, hbind⟩ := Cpp.bind_eq_pure.1 hbind
    obtain ⟨right, hright, hbind⟩ := Cpp.bind_eq_pure.1 hbind
    cases name with
    | nil => cases hbind
    | cons opName names =>
      rcases operatorExpression_cases hbind with ⟨compType, rfl⟩ | ⟨arithType, rfl⟩
      · exact h.comparison compType (h.bindExpression hleft) (h.bindExpression hright)
      · exact h.arithmetic arithType (h.bindExpression hleft) (h.bindExpression hright)
  | .boolExpr .and args, expr, hbind => by
    rw [OneBase.bindExpression] at hbind
    exact h.bindBoolExpr hbind
  | .boolExpr .or args, expr, hbind => by
    rw [OneBase.bindExpression] at hbind
    exact h.bindBoolExpr hbind
  | .boolExpr .not _, expr, hbind => by
    rw [OneBase.bindExpression] at hbind
    cases hbind
  | .funcCall _ _ _, expr, hbind => by
    rw [OneBase.bindExpression] at hbind
    cases hbind
  | .aStar, expr, hbind => by
    rw [OneBase.bindExpression] at hbind
    cases hbind
  | .other _, expr, hbind => by
    rw [OneBase.bindExpression] at hbind
    cases hbind

/-- A bound chain of operands has the property. -/
lemma HoldsOfBound.bindBoolExpr (h : HoldsOfBound scopes P) {logicType : LogicType} :
    ∀ {args : List Node} {expr : Expression},
    bindBoolExpr stof scopes logicType args = pure expr → P expr
  | [], expr, hbind => by
    rw [OneBase.bindBoolExpr] at hbind
    cases hbind
  | arg :: args, expr, hbind => by
    rw [OneBase.bindBoolExpr] at hbind
    obtain ⟨result, hresult, hbind⟩ := Cpp.bind_eq_pure.1 hbind
    exact h.bindChain hbind (h.bindExpression hresult)

/-- The rest of a chain has the property if what comes before it has. -/
lemma HoldsOfBound.bindChain (h : HoldsOfBound scopes P) {logicType : LogicType} :
    ∀ {args : List Node} {result expr : Expression},
    bindChain stof scopes logicType result args = pure expr → P result → P expr
  | [], result, expr, hbind, hresult => by
    rw [OneBase.bindChain] at hbind
    cases hbind
    exact hresult
  | arg :: args, result, expr, hbind, hresult => by
    rw [OneBase.bindChain] at hbind
    obtain ⟨right, hright, hbind⟩ := Cpp.bind_eq_pure.1 hbind
    exact h.bindChain hbind (h.logic logicType hresult (h.bindExpression hright))

end

/-- The column of a table that a name is resolved to has the type of the table. -/
lemma types_of_findColumn {schema : Schema} {colName : String} {colIdx : ℕ} {type : TypeId}
    (h : findColumn schema colName = some (colIdx, type)) : schema.types[colIdx]? = some type := by
  obtain ⟨-, column, hcolumn, -, rfl⟩ := findColumn_spec h
  rw [Schema.types, List.getElem?_map, show schema.columns[colIdx]? = some column from hcolumn]
  rfl

/-- On one table, the columns of a bound expression have the types that it says. -/
lemma holdsOfBound_inScope (tableAlias : String) (info : TableInfo) (tupleIdx : ℕ) :
    HoldsOfBound [⟨tableAlias, info, tupleIdx⟩]
      (fun e => e.inScope (rowScope info.schema.types) = true) where
  null := rfl
  columnValue h := by
    obtain ⟨scope, hscope, -, -, hcolumn⟩ := resolveColumn_spec h
    obtain rfl := List.mem_singleton.1 hscope
    exact decide_eq_true (types_of_findColumn hcolumn)
  constantValue val h := by
    show (!val.isNull) = true
    rw [h]
    rfl
  comparison _ hleft hright := (Bool.and_eq_true _ _).mpr ⟨hleft, hright⟩
  arithmetic _ hleft hright := (Bool.and_eq_true _ _).mpr ⟨hleft, hright⟩
  logic _ hleft hright := (Bool.and_eq_true _ _).mpr ⟨hleft, hright⟩

end Expressions

/-! ## Plans -/

/-- The statement selects from one table, without aggregates, and its `ORDER BY` keys are integers
or strings that are computed without arithmetic. -/
structure SelectStmt.IsTyped (stof : String → Cpp (BitVec 32)) (select : SelectStmt)
    (rv : RangeVar) (info : TableInfo) : Prop where
  fromClause : select.fromClause = [.rangeVar rv]
  targets : ∀ res ∈ select.targetList, res.isAggregate = false
  sortClause : ∀ sortBy ∈ select.sortClause, ∀ e,
    bindExpression stof [⟨rv.getAlias, info, 0⟩] sortBy.node = pure e →
      e.orders (rowScope info.schema.types) = true

section Plans

variable {stof : String → Cpp (BitVec 32)} {catalog : Catalog} {tableAlias : String}
  {info : TableInfo} {plan plan' : PlanNode} {types : List TypeId}

/-- The plan is well typed, its columns have these types, and the optimizer replaces neither a scan
nor a join of it. -/
structure PlanNode.Types (catalog : Catalog) (plan : PlanNode) (types : List TypeId) : Prop where
  wellTyped : plan.wellTyped catalog = true
  outputs : plan.getOutputSchema.types = types
  keepsScans : plan.KeepsScans (some catalog)
  keysFit : ∀ std ctx, plan.KeysFit std ctx

/-- The table is in the catalog, under its oid, and has no index. -/
structure TableInfo.IsPlain (info : TableInfo) (catalog : Catalog) : Prop where
  table : catalog.getTable info.oid = some info
  count : info.schema.columns.length < 2 ^ 32
  indexes : catalog.getTableIndexes info.name = pure []

/-- A scan of a plain table has the types of the table. -/
lemma types_seqScan (hinfo : info.IsPlain catalog) (predicate : Expression) :
    PlanNode.Types catalog (.seqScan info.schema info.oid predicate) info.schema.types := by
  refine ⟨?_, rfl, ?_, fun _ _ => trivial⟩
  · rw [PlanNode.wellTyped, hinfo.table, Option.all_some]
    exact decide_eq_true ⟨rfl, hinfo.count⟩
  · unfold PlanNode.KeepsScans optimizeSeqScanToIndexScan
    cases hkey : lookupOperands predicate with
    | none => simp [hkey]
    | some operands => simp [hkey, hinfo.table, hinfo.indexes, findLookupIndex]

/-- The plan under a `WHERE` clause has the types of the table. -/
lemma types_bindWhere {whereClause : Node} (hinfo : info.IsPlain catalog)
    (hbind : bindWhere stof [⟨tableAlias, info, 0⟩] whereClause
      (.seqScan info.schema info.oid .null) = pure plan) :
    PlanNode.Types catalog plan info.schema.types := by
  unfold bindWhere at hbind
  split_ifs at hbind
  · cases hbind
    exact types_seqScan hinfo _
  · obtain ⟨predicate, -, hbind⟩ := Cpp.bind_eq_pure.1 hbind
    cases hbind
    exact types_seqScan hinfo _

/-- The schema behind a pointer is that of the plan. -/
lemma eq_of_outputSchemaOf {schema : Schema} (h : outputSchemaOf plan = pure schema) :
    schema = plan.getOutputSchema := by
  cases plan <;> cases h <;> rfl

/-- A sort on keys that can be ordered has the types of its child. -/
lemma PlanNode.Types.bindSort {sortClause : List SortBy} (h : PlanNode.Types catalog plan types)
    (hsort : ∀ sortBy ∈ sortClause, ∀ e,
      bindExpression stof [⟨tableAlias, info, 0⟩] sortBy.node = pure e →
        e.orders (rowScope types) = true)
    (hbind : bindSort stof [⟨tableAlias, info, 0⟩] sortClause plan = pure plan') :
    PlanNode.Types catalog plan' types := by
  obtain ⟨htyped, rfl, hscans, hkeys⟩ := h
  unfold OneBase.bindSort at hbind
  split_ifs at hbind
  · cases hbind
    exact ⟨htyped, rfl, hscans, hkeys⟩
  · obtain ⟨orderBys, horders, hbind⟩ := Cpp.bind_eq_pure.1 hbind
    obtain ⟨schema, hschema, hbind⟩ := Cpp.bind_eq_pure.1 hbind
    cases hbind
    obtain rfl := eq_of_outputSchemaOf hschema
    refine ⟨?_, rfl, hscans, hkeys⟩
    simp only [PlanNode.wellTyped, htyped, Bool.true_and, decide_true, List.all_eq_true]
    intro item hitem
    obtain ⟨sortBy, hsortBy, hitem⟩ := exists_left_of_mem (Cpp.mapM_eq_pure.1 horders) hitem
    obtain ⟨e, he, hitem⟩ := Cpp.bind_eq_pure.1 hitem
    cases hitem
    exact hsort sortBy hsortBy e he

/-- A limit has the types of its child. -/
lemma PlanNode.Types.bindLimit {limitCount : Node} (h : PlanNode.Types catalog plan types)
    (hbind : bindLimit limitCount plan = pure plan') : PlanNode.Types catalog plan' types := by
  obtain ⟨htyped, rfl, hscans, hkeys⟩ := h
  unfold OneBase.bindLimit at hbind
  split at hbind
  · cases hbind
    exact ⟨htyped, rfl, hscans, hkeys⟩
  · obtain ⟨schema, hschema, hbind⟩ := Cpp.bind_eq_pure.1 hbind
    cases hbind
    obtain rfl := eq_of_outputSchemaOf hschema
    exact ⟨by simp [PlanNode.wellTyped, htyped], rfl, hscans, hkeys⟩
  · cases hbind

/-- The columns of a projection have the types of its expressions. -/
lemma types_projectedColumns {names : List String} {exprs : List Expression} {columns : List Column}
    (hlen : names.length = exprs.length)
    (h : ((names.zip exprs).mapM fun target => projectedColumn target.1 target.2) = pure columns) :
    columns.map Column.type = exprs.map Expression.getReturnType := by
  induction exprs generalizing names columns with
  | nil =>
    rw [List.zip_nil_right] at h
    cases h
    rfl
  | cons expr exprs ih =>
    cases names with
    | nil => cases hlen
    | cons name names =>
      rw [List.zip_cons_cons, List.mapM_cons] at h
      obtain ⟨column, hcolumn, h⟩ := Cpp.bind_eq_pure.1 h
      obtain ⟨rest, hrest, h⟩ := Cpp.bind_eq_pure.1 h
      cases h
      rw [List.map_cons, List.map_cons, ih (Nat.succ.inj hlen) hrest]
      cases expr <;> cases hcolumn <;> rfl

/-- A projection has the types of its columns. -/
lemma PlanNode.Types.bindProjection {targets : Targets} {targetList : List ResTarget}
    (h : PlanNode.Types catalog plan info.schema.types)
    (htargets : targets.Binds stof [⟨tableAlias, info, 0⟩] targetList)
    (hbind : bindProjection targets plan = pure plan') :
    PlanNode.Types catalog plan' plan'.getOutputSchema.types := by
  obtain ⟨htyped, htypes, hscans, hkeys⟩ := h
  unfold OneBase.bindProjection at hbind
  split_ifs at hbind
  · obtain ⟨columns, hcolumns, hbind⟩ := Cpp.bind_eq_pure.1 hbind
    cases hbind
    have hscope : ∀ e ∈ targets.outputExprs, e.inScope (rowScope info.schema.types) = true := by
      intro e he
      obtain ⟨res, -, hres⟩ := exists_left_of_mem htargets.outputs he
      exact (holdsOfBound_inScope tableAlias info 0).bindExpression hres
    have hout := types_projectedColumns htargets.names hcolumns
    refine ⟨?_, rfl, hscans, hkeys⟩
    rw [PlanNode.wellTyped, htyped, htypes, types_new, hout]
    simpa using hscope
  · cases hbind
    exact ⟨htyped, rfl, hscans, hkeys⟩

/-- **The types of a `SELECT`.** On one table, without aggregates, and with keys that a sort can
order, the binder makes a well-typed plan. -/
lemma types_bindSelect {select : SelectStmt} {rv : RangeVar}
    (hselect : select.IsTyped stof rv info)
    (hname : lookupTable catalog rv.relname = pure info) (hinfo : info.IsPlain catalog)
    (hbind : bindSelect stof catalog select = pure plan) :
    PlanNode.Types catalog plan plan.getOutputSchema.types := by
  obtain ⟨⟨scopes, base⟩, hfrom, hbind⟩ := Cpp.bind_eq_pure.1 hbind
  obtain ⟨filtered, hwhere, hbind⟩ := Cpp.bind_eq_pure.1 hbind
  obtain ⟨targets, htargets, hbind⟩ := Cpp.bind_eq_pure.1 hbind
  obtain ⟨grouped, hgroup, hbind⟩ := Cpp.bind_eq_pure.1 hbind
  obtain ⟨sorted, hsort, hbind⟩ := Cpp.bind_eq_pure.1 hbind
  obtain ⟨limited, hlimit, hproject⟩ := Cpp.bind_eq_pure.1 hbind
  obtain ⟨rfl, rfl⟩ : scopes = [⟨rv.getAlias, info, 0⟩] ∧
      base = .seqScan info.schema info.oid .null := by
    rw [hselect.fromClause, bindFrom, if_neg (List.cons_ne_nil _ _), List.foldlM_cons,
      bindFromItem, hname] at hfrom
    cases hfrom
    exact ⟨rfl, rfl⟩
  have hbinds := bindTarget_spec htargets
  have hagg : targets.hasAggregates = false := by
    rw [hbinds.hasAggregates, List.any_eq_false]
    intro res hres
    simp [hselect.targets res hres]
  rw [bindAggregation, hagg, if_neg Bool.false_ne_true] at hgroup
  cases hgroup
  have hfiltered := types_bindWhere hinfo hwhere
  exact ((hfiltered.bindSort hselect.sortClause hsort).bindLimit hlimit).bindProjection hbinds
    hproject

end Plans

end OneBase
