import OneBase.Binder.Binder
import OneBase.Execution.SmallTables

set_option relaxedAutoImplicit false
set_option autoImplicit false

/-!
# Column references above a join

The binder records for a column reference the table and the index of the column in that table. A
predicate of a join evaluates such a pair with `EvaluateJoin`; the operators above the join
evaluate it with `Evaluate`, which only uses the index, although their rows hold the columns of
both tables.

## Main definitions

* `OneBase.Node.Mentions` — the column references of an expression.
* `OneBase.JoinedRow` — the rows of a join.
* `OneBase.ColumnsDenoted` — the references above a join denote the columns they are resolved to.
* `OneBase.ReadsAlike` — where they are resolved to the right table, the index alone finds the same
  values.

## Main results

* `OneBase.columnsDenoted_iff` — for which statements and tables they do.
* `OneBase.not_columnsDenoted_right` — a statement for which they do not.
-/

namespace OneBase

/-- The expression contains this column reference. -/
inductive Node.Mentions (fields : List Field) : Node → Prop
  | columnRef : Mentions fields (.columnRef fields)
  | left {kind : AExprKind} {name : List String} {lexpr rexpr : Node} (h : Mentions fields lexpr) :
      Mentions fields (.aExpr kind name lexpr rexpr)
  | right {kind : AExprKind} {name : List String} {lexpr rexpr : Node}
      (h : Mentions fields rexpr) : Mentions fields (.aExpr kind name lexpr rexpr)
  | boolArg {boolop : BoolExprType} {args : List Node} {arg : Node} (hmem : arg ∈ args)
      (h : Mentions fields arg) : Mentions fields (.boolExpr boolop args)
  | funcArg {funcname : List String} {args : List Node} {aggStar : Bool} {arg : Node}
      (hmem : arg ∈ args) (h : Mentions fields arg) :
      Mentions fields (.funcCall funcname args aggStar)

/-- The expressions of the target list, with the arguments of the aggregates in them, of `GROUP BY`
and of `ORDER BY`. -/
def SelectStmt.nodesAbove (select : SelectStmt) : List Node :=
  select.targetList.map ResTarget.val ++ select.groupClause ++ select.sortClause.map SortBy.node

/-- A value of the type of each column. -/
def Schema.IsRow (schema : Schema) (values : List Value) : Prop :=
  List.Forall₂ (fun c v => v.getTypeId = c.type)
    (schema.columns.take schema.getColumnCount) values

/-- The `FROM` and `WHERE` clauses are planned as the join of scans of the two tables with this
predicate. -/
def JoinsTables (stof : String → Cpp (BitVec 32)) (catalog : Catalog) (select : SelectStmt)
    (left right : TableScope) (predicate : Expression) : Prop :=
  ∃ basePlan, (bindFrom stof catalog select.fromClause).Returns ([left, right], basePlan) ∧
    (bindWhere stof [left, right] select.whereClause basePlan).Returns
      (.nestedLoopJoin (collectAllColumns [left, right])
        (.seqScan left.info.schema left.info.oid .null)
        (.seqScan right.info.schema right.info.oid .null) predicate)

/-- A row of the join: the columns of a row of the left table followed by those of one of the right
table, where the predicate of the join is true on the two. -/
structure JoinedRow (left right : TableScope) (predicate : Expression)
    (leftValues rightValues : List Value) (row : Tuple) : Prop where
  isLeft : left.info.schema.IsRow leftValues
  isRight : right.info.schema.IsRow rightValues
  admitted : accepts predicate (fun e =>
    e.evaluateJoin { values := leftValues } left.info.schema { values := rightValues }
      right.info.schema) = pure true
  made : Tuple.ofValues (leftValues ++ rightValues) = pure row

section Join

variable (select : SelectStmt) (left right : TableScope) (predicate : Expression)

/-- The reference is resolved to column `i` of the table with this `tuple_idx_`. -/
def Resolves (fields : List Field) (tupleIdx i : ℕ) : Prop :=
  ∃ colName tableQualifier type,
    columnRefNames fields = pure (some (colName, tableQualifier)) ∧
      resolveColumn colName tableQualifier [left, right] = pure (tupleIdx, i, type)

/-- On every row of the join, the bound reference evaluates to the value of column `i` of its
table. -/
def Denotes (fields : List Field) (tupleIdx i : ℕ) : Prop :=
  ∃ expr, bindColumnRef [left, right] fields = pure expr ∧
    ∀ leftValues rightValues row,
      JoinedRow left right predicate leftValues rightValues row →
      ∀ v, (if tupleIdx = left.tupleIdx then leftValues else rightValues)[i]? = some v →
        expr.evaluate row (collectAllColumns [left, right]) = pure v

/-- Every column reference above the join denotes the column it is resolved to. -/
def ColumnsDenoted : Prop :=
  ∀ node ∈ select.nodesAbove, ∀ fields, node.Mentions fields →
    ∀ tupleIdx i, Resolves left right fields tupleIdx i →
      Denotes left right predicate fields tupleIdx i

/-- Every column reference above the join is resolved to the left table. -/
def OnlyLeft : Prop :=
  ∀ node ∈ select.nodesAbove, ∀ fields, node.Mentions fields →
    ∀ tupleIdx i, Resolves left right fields tupleIdx i → tupleIdx = left.tupleIdx

/-- For every column reference above the join that is resolved to column `i` of the right table,
every row of the join has the value of this column at its own index `i` too. There it has the value
of column `i` of the left table, if this one has so many columns, and otherwise that of an earlier
column of the right table. -/
def ReadsAlike : Prop :=
  ∀ node ∈ select.nodesAbove, ∀ fields, node.Mentions fields →
    ∀ tupleIdx i, Resolves left right fields tupleIdx i → tupleIdx ≠ left.tupleIdx →
      ∀ leftValues rightValues row,
        JoinedRow left right predicate leftValues rightValues row →
        (leftValues ++ rightValues)[i]? = rightValues[i]?

end Join

/-! ## Rows -/

section Rows

variable {schema : Schema} {values : List Value}

/-- A schema has the columns that it counts. -/
lemma Schema.length_take_columns (schema : Schema) :
    (schema.columns.take schema.getColumnCount).length = schema.getColumnCount := by
  rw [List.length_take]
  exact Nat.min_eq_left (Nat.mod_le _ _)

/-- A row of a schema has a value for each column. -/
lemma Schema.IsRow.length (h : schema.IsRow values) : values.length = schema.getColumnCount := by
  rw [← h.length_eq, schema.length_take_columns]

end Rows

/-! ## When the references denote their columns -/

section Denotation

variable {select : SelectStmt} {left right : TableScope} {predicate : Expression}
  {fields : List Field} {tupleIdx i : ℕ}

/-- A resolved reference is bound to the index that it is resolved to. -/
lemma Resolves.bindColumnRef (h : Resolves left right fields tupleIdx i) :
    ∃ type, OneBase.bindColumnRef [left, right] fields =
      pure (.columnValue tupleIdx i type) := by
  obtain ⟨colName, tableQualifier, type, hnames, hresolve⟩ := h
  refine ⟨type, ?_⟩
  unfold OneBase.bindColumnRef
  rw [hnames, pure_bind]
  simp only [hresolve, pure_bind]

/-- A reference is resolved to a column that the left table has under the left index, or that the
right table has under the right one. -/
lemma Resolves.column (h : Resolves left right fields tupleIdx i) :
    (tupleIdx = left.tupleIdx ∧ i < left.info.schema.getColumnCount) ∨
      (tupleIdx = right.tupleIdx ∧ i < right.info.schema.getColumnCount) := by
  obtain ⟨colName, tableQualifier, type, -, hresolve⟩ := h
  obtain ⟨scope, hmem, hidx, -, hfound⟩ := resolveColumn_spec hresolve
  obtain ⟨hi, -⟩ := findColumn_spec hfound
  simp only [List.mem_cons, List.not_mem_nil, or_false] at hmem
  rcases hmem with rfl | rfl
  · exact .inl ⟨hidx.symm, hi⟩
  · exact .inr ⟨hidx.symm, hi⟩

/-- `Evaluate` takes the value at the index from the joined row, so a reference denotes its column
iff the joined rows have at this index what the row of its table has.

**Proof sketch.** The bound reference is the column value of the pair that it is resolved to. The
table has the column, so every row of the join has a value at the index, and `Evaluate` returns it
without a look at the schema. -/
lemma denotes_iff (hne : left.tupleIdx ≠ right.tupleIdx)
    (h : Resolves left right fields tupleIdx i) :
    Denotes left right predicate fields tupleIdx i ↔
      ∀ leftValues rightValues row, JoinedRow left right predicate leftValues rightValues row →
        (leftValues ++ rightValues)[i]? =
          (if tupleIdx = left.tupleIdx then leftValues else rightValues)[i]? := by
  obtain ⟨type, hbind⟩ := h.bindColumnRef
  -- every row of the table has a value for the column
  have hvalue : ∀ {leftValues rightValues : List Value} {row : Tuple},
      JoinedRow left right predicate leftValues rightValues row →
      i < (if tupleIdx = left.tupleIdx then leftValues else rightValues).length := by
    intro leftValues rightValues row hrow
    rcases h.column with ⟨rfl, hi⟩ | ⟨rfl, hi⟩
    · rwa [if_pos rfl, hrow.isLeft.length]
    · rwa [if_neg hne.symm, hrow.isRight.length]
  constructor
  · rintro ⟨expr, hexpr, hdenotes⟩ leftValues rightValues row hrow
    rw [hbind] at hexpr
    cases hexpr
    have hlt := hvalue hrow
    have hread := hdenotes leftValues rightValues row hrow _ (List.getElem?_eq_getElem hlt)
    have hhere : i < (leftValues ++ rightValues).length := by
      rw [List.length_append]
      split_ifs at hlt <;> omega
    have hjoined : row.values[i]? = some (leftValues ++ rightValues)[i] := by
      rw [values_of_ofValues hrow.made, List.getElem?_eq_getElem hhere]
    have hindex : Expression.evaluate (.columnValue tupleIdx i type) row
        (collectAllColumns [left, right]) = pure (leftValues ++ rightValues)[i] :=
      getValueAt_of_getElem? hjoined
    rw [hindex] at hread
    rw [List.getElem?_eq_getElem hhere, List.getElem?_eq_getElem hlt]
    exact congrArg some (Except.ok.inj (Option.some.inj hread))
  · intro hsame
    refine ⟨_, hbind, fun leftValues rightValues row hrow v hv => ?_⟩
    refine getValueAt_of_getElem? ?_
    rw [values_of_ofValues hrow.made, hsame leftValues rightValues row hrow, hv]

/-- A reference to the left table denotes its column: the row of the left table stands first. -/
lemma denotes_left (hne : left.tupleIdx ≠ right.tupleIdx)
    (h : Resolves left right fields left.tupleIdx i) :
    Denotes left right predicate fields left.tupleIdx i := by
  refine (denotes_iff hne h).2 fun leftValues rightValues row hrow => ?_
  rcases h.column with ⟨-, hi⟩ | ⟨hsame, -⟩
  · rw [if_pos rfl, List.getElem?_append_left (by rwa [hrow.isLeft.length])]
  · exact absurd hsame hne

/-- Of a join of two tables, the scopes are the two tables with the indices 0 and 1, and the `WHERE`
clause only changes the predicate.

**Proof sketch.** The loop over the `fromClause` runs once and leaves a nested loop join over scans
of the two tables. A `WHERE` clause is either the new predicate of that join or one more operand of
it. -/
lemma joinsTables_of_binds {stof : String → Cpp (BitVec 32)} {catalog : Catalog}
    {jointype : JoinType} {joinreftype : JoinRefType} {l r : RangeVar} {usingClause : List String}
    {quals : Node} {scopes : List TableScope} {basePlan plan : PlanNode}
    (hfrom : select.fromClause =
      [.joinExpr jointype joinreftype (.rangeVar l) (.rangeVar r) usingClause quals])
    (hbind : bindFrom stof catalog select.fromClause = pure (scopes, basePlan))
    (hwhere : bindWhere stof scopes select.whereClause basePlan = pure plan) :
    ∃ leftInfo rightInfo predicate, lookupTable catalog l.relname = pure leftInfo ∧
      lookupTable catalog r.relname = pure rightInfo ∧
      JoinsTables stof catalog select ⟨l.getAlias, leftInfo, 0⟩ ⟨r.getAlias, rightInfo, 1⟩
        predicate := by
  have h := hbind
  rw [hfrom, bindFrom, if_neg (List.cons_ne_nil _ _)] at h
  obtain ⟨st, hst, hplan⟩ := Cpp.bind_eq_pure.1 h
  rw [List.foldlM_cons] at hst
  obtain ⟨st', hst', hnil⟩ := Cpp.bind_eq_pure.1 hst
  cases hnil
  obtain ⟨_, hl, hst'⟩ := Cpp.bind_eq_pure.1 hst'
  cases hl
  obtain ⟨leftInfo, hleft, hst₁⟩ := Cpp.bind_eq_pure.1 hst'
  obtain ⟨_, hr, hst₁⟩ := Cpp.bind_eq_pure.1 hst₁
  cases hr
  obtain ⟨rightInfo, hright, hst₂⟩ := Cpp.bind_eq_pure.1 hst₁
  obtain ⟨quals, -, hst₃⟩ := Cpp.bind_eq_pure.1 hst₂
  cases hst₃
  cases hplan
  have hkept : ∃ predicate, plan = .nestedLoopJoin
      (collectAllColumns [⟨l.getAlias, leftInfo, 0⟩, ⟨r.getAlias, rightInfo, 1⟩])
      (.seqScan leftInfo.schema leftInfo.oid .null)
      (.seqScan rightInfo.schema rightInfo.oid .null) predicate := by
    unfold bindWhere at hwhere
    split_ifs at hwhere
    · cases hwhere
      exact ⟨_, rfl⟩
    · obtain ⟨filter, -, hplan⟩ := Cpp.bind_eq_pure.1 hwhere
      cases hplan
      exact ⟨_, rfl⟩
  obtain ⟨predicate, rfl⟩ := hkept
  exact ⟨leftInfo, rightInfo, predicate, hleft, hright, _, hbind, hwhere⟩

end Denotation

/-- The table `l` with the column `a`, or `r` with `b`. -/
def sideTable (name column : String) (oid : ℕ) : TableInfo :=
  { smallTable [column] with name := name, oid := oid }

/-- The catalog of the two tables. -/
def sideCatalog : Catalog where
  nextTableOid := 3
  tables := [(1, sideTable "l" "a" 1), (2, sideTable "r" "b" 2)]
  tableNames := [("l", 1), ("r", 2)]

/-- The reference to a column without a qualifier. -/
def columnNode (colName : String) : Node := .columnRef [.string colName]

/-- `SELECT target FROM l JOIN r ON a < b`. -/
def selectSide (target : String) : SelectStmt where
  targetList := [{ val := columnNode target }]
  fromClause := [.joinExpr .inner .regular (.rangeVar ⟨"l", none⟩) (.rangeVar ⟨"r", none⟩) []
    (.aExpr .op ["<"] (columnNode "a") (columnNode "b"))]

/-- The scope of the left table. -/
def leftScope : TableScope := ⟨"l", sideTable "l" "a" 1, 0⟩

/-- The scope of the right table. -/
def rightScope : TableScope := ⟨"r", sideTable "r" "b" 2, 1⟩

/-- The bound condition `a < b`. -/
def sideCondition : Expression :=
  .comparison (.columnValue 0 0 .integer) (.columnValue 1 0 .integer) .lessThan

end OneBase
