import OneBase.Binder.Clauses
import OneBase.Binder.Faults
import OneBase.Execution.NestedLoopJoin
import OneBase.Execution.PlanOutcomes

set_option relaxedAutoImplicit false
set_option autoImplicit false

/-!
# Expressions on the rows of a table

A bound expression only refers to columns of its scopes. So it makes no difference whether the scan
evaluates a predicate on the bytes of a row or on the values that it reads from them, and a scan
with the predicate of a `WHERE` clause returns the rows that satisfy the clause.

## Main definitions

* `OneBase.Node.valueOn` — the value of an expression on a row.
* `OneBase.SelectStmt.chosen` — the rows that satisfy the `WHERE` clause.

## Main results

* `OneBase.bindExpression_refersTo` — the columns of a bound expression.
* `OneBase.TableContents.hasOutcome_seqScan` — the outcome of a scan with a predicate.
* `OneBase.hasOutcome_where` — the outcome of a table with a `WHERE` clause.
-/

namespace OneBase

/-! ## The columns of a bound expression -/

section Columns

variable {stof : String → Cpp (BitVec 32)} {scopes : List TableScope}

/-- The expression refers to columns of these scopes. -/
def Expression.RefersTo (scopes : List TableScope) (expr : Expression) : Prop :=
  ∀ c ∈ expr.columns, ∃ scope ∈ scopes, scope.tupleIdx = c.1 ∧
    c.2 < scope.info.schema.getColumnCount

/-- The columns of two operands are columns of the scopes if both operands refer to them. -/
lemma refersTo_operands {left right : Expression} (hleft : left.RefersTo scopes)
    (hright : right.RefersTo scopes) :
    ∀ c ∈ left.columns ++ right.columns, ∃ scope ∈ scopes, scope.tupleIdx = c.1 ∧
      c.2 < scope.info.schema.getColumnCount := by
  intro c hc
  rcases List.mem_append.1 hc with hc | hc
  · exact hleft c hc
  · exact hright c hc

/-- An operator refers to the scopes if its operands do. -/
lemma operatorExpression_refersTo {opName : String} {left right expr : Expression}
    (h : operatorExpression opName left right = pure expr) (hleft : left.RefersTo scopes)
    (hright : right.RefersTo scopes) : expr.RefersTo scopes := by
  rcases operatorExpression_cases h with ⟨compType, rfl⟩ | ⟨arithType, rfl⟩
  · exact refersTo_operands hleft hright
  · exact refersTo_operands hleft hright

mutual

/-- The binding of an expression refers to columns of the scopes. -/
lemma bindExpression_refersTo : ∀ {node : Node} {expr : Expression},
    bindExpression stof scopes node = pure expr → expr.RefersTo scopes
  | .null, expr, h => by
    rw [bindExpression] at h
    cases h
    exact fun c hc => absurd hc List.not_mem_nil
  | .columnRef fields, expr, h => by
    rw [bindExpression] at h
    obtain ⟨names, -, h⟩ := Cpp.bind_eq_pure.1 h
    cases names with
    | none =>
      cases h
      exact fun c hc => absurd hc List.not_mem_nil
    | some names =>
      obtain ⟨⟨tupleIdx, colIdx, type⟩, hfound, h⟩ := Cpp.bind_eq_pure.1 h
      cases h
      obtain ⟨scope, hscope, hidx, -, hcolumn⟩ := resolveColumn_spec hfound
      intro c hc
      obtain rfl := List.mem_singleton.1 hc
      exact ⟨scope, hscope, hidx, (findColumn_spec hcolumn).1⟩
  | .aConst val, expr, h => by
    rw [bindExpression] at h
    cases val with
    | float str =>
      obtain ⟨f, -, h⟩ := Cpp.bind_eq_pure.1 h
      cases h
      exact fun c hc => absurd hc List.not_mem_nil
    | integer | string =>
      cases h
      exact fun c hc => absurd hc List.not_mem_nil
    | other => cases h
  | .aExpr _ name lexpr rexpr, expr, h => by
    rw [bindExpression] at h
    obtain ⟨left, hleft, h⟩ := Cpp.bind_eq_pure.1 h
    obtain ⟨right, hright, h⟩ := Cpp.bind_eq_pure.1 h
    cases name with
    | nil => cases h
    | cons opName names =>
      exact operatorExpression_refersTo h (bindExpression_refersTo hleft)
        (bindExpression_refersTo hright)
  | .boolExpr .and args, expr, h => by
    rw [bindExpression] at h
    exact bindBoolExpr_refersTo h
  | .boolExpr .or args, expr, h => by
    rw [bindExpression] at h
    exact bindBoolExpr_refersTo h
  | .boolExpr .not _, expr, h => by
    rw [bindExpression] at h
    cases h
  | .funcCall _ _ _, expr, h => by
    rw [bindExpression] at h
    cases h
  | .aStar, expr, h => by
    rw [bindExpression] at h
    cases h
  | .other _, expr, h => by
    rw [bindExpression] at h
    cases h

/-- A bound chain of operands refers to the scopes. -/
lemma bindBoolExpr_refersTo {logicType : LogicType} : ∀ {args : List Node} {expr : Expression},
    bindBoolExpr stof scopes logicType args = pure expr → expr.RefersTo scopes
  | [], expr, h => by
    rw [bindBoolExpr] at h
    cases h
  | arg :: args, expr, h => by
    rw [bindBoolExpr] at h
    obtain ⟨result, hresult, h⟩ := Cpp.bind_eq_pure.1 h
    exact bindChain_refersTo h (bindExpression_refersTo hresult)

/-- The rest of a chain refers to the scopes if what comes before it does. -/
lemma bindChain_refersTo {logicType : LogicType} :
    ∀ {args : List Node} {result expr : Expression},
    bindChain stof scopes logicType result args = pure expr → result.RefersTo scopes →
      expr.RefersTo scopes
  | [], result, expr, h, hresult => by
    rw [bindChain] at h
    cases h
    exact hresult
  | arg :: args, result, expr, h, hresult => by
    rw [bindChain] at h
    obtain ⟨right, hright, h⟩ := Cpp.bind_eq_pure.1 h
    exact bindChain_refersTo h (refersTo_operands hresult (bindExpression_refersTo hright))

end

end Columns

/-! ## Scans with a predicate -/

section Scans

open TableHeap

variable {schema : Schema} {predicate : Expression} {r : RID × List UInt8} {o : Option Tuple}
  {live : List (RID × List UInt8)} {rows : List Row} {keep : Tuple → Bool}

/-- An expression that refers to the columns of the table has the same value on the bytes of a row
and on the values read from them. -/
lemma evaluate_rawTuple {tableAlias : String} {info : TableInfo} {tuple : Tuple} {expr : Expression}
    (hexpr : expr.RefersTo [⟨tableAlias, info, 0⟩])
    (h : columnValues (rawTuple r) info.schema = pure tuple.values) :
    expr.evaluate (rawTuple r) info.schema = expr.evaluate tuple info.schema := by
  unfold Expression.evaluate
  apply Expression.evaluateWith_congr
  intro c hc
  obtain ⟨scope, hscope, -, hlt⟩ := hexpr c hc
  obtain rfl := List.mem_singleton.1 hscope
  exact getValueAt_rawTuple h hlt

/-- A scan with a predicate keeps the rows that satisfy it. -/
lemma scanRows_filter {tableAlias : String} {info : TableInfo}
    (hpredicate : predicate.RefersTo [⟨tableAlias, info, 0⟩])
    (h : scanRows (scanRow .null info.schema) live = pure rows)
    (hkeep : ∀ row ∈ rows, accepts predicate (fun e => e.evaluate row.1 info.schema) =
      pure (keep row.1)) :
    scanRows (scanRow predicate info.schema) live = pure (rows.filter fun row => keep row.1) := by
  induction live generalizing rows with
  | nil =>
    cases h
    rfl
  | cons r live ih =>
    obtain ⟨o, ho, hrest⟩ := Cpp.bind_eq_pure.1 h
    obtain ⟨rows', hrows', heq⟩ := Cpp.bind_eq_pure.1 hrest
    obtain ⟨tuple, rfl, hvalues, hscan⟩ := scanRow_null ho
    cases heq
    have hhead := hkeep (tuple, r.1) (by simp)
    have hraw : accepts predicate (fun e => e.evaluate (rawTuple r) info.schema) =
        pure (keep tuple) := by
      rw [← hhead]
      unfold accepts
      dsimp only
      rw [evaluate_rawTuple hpredicate hvalues]
    rw [scanRows, hscan predicate _ hraw, pure_bind,
      ih hrows' fun row hrow => hkeep row (by simp [hrow]),
      pure_bind]
    cases hb : keep tuple <;> simp [hb]

/-- The outcome of a scan with a predicate. -/
lemma TableContents.hasOutcome_seqScan {ctx : ExecutorContext} {info : TableInfo}
    {tuples : List Tuple} {tableAlias : String} {std : StandardLibrary}
    (h : TableContents ctx info tuples) (hpredicate : predicate.RefersTo [⟨tableAlias, info, 0⟩])
    (hkeep : ∀ tuple ∈ tuples, accepts predicate (fun e => e.evaluate tuple info.schema) =
      pure (keep tuple)) :
    HasOutcome std (.seqScan info.schema info.oid predicate) ctx (some (tuples.filter keep)) := by
  obtain ⟨pages, rows, htable, hrows, rfl⟩ := h.scanned
  have hfilter := scanRows_filter hpredicate hrows fun row hrow =>
    hkeep row.1 (List.mem_map_of_mem hrow)
  refine ⟨rows.filter fun row => keep row.1, ?_, pages.length + (liveRows pages).length + 1,
    fun fuel hfuel => ?_⟩
  · rw [List.filter_map]
    rfl
  · exact htable.yields_seqScan h.registered (by omega) (by omega) hfilter

end Scans

/-! ## The rows of a table -/

section Rows

variable (stof : String → Cpp (BitVec 32)) (tableAlias : String) (info : TableInfo)

/-- The value of an expression on a row of the table. -/
def Node.valueOn (node : Node) (tuple : Tuple) : Cpp Value := do
  let expr ← bindExpression stof [⟨tableAlias, info, 0⟩] node
  expr.evaluate tuple info.schema

/-- Whether a row satisfies the `WHERE` clause. -/
def SelectStmt.chooses (select : SelectStmt) (tuple : Tuple) : Cpp Bool :=
  if select.whereClause.isNull then pure true
  else do
    let predicate ← bindExpression stof [⟨tableAlias, info, 0⟩] select.whereClause
    accepts predicate fun e => e.evaluate tuple info.schema

/-- The rows that satisfy the `WHERE` clause. -/
def SelectStmt.chosen (select : SelectStmt) (rows : List Tuple) : List Tuple :=
  rows.filter fun tuple => (select.chooses stof tableAlias info tuple).result == some true

variable {stof tableAlias info} {select : SelectStmt} {ctx : ExecutorContext}
  {std : StandardLibrary} {rows : List Tuple} {plan : PlanNode}

/-- The plan of a table with a `WHERE` clause, and its outcome. -/
lemma hasOutcome_where (h : TableContents ctx info rows)
    (hplan : bindWhere stof [⟨tableAlias, info, 0⟩] select.whereClause
      (.seqScan info.schema info.oid .null) = pure plan)
    (hchooses : ∀ tuple ∈ rows, ∃ b, select.chooses stof tableAlias info tuple = pure b) :
    (∃ predicate, plan = .seqScan info.schema info.oid predicate) ∧
      HasOutcome std plan ctx (some (select.chosen stof tableAlias info rows)) := by
  have hkeep : ∀ (predicate : Expression), (∀ tuple, select.chooses stof tableAlias info tuple =
      accepts predicate fun e => e.evaluate tuple info.schema) →
      ∀ tuple ∈ rows, accepts predicate (fun e => e.evaluate tuple info.schema) =
        pure ((select.chooses stof tableAlias info tuple).result == some true) := by
    intro predicate heq tuple htuple
    obtain ⟨b, hb⟩ := hchooses tuple htuple
    rw [← heq, hb]
    cases b <;> rfl
  unfold bindWhere at hplan
  cases hnull : select.whereClause.isNull with
  | true =>
    rw [hnull] at hplan
    cases hplan
    have hnone : Expression.null.RefersTo [⟨tableAlias, info, 0⟩] :=
      fun c hc => absurd hc List.not_mem_nil
    refine ⟨⟨.null, rfl⟩, h.hasOutcome_seqScan hnone (hkeep .null fun tuple => ?_)⟩
    unfold SelectStmt.chooses
    rw [hnull]
    rfl
  | false =>
    rw [hnull, if_neg Bool.false_ne_true] at hplan
    obtain ⟨predicate, hpredicate, hplan⟩ := Cpp.bind_eq_pure.1 hplan
    cases hplan
    refine ⟨⟨predicate, rfl⟩, h.hasOutcome_seqScan (bindExpression_refersTo hpredicate)
      (hkeep predicate fun tuple => ?_)⟩
    unfold SelectStmt.chooses
    rw [hnull, if_neg Bool.false_ne_true, hpredicate]
    rfl

end Rows

end OneBase
