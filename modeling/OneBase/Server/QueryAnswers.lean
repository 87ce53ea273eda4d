import OneBase.Binder.SelectTyping
import OneBase.Execution.MoreFuel
import OneBase.Execution.Progress
import OneBase.Server.ShownResults

set_option relaxedAutoImplicit false
set_option autoImplicit false

/-!
# The answers to a query

A statement has one answer: more fuel for the loops of the model does not change it. For a query
whose plan passes the check of `Progress`, this answer is a result, never an error, and for a
`SELECT` from one table the result has the types that the binder computed.

## Main definitions

* `OneBase.PlanNode.hasExactKeys` — the joins of the plan do not compare `FLOAT` columns.

## Main results

* `OneBase.serves_unique` — the server has at most one answer.
* `OneBase.serves_iff_of_isTotal` — the answer to a query that cannot fail.
* `OneBase.hasTypes_of_serves` — the types of the answer to a `SELECT`.
-/

namespace OneBase

open Exec

/-! ## One answer -/

section Unique

variable {std : StandardLibrary} {stof : String → Cpp (BitVec 32)} {parse : Bytes → ParseResult}
  {fuel fuel' : ℕ} {sql : Bytes} {ctx ctx₁ ctx₂ : ExecutorContext} {answer answer' : Message}

/-- More fuel does not change the answer. -/
lemma handleQuery_of_le (hle : fuel ≤ fuel')
    (h : handleQuery std stof parse fuel sql ctx = some (answer, ctx₁)) :
    handleQuery std stof parse fuel' sql ctx = some (answer, ctx₁) := by
  have hextends : Extends Eq (queryResult std stof parse fuel sql)
      (queryResult std stof parse fuel' sql) := by
    refine Extends.self_bind _ fun catalog => Extends.self_bind _ fun plan => ?_
    refine Extends.self_bind _ fun optimized => ?_
    refine (extends_executePlan std hle optimized).bind fun result result' hresult => ?_
    subst hresult
    exact extends_self _
  obtain ⟨r, hrun, hr⟩ := Option.map_eq_some_iff.1 h
  exact Option.map_eq_some_iff.2 ⟨r, hextends.runIn_eq hrun, hr⟩

/-- The server has at most one answer to a statement. -/
lemma serves_unique (h : Serves std stof parse ctx sql answer ctx₁)
    (h' : Serves std stof parse ctx sql answer' ctx₂) : answer = answer' ∧ ctx₁ = ctx₂ := by
  obtain ⟨fuel, h⟩ := h
  obtain ⟨fuel', h'⟩ := h'
  have hmax := handleQuery_of_le (le_max_left fuel fuel') h
  exact Prod.mk.inj (Option.some.inj
    (hmax.symm.trans (handleQuery_of_le (le_max_right fuel fuel') h')))

end Unique

/-! ## Queries that cannot fail -/

/-- The joins that the optimizer replaces compare no `FLOAT` columns, whose texts are rounded. -/
def PlanNode.hasExactKeys : PlanNode → Bool
  | .nestedLoopJoin _ left right predicate =>
    left.hasExactKeys && right.hasExactKeys &&
      (joinKeys predicate).all fun keys => decide (keys.1.getReturnType ≠ .float)
  | .hashJoin _ left right _ _ => left.hasExactKeys && right.hasExactKeys
  | .aggregation _ child _ _ _ | .sort _ child _ | .limit _ child _ | .projection _ child _ =>
    child.hasExactKeys
  | _ => true

section Answers

variable {std : StandardLibrary} {stof : String → Cpp (BitVec 32)} {parse : Bytes → ParseResult}
  {sql body : Bytes} {ctx ctx' : ExecutorContext} {plan left right : PlanNode}
  {predicate leftKeyExpr rightKeyExpr : Expression} {type : TypeId} {colIdx : ℕ}

/-- A type that `=` takes is a type of keys, if it is not `FLOAT`. -/
lemma isKeyType_of_takes (htakes : ComparisonType.equal.takes type = true) (hne : type ≠ .float) :
    Value.IsKeyType type := by
  cases type with
  | integer => exact .inl rfl
  | boolean => exact .inr (.inl rfl)
  | varchar => exact .inr (.inr rfl)
  | float => exact absurd rfl hne
  | invalid => cases htakes

/-- The rows of such a plan have its columns as keys. -/
lemma keyedBy_column (hctx : ctx.Readable) (h : plan.isTotal ctx.catalog = true)
    (hcol : plan.getOutputSchema.types[colIdx]? = some type) :
    KeyedBy std ctx plan (.columnValue 0 colIdx type) type := by
  obtain ⟨rows, hrows, hfits⟩ := @exists_denotes_of_isTotal std ctx plan hctx h
  refine ⟨rows, hrows, fun row hrow => ?_⟩
  obtain ⟨v, hv, hvfits⟩ := exists_getElem?_of_forall₂ (hfits row hrow) hcol
  exact ⟨v, getValueAt_of_getElem? hv, hvfits.hasType⟩

/-- The children of a join that is replaced have keys of one type. -/
lemma keyedBy_joinKeys (hctx : ctx.Readable) (hl : left.isTotal ctx.catalog = true)
    (hr : right.isTotal ctx.catalog = true)
    (hfilter : predicate.isFilter
      (joinScope left.getOutputSchema.types right.getOutputSchema.types) = true)
    (hkeys : joinKeys predicate = some (leftKeyExpr, rightKeyExpr))
    (hexact : leftKeyExpr.getReturnType ≠ .float) :
    ∃ type, Value.IsKeyType type ∧ KeyedBy std ctx left leftKeyExpr type ∧
      KeyedBy std ctx right rightKeyExpr type := by
  have hchecks : ∀ {l r : Expression}, Expression.isFilter
      (joinScope left.getOutputSchema.types right.getOutputSchema.types)
      (.comparison l r .equal) = true →
      l.checks (joinScope left.getOutputSchema.types right.getOutputSchema.types) = true ∧
      r.checks (joinScope left.getOutputSchema.types right.getOutputSchema.types) = true ∧
      l.getReturnType = r.getReturnType ∧
      ComparisonType.equal.takes l.getReturnType = true := by
    intro l r h
    simp only [Expression.isFilter, Expression.checks, reduceCtorEq, decide_false, Bool.false_or,
      Bool.and_eq_true, decide_eq_true_eq] at h
    obtain ⟨⟨⟨⟨⟨hl, hr⟩, heq⟩, htakes⟩, -⟩, -⟩ := h
    exact ⟨hl, hr, heq, htakes⟩
  obtain ⟨lCol, lType, rCol, rType, rfl, rfl, rfl | rfl⟩ := joinKeys_eq hkeys
  · obtain ⟨hlcol, hrcol, htypes, htakes⟩ := hchecks hfilter
    obtain rfl : lType = rType := htypes
    exact ⟨lType, isKeyType_of_takes htakes hexact,
      keyedBy_column hctx hl (of_decide_eq_true hlcol),
      keyedBy_column hctx hr (of_decide_eq_true hrcol)⟩
  · obtain ⟨hrcol, hlcol, htypes, htakes⟩ := hchecks hfilter
    obtain rfl : rType = lType := htypes
    exact ⟨rType, isKeyType_of_takes htakes hexact,
      keyedBy_column hctx hl (of_decide_eq_true hlcol),
      keyedBy_column hctx hr (of_decide_eq_true hrcol)⟩

/-- The joins that the optimizer replaces have keys. -/
lemma keysFit_of_isTotal (hctx : ctx.Readable) (htotal : plan.isTotal ctx.catalog = true)
    (hexact : plan.hasExactKeys = true) : plan.KeysFit std ctx := by
  induction plan with
  | nestedLoopJoin out left right predicate ihl ihr =>
    simp only [PlanNode.isTotal, Bool.and_eq_true] at htotal
    simp only [PlanNode.hasExactKeys, Bool.and_eq_true, Option.all_eq_true] at hexact
    obtain ⟨⟨⟨hl, hr⟩, -⟩, hfilter⟩ := htotal
    obtain ⟨⟨hlexact, hrexact⟩, hkeyexact⟩ := hexact
    refine ⟨ihl hl hlexact, ihr hr hrexact, fun leftKeyExpr rightKeyExpr hkeys => ?_⟩
    exact keyedBy_joinKeys hctx hl hr hfilter hkeys (of_decide_eq_true (hkeyexact _ hkeys))
  | hashJoin out left right _ _ ihl ihr =>
    simp only [PlanNode.isTotal, Bool.and_eq_true] at htotal
    simp only [PlanNode.hasExactKeys, Bool.and_eq_true] at hexact
    exact ⟨ihl (by simp [htotal]) hexact.1, ihr (by simp [htotal]) hexact.2⟩
  | aggregation out child _ _ _ ih | sort out child _ ih | limit out child _ ih
  | projection out child _ ih =>
    simp only [PlanNode.isTotal, Bool.and_eq_true] at htotal
    exact ih (by simp [htotal]) hexact
  | null | seqScan | indexScan | insert | delete | update | utility => trivial

/-- **The answer to a query that cannot fail.** Over tables whose rows can be read, the server
answers a query whose plan passes the check with the text of the rows that the plan denotes, one
value of its type for each column, and with nothing else: it never answers with an error. The
database stays as it is. -/
theorem serves_iff_of_isTotal (hctx : ctx.Readable)
    (hbind : bindQuery stof ctx.catalog (parse sql) = pure plan)
    (htotal : plan.isTotal ctx.catalog = true) (hexact : plan.hasExactKeys = true)
    (hscans : plan.KeepsScans (some ctx.catalog)) :
    ∃ rows, DenotesRows std ctx plan rows true ∧
      (∀ row ∈ rows, HasTypes plan.getOutputSchema.types row.1.values) ∧
      ∀ answer ctx', Serves std stof parse ctx sql answer ctx' ↔
        answer = (.result, resultText plan.getOutputSchema (rows.map Prod.fst)) ∧ ctx' = ctx := by
  obtain ⟨rows, hrows, hfits⟩ := @exists_denotes_of_isTotal std ctx plan hctx htotal
  refine ⟨rows, hrows, fun row hrow => (hfits row hrow).hasTypes, fun answer ctx' => ?_⟩
  have hserves : Serves std stof parse ctx sql
      (.result, resultText plan.getOutputSchema (rows.map Prod.fst)) ctx :=
    (serves_result_iff hctx.scannable hbind (isQuery_of_isTotal htotal) hscans
      (keysFit_of_isTotal hctx htotal hexact)).2 ⟨rfl, rows, hrows, rfl⟩
  constructor
  · exact fun h => serves_unique h hserves
  · rintro ⟨rfl, rfl⟩
    exact hserves

end Answers

/-- `SELECT a.x FROM t AS a JOIN t AS b ON a.x = b.x`. -/
def selectJoined : Statement :=
  .selectStmt
    { targetList := [{ val := .columnRef [.string "a", .string "x"] }]
      fromClause := [.joinExpr .inner .regular (.rangeVar ⟨"t", some "a"⟩)
        (.rangeVar ⟨"t", some "b"⟩) [] (.aExpr .op ["="] (.columnRef [.string "a", .string "x"])
          (.columnRef [.string "b", .string "x"]))] }

/-- The plan of the statement. -/
def planJoined : PlanNode :=
  .projection (.new [.new "x" .integer])
    (.nestedLoopJoin (.new [.new "x" .integer, .new "x" .integer])
      (.seqScan (smallTable ["x"]).schema 1 .null) (.seqScan (smallTable ["x"]).schema 1 .null)
      (.comparison (.columnValue 0 0 .integer) (.columnValue 1 0 .integer) .equal))
    [.columnValue 0 0 .integer]

/-- The answer to the join, which is replaced by a hash join. -/
theorem serves_iff_of_isTotal_joined :
    ∃ rows, DenotesRows default (smallContext ["x"] [[1], [2]] none) planJoined rows true ∧
      (∀ row ∈ rows, HasTypes [.integer] row.1.values) ∧
      ∀ answer ctx', Serves default (fun _ => Cpp.undefined) (fun _ => .success [selectJoined])
          (smallContext ["x"] [[1], [2]] none) [] answer ctx' ↔
        answer = (.result, resultText planJoined.getOutputSchema (rows.map Prod.fst)) ∧
          ctx' = smallContext ["x"] [[1], [2]] none := by
  have hbind : bindQuery (fun _ => Cpp.undefined) (smallContext ["x"] [[1], [2]] none).catalog
      (.success [selectJoined]) = pure planJoined := rfl
  have hctx : (smallContext ["x"] [[1], [2]] none).Readable :=
    readable_smallContext (by decide) (by decide)
  exact @serves_iff_of_isTotal default _ (fun _ => .success [selectJoined]) [] _ planJoined
    hctx hbind (by decide) (by decide) ⟨rfl, rfl⟩

/-! ## The types of a `SELECT` -/

section Types

variable {std : StandardLibrary} {stof : String → Cpp (BitVec 32)} {parse : Bytes → ParseResult}
  {sql body : Bytes} {ctx ctx' : ExecutorContext}

/-- If the server answers with a result then the binder has made a plan. -/
lemma exists_bind_of_serves (h : Serves std stof parse ctx sql (.result, body) ctx') :
    ∃ plan, bindQuery stof ctx.catalog (parse sql) = pure plan := by
  obtain ⟨fuel, h⟩ := h
  rcases handleQuery_eq_some_iff.1 h with ⟨body', hret, -⟩ | ⟨e, -, heq⟩
  · obtain ⟨catalog, c, hcatalog, hret⟩ := returns_bind.1 hret
    obtain ⟨rfl, rfl⟩ := returns_getCatalog.1 hcatalog
    obtain ⟨plan, c, hplan, -⟩ := returns_bind.1 hret
    exact ⟨plan, (returns_ofCpp.1 hplan).1⟩
  · cases heq

/-- **The types of a `SELECT`.** For a `SELECT` from one table without an index, without aggregates
and ordered by integers or strings, the result of the server is the text of rows that have, for each
column that the binder computed, a value of its type that is not null. -/
theorem hasTypes_of_serves {select : SelectStmt} {rv : RangeVar} {info : TableInfo}
    (hctx : ctx.Scannable) (hparse : parse sql = .success [.selectStmt select])
    (hselect : select.IsTyped stof rv info)
    (hname : lookupTable ctx.catalog rv.relname = pure info) (hinfo : info.IsPlain ctx.catalog)
    (hserves : Serves std stof parse ctx sql (.result, body) ctx') :
    ∃ plan rows, bindSelect stof ctx.catalog select = pure plan ∧
      DenotesRows std ctx plan rows true ∧
      body = resultText plan.getOutputSchema (rows.map Prod.fst) ∧
      ∀ row ∈ rows, HasTypes plan.getOutputSchema.types row.1.values := by
  obtain ⟨plan, hbind⟩ := exists_bind_of_serves hserves
  have hplan : bindSelect stof ctx.catalog select = pure plan := by
    rw [hparse] at hbind
    exact hbind
  have htypes := types_bindSelect hselect hname hinfo hplan
  obtain ⟨-, rows, hrows, rfl⟩ := (serves_result_iff hctx hbind
    (isQuery_of_wellTyped htypes.wellTyped) htypes.keepsScans (htypes.keysFit std ctx)).1 hserves
  exact ⟨plan, rows, hplan, hrows, rfl, hrows.hasTypes htypes.wellTyped⟩

end Types

/-- The result of `SELECT x FROM t`. -/
theorem hasTypes_of_serves_selectX :
    ∃ body, Serves default (fun _ => Cpp.undefined) (fun _ => .success [.selectStmt selectX])
        (smallContext ["x"] [[1], [2]] none) [] (.result, body)
        (smallContext ["x"] [[1], [2]] none) ∧
      ∃ plan rows, bindSelect (fun _ => Cpp.undefined)
          (smallContext ["x"] [[1], [2]] none).catalog selectX = pure plan ∧
        DenotesRows default (smallContext ["x"] [[1], [2]] none) plan rows true ∧
        body = resultText plan.getOutputSchema (rows.map Prod.fst) ∧
        ∀ row ∈ rows, HasTypes plan.getOutputSchema.types row.1.values := by
  have hctx : (smallContext ["x"] [[1], [2]] none).Readable :=
    readable_smallContext (by decide) (by decide)
  have hbind : bindQuery (fun _ => Cpp.undefined) (smallContext ["x"] [[1], [2]] none).catalog
      (.success [.selectStmt selectX]) = pure planX := rfl
  obtain ⟨rows, hrows, -⟩ := @exists_denotes_of_isTotal default _ planX hctx (by decide)
  have hserves := (@serves_result_iff default _ (fun _ => .success [.selectStmt selectX]) [] _ _ _
    _ hctx.scannable hbind rfl rfl trivial).2 ⟨rfl, rows, hrows, rfl⟩
  have htyped : selectX.IsTyped (fun _ => Cpp.undefined) ⟨"t", none⟩ (smallTable ["x"]) :=
    ⟨rfl, by decide, by simp [selectX]⟩
  exact ⟨_, hserves, hasTypes_of_serves hctx.scannable rfl htyped rfl ⟨rfl, by decide, rfl⟩ hserves⟩

end OneBase
