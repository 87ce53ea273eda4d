import OneBase.Binder.Meaning
import OneBase.Execution.Results
import OneBase.Execution.SeqScan
import OneBase.Execution.SmallTables
import OneBase.Execution.Sorting
import Mathlib.Data.List.Lex

set_option relaxedAutoImplicit false
set_option autoImplicit false

/-!
# Queries on one table

A `SELECT` on a table of integers filters its rows, sorts them, takes the first of them, and
projects these. What it returns is said on the parse tree, by the meaning of its expressions.

## Main definitions

* `OneBase.SelectStmt.IsPipeline` — the statements.
* `OneBase.SelectStmt.condition`, `sortKeys`, `outputValues` — what the clauses mean on a row.
* `OneBase.Comparable` — the sort can compare these keys.
* `OneBase.SelectStmt.Answers` — the plan returns what the statement asks for.

## Main results

* `OneBase.select_answers` — the plan of the binder does.
* `OneBase.not_answers_boolean_key` — a statement whose sort throws.
-/

namespace OneBase

open Exec TableHeap

/-! ## The statements and their meaning -/

/-- What an expression denotes on a row of a table of integers. -/
def datumAt (tableAlias : String) (schema : Schema) (b : List UInt8) (node : Node) : Option Datum :=
  meaning (columnDatum tableAlias schema b) node

/-- The order of the values of a key. -/
def Datum.rank (isAscending : Bool) : Datum → ℤ
  | .int i => if isAscending then i.toInt else -i.toInt
  | .bool b => if b then 1 else 0

/-- `ASC`, written or not. -/
def SortBy.isAscending (sortBy : SortBy) : Bool := decide (sortBy.sortbyDir ≠ .desc)

/-- A sort can compare these keys: where they first differ, they are integers. -/
def Comparable : List Datum → List Datum → Prop
  | x :: xs, y :: ys => if x = y then Comparable xs ys else ∃ i j, x = .int i ∧ y = .int j
  | _, _ => True

/-- The target `*`. -/
def ResTarget.IsStar (res : ResTarget) : Prop := res.val = .aStar ∨ res.val = .columnRef [.aStar]

namespace SelectStmt

/-- The statement selects from one table all columns, or expressions over the columns. -/
structure IsPipeline (select : SelectStmt) (rv : RangeVar) (schema : Schema) : Prop where
  fromClause : select.fromClause = [.rangeVar rv]
  targets : (∃ res : ResTarget, select.targetList = [res] ∧ res.IsStar) ∨
    select.targetList ≠ [] ∧ ∀ res ∈ select.targetList, IsPlain rv.getAlias schema res.val
  whereClause : select.whereClause.isNull = true ∨ IsPlain rv.getAlias schema select.whereClause
  sortClause : ∀ sortBy ∈ select.sortClause, IsPlain rv.getAlias schema sortBy.node
  limitCount : select.limitCount = .null ∨
    ∃ ival : BitVec 64, select.limitCount = .aConst (.integer ival) ∧ 0 ≤ ival.toInt

section Meaning

variable (select : SelectStmt) (tableAlias : String) (schema : Schema)

/-- Whether a row satisfies the `WHERE` clause. -/
def condition (b : List UInt8) : Option Bool :=
  if select.whereClause.isNull then some true
  else
    match datumAt tableAlias schema b select.whereClause with
    | some (.bool keep) => some keep
    | _ => none

/-- The values of the `ORDER BY` keys on a row. -/
def sortKeys (b : List UInt8) : Option (List Datum) :=
  select.sortClause.mapM fun sortBy => datumAt tableAlias schema b sortBy.node

/-- The place of a row in the order of `ORDER BY`: rows are in order if these lists are in
lexicographic order. -/
def sortRank (b : List UInt8) : List ℤ :=
  select.sortClause.map fun sortBy =>
    (datumAt tableAlias schema b sortBy.node).elim 0 (Datum.rank sortBy.isAscending)

/-- The values of a target on a row. -/
def targetValues (b : List UInt8) (res : ResTarget) : Option (List Value) :=
  match res.val with
  | .aStar => some (integersOf schema.columns.length b)
  | .columnRef [.aStar] => some (integersOf schema.columns.length b)
  | val => (datumAt tableAlias schema b val).map fun x => [x.toValue]

/-- The values that a row contributes to the result. -/
def outputValues (b : List UInt8) : Option (List Value) :=
  (select.targetList.mapM (targetValues tableAlias schema b)).map List.flatten

/-- The rows that the `LIMIT` lets pass. -/
def limitRows {α : Type} (rows : List α) : List α :=
  match select.limitCount with
  | .aConst (.integer ival) => rows.take ival.toInt.toNat
  | _ => rows

/-- The rows that satisfy the `WHERE` clause, in the order of the heap. -/
def selected (rows : List (RID × List UInt8)) : List (RID × List UInt8) :=
  rows.filter fun r => select.condition tableAlias schema r.2 == some true

/-- The plan returns the projection of the first rows of a permutation of the selected ones that
is sorted by the `ORDER BY` keys, or is in the order of the heap without them, if the targets have
values on these rows. -/
def Answers (std : StandardLibrary) (plan : PlanNode) (ctx : ExecutorContext)
    (rows : List (RID × List UInt8)) : Prop :=
  ∃ sorted, sorted.Perm (select.selected tableAlias schema rows) ∧
    sorted.Pairwise (fun r s =>
      select.sortRank tableAlias schema r.2 ≤ select.sortRank tableAlias schema s.2) ∧
    (select.sortClause = [] → sorted = select.selected tableAlias schema rows) ∧
    ∀ out, (select.limitRows sorted).mapM (fun r => select.outputValues tableAlias schema r.2) =
        some out →
      ∃ result, Completes std plan ctx result ctx ∧ result.map Tuple.values = out

end Meaning

end SelectStmt

/-! ## Binding the clauses -/

section Clauses

variable {stof : String → Cpp (BitVec 32)} {tableAlias : String} {info : TableInfo}
  {tupleIdx : ℕ}

/-- The keys of the sort mean those of the clause. -/
def KeysMean (tableAlias : String) (schema : Schema) (sortClause : List SortBy)
    (orderBys : List (Bool × Expression)) : Prop :=
  List.Forall₂ (fun sortBy orderBy => orderBy.1 = sortBy.isAscending ∧
    Means tableAlias schema orderBy.2 sortBy.node) sortClause orderBys

/-- The keys of a sort that are plain expressions are bound to expressions that mean them. -/
lemma exists_orderBys {sortClause : List SortBy}
    (h : ∀ sortBy ∈ sortClause, IsPlain tableAlias info.schema sortBy.node) :
    ∃ orderBys, sortClause.mapM (bindSortBy stof [⟨tableAlias, info, tupleIdx⟩]) = pure orderBys ∧
      KeysMean tableAlias info.schema sortClause orderBys := by
  induction sortClause with
  | nil => exact ⟨[], rfl, .nil⟩
  | cons sortBy sortClause ih =>
    obtain ⟨orderBys, horderBys, hmeans⟩ := ih fun s hs => h s (List.mem_cons_of_mem sortBy hs)
    have hbinds : Binds stof tableAlias info tupleIdx sortBy.node :=
      (h sortBy List.mem_cons_self).binds
    obtain ⟨expr, hexpr, -, hexprmeans⟩ := hbinds
    refine ⟨(sortBy.isAscending, expr) :: orderBys, ?_, .cons ⟨rfl, hexprmeans⟩ hmeans⟩
    rw [List.mapM_cons, bindSortBy, hexpr, horderBys]
    rfl

/-- The output expressions mean the targets. -/
def TargetsMean (tableAlias : String) (schema : Schema) (targetList : List ResTarget)
    (exprs : List Expression) : Prop :=
  List.Forall₂ (fun res expr => ¬ res.IsStar ∧ expr ≠ .null ∧ Means tableAlias schema expr res.val)
    targetList exprs

/-- An expression over the columns is not a star. -/
lemma IsPlain.not_isStar {schema : Schema} {res : ResTarget}
    (h : IsPlain tableAlias schema res.val) : ¬ res.IsStar := by
  rintro (hval | hval) <;> rw [hval] at h <;> cases h

/-- A plain target is neither a star nor an aggregate. -/
lemma IsPlain.bindTarget {res : ResTarget} {targets : Targets} {scopes : List TableScope}
    {schema : Schema} (h : IsPlain tableAlias schema res.val) :
    OneBase.bindTarget stof scopes targets res = bindRegular stof scopes targets res := by
  unfold OneBase.bindTarget
  cases hval : res.val <;> rw [hval] at h <;> cases h <;> rfl

/-- Plain targets are bound, in their order, to output expressions that mean them.

**Proof sketch.** Induction on the targets, with what the loop has collected so far generalized. -/
lemma exists_targets {targetList : List ResTarget}
    (h : ∀ res ∈ targetList, IsPlain tableAlias info.schema res.val) (targets : Targets) :
    ∃ exprs names, targetList.foldlM (bindTarget stof [⟨tableAlias, info, tupleIdx⟩]) targets =
        pure { targets with
          outputExprs := targets.outputExprs ++ exprs
          outputNames := targets.outputNames ++ names } ∧
      names.length = exprs.length ∧ TargetsMean tableAlias info.schema targetList exprs := by
  induction targetList generalizing targets with
  | nil => exact ⟨[], [], by simp, rfl, .nil⟩
  | cons res targetList ih =>
    have hres := h res List.mem_cons_self
    have hbinds : Binds stof tableAlias info tupleIdx res.val := hres.binds
    obtain ⟨expr, hexpr, hne, hmeans⟩ := hbinds
    obtain ⟨exprs, names, hfold, hlen, hrest⟩ := ih
      (fun r hr => h r (List.mem_cons_of_mem res hr))
      { targets with
        outputExprs := targets.outputExprs ++ [expr]
        outputNames := targets.outputNames ++ [outputName res targets.outputNames.length] }
    refine ⟨expr :: exprs, outputName res targets.outputNames.length :: names, ?_, by simp [hlen],
      .cons ⟨hres.not_isStar, hne, hmeans⟩ hrest⟩
    rw [List.foldlM_cons, hres.bindTarget, bindRegular, hexpr, pure_bind, pure_bind, hfold]
    simp

/-- The columns of a projection exist, since its expressions do. -/
lemma exists_projectedColumns {targets : List (String × Expression)}
    (h : ∀ target ∈ targets, target.2 ≠ .null) :
    ∃ columns, targets.mapM (fun target => projectedColumn target.1 target.2) = pure columns := by
  induction targets with
  | nil => exact ⟨[], rfl⟩
  | cons target targets ih =>
    obtain ⟨columns, hcolumns⟩ := ih fun t ht => h t (List.mem_cons_of_mem target ht)
    obtain ⟨name, expr⟩ := target
    have hcolumn : ∃ column, projectedColumn name expr = pure column := by
      cases expr with
      | null => exact absurd rfl (h (name, .null) List.mem_cons_self)
      | columnValue tupleIdx colIdx retType => exact ⟨_, rfl⟩
      | constantValue val => exact ⟨_, rfl⟩
      | comparison left right compType => exact ⟨_, rfl⟩
      | arithmetic left right arithType => exact ⟨_, rfl⟩
      | logic left right logicType => exact ⟨_, rfl⟩
    obtain ⟨column, hcolumn⟩ := hcolumn
    exact ⟨column :: columns, by rw [List.mapM_cons, hcolumn, hcolumns]; rfl⟩

/-- The output expressions of plain targets are there. -/
lemma TargetsMean.ne_null {schema : Schema} {targetList : List ResTarget} {exprs : List Expression}
    (h : TargetsMean tableAlias schema targetList exprs) : ∀ expr ∈ exprs, expr ≠ .null := by
  induction h with
  | nil => simp
  | cons hhead _ ih =>
    intro expr hexpr
    rcases List.mem_cons.1 hexpr with rfl | hexpr
    · exact hhead.2.1
    · exact ih expr hexpr

/-- What the plan of a statement on one table is made of: the predicate of its scan, the keys of
its sort and, unless the target is a star, the expressions of its projection. -/
structure SelectStmt.Parts (select : SelectStmt) (rv : RangeVar) (schema : Schema) where
  predicate : Expression
  orderBys : List (Bool × Expression)
  projected : Option (Schema × List Expression)
  predicate_means : if select.whereClause.isNull then predicate = .null
    else predicate ≠ .null ∧ Means rv.getAlias schema predicate select.whereClause
  keys_mean : KeysMean rv.getAlias schema select.sortClause orderBys
  targets_mean : match projected with
    | none => ∃ res : ResTarget, select.targetList = [res] ∧ res.IsStar
    | some (_, exprs) => TargetsMean rv.getAlias schema select.targetList exprs

/-- The sort of a plan. -/
def sortPlan (orderBys : List (Bool × Expression)) (child : PlanNode) : PlanNode :=
  if orderBys.isEmpty then child else .sort child.getOutputSchema child orderBys

/-- The limit of a plan. -/
def limitPlan (limitCount : Node) (child : PlanNode) : PlanNode :=
  match limitCount with
  | .aConst (.integer ival) => .limit child.getOutputSchema child ival.toNat
  | _ => child

/-- The projection of a plan. -/
def projectionPlan (projected : Option (Schema × List Expression)) (child : PlanNode) : PlanNode :=
  match projected with
  | none => child
  | some (schema, exprs) => .projection schema child exprs

/-- The plan of a statement on one table. -/
def SelectStmt.Parts.plan {select : SelectStmt} {rv : RangeVar} {info : TableInfo}
    (parts : select.Parts rv info.schema) : PlanNode :=
  projectionPlan parts.projected (limitPlan select.limitCount
    (sortPlan parts.orderBys (.seqScan info.schema info.oid parts.predicate)))

/-- A plan that is there is asked for its schema. -/
lemma outputSchemaOf_eq {plan : PlanNode} (h : plan ≠ .null) :
    outputSchemaOf plan = pure plan.getOutputSchema := by
  cases plan <;> first | rfl | exact absurd rfl h

/-- A sort of a plan that is there is one. -/
lemma sortPlan_ne_null {orderBys : List (Bool × Expression)} {child : PlanNode}
    (h : child ≠ .null) : sortPlan orderBys child ≠ .null := by
  unfold sortPlan
  split_ifs
  · exact h
  · simp

/-- The `FROM` clause of one table is a scan of it. -/
lemma bindFrom_table {catalog : Catalog} {rv : RangeVar}
    (htable : lookupTable catalog rv.relname = pure info) :
    bindFrom stof catalog [.rangeVar rv] =
      pure ([⟨rv.getAlias, info, 0⟩], .seqScan info.schema info.oid .null) := by
  rw [bindFrom, if_neg (List.cons_ne_nil _ _), List.foldlM_cons, bindFromItem, htable]
  rfl

/-- A plain `WHERE` clause becomes the predicate of the scan, which means the same; without the
clause the scan has no predicate. -/
lemma exists_bindWhere {whereClause : Node}
    (h : whereClause.isNull = true ∨ IsPlain tableAlias info.schema whereClause) :
    ∃ predicate, bindWhere stof [⟨tableAlias, info, tupleIdx⟩] whereClause
        (.seqScan info.schema info.oid .null) =
          pure (.seqScan info.schema info.oid predicate) ∧
      if whereClause.isNull then predicate = .null
      else predicate ≠ .null ∧ Means tableAlias info.schema predicate whereClause := by
  unfold bindWhere
  cases hnull : whereClause.isNull with
  | true => exact ⟨.null, rfl, rfl⟩
  | false =>
    have hbinds : Binds stof tableAlias info tupleIdx whereClause := by
      rcases h with h | h
      · rw [hnull] at h
        cases h
      · exact h.binds
    obtain ⟨predicate, hpredicate, hne, hmeans⟩ := hbinds
    refine ⟨predicate, ?_, hne, hmeans⟩
    rw [if_neg Bool.false_ne_true, hpredicate]
    rfl

/-- Plain keys become a sort, whose keys mean the same; without the clause there is no sort. -/
lemma exists_bindSort {sortClause : List SortBy} {child : PlanNode} (hchild : child ≠ .null)
    (h : ∀ sortBy ∈ sortClause, IsPlain tableAlias info.schema sortBy.node) :
    ∃ orderBys, bindSort stof [⟨tableAlias, info, tupleIdx⟩] sortClause child =
        pure (sortPlan orderBys child) ∧
      KeysMean tableAlias info.schema sortClause orderBys := by
  have hkeys : ∃ orderBys,
      sortClause.mapM (bindSortBy stof [⟨tableAlias, info, tupleIdx⟩]) = pure orderBys ∧
        KeysMean tableAlias info.schema sortClause orderBys := exists_orderBys h
  obtain ⟨orderBys, horderBys, hmeans⟩ := hkeys
  refine ⟨orderBys, ?_, hmeans⟩
  unfold bindSort sortPlan
  cases hmeans with
  | nil => rfl
  | cons _ _ =>
    rw [horderBys, outputSchemaOf_eq hchild]
    rfl

/-- A `LIMIT` with a number that is not negative becomes a limit; without the clause there is none.
-/
lemma bindLimit_eq {limitCount : Node} {child : PlanNode} (hchild : child ≠ .null)
    (h : limitCount = .null ∨
      ∃ ival : BitVec 64, limitCount = .aConst (.integer ival) ∧ 0 ≤ ival.toInt) :
    bindLimit limitCount child = pure (limitPlan limitCount child) := by
  rcases h with rfl | ⟨ival, rfl, -⟩
  · rfl
  · rw [bindLimit, outputSchemaOf_eq hchild]
    rfl

/-- The targets, bound one after the other. -/
lemma exists_bindTargets {select : SelectStmt} {rv : RangeVar}
    (h : select.IsPipeline rv info.schema) :
    ∃ targets projected, select.targetList.foldlM
        (bindTarget stof [⟨rv.getAlias, info, tupleIdx⟩]) {} = pure targets ∧
      targets.hasAggregates = false ∧
      (∀ child, bindProjection targets child = pure (projectionPlan projected child)) ∧
      match projected with
      | none => ∃ res : ResTarget, select.targetList = [res] ∧ res.IsStar
      | some (_, exprs) => TargetsMean rv.getAlias info.schema select.targetList exprs := by
  rcases h.targets with ⟨res, hlist, hstar⟩ | ⟨hne, hplain⟩
  · have htarget : bindTarget stof [⟨rv.getAlias, info, tupleIdx⟩] {} res =
        pure { isStar := true } := by
      unfold bindTarget
      rcases hstar with hval | hval <;> rw [hval]
    refine ⟨{ isStar := true }, none, ?_, rfl, fun child => rfl, res, hlist, hstar⟩
    rw [hlist, List.foldlM_cons, htarget]
    rfl
  · have hexists := @exists_targets stof rv.getAlias info tupleIdx _ hplain {}
    obtain ⟨exprs, names, hfold, hlen, hmeans⟩ := hexists
    obtain ⟨columns, hcolumns⟩ := @exists_projectedColumns (names.zip exprs) fun target ht =>
      hmeans.ne_null target.2 (List.of_mem_zip ht).2
    refine ⟨_, some (.new columns, exprs), hfold, rfl, fun child => ?_, hmeans⟩
    have hexprs : exprs ≠ [] := by
      intro hnil
      have hlen := hmeans.length_eq
      rw [hnil] at hlen
      exact hne (List.length_eq_zero_iff.1 hlen)
    have hcond : (false = false ∧ false = false ∧ [] ++ exprs ≠ []) := ⟨rfl, rfl, hexprs⟩
    unfold bindProjection
    rw [if_pos hcond]
    dsimp only [List.nil_append]
    rw [hcolumns]
    rfl

/-- The binder puts the plan together. -/
lemma SelectStmt.IsPipeline.bindSelect {select : SelectStmt} {rv : RangeVar} {catalog : Catalog}
    (h : select.IsPipeline rv info.schema) (htable : lookupTable catalog rv.relname = pure info) :
    ∃ parts : select.Parts rv info.schema,
      OneBase.bindSelect stof catalog select = pure parts.plan := by
  have hwhere := @exists_bindWhere stof rv.getAlias info 0 _ h.whereClause
  obtain ⟨predicate, hpredicate, hpredmeans⟩ := hwhere
  have htargets := @exists_bindTargets stof info 0 _ _ h
  obtain ⟨targets, projected, hfold, hagg, hproject, htargetsmean⟩ := htargets
  have hsort := @exists_bindSort stof rv.getAlias info 0 _ (.seqScan info.schema info.oid predicate)
    (by simp) h.sortClause
  obtain ⟨orderBys, horderBys, hkeys⟩ := hsort
  refine ⟨⟨predicate, orderBys, projected, hpredmeans, hkeys, htargetsmean⟩, ?_⟩
  unfold OneBase.bindSelect
  rw [h.fromClause, bindFrom_table htable, pure_bind]
  dsimp only
  rw [hpredicate, pure_bind, hfold, pure_bind, bindAggregation, hagg, if_neg Bool.false_ne_true,
    pure_bind, horderBys, pure_bind, bindLimit_eq (sortPlan_ne_null (by simp)) h.limitCount,
    pure_bind, hproject]
  rfl

end Clauses

/-! ## Evaluation on rows -/

section Rows

variable {ctx : ExecutorContext} {tableInfo : TableInfo} {pages : Pages} {tableAlias : String}
  {schema schema' : Schema} {expr : Expression} {node : Node} {r s : RID × List UInt8}

/-- A schema counts no more columns than it has. -/
lemma Schema.getColumnCount_le (schema : Schema) : schema.getColumnCount ≤ schema.columns.length :=
  Nat.mod_le _ _

/-- On a row of the heap. -/
lemma Means.evaluate_raw (h : Means tableAlias tableInfo.schema expr node)
    (htable : IntegerTable ctx tableInfo pages) (hr : r ∈ liveRows pages) :
    (expr.evaluate (rawTuple r) tableInfo.schema).result =
      (datumAt tableAlias tableInfo.schema r.2 node).map Datum.toValue := by
  have hsize := (htable.length_le hr).2
  unfold pageSize at hsize
  refine h _ _ fun _ i hi => ?_
  exact htable.schema.getValueAt_raw (hi.trans_le tableInfo.schema.getColumnCount_le)
    (htable.rows r hr) (by omega)

/-- On a row that a scan returned. -/
lemma Means.evaluate_parsed (h : Means tableAlias schema expr node) :
    (expr.evaluate (parsedTuple schema.columns.length r) schema').result =
      (datumAt tableAlias schema r.2 node).map Datum.toValue :=
  h _ _ fun _ _ hi => getValueAt_parsed (hi.trans_le schema.getColumnCount_le)

/-- The predicate of the scan accepts the rows that satisfy the `WHERE` clause. -/
lemma accepts_of_condition {select : SelectStmt} {predicate : Expression} {keep : Bool}
    (hpredicate : if select.whereClause.isNull then predicate = .null
      else predicate ≠ .null ∧ Means tableAlias tableInfo.schema predicate select.whereClause)
    (htable : IntegerTable ctx tableInfo pages) (hr : r ∈ liveRows pages)
    (h : select.condition tableAlias tableInfo.schema r.2 = some keep) :
    accepts predicate (fun e => e.evaluate (rawTuple r) tableInfo.schema) = pure keep := by
  unfold SelectStmt.condition at h
  unfold accepts
  split_ifs at h hpredicate with hnull
  · cases h
    rw [if_pos hpredicate]
  · obtain ⟨hne, hmeans⟩ := hpredicate
    have hvalue := hmeans.evaluate_raw htable hr
    rw [if_neg hne]
    cases hdatum : datumAt tableAlias tableInfo.schema r.2 select.whereClause with
    | none =>
      rw [hdatum] at h
      cases h
    | some x =>
      rw [hdatum] at h hvalue
      dsimp only
      rw [Cpp.result_eq_some.1 hvalue, pure_bind]
      cases x with
      | int i => cases h
      | bool b =>
        cases h
        rfl

/-! ## Sorting -/

/-- The equality test of the sort. -/
lemma compareEquals_toValue {x y : Datum}
    (h : x = y ∨ ∃ i j, x = .int i ∧ y = .int j) :
    x.toValue.compareEquals y.toValue = pure (Value.ofBool (decide (x = y))) := by
  have hint : ∀ i j : BitVec 32, (Datum.int i).toValue.compareEquals (Datum.int j).toValue =
      pure (Value.ofBool (decide (Datum.int i = .int j))) := by
    intro i j
    have heq : decide (Datum.int i = .int j) = decide (i.toInt = j.toInt) := by
      simp [BitVec.toInt_inj]
    rw [heq]
    rfl
  rcases h with rfl | ⟨i, j, rfl, rfl⟩
  · cases x with
    | int i => exact hint i i
    | bool b =>
      rw [decide_eq_true rfl]
      cases b <;> rfl
  · exact hint i j

/-- The order test of the sort. -/
lemma compareLess_toValue (isAscending : Bool) (i j : BitVec 32) :
    (if isAscending then (Datum.int i).toValue.compareLessThan (Datum.int j).toValue >>=
        Value.getAsBoolean
      else (Datum.int i).toValue.compareGreaterThan (Datum.int j).toValue >>=
        Value.getAsBoolean) =
      pure (decide ((Datum.int i).rank isAscending < (Datum.int j).rank isAscending)) := by
  cases isAscending with
  | true => rfl
  | false =>
    have hneg : decide (-i.toInt < -j.toInt) = decide (j.toInt < i.toInt) := by simp
    simp only [Datum.rank, Bool.false_eq_true, if_false, hneg]
    rfl

/-- Integers of the same rank are the same. -/
lemma Datum.rank_inj {isAscending : Bool} {i j : BitVec 32} :
    (Datum.int i).rank isAscending = (Datum.int j).rank isAscending ↔ i = j := by
  cases isAscending <;> simp [Datum.rank, BitVec.toInt_inj]

/-- The comparison of the sort goes by the ranks of the rows. -/
lemma KeysMean.compareRows_eq {sortClause : List SortBy} {orderBys : List (Bool × Expression)}
    (h : KeysMean tableAlias schema sortClause orderBys) {xs ys : List Datum}
    (hxs : sortClause.mapM (fun sortBy => datumAt tableAlias schema r.2 sortBy.node) = some xs)
    (hys : sortClause.mapM (fun sortBy => datumAt tableAlias schema s.2 sortBy.node) = some ys)
    (hcomparable : Comparable xs ys) :
    compareRows schema' orderBys (parsedTuple schema.columns.length r)
        (parsedTuple schema.columns.length s) =
      pure (decide
        ((sortClause.map fun sortBy => (datumAt tableAlias schema r.2 sortBy.node).elim 0
            (Datum.rank sortBy.isAscending)) <
          sortClause.map fun sortBy => (datumAt tableAlias schema s.2 sortBy.node).elim 0
            (Datum.rank sortBy.isAscending))) := by
  induction h generalizing xs ys with
  | nil => rfl
  | @cons sortBy orderBy sortClause orderBys hhead hrest ih =>
    obtain ⟨isAscending, expr⟩ := orderBy
    obtain ⟨hasc, hmeans⟩ := hhead
    obtain rfl : isAscending = sortBy.isAscending := hasc
    rw [List.mapM_cons] at hxs hys
    obtain ⟨x, hx, hxrest⟩ := Option.bind_eq_some_iff.1 hxs
    obtain ⟨xs', hxs', heqx⟩ := Option.bind_eq_some_iff.1 hxrest
    obtain ⟨y, hy, hyrest⟩ := Option.bind_eq_some_iff.1 hys
    obtain ⟨ys', hys', heqy⟩ := Option.bind_eq_some_iff.1 hyrest
    cases heqx
    cases heqy
    have hvalx : expr.evaluate (parsedTuple schema.columns.length r) schema' = pure x.toValue := by
      rw [← Cpp.result_eq_some, hmeans.evaluate_parsed, hx, Option.map_some]
    have hvaly : expr.evaluate (parsedTuple schema.columns.length s) schema' = pure y.toValue := by
      rw [← Cpp.result_eq_some, hmeans.evaluate_parsed, hy, Option.map_some]
    rw [List.map_cons, List.map_cons, hx, hy, compareRows, hvalx, pure_bind, hvaly, pure_bind]
    simp only [Option.elim_some, List.cons_lt_cons_iff]
    unfold Comparable at hcomparable
    split_ifs at hcomparable with hxy
    · -- the keys agree, and the rest decides
      subst hxy
      rw [compareEquals_toValue (.inl rfl), pure_bind, decide_eq_true rfl]
      simp only [lt_irrefl, false_or, true_and]
      exact ih hxs' hys' hcomparable
    · obtain ⟨i, j, rfl, rfl⟩ := hcomparable
      rw [compareEquals_toValue (.inr ⟨i, j, rfl, rfl⟩), pure_bind, decide_eq_false hxy]
      have hne : (Datum.int i).rank sortBy.isAscending ≠ (Datum.int j).rank sortBy.isAscending :=
        fun heq => hxy (congrArg Datum.int (Datum.rank_inj.1 heq))
      simp only [hne, false_and, or_false]
      exact compareLess_toValue sortBy.isAscending i j

/-! ## Projecting -/

/-- The value of a target that is no star is the one of its expression. -/
lemma targetValues_eq {res : ResTarget} {b : List UInt8} (h : ¬ res.IsStar) :
    SelectStmt.targetValues tableAlias schema b res =
      (datumAt tableAlias schema b res.val).map fun x => [x.toValue] := by
  unfold SelectStmt.targetValues
  split
  · exact absurd (.inl ‹_›) h
  · exact absurd (.inr ‹_›) h
  · rfl

/-- The tuple of integers and truth values. -/
lemma ofValues_data (xs : List Datum) :
    ∃ tuple, Tuple.ofValues (xs.map Datum.toValue) = pure tuple ∧
      tuple.values = xs.map Datum.toValue := by
  refine ⟨_, ofValues_eq fun v hv => ?_, rfl⟩
  obtain ⟨x, -, rfl⟩ := List.mem_map.1 hv
  cases x <;> simp [Datum.toValue, Value.ofInt, Value.ofBool, Value.getTypeId, Payload.typeId,
    Value.encodedSize]

/-- The expressions of the projection evaluate to the values of the targets. -/
lemma TargetsMean.mapM_evaluate {targetList : List ResTarget} {exprs : List Expression}
    (h : TargetsMean tableAlias schema targetList exprs) {values : List (List Value)}
    (hvalues : targetList.mapM (SelectStmt.targetValues tableAlias schema r.2) = some values) :
    ∃ xs : List Datum, values.flatten = xs.map Datum.toValue ∧
      exprs.mapM (fun expr => expr.evaluate (parsedTuple schema.columns.length r) schema') =
        pure values.flatten := by
  induction h generalizing values with
  | nil =>
    cases hvalues
    exact ⟨[], rfl, rfl⟩
  | @cons res expr targetList exprs hhead _ ih =>
    obtain ⟨hstar, -, hmeans⟩ := hhead
    rw [List.mapM_cons] at hvalues
    obtain ⟨vs, hvs, hrest⟩ := Option.bind_eq_some_iff.1 hvalues
    obtain ⟨vss, hvss, heq⟩ := Option.bind_eq_some_iff.1 hrest
    cases heq
    obtain ⟨xs, hxs, hmapM⟩ := ih hvss
    rw [targetValues_eq hstar] at hvs
    obtain ⟨x, hx, rfl⟩ := Option.map_eq_some_iff.1 hvs
    have hvalue : expr.evaluate (parsedTuple schema.columns.length r) schema' = pure x.toValue := by
      rw [← Cpp.result_eq_some, hmeans.evaluate_parsed, hx, Option.map_some]
    refine ⟨x :: xs, by rw [List.flatten_cons, hxs]; rfl, ?_⟩
    rw [List.mapM_cons, hvalue, pure_bind, hmapM, pure_bind]
    rfl

/-- A row of the projection. -/
lemma TargetsMean.exists_row {targetList : List ResTarget} {exprs : List Expression}
    (h : TargetsMean tableAlias schema targetList exprs) {values : List Value}
    (hvalues : (targetList.mapM (SelectStmt.targetValues tableAlias schema r.2)).map List.flatten =
      some values) :
    ∃ tuple, evaluateRow exprs schema' (parsedTuple schema.columns.length r) = pure tuple ∧
      tuple.values = values := by
  obtain ⟨vss, hvss, rfl⟩ := Option.map_eq_some_iff.1 hvalues
  obtain ⟨xs, hxs, hmapM⟩ := @mapM_evaluate tableAlias schema schema' r targetList exprs h vss hvss
  obtain ⟨tuple, htuple, htuplevalues⟩ := ofValues_data xs
  rw [← hxs] at htuple htuplevalues
  refine ⟨tuple, ?_, htuplevalues⟩
  rw [evaluateRow, hmapM, pure_bind, htuple]

end Rows

/-! ## The operators of the plan -/

section Operators

variable {std : StandardLibrary} {ctx : ExecutorContext} {tableInfo : TableInfo} {pages : Pages}
  {select : SelectStmt} {tableAlias : String} {rows : List (RID × List UInt8)} {fuel : ℕ}
  {child : PlanNode}

/-- The executor of the plan returns these rows of the table. -/
def Delivers (std : StandardLibrary) (fuel : ℕ) (plan : PlanNode) (ctx : ExecutorContext)
    (schema : Schema) (rows : List (RID × List UInt8)) : Prop :=
  ∃ out : List Row, (createExecutor std fuel plan).Yields ctx out ∧
    out.map Prod.fst = rows.map (parsedTuple schema.columns.length)

/-- The scan delivers the rows that satisfy the `WHERE` clause. -/
lemma delivers_scan {predicate : Expression}
    (hpredicate : if select.whereClause.isNull then predicate = .null
      else predicate ≠ .null ∧ Means tableAlias tableInfo.schema predicate select.whereClause)
    (h : IntegerTable ctx tableInfo pages)
    (htable : ctx.catalog.getTable tableInfo.oid = some tableInfo)
    (hcondition : ∀ r ∈ liveRows pages,
      ∃ keep, select.condition tableAlias tableInfo.schema r.2 = some keep)
    (hfuel : pages.length + (liveRows pages).length < fuel) :
    Delivers std fuel (.seqScan tableInfo.schema tableInfo.oid predicate) ctx tableInfo.schema
      (select.selected tableAlias tableInfo.schema (liveRows pages)) := by
  have hscan : ∀ r ∈ liveRows pages, scanRow predicate tableInfo.schema r =
      pure (if select.condition tableAlias tableInfo.schema r.2 == some true then
        some (parsedTuple tableInfo.schema.columns.length r) else none) := by
    intro r hr
    obtain ⟨keep, hkeep⟩ := hcondition r hr
    rw [h.scanRow hr (accepts_of_condition hpredicate h hr hkeep), hkeep]
    cases keep <;> rfl
  refine ⟨_, h.yields_seqScan htable (by omega) (by omega) (scanRows_of_keep hscan), ?_⟩
  rw [List.map_map]
  rfl

/-- The sort delivers the rows in order. -/
lemma delivers_sort {orderBys : List (Bool × Expression)} {schema : Schema}
    (hkeys : KeysMean tableAlias schema select.sortClause orderBys)
    (hdata : ∀ r ∈ rows, ∃ xs, select.sortKeys tableAlias schema r.2 = some xs)
    (hcomparable : ∀ r ∈ rows, ∀ s ∈ rows, ∀ xs ys,
      select.sortKeys tableAlias schema r.2 = some xs →
      select.sortKeys tableAlias schema s.2 = some ys → Comparable xs ys) :
    ∃ sorted, sorted.Perm rows ∧
      sorted.Pairwise (fun r s =>
        select.sortRank tableAlias schema r.2 ≤ select.sortRank tableAlias schema s.2) ∧
      (select.sortClause = [] → sorted = rows) ∧
      ∀ fuel, rows.length < fuel → Delivers std fuel child ctx schema rows →
        Delivers std fuel (sortPlan orderBys child) ctx schema sorted := by
  cases hclause : select.sortClause with
  | nil =>
    refine ⟨rows, .refl _, ?_, fun _ => rfl, fun fuel _ hchild => ?_⟩
    · refine List.pairwise_of_forall fun r s => ?_
      simp [SelectStmt.sortRank, hclause]
    · rw [hclause] at hkeys
      cases hkeys
      exact hchild
  | cons sortBy sortClause =>
    have hcompare : ∀ r ∈ rows, ∀ s ∈ rows,
        compareRows child.getOutputSchema orderBys
            (parsedTuple schema.columns.length r) (parsedTuple schema.columns.length s) =
          pure (decide (select.sortRank tableAlias schema r.2 <
            select.sortRank tableAlias schema s.2)) := by
      intro r hr s hs
      obtain ⟨xs, hxs⟩ := hdata r hr
      obtain ⟨ys, hys⟩ := hdata s hs
      exact hkeys.compareRows_eq hxs hys (hcomparable r hr s hs xs ys hxs hys)
    obtain ⟨sorted, hperm, hpairwise, hsort⟩ := @exists_sorted _ _ _ _
      (compareRows child.getOutputSchema orderBys) rows (parsedTuple schema.columns.length)
      (fun r => select.sortRank tableAlias schema r.2) std fun r hr s hs => by
        convert hcompare r hr s hs
    refine ⟨sorted, hperm, hpairwise, nofun, fun fuel hfuel ⟨out, hyields, hout⟩ => ?_⟩
    have hnonempty : orderBys.isEmpty = false := by
      rw [hclause] at hkeys
      cases hkeys
      rfl
    have hlen := congrArg List.length hout
    rw [List.length_map, List.length_map] at hlen
    unfold sortPlan
    rw [hnonempty, if_neg Bool.false_ne_true]
    refine ⟨placeless (sorted.map (parsedTuple schema.columns.length)),
      hyields.sort (by omega) ?_, placeless_fst _⟩
    rw [outputSchema_createExecutor, hout, hsort]

/-- The limit delivers the first rows. -/
lemma delivers_limit {schema : Schema}
    (hlimit : select.limitCount = .null ∨
      ∃ ival : BitVec 64, select.limitCount = .aConst (.integer ival) ∧ 0 ≤ ival.toInt)
    (h : Delivers std fuel child ctx schema rows) :
    Delivers std fuel (limitPlan select.limitCount child) ctx schema (select.limitRows rows) := by
  obtain ⟨out, hyields, hout⟩ := h
  unfold SelectStmt.limitRows
  rcases hlimit with hnull | ⟨ival, hival, hnonneg⟩
  · rw [hnull]
    exact ⟨out, hyields, hout⟩
  · have htoNat : ival.toInt.toNat = ival.toNat := by
      have hlt := ival.isLt
      rw [BitVec.toInt_eq_toNat_cond] at hnonneg ⊢
      split_ifs at hnonneg ⊢ <;> omega
    rw [hival]
    dsimp only [limitPlan]
    rw [htoNat]
    refine ⟨out.take ival.toNat, hyields.limit ival.toNat, ?_⟩
    rw [List.map_take, hout, List.map_take]

/-- The tuples of the projection, one for each row. -/
lemma TargetsMean.exists_tuples {schema schema' : Schema} {exprs : List Expression}
    (h : TargetsMean tableAlias schema select.targetList exprs) {out : List (List Value)}
    (hout : rows.mapM (fun r => select.outputValues tableAlias schema r.2) = some out) :
    ∃ tuples, List.Forall₂ (fun r tuple =>
        evaluateRow exprs schema' (parsedTuple schema.columns.length r) = pure tuple) rows tuples ∧
      tuples.map Tuple.values = out := by
  induction rows generalizing out with
  | nil =>
    cases hout
    exact ⟨[], .nil, rfl⟩
  | cons r rows ih =>
    rw [List.mapM_cons] at hout
    obtain ⟨values, hvalues, hrest⟩ := Option.bind_eq_some_iff.1 hout
    obtain ⟨out', hout', heq⟩ := Option.bind_eq_some_iff.1 hrest
    cases heq
    obtain ⟨tuples, hforall, htuples⟩ := ih hout'
    have hexists : ∃ tuple, evaluateRow exprs schema' (parsedTuple schema.columns.length r) =
        pure tuple ∧ tuple.values = values := h.exists_row hvalues
    obtain ⟨tuple, htuple, htuplevalues⟩ := hexists
    exact ⟨tuple :: tuples, .cons htuple hforall, by rw [List.map_cons, htuplevalues, htuples]⟩

/-- The tuples keep the places of the rows of the child. -/
lemma exists_placed {schema schema' : Schema} {exprs : List Expression} {childRows : List Row}
    {tuples : List Tuple}
    (htuples : List.Forall₂ (fun r tuple =>
      evaluateRow exprs schema' (parsedTuple schema.columns.length r) = pure tuple) rows tuples)
    (hchild : childRows.map Prod.fst = rows.map (parsedTuple schema.columns.length)) :
    ∃ result : List Row, List.Forall₂ (fun row o =>
        evaluateRow exprs schema' row.1 = pure o.1 ∧ o.2 = row.2) childRows result ∧
      result.map Prod.fst = tuples := by
  induction htuples generalizing childRows with
  | nil =>
    obtain rfl := List.map_eq_nil_iff.1 hchild
    exact ⟨[], .nil, rfl⟩
  | @cons r tuple rows tuples hhead _ ih =>
    obtain ⟨row, childRows', rfl, hrow, hrest⟩ := List.map_eq_cons_iff.1 hchild
    obtain ⟨result, hforall, hresult⟩ := ih hrest
    refine ⟨(tuple, row.2) :: result, .cons ⟨by rw [hrow, hhead], rfl⟩ hforall, ?_⟩
    rw [List.map_cons, hresult]

/-- The projection returns the values of the targets. -/
lemma exists_projection {schema : Schema} {projected : Option (Schema × List Expression)}
    (htargets : match projected with
      | none => ∃ res : ResTarget, select.targetList = [res] ∧ res.IsStar
      | some (_, exprs) => TargetsMean tableAlias schema select.targetList exprs)
    {out : List (List Value)}
    (hout : rows.mapM (fun r => select.outputValues tableAlias schema r.2) = some out) :
    ∃ tuples, tuples.map Tuple.values = out ∧
      ∀ fuel, Delivers std fuel child ctx schema rows →
        ∃ result : List Row, (createExecutor std fuel (projectionPlan projected child)).Yields ctx
          result ∧ result.map Prod.fst = tuples := by
  cases projected with
  | none =>
    obtain ⟨res, hlist, hstar⟩ := htargets
    have hvalues : ∀ b, select.outputValues tableAlias schema b =
        some (integersOf schema.columns.length b) := by
      intro b
      unfold SelectStmt.outputValues SelectStmt.targetValues
      rw [hlist, List.mapM_cons]
      rcases hstar with hval | hval <;> simp [hval]
    have hpure : rows.mapM (fun r => some (integersOf schema.columns.length r.2)) =
        some (rows.map fun r => integersOf schema.columns.length r.2) := List.mapM_pure
    simp only [hvalues] at hout
    rw [hpure] at hout
    cases hout
    refine ⟨rows.map (parsedTuple schema.columns.length), ?_, fun fuel hdelivers => hdelivers⟩
    rw [List.map_map]
    rfl
  | some projection =>
    obtain ⟨projSchema, exprs⟩ := projection
    have hexists := @TargetsMean.exists_tuples select tableAlias rows schema
      child.getOutputSchema exprs htargets out hout
    obtain ⟨tuples, hforall, hvalues⟩ := hexists
    refine ⟨tuples, hvalues, fun fuel ⟨childRows, hyields, hchild⟩ => ?_⟩
    obtain ⟨result, hplaced, hresult⟩ := exists_placed hforall hchild
    rw [← outputSchema_createExecutor std fuel child] at hplaced
    exact ⟨result, hyields.projection hplaced, hresult⟩

end Operators

/-- **Queries on one table.** The binder accepts the statement. If its `WHERE` clause has a truth
value on every row and its `ORDER BY` keys have values on every selected row, and the sort can
compare these, then the plan returns what the statement asks for. -/
theorem select_answers {std : StandardLibrary} {stof : String → Cpp (BitVec 32)}
    {ctx : ExecutorContext} {tableInfo : TableInfo} {pages : Pages} {select : SelectStmt}
    {rest : List Statement} {rv : RangeVar} (h : IntegerTable ctx tableInfo pages)
    (hname : (lookupTable ctx.catalog rv.relname).Returns tableInfo)
    (htable : ctx.catalog.getTable tableInfo.oid = some tableInfo)
    (hselect : select.IsPipeline rv tableInfo.schema)
    (hcondition : ∀ r ∈ liveRows pages,
      ∃ keep, select.condition rv.getAlias tableInfo.schema r.2 = some keep)
    (hkeys : ∀ r ∈ select.selected rv.getAlias tableInfo.schema (liveRows pages),
      ∃ xs, select.sortKeys rv.getAlias tableInfo.schema r.2 = some xs)
    (hcomparable : ∀ r ∈ select.selected rv.getAlias tableInfo.schema (liveRows pages),
      ∀ s ∈ select.selected rv.getAlias tableInfo.schema (liveRows pages), ∀ xs ys,
        select.sortKeys rv.getAlias tableInfo.schema r.2 = some xs →
        select.sortKeys rv.getAlias tableInfo.schema s.2 = some ys → Comparable xs ys) :
    ∃ plan, (bindQuery stof ctx.catalog (.success (.selectStmt select :: rest))).Returns plan ∧
      select.Answers rv.getAlias tableInfo.schema std plan ctx (liveRows pages) := by
  have hbind := @SelectStmt.IsPipeline.bindSelect stof tableInfo select rv ctx.catalog hselect hname
  obtain ⟨parts, hplan⟩ := hbind
  refine ⟨parts.plan, hplan, ?_⟩
  have hsort := @delivers_sort std ctx select rv.getAlias
    (select.selected rv.getAlias tableInfo.schema (liveRows pages))
    (.seqScan tableInfo.schema tableInfo.oid parts.predicate) parts.orderBys tableInfo.schema
    parts.keys_mean hkeys hcomparable
  obtain ⟨sorted, hperm, hpairwise, hheap, hdelivers⟩ := hsort
  refine ⟨sorted, hperm, hpairwise, hheap, fun out hout => ?_⟩
  have hproject := @exists_projection std ctx select rv.getAlias (select.limitRows sorted)
    (limitPlan select.limitCount (sortPlan parts.orderBys
      (.seqScan tableInfo.schema tableInfo.oid parts.predicate)))
    tableInfo.schema parts.projected parts.targets_mean out hout
  obtain ⟨tuples, hvalues, hyields⟩ := hproject
  refine ⟨tuples, ⟨pages.length + (liveRows pages).length + tuples.length + 1,
    fun fuel hfuel => ?_⟩, hvalues⟩
  have hselected : (select.selected rv.getAlias tableInfo.schema (liveRows pages)).length ≤
    (liveRows pages).length := List.length_filter_le _ _
  have hscan : Delivers std fuel (.seqScan tableInfo.schema tableInfo.oid parts.predicate) ctx
      tableInfo.schema (select.selected rv.getAlias tableInfo.schema (liveRows pages)) :=
    delivers_scan parts.predicate_means h htable hcondition (by omega)
  obtain ⟨result, hresult, htuples⟩ := hyields fuel
    (delivers_limit hselect.limitCount (hdelivers fuel (by omega) hscan))
  have hlen := congrArg List.length htuples
  rw [List.length_map] at hlen
  exact (returns_execute hresult).2 ⟨by omega, htuples.symm, rfl⟩

/-! ## Statements on a small table -/

/-- `a op ival`. -/
def opNode (name : String) (ival : BitVec 64) : Node :=
  .aExpr .op [name] (.columnRef [.string "a"]) (.aConst (.integer ival))

/-- The column `a` is a plain expression. -/
lemma isPlain_column : IsPlain "t" (smallTable ["a"]).schema (.columnRef [.string "a"]) :=
  @IsPlain.column "t" _ "a" (0, .integer) rfl

/-- An operator between the column and a constant is a plain expression. -/
lemma isPlain_opNode {name : String} {op : PlainOp} (hop : PlainOp.named name = some op)
    {ival : BitVec 64} (hrange : -2 ^ 31 ≤ ival.toInt ∧ ival.toInt < 2 ^ 31) :
    IsPlain "t" (smallTable ["a"]).schema (opNode name ival) :=
  .op hop isPlain_column (.constant hrange)

/-- `SELECT a + 1 FROM t WHERE a > 0 ORDER BY a DESC LIMIT 1`. -/
def selectLargest : SelectStmt where
  targetList := [{ val := opNode "+" 1 }]
  fromClause := [.rangeVar ⟨"t", none⟩]
  whereClause := opNode ">" 0
  sortClause := [⟨.columnRef [.string "a"], .desc⟩]
  limitCount := .aConst (.integer 1)

/-- The sample is a query of the pipeline. -/
lemma isPipeline_selectLargest :
    selectLargest.IsPipeline ⟨"t", none⟩ (smallTable ["a"]).schema where
  fromClause := rfl
  targets := by
    refine .inr ⟨by simp [selectLargest], fun res hres => ?_⟩
    obtain rfl := List.mem_singleton.1 hres
    exact isPlain_opNode rfl (by decide)
  whereClause := .inr (isPlain_opNode rfl (by decide))
  sortClause := by
    intro sortBy hsortBy
    obtain rfl := List.mem_singleton.1 hsortBy
    exact isPlain_column
  limitCount := .inr ⟨1, rfl, by decide⟩

/-- The largest of two rows. -/
theorem select_answers_largest :
    ∃ plan, (bindQuery (fun _ => Cpp.undefined) (smallContext ["a"] [[1], [2]] none).catalog
        (.success [.selectStmt selectLargest])).Returns plan ∧
      selectLargest.Answers "t" (smallTable ["a"]).schema default plan
        (smallContext ["a"] [[1], [2]] none) (liveRows (smallPages [[1], [2]])) := by
  have htable : IntegerTable (smallContext ["a"] [[1], [2]] none) (smallTable ["a"])
      (smallPages [[1], [2]]) := integerTable_smallContext (by decide) (by simp)
  refine @select_answers default _ _ _ _ _ [] ⟨"t", none⟩ htable rfl rfl isPipeline_selectLargest
    ?_ ?_ ?_
  · intro r _
    exact ⟨_, rfl⟩
  · intro r _
    exact ⟨_, rfl⟩
  · intro r _ s _ xs ys hxs hys
    cases hxs
    cases hys
    show Comparable [.int (integerAt r.2 0)] [.int (integerAt s.2 0)]
    unfold Comparable
    split_ifs
    · trivial
    · exact ⟨_, _, rfl, rfl⟩

/-- `SELECT * FROM t` with these clauses. -/
def selectStar (whereClause : Node) (sortClause : List SortBy) : SelectStmt where
  targetList := [{ val := .aStar }]
  fromClause := [.rangeVar ⟨"t", none⟩]
  whereClause := whereClause
  sortClause := sortClause

/-- A star has values on every row, so that only an execution that completes is an answer. -/
lemma not_answers_selectStar {whereClause : Node} {sortClause : List SortBy}
    {std : StandardLibrary} {plan : PlanNode} {ctx : ExecutorContext} {schema : Schema}
    {rows : List (RID × List UInt8)}
    (h : ∀ result, ¬ Completes std plan ctx result ctx) :
    ¬ (selectStar whereClause sortClause).Answers "t" schema std plan ctx rows := by
  rintro ⟨sorted, -, -, -, hout⟩
  have hpure : sorted.mapM (fun r => (selectStar whereClause sortClause).outputValues "t" schema
      r.2) = some (sorted.map fun r => integersOf schema.columns.length r.2 ++ []) := List.mapM_pure
  obtain ⟨result, hresult, -⟩ := hout _ hpure
  exact h result hresult

/-- In `SELECT * FROM t ORDER BY a = 1` every key has a value, but the sort cannot compare truth
values and throws. -/
theorem not_answers_boolean_key :
    let select := selectStar .null [⟨opNode "=" 1, .default⟩]
    let ctx := smallContext ["a"] [[0], [1]] none
    let rows := liveRows (smallPages [[0], [1]])
    IntegerTable ctx (smallTable ["a"]) (smallPages [[0], [1]]) ∧
      select.IsPipeline ⟨"t", none⟩ (smallTable ["a"]).schema ∧
      (∀ r ∈ rows, ∃ keep, select.condition "t" (smallTable ["a"]).schema r.2 = some keep) ∧
      (∀ r ∈ rows, ∃ xs, select.sortKeys "t" (smallTable ["a"]).schema r.2 = some xs) ∧
      ∃ plan, (bindQuery (fun _ => Cpp.undefined) ctx.catalog
          (.success [.selectStmt select])).Returns plan ∧
        ¬ select.Answers "t" (smallTable ["a"]).schema insertingLibrary plan ctx rows := by
  intro select ctx rows
  have htable : IntegerTable ctx (smallTable ["a"]) (smallPages [[0], [1]]) :=
    integerTable_smallContext (by decide) (by simp)
  refine ⟨htable, ?_, fun r _ => ⟨_, rfl⟩, fun r _ => ⟨_, rfl⟩, _, rfl, ?_⟩
  · exact
      { fromClause := rfl
        targets := .inl ⟨_, rfl, .inl rfl⟩
        whereClause := .inl rfl
        sortClause := by
          intro sortBy hsortBy
          obtain rfl := List.mem_singleton.1 hsortBy
          exact isPlain_opNode rfl (by decide)
        limitCount := .inl rfl }
  · refine not_answers_selectStar fun result hresult => ?_
    obtain ⟨fuel₀, hreturns⟩ := hresult
    obtain ⟨out, hyields, hout⟩ := @delivers_scan insertingLibrary ctx (smallTable ["a"])
      (smallPages [[0], [1]]) select "t" (fuel₀ + 4) .null rfl htable rfl (fun r _ => ⟨_, rfl⟩)
      (Nat.lt_add_left fuel₀ (by decide))
    obtain ⟨st, c, hinit, -⟩ := returns_bind.1 (hreturns (fuel₀ + 4) (Nat.le_add_right _ _))
    obtain ⟨-, -, -, hsort⟩ := hyields.returns_sortInit _ hinit
    rw [hout] at hsort
    cases hsort

end OneBase
