import OneBase.Binder.SelectPipeline
import OneBase.Binder.TableSelect
import OneBase.Execution.SortOrder

set_option relaxedAutoImplicit false
set_option autoImplicit false

/-!
# What a grouped query asks for

A `SELECT` on one table with a `GROUP BY` clause or with aggregates has a row for each group of the
chosen rows, with the values of its targets for the group. The groups are said on the rows of the
table and the parse tree.

## Main definitions

* `OneBase.SelectStmt.IsGrouped` — the statements.
* `OneBase.SelectStmt.groups` — the groups, each given by the values of its `GROUP BY` expressions.
* `OneBase.SelectStmt.itemValue` — the value of an expression for a group.
* `OneBase.SelectStmt.GroupedAnswered` — a plan returns what the statement asks for.

## Main results

* `OneBase.itemValue_regular` — the value for a group is that on each of its rows.
* `OneBase.totalsOf_inputs` — the aggregates of a group are the totals of their inputs.
-/

namespace OneBase

section Meaning

variable (stof : String → Cpp (BitVec 32)) (tableAlias : String) (info : TableInfo)

/-- The node is `COUNT(*)`. -/
def Node.countsRows (node : Node) : Bool :=
  match node.targetKind with
  | .aggregate aggType args aggStar => aggType = .countAggregate ∧ isCountStar args aggStar = true
  | _ => false

/-- The expression is one of the `GROUP BY` clause, up to the spelling of its columns. -/
def SelectStmt.HasKey (select : SelectStmt) (node : Node) : Prop :=
  ∃ key ∈ select.groupClause, bindExpression stof [⟨tableAlias, info, 0⟩] node =
    bindExpression stof [⟨tableAlias, info, 0⟩] key

namespace SelectStmt

/-- The statement selects from one table, with groups or aggregates. Its other targets and its
`ORDER BY` keys are expressions of the `GROUP BY` clause. -/
structure IsGrouped (select : SelectStmt) (rv : RangeVar) : Prop where
  fromClause : select.fromClause = [.rangeVar rv]
  groups : select.groupClause ≠ [] ∨ select.targetList.any ResTarget.isAggregate = true
  targets : ∀ res ∈ select.targetList, res.isAggregate = true ∨
    res.isRegular = true ∧ select.HasKey stof rv.getAlias info res.val
  sortKeys : ∀ sortBy ∈ select.sortClause, select.HasKey stof rv.getAlias info sortBy.node

variable (select : SelectStmt)

/-- The values of the `GROUP BY` expressions on a row. -/
def groupValues (tuple : Tuple) : Cpp (List Value) :=
  select.groupClause.mapM fun key => key.valueOn stof tableAlias info tuple

/-- The group of a row. -/
def groupVector (tuple : Tuple) : List Value :=
  (select.groupValues stof tableAlias info tuple).result.getD []

variable (rows : List Tuple)

/-- The groups; without a `GROUP BY` clause there is one. -/
def groups : List (List Value) :=
  if select.groupClause = [] then [[]]
  else ((select.chosen stof tableAlias info rows).map
    (select.groupVector stof tableAlias info)).dedup

variable (g : List Value)

/-- The rows of a group. -/
def members : List Tuple :=
  (select.chosen stof tableAlias info rows).filter fun tuple =>
    select.groupVector stof tableAlias info tuple = g

/-- The value of an expression for a group: an aggregate of its rows, or the value on its first
row. -/
def itemValue (val : Node) : Cpp Value :=
  match val.targetKind with
  | .aggregate aggType args aggStar =>
    if aggType = .countAggregate ∧ isCountStar args aggStar = true then
      Value.intResult (select.members stof tableAlias info rows g).length
    else
      match args with
      | arg :: _ => do
        let inputs ← (select.members stof tableAlias info rows g).mapM
          (arg.valueOn stof tableAlias info)
        aggType.total inputs
      | [] => Cpp.undefined
  | _ =>
    match select.members stof tableAlias info rows g with
    | tuple :: _ => val.valueOn stof tableAlias info tuple
    | [] => Cpp.undefined

/-- The values of the targets for a group. -/
def itemValues : Cpp (List Value) :=
  select.targetList.mapM fun res => select.itemValue stof tableAlias info rows g res.val

/-- The row of a group. -/
def itemRow : List Value := (select.itemValues stof tableAlias info rows g).result.getD []

/-- The values of the `ORDER BY` keys for a group. -/
def keyRow : List Value :=
  ((select.sortClause.mapM fun sortBy =>
    select.itemValue stof tableAlias info rows g sortBy.node).result).getD []

/-- Whether a group comes before another one. -/
def groupBefore (h : List Value) : Cpp Bool :=
  compareKeys (select.sortClause.map SortBy.isAscending)
    (select.keyRow stof tableAlias info rows g) (select.keyRow stof tableAlias info rows h)

/-- The `WHERE` clause has a truth value on every row, the `GROUP BY` expressions have values on
the chosen rows, and the targets have values for the groups. -/
structure GroupsDefined : Prop where
  chooses : ∀ tuple ∈ rows, ∃ b, select.chooses stof tableAlias info tuple = pure b
  groupValues : ∀ tuple ∈ select.chosen stof tableAlias info rows,
    ∃ g, select.groupValues stof tableAlias info tuple = pure g
  itemValues : ∀ g ∈ select.groups stof tableAlias info rows,
    ∃ values, select.itemValues stof tableAlias info rows g = pure values

/-- The plan returns one row for each group, with the values of the targets in their order, and
these rows are in the order of the `ORDER BY` keys of their groups. -/
def GroupedAnswered (std : StandardLibrary) (ctx : ExecutorContext) (plan : PlanNode) : Prop :=
  ∃ result gs, Completes std plan ctx result ctx ∧
    gs.Perm (select.groups stof tableAlias info rows) ∧
    (∀ g ∈ gs, ∀ h ∈ gs, g ≠ h → ¬ AllEqual g h) ∧
    List.Forall₂ (fun g tuple => select.itemValues stof tableAlias info rows g =
      pure tuple.values) gs result ∧
    gs.Pairwise fun g h => select.groupBefore stof tableAlias info rows h g = pure false

end SelectStmt

end Meaning

/-! ## Values for groups -/

section Values

variable {stof : String → Cpp (BitVec 32)} {tableAlias : String} {info : TableInfo}
  {select : SelectStmt} {rows : List Tuple} {g h : List Value} {tuple : Tuple} {node : Node}

/-- The members of a group are the chosen rows with its key. -/
lemma mem_members : tuple ∈ select.members stof tableAlias info rows g ↔
    tuple ∈ select.chosen stof tableAlias info rows ∧
      select.groupVector stof tableAlias info tuple = g := by
  unfold SelectStmt.members
  rw [List.mem_filter, decide_eq_true_iff]

/-- The group of a chosen row. -/
lemma SelectStmt.GroupsDefined.groupValues_eq
    (hdefined : select.GroupsDefined stof tableAlias info rows)
    (htuple : tuple ∈ select.chosen stof tableAlias info rows) :
    select.groupValues stof tableAlias info tuple =
      pure (select.groupVector stof tableAlias info tuple) := by
  obtain ⟨g, hg⟩ := hdefined.groupValues tuple htuple
  unfold SelectStmt.groupVector
  rw [hg]
  rfl

/-- The values of a row exist for each group. -/
lemma SelectStmt.GroupsDefined.itemValues_eq
    (hdefined : select.GroupsDefined stof tableAlias info rows)
    (hg : g ∈ select.groups stof tableAlias info rows) :
    select.itemValues stof tableAlias info rows g =
      pure (select.itemRow stof tableAlias info rows g) := by
  obtain ⟨values, hvalues⟩ := hdefined.itemValues g hg
  unfold SelectStmt.itemRow
  rw [hvalues]
  rfl

/-- Without a `GROUP BY` clause, all rows are of the one group. -/
lemma groupVector_of_nil (hnil : select.groupClause = []) (tuple : Tuple) :
    select.groupVector stof tableAlias info tuple = [] := by
  unfold SelectStmt.groupVector SelectStmt.groupValues
  rw [hnil]
  rfl

/-- A chosen row is a member of its group. -/
lemma groupVector_mem_groups (htuple : tuple ∈ select.chosen stof tableAlias info rows) :
    select.groupVector stof tableAlias info tuple ∈ select.groups stof tableAlias info rows := by
  unfold SelectStmt.groups
  split_ifs with hnil
  · rw [groupVector_of_nil hnil]
    exact List.mem_singleton_self _
  · exact List.mem_dedup.2 (List.mem_map_of_mem htuple)

/-- With a `GROUP BY` clause, each group has a row. -/
lemma mem_groups_iff (hne : select.groupClause ≠ []) :
    g ∈ select.groups stof tableAlias info rows ↔
      ∃ tuple ∈ select.chosen stof tableAlias info rows,
        select.groupVector stof tableAlias info tuple = g := by
  unfold SelectStmt.groups
  rw [if_neg hne, List.mem_dedup, List.mem_map]

/-- A `GROUP BY` expression has the same value on all rows of a group. -/
lemma valueOn_eq_of_hasKey (hdefined : select.GroupsDefined stof tableAlias info rows)
    (hkey : select.HasKey stof tableAlias info node) {s t : Tuple}
    (hs : s ∈ select.members stof tableAlias info rows g)
    (ht : t ∈ select.members stof tableAlias info rows g) :
    node.valueOn stof tableAlias info s = node.valueOn stof tableAlias info t := by
  obtain ⟨hschosen, hsg⟩ := mem_members.1 hs
  obtain ⟨htchosen, htg⟩ := mem_members.1 ht
  have hsvalues := hdefined.groupValues_eq hschosen
  have htvalues := hdefined.groupValues_eq htchosen
  rw [hsg] at hsvalues
  rw [htg] at htvalues
  obtain ⟨key, hmem, hbind⟩ := hkey
  have heq := Cpp.apply_eq_of_mapM hsvalues htvalues key hmem
  unfold Node.valueOn at heq ⊢
  rw [hbind]
  exact heq

/-- An aggregate is not bound as an expression. -/
lemma not_aggregate_of_binds {scopes : List TableScope} {expr : Expression}
    (hbind : bindExpression stof scopes node = pure expr) (aggType : AggregationType)
    (args : List Node) (aggStar : Bool) : node.targetKind ≠ .aggregate aggType args aggStar := by
  intro hkind
  cases node with
  | funcCall funcname args' aggStar' =>
    rw [bindExpression] at hbind
    cases hbind
  | columnRef fields =>
    match fields with
    | [] => cases hkind
    | .aStar :: _ => cases hkind
    | .string _ :: _ => cases hkind
  | _ => cases hkind

/-- The value of an expression for a group is that on each of its rows. -/
lemma itemValue_regular (hdefined : select.GroupsDefined stof tableAlias info rows)
    (hkey : select.HasKey stof tableAlias info node)
    (htuple : tuple ∈ select.chosen stof tableAlias info rows) :
    select.itemValue stof tableAlias info rows (select.groupVector stof tableAlias info tuple)
      node = node.valueOn stof tableAlias info tuple := by
  have hmember : tuple ∈ select.members stof tableAlias info rows
      (select.groupVector stof tableAlias info tuple) := mem_members.2 ⟨htuple, rfl⟩
  have hnot : ∀ aggType args aggStar, node.targetKind ≠ .aggregate aggType args aggStar := by
    obtain ⟨key, hmem, hbind⟩ := hkey
    obtain ⟨v, -, hv⟩ := Cpp.exists_of_mapM (hdefined.groupValues_eq htuple) hmem
    obtain ⟨expr, hexpr, -⟩ := Cpp.bind_eq_pure.1 hv
    exact not_aggregate_of_binds (hbind.trans hexpr)
  have hfirst : (match select.members stof tableAlias info rows
      (select.groupVector stof tableAlias info tuple) with
      | tuple :: _ => node.valueOn stof tableAlias info tuple
      | [] => Cpp.undefined) = node.valueOn stof tableAlias info tuple := by
    cases hmembers : select.members stof tableAlias info rows
        (select.groupVector stof tableAlias info tuple) with
    | nil =>
      rw [hmembers] at hmember
      exact absurd hmember List.not_mem_nil
    | cons first others =>
      refine valueOn_eq_of_hasKey hdefined hkey ?_ hmember
      rw [hmembers]
      exact List.mem_cons_self
  unfold SelectStmt.itemValue
  split
  · rename_i aggType args aggStar hkind
    exact absurd hkind (hnot aggType args aggStar)
  · exact hfirst

/-- The keys of a group are those of each of its rows. -/
lemma keyRow_eq (hdefined : select.GroupsDefined stof tableAlias info rows)
    (hkeys : ∀ sortBy ∈ select.sortClause, select.HasKey stof tableAlias info sortBy.node)
    (htuple : tuple ∈ select.chosen stof tableAlias info rows) :
    (select.sortClause.mapM fun sortBy => sortBy.node.valueOn stof tableAlias info tuple) =
      pure (select.keyRow stof tableAlias info rows
        (select.groupVector stof tableAlias info tuple)) := by
  have hexists : ∃ keys, (select.sortClause.mapM fun sortBy =>
      sortBy.node.valueOn stof tableAlias info tuple) = pure keys := by
    apply Cpp.exists_mapM
    intro sortBy hsortBy
    obtain ⟨key, hmem, hbind⟩ := hkeys sortBy hsortBy
    obtain ⟨v, -, hv⟩ := Cpp.exists_of_mapM (hdefined.groupValues_eq htuple) hmem
    unfold Node.valueOn at hv ⊢
    exact ⟨v, by rw [hbind, hv]⟩
  obtain ⟨keys, hvalues⟩ := hexists
  unfold SelectStmt.keyRow
  rw [Cpp.mapM_congr fun sortBy hsortBy =>
    itemValue_regular hdefined (hkeys sortBy hsortBy) htuple, hvalues]
  rfl

end Values

/-! ## Aggregates of groups -/

section Aggregates

variable {stof : String → Cpp (BitVec 32)} {tableAlias : String} {info : TableInfo}
  {select : SelectStmt} {rows : List Tuple} {g : List Value} {node : Node}
  {aggCall : AggregationType × Expression} {aggCalls : List (AggregationType × Expression)}

/-- The aggregate of the values of an expression on some rows. -/
def totalOn (schema : Schema) (tuples : List Tuple) (aggCall : AggregationType × Expression) :
    Cpp Value := do
  let inputs ← tuples.mapM fun tuple => aggCall.2.evaluate tuple schema
  aggCall.1.total inputs

/-- The binder makes the first column the input of `COUNT(*)`. -/
lemma bindAggregate_countsRows {scopes : List TableScope}
    (hbind : bindAggregate stof scopes node = pure aggCall) (hcounts : node.countsRows = true) :
    aggCall = (.countStarAggregate, .columnValue 0 0 .integer) := by
  unfold bindAggregate at hbind
  unfold Node.countsRows at hcounts
  cases hkind : node.targetKind with
  | aggregate aggType args aggStar =>
    simp only [hkind, decide_eq_true_eq] at hbind hcounts
    unfold bindAggCall at hbind
    rw [if_pos hcounts] at hbind
    exact (Except.ok.inj (Option.some.inj hbind)).symm
  | _ => simp [hkind] at hcounts

/-- The value of an aggregate for a group. The rows that a `COUNT(*)` counts have a first column. -/
lemma itemValue_aggregate (hbind : bindAggregate stof [⟨tableAlias, info, 0⟩] node = pure aggCall)
    (hcounted : node.countsRows = true →
      ∀ tuple ∈ select.chosen stof tableAlias info rows,
        ∃ v, tuple.getValueAt info.schema 0 = pure v) :
    select.itemValue stof tableAlias info rows g node =
      totalOn info.schema (select.members stof tableAlias info rows g) aggCall := by
  unfold bindAggregate at hbind
  cases hkind : node.targetKind with
  | aggregate aggType args aggStar =>
    simp only [hkind] at hbind
    unfold bindAggCall at hbind
    unfold SelectStmt.itemValue
    simp only [hkind]
    split_ifs at hbind ⊢ with hstar
    · cases hbind
      have hcounts : node.countsRows = true := by
        unfold Node.countsRows
        rw [hkind]
        exact decide_eq_true hstar
      have hexists : ∃ inputs, (select.members stof tableAlias info rows g).mapM (fun tuple =>
          (Expression.columnValue 0 0 .integer).evaluate tuple info.schema) = pure inputs :=
        Cpp.exists_mapM fun tuple htuple => hcounted hcounts tuple (mem_members.1 htuple).1
      obtain ⟨inputs, hinputs⟩ := hexists
      unfold totalOn
      rw [hinputs, pure_bind, AggregationType.total, (Cpp.mapM_eq_pure.1 hinputs).length_eq]
    · cases args with
      | nil => cases hbind
      | cons arg args =>
        obtain ⟨expr, hexpr, hpure⟩ := Cpp.bind_eq_pure.1 hbind
        cases hpure
        have hvalue : arg.valueOn stof tableAlias info =
            fun tuple => expr.evaluate tuple info.schema := by
          funext tuple
          unfold Node.valueOn
          rw [hexpr, pure_bind]
        dsimp only
        rw [hvalue]
        rfl
  | _ =>
    simp only [hkind] at hbind
    cases hbind

/-- The totals of the inputs of some rows are the aggregates on these rows. -/
lemma totalsOf_inputs {schema : Schema} {tuples : List Tuple} {inputs : Tuple → List Value}
    (hinputs : ∀ tuple ∈ tuples, (aggCalls.map Prod.snd).mapM (fun expr => expr.evaluate tuple schema) =
      pure (inputs tuple)) :
    totalsOf (aggCalls.map Prod.fst) (tuples.map inputs) =
      aggCalls.mapM (totalOn schema tuples) := by
  induction aggCalls generalizing inputs with
  | nil => rfl
  | cons aggCall aggCalls ih =>
    have hsplit : ∀ tuple ∈ tuples,
        aggCall.2.evaluate tuple schema = pure ((inputs tuple).getD 0 default) ∧
          (aggCalls.map Prod.snd).mapM (fun expr => expr.evaluate tuple schema) =
            pure (inputs tuple).tail := by
      intro tuple htuple
      have hvalues := hinputs tuple htuple
      rw [List.map_cons, List.mapM_cons] at hvalues
      obtain ⟨v, hv, hrest⟩ := Cpp.bind_eq_pure.1 hvalues
      obtain ⟨values, hvs, hpure⟩ := Cpp.bind_eq_pure.1 hrest
      rw [← Except.ok.inj (Option.some.inj hpure)]
      exact ⟨hv, hvs⟩
    have hcolumn : tuples.mapM (fun tuple => aggCall.2.evaluate tuple schema) =
        pure (column 0 (tuples.map inputs)) := by
      rw [Cpp.mapM_congr fun tuple htuple => (hsplit tuple htuple).1, column, List.map_map]
      exact List.mapM_pure
    have htail := ih fun tuple htuple => (hsplit tuple htuple).2
    rw [List.map_cons, totalsOf, List.mapM_cons, totalOn, hcolumn, pure_bind, List.map_map]
    exact congrArg _ (funext fun v => by rw [← htail]; rfl)

/-- What totals of inputs exist, exist of the first of them. -/
lemma exists_totalsOf_append {aggTypes : List AggregationType} {before after : List (List Value)}
    {totals : List Value} (hlen : ∀ values ∈ after, aggTypes.length = values.length)
    (h : totalsOf aggTypes (before ++ after) = pure totals) :
    ∃ first, totalsOf aggTypes before = pure first := by
  induction after generalizing before with
  | nil => exact ⟨totals, by rwa [List.append_nil] at h⟩
  | cons values after ih =>
    rw [List.append_cons] at h
    obtain ⟨next, hnext⟩ := ih (fun v hv => hlen v (List.mem_cons_of_mem _ hv)) h
    obtain ⟨first, hfirst, -⟩ := updateAggregates_totals (hlen values List.mem_cons_self) hnext
    exact ⟨first, hfirst⟩

end Aggregates

end OneBase
