import OneBase.Binder.GroupMeaning

set_option relaxedAutoImplicit false
set_option autoImplicit false

/-!
# The plan of a grouped query

With aggregates the plan is an aggregation without a projection above it: a row consists of the
values of the group, followed by the aggregates in their order, and the sort reads its keys, which
were bound to the columns of the table, on these rows. Without aggregates the binder does not look
at the `GROUP BY` clause, and the plan has a row for each row of the table.

## Main definitions

* `OneBase.SelectStmt.layoutRow` — the row that an aggregation makes of a group.
* `OneBase.SelectStmt.AggregatesAnswer`, `OneBase.SelectStmt.RowsAnswer` — when these rows are those
  that the statement asks for, with and without aggregates.

## Main results

* `OneBase.groupedAnswered_iff` — when the plan returns what a grouped query asks for.
-/

namespace OneBase

/-! ## What the plan makes of the groups -/

/-- The schema of an aggregation. -/
def aggregationSchema (groups aggregates : ℕ) : Schema :=
  .new ((List.range groups).map (fun i => Column.new s!"group_{i}" .integer) ++
    (List.range aggregates).map fun i => Column.new s!"agg_{i}" .integer)

/-- The row of these values, if it can be made. -/
def Tuple.made (values : List Value) : Tuple := ((Tuple.ofValues values).result).getD default

/-- All these values can be written. -/
def Storable (values : List Value) : Prop := ∀ v ∈ values, ∃ data, Tuple.appendValue [] v = pure data

/-- What a `LIMIT` lets pass of some rows. -/
def limitedTo {α : Type} (limitCount : Node) (l : List α) : List α :=
  match limitCount with
  | .aConst (.integer ival) => l.take ival.toNat
  | _ => l

/-- The `LIMIT` lets this many rows pass. -/
def LetsPass (limitCount : Node) (n : ℕ) : Prop :=
  ∀ ival : BitVec 64, limitCount = .aConst (.integer ival) → n ≤ ival.toNat

namespace SelectStmt

section Layout

variable (stof : String → Cpp (BitVec 32)) (tableAlias : String) (info : TableInfo)
  (select : SelectStmt) (rows : List Tuple) (g : List Value)

/-- The aggregates among the targets. -/
def aggregateItems : List ResTarget := select.targetList.filter ResTarget.isAggregate

/-- The aggregates of a group, in their order. -/
def aggregateValues : Cpp (List Value) :=
  select.aggregateItems.mapM fun res => select.itemValue stof tableAlias info rows g res.val

/-- The row that an aggregation makes of a group: its values, then its aggregates. -/
def layoutRow : List Value :=
  g ++ (select.aggregateValues stof tableAlias info rows g).result.getD []

/-- Whether the sort above an aggregation puts a group before another one: it reads the keys on the
rows of the groups. -/
def layoutBefore (h : List Value) : Cpp Bool := do
  let orderBys ← select.sortClause.mapM (bindSortBy stof [⟨tableAlias, info, 0⟩])
  compareRows (aggregationSchema select.groupClause.length select.aggregateItems.length) orderBys
    (.made (select.layoutRow stof tableAlias info rows g))
    (.made (select.layoutRow stof tableAlias info rows h))

/-- With aggregates: the `LIMIT` lets all groups pass, the rows that a `COUNT(*)` counts have a first
column, the keys of the hash table tell the groups apart, their rows can be stored and compared, and
in every order in which the sort may leave them they are the rows of the statement in the order of
the `ORDER BY` keys. -/
structure AggregatesAnswer : Prop where
  limit : LetsPass select.limitCount (select.groups stof tableAlias info rows).length
  counted : ∀ res ∈ select.targetList, res.val.countsRows = true →
    ∀ tuple ∈ select.chosen stof tableAlias info rows, ∃ v, tuple.getValueAt info.schema 0 = pure v
  apart : ∀ g ∈ select.groups stof tableAlias info rows,
    ∀ h ∈ select.groups stof tableAlias info rows, g ≠ h →
      groupKey g ≠ groupKey h ∧ ¬ AllEqual g h
  storable : ∀ g ∈ select.groups stof tableAlias info rows,
    Storable (select.layoutRow stof tableAlias info rows g)
  ordered : StrictWeakOrderOn (select.groups stof tableAlias info rows)
    (select.layoutBefore stof tableAlias info rows)
  arranged : ∀ gs : List (List Value), gs.Perm (select.groups stof tableAlias info rows) →
    gs.Pairwise (fun g h => select.layoutBefore stof tableAlias info rows h g = pure false) →
    ∃ gs' : List (List Value), gs'.Perm (select.groups stof tableAlias info rows) ∧
      gs.map (select.layoutRow stof tableAlias info rows) =
        gs'.map (select.itemRow stof tableAlias info rows) ∧
      gs'.Pairwise fun g h => select.groupBefore stof tableAlias info rows h g = pure false

/-- The projection makes of a row the row of its group. Without targets there is no projection, and
the row must have no columns. -/
def Shows (tuple : Tuple) : Prop :=
  if select.targetList = [] then tuple.values = []
  else Storable (select.itemRow stof tableAlias info rows
    (select.groupVector stof tableAlias info tuple))

/-- Without aggregates: the groups can be compared, and in every order in which the sort may leave
the chosen rows, those that the `LIMIT` lets pass are shown as the rows of the statement in the order
of the `ORDER BY` keys. -/
structure RowsAnswer : Prop where
  apart : ∀ g ∈ select.groups stof tableAlias info rows,
    ∀ h ∈ select.groups stof tableAlias info rows, g ≠ h → ¬ AllEqual g h
  ordered : StrictWeakOrderOn (select.groups stof tableAlias info rows)
    (select.groupBefore stof tableAlias info rows)
  arranged : ∀ sorted : List Tuple, sorted.Perm (select.chosen stof tableAlias info rows) →
    (select.sortClause = [] → sorted = select.chosen stof tableAlias info rows) →
    sorted.Pairwise (fun s t => select.groupBefore stof tableAlias info rows
      (select.groupVector stof tableAlias info t) (select.groupVector stof tableAlias info s) =
        pure false) →
    (∀ tuple ∈ limitedTo select.limitCount sorted, select.Shows stof tableAlias info rows tuple) ∧
      ∃ gs : List (List Value), gs.Perm (select.groups stof tableAlias info rows) ∧
        ((limitedTo select.limitCount sorted).map (select.groupVector stof tableAlias info)).map
          (select.itemRow stof tableAlias info rows) =
            gs.map (select.itemRow stof tableAlias info rows) ∧
        gs.Pairwise fun g h => select.groupBefore stof tableAlias info rows h g = pure false

/-- When the rows of the plan are those that the statement asks for. -/
def AnswersGroups : Prop :=
  if select.targetList.any ResTarget.isAggregate then
    select.AggregatesAnswer stof tableAlias info rows
  else select.RowsAnswer stof tableAlias info rows

end Layout

end SelectStmt

/-! ## The plan -/

section Plan

variable {stof : String → Cpp (BitVec 32)} {info : TableInfo} {scopes : List TableScope}
  {select : SelectStmt} {rv : RangeVar} {catalog : Catalog} {plan child : PlanNode}
  {std : StandardLibrary} {ctx : ExecutorContext} {outcome : Option (List Tuple)}
  {orderBys : List (Bool × Expression)}

/-- The sort of an `ORDER BY` clause. -/
lemma bindSort_eq {sortClause : List SortBy}
    (h : bindSort stof scopes sortClause child = pure plan) :
    ∃ orderBys, sortClause.mapM (bindSortBy stof scopes) = pure orderBys ∧
      plan = sortPlan orderBys child := by
  unfold bindSort at h
  cases sortClause with
  | nil =>
    cases h
    exact ⟨[], rfl, rfl⟩
  | cons sortBy sortClause =>
    obtain ⟨orderBys, horderBys, h⟩ := Cpp.bind_eq_pure.1 h
    obtain ⟨schema, hschema, h⟩ := Cpp.bind_eq_pure.1 h
    cases h
    refine ⟨orderBys, horderBys, ?_⟩
    have hchild : child ≠ .null := by
      rintro rfl
      cases hschema
    rw [outputSchemaOf_eq hchild] at hschema
    cases hschema
    have hne : orderBys.isEmpty = false := by
      cases Cpp.mapM_eq_pure.1 horderBys
      rfl
    rw [sortPlan, hne, if_neg Bool.false_ne_true]

/-- The directions of a bound `ORDER BY` clause are those of its elements. -/
lemma map_fst_orderBys {sortClause : List SortBy}
    (h : sortClause.mapM (bindSortBy stof scopes) = pure orderBys) :
    orderBys.map Prod.fst = sortClause.map SortBy.isAscending := by
  have hforall := Cpp.mapM_eq_pure.1 h
  clear h
  induction hforall with
  | nil => rfl
  | cons hitem _ ih =>
    obtain ⟨expr, -, hpure⟩ := Cpp.bind_eq_pure.1 hitem
    cases hpure
    rw [List.map_cons, List.map_cons, ih]
    rfl

/-- A sort has the columns of its child. -/
lemma getOutputSchema_sortPlan (orderBys : List (Bool × Expression)) (child : PlanNode) :
    (sortPlan orderBys child).getOutputSchema = child.getOutputSchema := by
  unfold sortPlan
  split_ifs <;> rfl

/-- Of the rows a limit leaves some, in their order. -/
lemma limitedTo_sublist {α : Type} (limitCount : Node) (l : List α) :
    (limitedTo limitCount l).Sublist l := by
  unfold limitedTo
  split
  · exact List.take_sublist _ _
  · exact .refl _

/-- A limit that lets all rows pass. -/
lemma limitedTo_eq_self_iff {α : Type} {limitCount : Node} {l : List α} :
    limitedTo limitCount l = l ↔ LetsPass limitCount l.length := by
  unfold limitedTo LetsPass
  split
  · rename_i ival
    rw [List.take_eq_self_iff]
    constructor
    · intro hle ival' heq
      cases heq
      exact hle
    · intro hle
      exact hle ival rfl
  · rename_i hnot
    exact ⟨fun _ ival heq => absurd heq (hnot ival), fun _ => rfl⟩

/-- The limit of a `LIMIT` clause. -/
lemma eq_limitPlan {limitCount : Node} (h : bindLimit limitCount child = pure plan) :
    plan = limitPlan limitCount child := by
  unfold bindLimit at h
  split at h
  · cases h
    rfl
  · obtain ⟨schema, hschema, hplan⟩ := Cpp.bind_eq_pure.1 h
    cases hplan
    have hchild : child ≠ .null := by
      rintro rfl
      cases hschema
    rw [outputSchemaOf_eq hchild] at hschema
    cases hschema
    rfl
  · cases h

/-- A limit has the columns of its child. -/
lemma getOutputSchema_limitPlan (limitCount : Node) (child : PlanNode) :
    (limitPlan limitCount child).getOutputSchema = child.getOutputSchema := by
  unfold limitPlan
  split <;> rfl

/-- The outcome of a limit, if there is one. -/
lemma HasOutcome.limitPlan (h : HasOutcome std child ctx outcome) (limitCount : Node) :
    HasOutcome std (OneBase.limitPlan limitCount child) ctx
      (outcome.map (limitedTo limitCount)) := by
  unfold OneBase.limitPlan
  split
  · exact h.limit _
  · rename_i hnot
    have hid : limitedTo limitCount = (id : List Tuple → List Tuple) := by
      funext l
      unfold limitedTo
      split
      · exact absurd rfl (hnot _)
      · rfl
    rw [hid, Option.map_id]
    exact h

/-- The outcome of a sort, if there is one. -/
lemma HasOutcome.sortPlan (h : HasOutcome std child ctx outcome) :
    HasOutcome std (OneBase.sortPlan orderBys child) ctx (outcome.bind fun tuples =>
      (sortedBy std child.getOutputSchema orderBys tuples).result) := by
  unfold OneBase.sortPlan sortedBy
  split_ifs
  · cases outcome <;> exact h
  · exact h.sort

/-- The expressions of the projection; without any there is no projection. -/
def Targets.projection (targets : Targets) : List Expression :=
  if targets.isStar then [] else targets.outputExprs

/-- The plan of a query on one table. -/
lemma SelectStmt.exists_tablePlan (hfrom : select.fromClause = [.rangeVar rv])
    (hname : tableNamed catalog rv.relname = some info)
    (hbind : bindSelect stof catalog select = pure plan) :
    ∃ (base : PlanNode) (targets : Targets) (orderBys : List (Bool × Expression)),
      bindWhere stof [⟨rv.getAlias, info, 0⟩] select.whereClause
        (.seqScan info.schema info.oid .null) = pure base ∧
      select.targetList.foldlM (bindTarget stof [⟨rv.getAlias, info, 0⟩]) {} = pure targets ∧
      select.sortClause.mapM (bindSortBy stof [⟨rv.getAlias, info, 0⟩]) = pure orderBys ∧
      if targets.hasAggregates then
        ∃ groupBys : List Expression,
          select.groupClause.mapM (bindExpression stof [⟨rv.getAlias, info, 0⟩]) = pure groupBys ∧
          plan = limitPlan select.limitCount (sortPlan orderBys (.aggregation
            (aggregationSchema groupBys.length targets.aggCalls.length) base groupBys
            (targets.aggCalls.map Prod.snd) (targets.aggCalls.map Prod.fst)))
      else if targets.projection = [] then
        plan = limitPlan select.limitCount (sortPlan orderBys base)
      else ∃ schema, plan = .projection schema (limitPlan select.limitCount (sortPlan orderBys base))
        targets.projection := by
  have htable : lookupTable catalog rv.relname = pure info := Cpp.result_eq_some.1 hname
  unfold bindSelect at hbind
  rw [hfrom, bindFrom_table htable, pure_bind] at hbind
  obtain ⟨base, hwhere, hbind⟩ := Cpp.bind_eq_pure.1 hbind
  obtain ⟨targets, htargets, hbind⟩ := Cpp.bind_eq_pure.1 hbind
  obtain ⟨grouped, hgrouped, hbind⟩ := Cpp.bind_eq_pure.1 hbind
  obtain ⟨sorted, hsorted, hbind⟩ := Cpp.bind_eq_pure.1 hbind
  obtain ⟨limited, hlimited, hproject⟩ := Cpp.bind_eq_pure.1 hbind
  obtain ⟨orderBys, horderBys, rfl⟩ := bindSort_eq hsorted
  obtain rfl := eq_limitPlan hlimited
  refine ⟨base, targets, orderBys, hwhere, htargets, horderBys, ?_⟩
  unfold bindAggregation at hgrouped
  unfold bindProjection at hproject
  unfold Targets.projection
  cases hagg : targets.hasAggregates with
  | true =>
    rw [hagg, if_pos rfl] at hgrouped
    obtain ⟨groupBys, hgroupBys, hplan⟩ := Cpp.bind_eq_pure.1 hgrouped
    cases hplan
    rw [hagg, if_neg (by simp)] at hproject
    cases hproject
    exact ⟨groupBys, hgroupBys, rfl⟩
  | false =>
    rw [hagg, if_neg Bool.false_ne_true] at hgrouped
    cases hgrouped
    rw [hagg] at hproject
    rw [if_neg Bool.false_ne_true]
    cases hstar : targets.isStar with
    | true =>
      rw [hstar, if_neg (by simp)] at hproject
      cases hproject
      rfl
    | false =>
      rw [hstar] at hproject
      rw [if_neg Bool.false_ne_true]
      by_cases hnil : targets.outputExprs = []
      · rw [if_neg (by simp [hnil])] at hproject
        cases hproject
        rw [if_pos hnil]
      · rw [if_pos ⟨rfl, rfl, hnil⟩] at hproject
        obtain ⟨columns, -, hplan⟩ := Cpp.bind_eq_pure.1 hproject
        cases hplan
        rw [if_neg hnil]
        exact ⟨_, rfl⟩

/-- The plan of a grouped query. -/
lemma SelectStmt.IsGrouped.exists_plan (h : select.IsGrouped stof info rv)
    (hname : tableNamed catalog rv.relname = some info)
    (hbind : bindSelect stof catalog select = pure plan) :
    ∃ (base : PlanNode) (targets : Targets) (orderBys : List (Bool × Expression)),
      bindWhere stof [⟨rv.getAlias, info, 0⟩] select.whereClause
        (.seqScan info.schema info.oid .null) = pure base ∧
      targets.Binds stof [⟨rv.getAlias, info, 0⟩] select.targetList ∧
      select.sortClause.mapM (bindSortBy stof [⟨rv.getAlias, info, 0⟩]) = pure orderBys ∧
      if select.targetList.any ResTarget.isAggregate then
        ∃ groupBys : List Expression,
          select.groupClause.mapM (bindExpression stof [⟨rv.getAlias, info, 0⟩]) = pure groupBys ∧
          plan = limitPlan select.limitCount (sortPlan orderBys (.aggregation
            (aggregationSchema groupBys.length targets.aggCalls.length) base groupBys
            (targets.aggCalls.map Prod.snd) (targets.aggCalls.map Prod.fst)))
      else if targets.outputExprs = [] then
        plan = limitPlan select.limitCount (sortPlan orderBys base)
      else ∃ schema, plan = .projection schema (limitPlan select.limitCount (sortPlan orderBys base))
        targets.outputExprs := by
  obtain ⟨base, targets, orderBys, hwhere, htargets, horderBys, hplan⟩ :=
    SelectStmt.exists_tablePlan h.fromClause hname hbind
  have hbinds := bindTarget_spec htargets
  have hstar : targets.isStar = false := by
    rw [hbinds.isStar, List.any_eq_false]
    intro res hres
    rcases h.targets res hres with hagg | ⟨hregular, -⟩
    · unfold ResTarget.isAggregate at hagg
      unfold ResTarget.isStar
      cases hkind : res.val.targetKind <;> rw [hkind] at hagg <;> simp at hagg ⊢
    · unfold ResTarget.isRegular at hregular
      unfold ResTarget.isStar
      cases hkind : res.val.targetKind <;> rw [hkind] at hregular <;> simp at hregular ⊢
  unfold Targets.projection at hplan
  rw [hstar, if_neg Bool.false_ne_true, hbinds.hasAggregates] at hplan
  exact ⟨base, targets, orderBys, hwhere, hbinds, horderBys, hplan⟩

end Plan

/-! ## The aggregation -/

/-- The groups and aggregates of a query on these rows, as the binder hands them to the
aggregation. -/
structure BoundAggregation (stof : String → Cpp (BitVec 32)) (tableAlias : String)
    (info : TableInfo) (select : SelectStmt) (rows : List Tuple) (groupBys : List Expression)
    (aggCalls : List (AggregationType × Expression)) : Prop where
  defined : select.GroupsDefined stof tableAlias info rows
  groupBys : select.groupClause.mapM (bindExpression stof [⟨tableAlias, info, 0⟩]) = pure groupBys
  aggCalls : List.Forall₂ (fun res aggCall =>
    bindAggregate stof [⟨tableAlias, info, 0⟩] res.val = pure aggCall) select.aggregateItems aggCalls

/-- An aggregation whose `COUNT(*)` can read the first column. -/
structure AggregationParts (stof : String → Cpp (BitVec 32)) (tableAlias : String)
    (info : TableInfo) (select : SelectStmt) (rows : List Tuple) (groupBys : List Expression)
    (aggCalls : List (AggregationType × Expression)) : Prop extends
    BoundAggregation stof tableAlias info select rows groupBys aggCalls where
  counted : ∀ res ∈ select.targetList, res.val.countsRows = true →
    ∀ tuple ∈ select.chosen stof tableAlias info rows, ∃ v, tuple.getValueAt info.schema 0 = pure v

/-- The inputs of the aggregates on a row. -/
def inputVector (schema : Schema) (aggCalls : List (AggregationType × Expression))
    (tuple : Tuple) : List Value :=
  (((aggCalls.map Prod.snd).mapM fun expr : Expression => expr.evaluate tuple schema).result).getD []

/-- The aggregates of a group exist, and follow its values in its row. -/
lemma SelectStmt.GroupsDefined.aggregateValues_returns {stof : String → Cpp (BitVec 32)}
    {tableAlias : String} {info : TableInfo} {select : SelectStmt} {rows : List Tuple}
    {g : List Value} (hdefined : select.GroupsDefined stof tableAlias info rows)
    (hg : g ∈ select.groups stof tableAlias info rows) :
    ∃ values, select.aggregateValues stof tableAlias info rows g = pure values ∧
      select.layoutRow stof tableAlias info rows g = g ++ values := by
  have hexists : ∃ values, select.aggregateValues stof tableAlias info rows g = pure values := by
    apply Cpp.exists_mapM
    intro res hres
    obtain ⟨v, -, hv⟩ := Cpp.exists_of_mapM (hdefined.itemValues_eq hg)
      (List.mem_of_mem_filter hres)
    exact ⟨v, hv⟩
  obtain ⟨values, hvalues⟩ := hexists
  refine ⟨values, hvalues, ?_⟩
  unfold SelectStmt.layoutRow
  rw [hvalues]
  rfl

namespace AggregationParts

variable {stof : String → Cpp (BitVec 32)} {tableAlias : String} {info : TableInfo}
  {select : SelectStmt} {rows : List Tuple} {groupBys : List Expression}
  {aggCalls : List (AggregationType × Expression)} {tuple : Tuple} {g : List Value}

/-- On a chosen row the bound keys have the values of the clause. -/
lemma evaluate_groups (h : AggregationParts stof tableAlias info select rows groupBys aggCalls)
    (htuple : tuple ∈ select.chosen stof tableAlias info rows) :
    (groupBys.mapM fun expr => expr.evaluate tuple info.schema) =
      pure (select.groupVector stof tableAlias info tuple) := by
  rw [← h.defined.groupValues_eq htuple]
  refine (Cpp.mapM_eq_of_forall₂ ((Cpp.mapM_eq_pure.1 h.groupBys).imp ?_)).symm
  intro key expr hexpr
  show key.valueOn stof tableAlias info tuple = _
  rw [Node.valueOn, hexpr, pure_bind]

/-- The aggregates of a group are those on its rows. -/
lemma aggregateValues_eq (h : AggregationParts stof tableAlias info select rows groupBys aggCalls)
    (g : List Value) : select.aggregateValues stof tableAlias info rows g =
      aggCalls.mapM (totalOn info.schema (select.members stof tableAlias info rows g)) := by
  apply Cpp.mapM_eq_of_forall₂
  have hmem : ∀ res ∈ select.aggregateItems, res ∈ select.targetList := fun res hres =>
    List.mem_of_mem_filter hres
  have hcalls := h.aggCalls
  have hcounted := h.counted
  clear h
  generalize select.aggregateItems = items at hmem hcalls
  induction hcalls with
  | nil => exact .nil
  | @cons res _ _ _ hbind _ ih =>
    refine .cons (itemValue_aggregate hbind (hcounted res (hmem res List.mem_cons_self))) ?_
    exact ih fun r hr => hmem r (List.mem_cons_of_mem _ hr)

/-- The aggregates of a group exist. -/
lemma aggregateValues_returns
    (h : AggregationParts stof tableAlias info select rows groupBys aggCalls)
    (hg : g ∈ select.groups stof tableAlias info rows) :
    ∃ values, select.aggregateValues stof tableAlias info rows g = pure values ∧
      select.layoutRow stof tableAlias info rows g = g ++ values :=
  h.defined.aggregateValues_returns hg

/-- The inputs of the aggregates exist on the chosen rows. -/
lemma evaluate_inputs (h : AggregationParts stof tableAlias info select rows groupBys aggCalls)
    (htuple : tuple ∈ select.chosen stof tableAlias info rows) :
    ((aggCalls.map Prod.snd).mapM fun expr => expr.evaluate tuple info.schema) =
      pure (inputVector info.schema aggCalls tuple) := by
  have hexists : ∃ inputs, ((aggCalls.map Prod.snd).mapM fun expr =>
      expr.evaluate tuple info.schema) = pure inputs := by
    apply Cpp.exists_mapM
    intro expr hexpr
    obtain ⟨aggCall, hmem, rfl⟩ := List.mem_map.1 hexpr
    obtain ⟨values, hvalues, -⟩ := h.aggregateValues_returns (groupVector_mem_groups htuple)
    rw [h.aggregateValues_eq] at hvalues
    obtain ⟨v, -, hv⟩ := Cpp.exists_of_mapM hvalues hmem
    obtain ⟨inputs, hinputs, -⟩ := Cpp.bind_eq_pure.1 hv
    obtain ⟨input, -, hinput⟩ := Cpp.exists_of_mapM hinputs (mem_members.2 ⟨htuple, rfl⟩)
    exact ⟨input, hinput⟩
  obtain ⟨inputs, hinputs⟩ := hexists
  unfold inputVector
  rw [hinputs]
  rfl

/-- The totals of the inputs of a group are its aggregates. -/
lemma totalsOf_members (h : AggregationParts stof tableAlias info select rows groupBys aggCalls)
    (g : List Value) :
    totalsOf (aggCalls.map Prod.fst) ((select.members stof tableAlias info rows g).map
        (inputVector info.schema aggCalls)) =
      select.aggregateValues stof tableAlias info rows g := by
  rw [h.aggregateValues_eq]
  exact totalsOf_inputs fun tuple htuple => h.evaluate_inputs (mem_members.1 htuple).1

/-- What the keys of the hash table must tell apart. -/
lemma groupRows (h : AggregationParts stof tableAlias info select rows groupBys aggCalls)
    (hinj : ∀ g ∈ select.groups stof tableAlias info rows,
      ∀ g' ∈ select.groups stof tableAlias info rows, groupKey g = groupKey g' → g = g') :
    GroupRows info.schema groupBys (aggCalls.map Prod.snd)
      (placeless (select.chosen stof tableAlias info rows))
      (fun row => select.groupVector stof tableAlias info row.1)
      (fun row => inputVector info.schema aggCalls row.1) where
  evaluate_groups := by
    intro row hrow
    obtain ⟨tuple, htuple, rfl⟩ := List.mem_map.1 hrow
    exact h.evaluate_groups htuple
  evaluate_inputs := by
    intro row hrow
    obtain ⟨tuple, htuple, rfl⟩ := List.mem_map.1 hrow
    exact h.evaluate_inputs htuple
  key_inj := by
    intro row hrow row' hrow' hkey
    obtain ⟨tuple, htuple, rfl⟩ := List.mem_map.1 hrow
    obtain ⟨tuple', htuple', rfl⟩ := List.mem_map.1 hrow'
    exact hinj _ (groupVector_mem_groups htuple) _ (groupVector_mem_groups htuple') hkey

/-- What an aggregation totals for a key are the inputs of its members. -/
lemma groupInputs_placeless (g : List Value) :
    groupInputs (fun row => select.groupVector stof tableAlias info row.1)
        (fun row => inputVector info.schema aggCalls row.1)
        (placeless (select.chosen stof tableAlias info rows)) g =
      (select.members stof tableAlias info rows g).map (inputVector info.schema aggCalls) := by
  unfold groupInputs placeless SelectStmt.members
  rw [List.filter_map, List.map_map]
  rfl

/-- The hash table has an entry for each group that has a row. -/
lemma exists_table (h : AggregationParts stof tableAlias info select rows groupBys aggCalls)
    (hinj : ∀ g ∈ select.groups stof tableAlias info rows,
      ∀ g' ∈ select.groups stof tableAlias info rows, groupKey g = groupKey g' → g = g') :
    ∃ aht, (placeless (select.chosen stof tableAlias info rows)).foldlM
        (aggregateRow groupBys (aggCalls.map Prod.snd) (aggCalls.map Prod.fst) info.schema) [] =
          pure aht ∧
      ∃ gs : List (List Value), gs.Nodup ∧
        (∀ g, g ∈ gs ↔ g ∈ (select.chosen stof tableAlias info rows).map
          (select.groupVector stof tableAlias info)) ∧
        (aht.map fun entry => entry.2.groupBys ++ entry.2.aggregates) =
          gs.map (select.layoutRow stof tableAlias info rows) := by
  set summary : List (List Value) → List Value := fun inputs =>
    ((totalsOf (aggCalls.map Prod.fst) inputs).result).getD [] with hsummary
  have hinit : summary [] = initialAggregates (aggCalls.map Prod.fst) := by
    rw [hsummary]
    dsimp only
    rw [totalsOf_nil]
    rfl
  have hlen : ∀ tuple ∈ select.chosen stof tableAlias info rows,
      (aggCalls.map Prod.fst).length = (inputVector info.schema aggCalls tuple).length := by
    intro tuple htuple
    rw [← (Cpp.mapM_eq_pure.1 (h.evaluate_inputs htuple)).length_eq, List.length_map,
      List.length_map]
  have hupdate : ∀ row ∈ placeless (select.chosen stof tableAlias info rows), ∀ before after,
      groupInputs (fun row => select.groupVector stof tableAlias info row.1)
        (fun row => inputVector info.schema aggCalls row.1)
        (placeless (select.chosen stof tableAlias info rows))
        (select.groupVector stof tableAlias info row.1) =
          before ++ inputVector info.schema aggCalls row.1 :: after →
      updateAggregates (aggCalls.map Prod.fst) (summary before)
        (inputVector info.schema aggCalls row.1) =
          pure (summary (before ++ [inputVector info.schema aggCalls row.1])) := by
    intro row hrow before after hsplit
    obtain ⟨tuple, htuple, rfl⟩ := List.mem_map.1 hrow
    rw [groupInputs_placeless] at hsplit
    obtain ⟨values, hvalues, -⟩ := h.aggregateValues_returns (groupVector_mem_groups htuple)
    rw [← h.totalsOf_members, hsplit, List.append_cons] at hvalues
    have hafter : ∀ inputs ∈ after, (aggCalls.map Prod.fst).length = inputs.length := by
      intro inputs hinputs
      have hmem : inputs ∈ (select.members stof tableAlias info rows
          (select.groupVector stof tableAlias info tuple)).map
            (inputVector info.schema aggCalls) := by
        rw [hsplit]
        simp [hinputs]
      obtain ⟨tuple', htuple', rfl⟩ := List.mem_map.1 hmem
      exact hlen tuple' (mem_members.1 htuple').1
    obtain ⟨totals, htotals⟩ := exists_totalsOf_append hafter hvalues
    obtain ⟨first, hfirst, hstep⟩ := updateAggregates_totals (hlen tuple htuple) htotals
    rw [hsummary]
    dsimp only
    rw [hfirst, htotals]
    exact hstep
  obtain ⟨aht, hfold, gs, hnodup, hmem, rfl⟩ := (h.groupRows hinj).foldlM_aggregateRow hinit
    (List.nil_append _).symm hupdate ⟨[], List.nodup_nil, by simp, rfl⟩
  refine ⟨_, hfold, gs, hnodup, fun g => ?_, ?_⟩
  · rw [hmem, placeless, List.map_map]
    rfl
  · rw [List.map_map]
    apply List.map_congr_left
    intro g _
    show g ++ summary (groupInputs _ _ _ g) = _
    rw [groupInputs_placeless, hsummary]
    dsimp only
    rw [h.totalsOf_members]
    rfl

/-- The rows are built from entries for the groups. -/
lemma exists_finishedTable
    (h : AggregationParts stof tableAlias info select rows groupBys aggCalls)
    (hinj : ∀ g ∈ select.groups stof tableAlias info rows,
      ∀ g' ∈ select.groups stof tableAlias info rows, groupKey g = groupKey g' → g = g') :
    ∃ aht, (placeless (select.chosen stof tableAlias info rows)).foldlM
        (aggregateRow groupBys (aggCalls.map Prod.snd) (aggCalls.map Prod.fst) info.schema) [] =
          pure aht ∧
      ∃ gs : List (List Value), gs.Perm (select.groups stof tableAlias info rows) ∧
        ((finishedTable groupBys (aggCalls.map Prod.fst) aht).map fun entry =>
          entry.2.groupBys ++ entry.2.aggregates) =
            gs.map (select.layoutRow stof tableAlias info rows) := by
  obtain ⟨aht, hfold, gs, hnodup, hmem, hrows⟩ := h.exists_table hinj
  refine ⟨aht, hfold, ?_⟩
  have hlen := (Cpp.mapM_eq_pure.1 h.groupBys).length_eq
  have haht : aht.length = gs.length := by
    simpa using congrArg List.length hrows
  unfold finishedTable SelectStmt.groups
  by_cases hglobal : select.groupClause = []
  · have hgroupBys : groupBys = [] := by
      rw [hglobal] at hlen
      exact List.eq_nil_of_length_eq_zero hlen.symm
    rw [if_pos hglobal]
    refine ⟨[[]], .refl _, ?_⟩
    by_cases hempty : aht = []
    · -- there are no rows, and the one row has the aggregates of no rows
      have hchosen : select.chosen stof tableAlias info rows = [] := by
        rw [hempty] at haht
        obtain rfl := List.eq_nil_of_length_eq_zero haht.symm
        refine List.eq_nil_iff_forall_not_mem.2 fun tuple htuple => ?_
        exact absurd ((hmem _).2 (List.mem_map_of_mem htuple)) List.not_mem_nil
      have hmembers : select.members stof tableAlias info rows [] = [] := by
        unfold SelectStmt.members
        rw [hchosen]
        rfl
      rw [if_pos ⟨hempty, hgroupBys⟩]
      unfold SelectStmt.layoutRow
      rw [List.map_singleton, List.map_singleton, ← h.totalsOf_members, hmembers, List.map_nil,
        totalsOf_nil]
      rfl
    · rw [if_neg fun hboth => hempty hboth.1, hrows]
      have hone : ∀ g ∈ gs, g = [] := by
        intro g hg
        obtain ⟨tuple, -, rfl⟩ := List.mem_map.1 ((hmem g).1 hg)
        exact groupVector_of_nil hglobal tuple
      have hgs : gs = [[]] := by
        match gs with
        | [] => exact absurd (List.eq_nil_of_length_eq_zero haht) hempty
        | [g] => rw [hone g List.mem_cons_self]
        | g :: g' :: gs =>
          rw [hone g List.mem_cons_self, hone g' (by simp)] at hnodup
          simp at hnodup
      rw [hgs]
  · have hgroupBys : groupBys ≠ [] := by
      rintro rfl
      exact hglobal (List.eq_nil_of_length_eq_zero hlen)
    have hnot : ¬ (aht = [] ∧ groupBys = []) := fun hboth => hgroupBys hboth.2
    rw [if_neg hglobal, if_neg hnot]
    refine ⟨gs, (List.perm_ext_iff_of_nodup hnodup (List.nodup_dedup _)).2 fun g => ?_, hrows⟩
    rw [hmem, List.mem_dedup]

/-- The outcome of the aggregation: in some order, the row of each group. -/
lemma aggregateTuples_eq (h : AggregationParts stof tableAlias info select rows groupBys aggCalls)
    (hinj : ∀ g ∈ select.groups stof tableAlias info rows,
      ∀ g' ∈ select.groups stof tableAlias info rows, groupKey g = groupKey g' → g = g')
    (std : StandardLibrary) :
    ∃ gs : List (List Value), gs.Perm (select.groups stof tableAlias info rows) ∧
      aggregateTuples std groupBys (aggCalls.map Prod.snd) (aggCalls.map Prod.fst) info.schema
          (select.chosen stof tableAlias info rows) =
        gs.mapM fun g => Tuple.ofValues (select.layoutRow stof tableAlias info rows g) := by
  obtain ⟨aht, hfold, gs, hperm, hrows⟩ := h.exists_finishedTable hinj
  have hbuckets := (std.buckets_perm (finishedTable groupBys (aggCalls.map Prod.fst) aht)).map
    fun entry => entry.2.groupBys ++ entry.2.aggregates
  rw [hrows] at hbuckets
  obtain ⟨gs', hgs', heq⟩ := exists_map_of_perm hbuckets
  refine ⟨gs', hgs'.trans hperm, ?_⟩
  unfold aggregateTuples
  rw [hfold, pure_bind]
  apply Cpp.mapM_eq_of_forall₂
  have hforall : List.Forall₂ (fun values g => values = select.layoutRow stof tableAlias info rows g)
      ((std.buckets (finishedTable groupBys (aggCalls.map Prod.fst) aht)).map fun entry =>
        entry.2.groupBys ++ entry.2.aggregates) gs' := by
    rw [heq, List.forall₂_map_left_iff, List.forall₂_same]
    exact fun _ _ => rfl
  rw [List.forall₂_map_left_iff] at hforall
  exact hforall.imp fun _ _ hvalues => by rw [hvalues]

/-- If there are as many entries as groups, or more, the keys tell the groups apart. -/
lemma key_inj (h : AggregationParts stof tableAlias info select rows groupBys aggCalls)
    {aht : List (List UInt8 × AggState)}
    (hfold : (placeless (select.chosen stof tableAlias info rows)).foldlM
      (aggregateRow groupBys (aggCalls.map Prod.snd) (aggCalls.map Prod.fst) info.schema) [] =
        pure aht)
    (hlen : (select.groups stof tableAlias info rows).length ≤
      (finishedTable groupBys (aggCalls.map Prod.fst) aht).length) :
    ∀ g ∈ select.groups stof tableAlias info rows,
      ∀ g' ∈ select.groups stof tableAlias info rows, groupKey g = groupKey g' → g = g' := by
  by_cases hglobal : select.groupClause = []
  · intro g hg g' hg' _
    unfold SelectStmt.groups at hg hg'
    rw [if_pos hglobal] at hg hg'
    rw [List.mem_singleton.1 hg, List.mem_singleton.1 hg']
  · have hgroupBys : groupBys ≠ [] := by
      rintro rfl
      exact hglobal (List.eq_nil_of_length_eq_zero
        (Cpp.mapM_eq_pure.1 h.groupBys).length_eq)
    have hnot : ¬ (aht = [] ∧ groupBys = []) := fun hboth => hgroupBys hboth.2
    have hgroups : ∀ row ∈ placeless (select.chosen stof tableAlias info rows),
        (groupBys.mapM fun expr => expr.evaluate row.1 info.schema) =
          pure (select.groupVector stof tableAlias info row.1) := by
      intro row hrow
      obtain ⟨tuple, htuple, rfl⟩ := List.mem_map.1 hrow
      exact h.evaluate_groups htuple
    obtain ⟨hnodup, hkeys⟩ := @keys_foldlM_aggregateRow _ _ _ _ _
      (fun row => select.groupVector stof tableAlias info row.1) _ _ hgroups hfold List.nodup_nil
    have hsub : aht.map Prod.fst ⊆ (select.groups stof tableAlias info rows).map groupKey := by
      intro key hkey
      rcases (hkeys key).1 hkey with hnil | ⟨row, hrow, rfl⟩
      · exact absurd hnil List.not_mem_nil
      · obtain ⟨tuple, htuple, rfl⟩ := List.mem_map.1 hrow
        exact List.mem_map_of_mem (groupVector_mem_groups htuple)
    have hperm : (aht.map Prod.fst).Perm
        ((select.groups stof tableAlias info rows).map groupKey) := by
      apply (hnodup.subperm hsub).perm_of_length_le
      unfold finishedTable at hlen
      rw [if_neg hnot] at hlen
      rwa [List.length_map, List.length_map]
    intro g hg g' hg' hkey
    exact List.inj_on_of_nodup_map (hperm.nodup_iff.1 hnodup) hg hg' hkey

end AggregationParts

/-! ## The rows of the statement -/

section Answers

variable {stof : String → Cpp (BitVec 32)} {tableAlias : String} {info : TableInfo}
  {select : SelectStmt} {rows : List Tuple} {groupBys : List Expression}
  {aggCalls : List (AggregationType × Expression)} {gs gs' : List (List Value)}
  {result tuples : List Tuple} {values : List Value} {tuple : Tuple} {base : PlanNode}
  {ctx : ExecutorContext} {orderBys : List (Bool × Expression)} {std : StandardLibrary}

/-- A row of values that can be written is made of them. -/
lemma Storable.made (h : Storable values) :
    Tuple.ofValues values = pure (.made values) ∧ (Tuple.made values).values = values := by
  obtain ⟨tuple, htuple, hvalues⟩ := exists_ofValues_iff.2 h
  have hmade : Tuple.made values = tuple := by
    unfold Tuple.made
    rw [htuple]
    rfl
  rw [hmade]
  exact ⟨htuple, hvalues⟩

/-- If a row is made of the values, they can be written. -/
lemma storable_of_ofValues (h : Tuple.ofValues values = pure tuple) : Storable values :=
  exists_ofValues_iff.1 ⟨tuple, h, values_of_ofValues h⟩

/-- Rows with the values of these groups. -/
lemma forall₂_itemValues_iff (hdefined : select.GroupsDefined stof tableAlias info rows)
    (hgs : ∀ g ∈ gs, g ∈ select.groups stof tableAlias info rows) :
    List.Forall₂ (fun g tuple => select.itemValues stof tableAlias info rows g =
        pure tuple.values) gs result ↔
      result.map Tuple.values = gs.map (select.itemRow stof tableAlias info rows) := by
  constructor
  · intro h
    induction h with
    | nil => rfl
    | @cons g tuple gs result hrow _ ih =>
      rw [hdefined.itemValues_eq (hgs g List.mem_cons_self)] at hrow
      rw [List.map_cons, List.map_cons, ih fun g hg => hgs g (List.mem_cons_of_mem _ hg),
        Except.ok.inj (Option.some.inj hrow)]
  · intro h
    induction gs generalizing result with
    | nil =>
      obtain rfl := List.map_eq_nil_iff.1 h
      exact .nil
    | cons g gs ih =>
      obtain ⟨tuple, result, rfl, hrow, hrest⟩ := List.map_eq_cons_iff.1 h
      refine .cons ?_ (ih (fun g hg => hgs g (List.mem_cons_of_mem _ hg)) hrest)
      rw [hdefined.itemValues_eq (hgs g List.mem_cons_self), hrow]

/-- The rows of the groups, if all of them can be made. -/
lemma mapM_layoutRow (hstorable : ∀ g ∈ gs,
      Storable (select.layoutRow stof tableAlias info rows g)) :
    (gs.mapM fun g => Tuple.ofValues (select.layoutRow stof tableAlias info rows g)) =
      pure (gs.map fun g => .made (select.layoutRow stof tableAlias info rows g)) := by
  rw [Cpp.mapM_congr fun g hg => (hstorable g hg).made.1]
  exact List.mapM_pure

/-- The outcome of a sort and a limit above an aggregation. -/
lemma completes_aggregation_iff {limitCount : Node} (hscan : HasOutcome std base ctx
      (some (select.chosen stof tableAlias info rows)))
    (hschema : base.getOutputSchema = info.schema) :
    Completes std (limitPlan limitCount (sortPlan orderBys (.aggregation
        (aggregationSchema groupBys.length aggCalls.length) base groupBys
        (aggCalls.map Prod.snd) (aggCalls.map Prod.fst)))) ctx result ctx ↔
      ∃ tuples sorted, aggregateTuples std groupBys (aggCalls.map Prod.snd)
          (aggCalls.map Prod.fst) info.schema (select.chosen stof tableAlias info rows) =
            pure tuples ∧
        sortedBy std (aggregationSchema groupBys.length aggCalls.length) orderBys tuples =
          pure sorted ∧
        limitedTo limitCount sorted = result := by
  have houtcome := (@HasOutcome.sortPlan _ _ _ _ orderBys (@HasOutcome.aggregation _ _ _ _
    (aggregationSchema groupBys.length aggCalls.length) groupBys (aggCalls.map Prod.snd)
    (aggCalls.map Prod.fst) hscan)).limitPlan limitCount
  rw [houtcome.completes_iff, hschema, Option.bind_some, Option.map_eq_some_iff]
  simp only [Option.bind_eq_some_iff, Cpp.result_eq_some, and_true]
  constructor
  · rintro ⟨sorted, ⟨tuples, htuples, hsort⟩, hresult⟩
    exact ⟨tuples, sorted, htuples, hsort, hresult⟩
  · rintro ⟨tuples, sorted, htuples, hsort, hresult⟩
    exact ⟨sorted, ⟨tuples, htuples, hsort⟩, hresult⟩

/-- A limit that leaves as many rows as there are groups lets all of them pass. -/
lemma limitedTo_eq_of_length {limitCount : Node} {sorted : List Tuple} {n : ℕ}
    (hlen : (limitedTo limitCount sorted).length = n) (hsorted : sorted.length = n) :
    limitedTo limitCount sorted = sorted ∧ LetsPass limitCount n := by
  have heq := (limitedTo_sublist limitCount sorted).eq_of_length (hlen.trans hsorted.symm)
  exact ⟨heq, hsorted ▸ limitedTo_eq_self_iff.1 heq⟩

/-- The sort reads its keys on the rows of the groups. -/
lemma AggregationParts.compareRows_eq
    (h : AggregationParts stof tableAlias info select rows groupBys aggCalls)
    (horderBys : select.sortClause.mapM (bindSortBy stof [⟨tableAlias, info, 0⟩]) = pure orderBys)
    (g g' : List Value) :
    compareRows (aggregationSchema groupBys.length aggCalls.length) orderBys
        (.made (select.layoutRow stof tableAlias info rows g))
        (.made (select.layoutRow stof tableAlias info rows g')) =
      select.layoutBefore stof tableAlias info rows g g' := by
  unfold SelectStmt.layoutBefore
  rw [horderBys, pure_bind, (Cpp.mapM_eq_pure.1 h.groupBys).length_eq, h.aggCalls.length_eq]

/-- An aggregation whose rows are those of the statement. -/
lemma AggregationParts.answered
    (h : AggregationParts stof tableAlias info select rows groupBys aggCalls)
    (horderBys : select.sortClause.mapM (bindSortBy stof [⟨tableAlias, info, 0⟩]) = pure orderBys)
    (hscan : HasOutcome std base ctx (some (select.chosen stof tableAlias info rows)))
    (hschema : base.getOutputSchema = info.schema)
    (hanswer : select.AggregatesAnswer stof tableAlias info rows) :
    select.GroupedAnswered stof tableAlias info rows std ctx
      (limitPlan select.limitCount (sortPlan orderBys (.aggregation
        (aggregationSchema groupBys.length aggCalls.length) base groupBys
        (aggCalls.map Prod.snd) (aggCalls.map Prod.fst)))) := by
  have hinj : ∀ g ∈ select.groups stof tableAlias info rows,
      ∀ g' ∈ select.groups stof tableAlias info rows, groupKey g = groupKey g' → g = g' := by
    intro g hg g' hg' hkey
    by_contra hne
    exact (hanswer.apart g hg g' hg' hne).1 hkey
  obtain ⟨gs, hgs, htuples⟩ := h.aggregateTuples_eq hinj std
  rw [mapM_layoutRow fun g hg => hanswer.storable g (hgs.subset hg)] at htuples
  obtain ⟨sorted, hperm, -, hsorted, hsort⟩ := exists_sortedBy std
    (fun g _ g' _ => h.compareRows_eq horderBys g g')
    (hanswer.ordered.of_mem fun g hg => hgs.subset hg)
  obtain ⟨gs', hgs', hrows, hkeys⟩ := hanswer.arranged sorted (hperm.trans hgs) hsorted
  have hpass : limitedTo select.limitCount (sorted.map fun g =>
      Tuple.made (select.layoutRow stof tableAlias info rows g)) =
        sorted.map fun g => .made (select.layoutRow stof tableAlias info rows g) := by
    rw [limitedTo_eq_self_iff, List.length_map, (hperm.trans hgs).length_eq]
    exact hanswer.limit
  refine ⟨_, gs', (completes_aggregation_iff hscan hschema).2 ⟨_, _, htuples, hsort, hpass⟩, hgs',
    fun g hg g' hg' hne => (hanswer.apart g (hgs'.subset hg) g' (hgs'.subset hg') hne).2, ?_, hkeys⟩
  rw [forall₂_itemValues_iff h.defined fun g hg => hgs'.subset hg, ← hrows, List.map_map]
  apply List.map_congr_left
  intro g hg
  exact (hanswer.storable g ((hperm.trans hgs).subset hg)).made.2

/-- If the loop of an aggregation returns, the rows that a `COUNT(*)` counts have a first column. -/
lemma BoundAggregation.counted
    (h : BoundAggregation stof tableAlias info select rows groupBys aggCalls)
    (htuples : aggregateTuples std groupBys (aggCalls.map Prod.snd) (aggCalls.map Prod.fst)
      info.schema (select.chosen stof tableAlias info rows) = pure tuples) :
    ∀ res ∈ select.targetList, res.val.countsRows = true →
      ∀ tuple ∈ select.chosen stof tableAlias info rows, ∃ v,
        tuple.getValueAt info.schema 0 = pure v := by
  intro res hres hcounts tuple htuple
  have haggregate : res.isAggregate = true := by
    unfold Node.countsRows at hcounts
    unfold ResTarget.isAggregate
    cases hkind : res.val.targetKind <;> simp [hkind] at hcounts ⊢
  obtain ⟨aggCall, hmem, hbind⟩ := Cpp.exists_of_mapM (Cpp.mapM_eq_pure.2 h.aggCalls)
    (List.mem_filter.2 ⟨hres, haggregate⟩)
  obtain ⟨aht, hfold, -⟩ := Cpp.bind_eq_pure.1 htuples
  obtain ⟨inputs, hinputs⟩ := exists_inputs_of_foldlM hfold
    (List.mem_map_of_mem (f := fun tuple => (tuple, default)) htuple)
  obtain ⟨v, -, hv⟩ := Cpp.exists_of_mapM hinputs (List.mem_map_of_mem hmem)
  rw [bindAggregate_countsRows hbind hcounts] at hv
  exact ⟨v, hv⟩

/-- If an aggregation returns what the statement asks for, whatever the standard library does, its
rows are those of the statement. -/
lemma BoundAggregation.of_answered
    (hbound : BoundAggregation stof tableAlias info select rows groupBys aggCalls)
    (horderBys : select.sortClause.mapM (bindSortBy stof [⟨tableAlias, info, 0⟩]) = pure orderBys)
    (hscan : ∀ std, HasOutcome std base ctx (some (select.chosen stof tableAlias info rows)))
    (hschema : base.getOutputSchema = info.schema)
    (hanswered : ∀ std, select.GroupedAnswered stof tableAlias info rows std ctx
      (limitPlan select.limitCount (sortPlan orderBys (.aggregation
        (aggregationSchema groupBys.length aggCalls.length) base groupBys
        (aggCalls.map Prod.snd) (aggCalls.map Prod.fst))))) :
    select.AggregatesAnswer stof tableAlias info rows := by
  obtain ⟨result, gs₀, hcompletes, hgs₀, hapart, hitems, hkeys⟩ := hanswered (arrangingLibrary [])
  obtain ⟨tuples, sortedRows, htuples, hsort, rfl⟩ :=
    (completes_aggregation_iff (hscan _) hschema).1 hcompletes
  have hcounted := hbound.counted htuples
  have h : AggregationParts stof tableAlias info select rows groupBys aggCalls :=
    ⟨hbound, hcounted⟩
  have hresult : (limitedTo select.limitCount sortedRows).length =
      (select.groups stof tableAlias info rows).length := by
    rw [← hgs₀.length_eq, hitems.length_eq]
  have hinj : ∀ g ∈ select.groups stof tableAlias info rows,
      ∀ g' ∈ select.groups stof tableAlias info rows, groupKey g = groupKey g' → g = g' := by
    obtain ⟨aht, hfold, hmade⟩ := Cpp.bind_eq_pure.1 htuples
    refine h.key_inj hfold ?_
    have hbuckets := (Cpp.mapM_eq_pure.1 hmade).length_eq
    obtain ⟨-, sorted, hsorted, rfl⟩ := @sortedBy_arranging _ _ _ tuples id _ _ _
      (fun _ _ _ _ => rfl) (by rw [List.map_id]; exact hsort)
    rw [List.map_id] at hresult
    rw [← hresult, ← ((arrangingLibrary []).buckets_perm (finishedTable groupBys
      (aggCalls.map Prod.fst) aht)).length_eq, hbuckets, ← hsorted.length_eq]
    exact (limitedTo_sublist _ _).length_le
  obtain ⟨gs, hgs, hlayout⟩ := h.aggregateTuples_eq hinj (arrangingLibrary [])
  have hstorable : ∀ g ∈ select.groups stof tableAlias info rows,
      Storable (select.layoutRow stof tableAlias info rows g) := by
    intro g hg
    rw [hlayout] at htuples
    obtain ⟨tuple, -, htuple⟩ := Cpp.exists_of_mapM htuples (hgs.symm.subset hg)
    exact storable_of_ofValues htuple
  rw [mapM_layoutRow fun g hg => hstorable g (hgs.subset hg)] at hlayout
  obtain rfl : (gs.map fun g => Tuple.made (select.layoutRow stof tableAlias info rows g)) =
      tuples := Except.ok.inj (Option.some.inj (hlayout.symm.trans htuples))
  have hcompare := fun (g : List Value) (_ : g ∈ gs) (g' : List Value) (_ : g' ∈ gs) =>
    h.compareRows_eq horderBys g g'
  obtain ⟨hweak, sorted, hsorted, rfl⟩ := sortedBy_arranging hcompare hsort
  have hlength : ∀ gs' : List (List Value), gs'.Perm gs →
      (gs'.map fun g => Tuple.made (select.layoutRow stof tableAlias info rows g)).length =
        (select.groups stof tableAlias info rows).length := by
    intro gs' hgs'
    rw [List.length_map, (hgs'.trans hgs).length_eq]
  obtain ⟨hall, hlimit⟩ := limitedTo_eq_of_length hresult (hlength sorted hsorted)
  rw [hall] at hitems
  have hvalues : ∀ gs' : List (List Value),
      (∀ g ∈ gs', g ∈ select.groups stof tableAlias info rows) →
      (gs'.map fun g => Tuple.made (select.layoutRow stof tableAlias info rows g)).map
        Tuple.values = gs'.map (select.layoutRow stof tableAlias info rows) := by
    intro gs' hgs'
    rw [List.map_map]
    apply List.map_congr_left
    intro g hg
    exact (hstorable g (hgs' g hg)).made.2
  refine ⟨hlimit, hcounted, ?_, hstorable, hweak.of_mem fun g hg => hgs.symm.subset hg, ?_⟩
  · intro g hg g' hg' hne
    exact ⟨fun hkey => hne (hinj g hg g' hg' hkey),
      hapart g (hgs₀.symm.subset hg) g' (hgs₀.symm.subset hg') hne⟩
  · intro gs' hgs' hbefore
    cases hempty : orderBys.isEmpty with
    | true =>
      -- without keys all orders are alike
      have hnil : select.sortClause = [] := by
        have hlen := (Cpp.mapM_eq_pure.1 horderBys).length_eq
        rw [List.isEmpty_iff.1 hempty] at hlen
        exact List.eq_nil_of_length_eq_zero hlen
      rw [forall₂_itemValues_iff h.defined fun g hg => hgs₀.subset hg,
        hvalues sorted fun g hg => (hsorted.trans hgs).subset hg] at hitems
      have hperm : (gs'.map (select.layoutRow stof tableAlias info rows)).Perm
          (gs₀.map (select.itemRow stof tableAlias info rows)) := by
        rw [← hitems]
        exact ((hgs'.trans hgs.symm).trans hsorted.symm).map _
      obtain ⟨gs₁, hgs₁, hrows⟩ := exists_map_of_perm hperm
      refine ⟨gs₁, hgs₁.trans hgs₀, hrows, List.pairwise_of_forall fun g g' => ?_⟩
      unfold SelectStmt.groupBefore
      rw [hnil]
      rfl
    | false =>
      -- some sort leaves the rows in this order
      obtain ⟨order, horder⟩ := exists_sortedBy_eq hempty hcompare hweak (hgs'.trans hgs.symm)
        hbefore
      obtain ⟨result', gs₁, hcompletes', hgs₁, -, hitems', hkeys'⟩ :=
        hanswered (arrangingLibrary order)
      obtain ⟨tuples', sortedRows', htuples', hsort', rfl⟩ :=
        (completes_aggregation_iff (hscan _) hschema).1 hcompletes'
      obtain rfl := Except.ok.inj (Option.some.inj (hlayout.symm.trans htuples'))
      obtain rfl := Except.ok.inj (Option.some.inj (horder.symm.trans hsort'))
      have hall' : limitedTo select.limitCount (gs'.map fun g =>
          Tuple.made (select.layoutRow stof tableAlias info rows g)) =
            gs'.map fun g => .made (select.layoutRow stof tableAlias info rows g) := by
        rw [limitedTo_eq_self_iff, hlength gs' (hgs'.trans hgs.symm)]
        exact hlimit
      rw [hall', forall₂_itemValues_iff h.defined fun g hg => hgs₁.subset hg,
        hvalues gs' fun g hg => hgs'.subset hg] at hitems'
      exact ⟨gs₁, hgs₁, hitems', hkeys'⟩

/-! ## Without aggregates -/

/-- The targets and keys of a query without aggregates on these rows, as the binder hands them to
the projection and the sort. -/
structure ProjectionParts (stof : String → Cpp (BitVec 32)) (tableAlias : String)
    (info : TableInfo) (select : SelectStmt) (rows : List Tuple) (outputExprs : List Expression)
    (orderBys : List (Bool × Expression)) : Prop where
  defined : select.GroupsDefined stof tableAlias info rows
  grouped : select.groupClause ≠ []
  targets : ∀ res ∈ select.targetList, select.HasKey stof tableAlias info res.val
  sortKeys : ∀ sortBy ∈ select.sortClause, select.HasKey stof tableAlias info sortBy.node
  outputs : List.Forall₂ (fun res expr =>
    bindExpression stof [⟨tableAlias, info, 0⟩] res.val = pure expr) select.targetList outputExprs
  orderBys : select.sortClause.mapM (bindSortBy stof [⟨tableAlias, info, 0⟩]) = pure orderBys

/-- The groups of the chosen rows can be compared iff the rows can. -/
lemma strictWeakOrderOn_groups_iff (hne : select.groupClause ≠ []) :
    StrictWeakOrderOn (select.groups stof tableAlias info rows)
        (select.groupBefore stof tableAlias info rows) ↔
      StrictWeakOrderOn (select.chosen stof tableAlias info rows) fun s t =>
        select.groupBefore stof tableAlias info rows (select.groupVector stof tableAlias info s)
          (select.groupVector stof tableAlias info t) := by
  rw [← @strictWeakOrderOn_map_iff _ _ _ _ (select.groupVector stof tableAlias info)
    (select.groupBefore stof tableAlias info rows) fun _ _ _ _ => rfl]
  unfold SelectStmt.groups
  rw [if_neg hne]
  exact ⟨fun hweak => hweak.of_mem fun g hg => List.mem_dedup.2 hg,
    fun hweak => hweak.of_mem fun g hg => List.mem_dedup.1 hg⟩

namespace ProjectionParts

variable {outputExprs : List Expression}

/-- The values of the targets on a row are those for its group. -/
lemma evaluateRow_eq
    (h : ProjectionParts stof tableAlias info select rows outputExprs orderBys)
    (htuple : tuple ∈ select.chosen stof tableAlias info rows) :
    evaluateRow outputExprs info.schema tuple = Tuple.ofValues
      (select.itemRow stof tableAlias info rows
        (select.groupVector stof tableAlias info tuple)) := by
  have hvalues : (outputExprs.mapM fun expr => expr.evaluate tuple info.schema) =
      pure (select.itemRow stof tableAlias info rows
        (select.groupVector stof tableAlias info tuple)) := by
    rw [← h.defined.itemValues_eq (groupVector_mem_groups htuple)]
    unfold SelectStmt.itemValues
    rw [Cpp.mapM_congr fun res hres => itemValue_regular h.defined (h.targets res hres) htuple]
    refine (Cpp.mapM_eq_of_forall₂ (h.outputs.imp ?_)).symm
    intro res expr hexpr
    rw [Node.valueOn, hexpr, pure_bind]
  unfold evaluateRow
  rw [hvalues, pure_bind]

/-- The values of the keys on a row are those for its group. -/
lemma sortKeys_eq
    (h : ProjectionParts stof tableAlias info select rows outputExprs orderBys)
    (htuple : tuple ∈ select.chosen stof tableAlias info rows) :
    List.Forall₂ (fun item v => item.2.evaluate tuple info.schema = pure v) orderBys
      (select.keyRow stof tableAlias info rows
        (select.groupVector stof tableAlias info tuple)) := by
  have hvalues := keyRow_eq h.defined h.sortKeys htuple
  apply Cpp.mapM_eq_pure.1
  rw [← hvalues]
  refine (Cpp.mapM_eq_of_forall₂ ((Cpp.mapM_eq_pure.1 h.orderBys).imp ?_)).symm
  intro sortBy item hitem
  obtain ⟨expr, hexpr, hpure⟩ := Cpp.bind_eq_pure.1 hitem
  cases hpure
  rw [Node.valueOn, hexpr, pure_bind]

/-- The sort compares the groups of the rows. -/
lemma compareRows_eq
    (h : ProjectionParts stof tableAlias info select rows outputExprs orderBys) :
    ∀ s ∈ select.chosen stof tableAlias info rows, ∀ t ∈ select.chosen stof tableAlias info rows,
      compareRows info.schema orderBys s t = select.groupBefore stof tableAlias info rows
        (select.groupVector stof tableAlias info s)
        (select.groupVector stof tableAlias info t) := by
  intro s hs t ht
  rw [compareRows_eq_compareKeys (h.sortKeys_eq hs) (h.sortKeys_eq ht), map_fst_orderBys h.orderBys]
  rfl

end ProjectionParts

/-- What a projection, if there is one, makes of its rows. -/
def projected (outputExprs : List Expression) (schema : Schema) (tuples : List Tuple) :
    Cpp (List Tuple) :=
  if outputExprs = [] then pure tuples else tuples.mapM (evaluateRow outputExprs schema)

/-- The outcome of a sort and a limit with a projection above them. -/
lemma completes_projected_iff {plan : PlanNode} {limitCount : Node} {outputExprs : List Expression}
    (hscan : HasOutcome std base ctx (some (select.chosen stof tableAlias info rows)))
    (hschema : base.getOutputSchema = info.schema)
    (hplan : if outputExprs = [] then plan = limitPlan limitCount (sortPlan orderBys base)
      else ∃ schema,
        plan = .projection schema (limitPlan limitCount (sortPlan orderBys base)) outputExprs) :
    Completes std plan ctx result ctx ↔
      ∃ sorted, sortedBy std info.schema orderBys (select.chosen stof tableAlias info rows) =
          pure sorted ∧
        projected outputExprs info.schema (limitedTo limitCount sorted) = pure result := by
  have houtcome := (@HasOutcome.sortPlan _ _ _ _ orderBys hscan).limitPlan limitCount
  rw [Option.bind_some, hschema] at houtcome
  unfold projected
  split_ifs at hplan ⊢ with hnil
  · rw [hplan, houtcome.completes_iff, Option.map_eq_some_iff]
    simp only [Cpp.result_eq_some, and_true]
    constructor
    · rintro ⟨sorted, hsort, rfl⟩
      exact ⟨sorted, hsort, rfl⟩
    · rintro ⟨sorted, hsort, hpure⟩
      exact ⟨sorted, hsort, Except.ok.inj (Option.some.inj hpure)⟩
  · obtain ⟨schema, rfl⟩ := hplan
    rw [houtcome.completes_projection_iff, getOutputSchema_limitPlan, getOutputSchema_sortPlan,
      hschema]
    simp only [Option.map_eq_some_iff, Cpp.result_eq_some, true_and]
    constructor
    · rintro ⟨_, ⟨sorted, hsort, rfl⟩, hrows⟩
      exact ⟨sorted, hsort, hrows⟩
    · rintro ⟨sorted, hsort, hrows⟩
      exact ⟨_, ⟨sorted, hsort, rfl⟩, hrows⟩

namespace ProjectionParts

variable {outputExprs : List Expression} {plan : PlanNode} {sorted : List Tuple}

/-- The projection has no columns if there are no targets. -/
lemma outputExprs_eq_nil_iff
    (h : ProjectionParts stof tableAlias info select rows outputExprs orderBys) :
    outputExprs = [] ↔ select.targetList = [] := by
  rw [← List.length_eq_zero_iff, ← h.outputs.length_eq, List.length_eq_zero_iff]

/-- Without targets, there are no values for the groups. -/
lemma itemRow_of_nil (hnil : select.targetList = []) (g : List Value) :
    select.itemRow stof tableAlias info rows g = [] := by
  unfold SelectStmt.itemRow SelectStmt.itemValues
  rw [hnil]
  rfl

/-- A projection of rows that it can show has the values of the targets for their groups. -/
lemma exists_projected
    (h : ProjectionParts stof tableAlias info select rows outputExprs orderBys)
    (hsorted : ∀ tuple ∈ sorted, tuple ∈ select.chosen stof tableAlias info rows)
    (hshows : ∀ tuple ∈ sorted, select.Shows stof tableAlias info rows tuple) :
    ∃ result, projected outputExprs info.schema sorted = pure result ∧
      result.map Tuple.values = (sorted.map (select.groupVector stof tableAlias info)).map
        (select.itemRow stof tableAlias info rows) := by
  unfold projected
  unfold SelectStmt.Shows at hshows
  rw [List.map_map]
  split_ifs at hshows ⊢ with hnil htargets htargets
  · refine ⟨sorted, rfl, List.map_congr_left fun tuple htuple => ?_⟩
    rw [hshows tuple htuple, Function.comp_apply, itemRow_of_nil htargets]
  · exact absurd (h.outputExprs_eq_nil_iff.1 hnil) htargets
  · exact absurd (h.outputExprs_eq_nil_iff.2 htargets) hnil
  · have hmade : ∀ tuple ∈ sorted, evaluateRow outputExprs info.schema tuple =
        pure (.made (select.itemRow stof tableAlias info rows
          (select.groupVector stof tableAlias info tuple))) := by
      intro tuple htuple
      rw [h.evaluateRow_eq (hsorted tuple htuple)]
      exact (hshows tuple htuple).made.1
    rw [Cpp.mapM_congr hmade]
    refine ⟨_, List.mapM_pure, ?_⟩
    rw [List.map_map]
    exact List.map_congr_left fun tuple htuple => (hshows tuple htuple).made.2

/-- If a projection has the values of the targets for some groups, it can show its rows, and these
are the values for their groups. -/
lemma shows_of_projected {result : List Tuple}
    (h : ProjectionParts stof tableAlias info select rows outputExprs orderBys)
    (hsorted : ∀ tuple ∈ sorted, tuple ∈ select.chosen stof tableAlias info rows)
    (hrows : projected outputExprs info.schema sorted = pure result)
    (hvalues : result.map Tuple.values = gs.map (select.itemRow stof tableAlias info rows)) :
    (∀ tuple ∈ sorted, select.Shows stof tableAlias info rows tuple) ∧
      (sorted.map (select.groupVector stof tableAlias info)).map
        (select.itemRow stof tableAlias info rows) =
          gs.map (select.itemRow stof tableAlias info rows) := by
  have hshows : ∀ tuple ∈ sorted, select.Shows stof tableAlias info rows tuple := by
    intro tuple htuple
    unfold projected at hrows
    unfold SelectStmt.Shows
    split_ifs at hrows ⊢ with htargets hnil hnil
    · cases hrows
      have hmem : tuple.values ∈ gs.map (select.itemRow stof tableAlias info rows) := by
        rw [← hvalues]
        exact List.mem_map_of_mem htuple
      obtain ⟨g, -, hg⟩ := List.mem_map.1 hmem
      rw [← hg, itemRow_of_nil htargets]
    · exact absurd (h.outputExprs_eq_nil_iff.2 htargets) hnil
    · exact absurd (h.outputExprs_eq_nil_iff.1 hnil) htargets
    · obtain ⟨made, -, hmade⟩ := Cpp.exists_of_mapM hrows htuple
      rw [h.evaluateRow_eq (hsorted tuple htuple)] at hmade
      exact storable_of_ofValues hmade
  obtain ⟨result', hrows', hvalues'⟩ := h.exists_projected hsorted hshows
  rw [hrows] at hrows'
  cases hrows'
  exact ⟨hshows, hvalues'.symm.trans hvalues⟩

/-- The sort has no keys if there is no `ORDER BY` clause. -/
lemma isEmpty_orderBys_iff
    (h : ProjectionParts stof tableAlias info select rows outputExprs orderBys) :
    orderBys.isEmpty = true ↔ select.sortClause = [] := by
  rw [List.isEmpty_iff, ← List.length_eq_zero_iff, ← (Cpp.mapM_eq_pure.1 h.orderBys).length_eq,
    List.length_eq_zero_iff]

/-- A projection whose rows are those of the statement. -/
lemma answered
    (h : ProjectionParts stof tableAlias info select rows outputExprs orderBys)
    (hscan : HasOutcome std base ctx (some (select.chosen stof tableAlias info rows)))
    (hschema : base.getOutputSchema = info.schema)
    (hplan : if outputExprs = [] then plan = limitPlan select.limitCount (sortPlan orderBys base)
      else ∃ schema, plan =
        .projection schema (limitPlan select.limitCount (sortPlan orderBys base)) outputExprs)
    (hanswer : select.RowsAnswer stof tableAlias info rows) :
    select.GroupedAnswered stof tableAlias info rows std ctx plan := by
  have hcompare := h.compareRows_eq
  obtain ⟨sorted, hperm, hnone, hsorted, hsort⟩ := exists_sortedBy (f := id) std hcompare
    ((strictWeakOrderOn_groups_iff h.grouped).1 hanswer.ordered)
  rw [List.map_id, List.map_id] at hsort
  obtain ⟨hshows, gs, hgs, hvalues, hkeys⟩ := hanswer.arranged sorted hperm
    (fun hnil => hnone (h.isEmpty_orderBys_iff.2 hnil)) hsorted
  have hlimited : ∀ tuple ∈ limitedTo select.limitCount sorted,
      tuple ∈ select.chosen stof tableAlias info rows := fun tuple htuple =>
    hperm.subset ((limitedTo_sublist _ _).subset htuple)
  obtain ⟨result, hrows, hmade⟩ := h.exists_projected hlimited hshows
  refine ⟨result, gs, (completes_projected_iff hscan hschema hplan).2 ⟨sorted, hsort, hrows⟩, hgs,
    ?_, ?_, hkeys⟩
  · intro g hg g' hg' hne
    exact hanswer.apart g (hgs.subset hg) g' (hgs.subset hg') hne
  · rw [forall₂_itemValues_iff h.defined fun g hg => hgs.subset hg]
    exact hmade.trans hvalues

/-- If a projection returns what the statement asks for, whatever the standard library does, its
rows are those of the statement. -/
lemma of_answered
    (h : ProjectionParts stof tableAlias info select rows outputExprs orderBys)
    (hscan : ∀ std, HasOutcome std base ctx (some (select.chosen stof tableAlias info rows)))
    (hschema : base.getOutputSchema = info.schema)
    (hplan : if outputExprs = [] then plan = limitPlan select.limitCount (sortPlan orderBys base)
      else ∃ schema, plan =
        .projection schema (limitPlan select.limitCount (sortPlan orderBys base)) outputExprs)
    (hanswered : ∀ std, select.GroupedAnswered stof tableAlias info rows std ctx plan) :
    select.RowsAnswer stof tableAlias info rows := by
  have hcompare := h.compareRows_eq
  obtain ⟨result, gs, hcompletes, hgs, hapart, -, -⟩ := hanswered (arrangingLibrary [])
  obtain ⟨first, hfirst, -⟩ := (completes_projected_iff (hscan _) hschema hplan).1 hcompletes
  obtain ⟨hweak, -⟩ := sortedBy_arranging (f := id) hcompare (by rw [List.map_id]; exact hfirst)
  refine ⟨?_, (strictWeakOrderOn_groups_iff h.grouped).2 hweak, ?_⟩
  · intro g hg g' hg' hne
    exact hapart g (hgs.symm.subset hg) g' (hgs.symm.subset hg') hne
  · intro sorted hperm hnone hsorted
    have hexists : ∃ order, sortedBy (arrangingLibrary order) info.schema orderBys
        (select.chosen stof tableAlias info rows) = pure sorted := by
      cases hempty : orderBys.isEmpty with
      | true =>
        rw [hnone (h.isEmpty_orderBys_iff.1 hempty)]
        exact ⟨[], if_pos hempty⟩
      | false =>
        obtain ⟨order, horder⟩ := exists_sortedBy_eq (f := id) hempty hcompare hweak hperm hsorted
        rw [List.map_id, List.map_id] at horder
        exact ⟨order, horder⟩
    obtain ⟨order, horder⟩ := hexists
    obtain ⟨result', gs', hcompletes', hgs', -, hitems, hkeys⟩ := hanswered (arrangingLibrary order)
    obtain ⟨sorted', hsort', hrows⟩ :=
      (completes_projected_iff (hscan _) hschema hplan).1 hcompletes'
    obtain rfl := Except.ok.inj (Option.some.inj (horder.symm.trans hsort'))
    rw [forall₂_itemValues_iff h.defined fun g hg => hgs'.subset hg] at hitems
    obtain ⟨hshows, hvalues⟩ := h.shows_of_projected
      (fun tuple htuple => hperm.subset ((limitedTo_sublist _ _).subset htuple)) hrows hitems
    exact ⟨hshows, gs', hgs', hvalues, hkeys⟩

end ProjectionParts

/-- The plan of a grouped query returns what the query asks for, whatever the standard library does,
iff the rows of the plan are those of the statement. -/
theorem groupedAnswered_iff {rv : RangeVar} {plan : PlanNode} {rest : List Statement}
    (haccepts : (bindQuery stof ctx.catalog (.success (.selectStmt select :: rest))).Returns plan)
    (hgrouped : select.IsGrouped stof info rv)
    (hname : tableNamed ctx.catalog rv.relname = some info)
    (hcontents : TableContents ctx info rows)
    (hdefined : select.GroupsDefined stof rv.getAlias info rows) :
    (∀ std, select.GroupedAnswered stof rv.getAlias info rows std ctx plan) ↔
      select.AnswersGroups stof rv.getAlias info rows := by
  obtain ⟨base, targets, orderBys, hwhere, hbinds, horderBys, hplan⟩ :=
    hgrouped.exists_plan hname haccepts
  obtain ⟨⟨predicate, rfl⟩, -⟩ := @hasOutcome_where _ _ _ _ _ default _ _ hcontents hwhere
    hdefined.chooses
  have hscan := fun std : StandardLibrary =>
    (@hasOutcome_where _ _ _ _ _ std _ _ hcontents hwhere hdefined.chooses).2
  unfold SelectStmt.AnswersGroups
  by_cases hagg : select.targetList.any ResTarget.isAggregate = true
  · rw [if_pos hagg] at hplan ⊢
    obtain ⟨groupBys, hgroupBys, rfl⟩ := hplan
    have hbound : BoundAggregation stof rv.getAlias info select rows groupBys targets.aggCalls :=
      ⟨hdefined, hgroupBys, hbinds.aggregates⟩
    refine ⟨fun h => hbound.of_answered horderBys hscan rfl h, fun h std => ?_⟩
    exact AggregationParts.answered ⟨hbound, h.counted⟩ horderBys (hscan std) rfl h
  · rw [if_neg hagg] at hplan ⊢
    have htargets : ∀ res ∈ select.targetList, res.isRegular = true ∧
        select.HasKey stof rv.getAlias info res.val := by
      intro res hres
      refine (hgrouped.targets res hres).resolve_left fun hres' => hagg ?_
      exact List.any_eq_true.2 ⟨res, hres, hres'⟩
    have houtputs := hbinds.outputs
    rw [List.filter_eq_self.2 fun res hres => (htargets res hres).1] at houtputs
    have hparts : ProjectionParts stof rv.getAlias info select rows targets.outputExprs orderBys :=
      { defined := hdefined
        grouped := hgrouped.groups.resolve_right hagg
        targets := fun res hres => (htargets res hres).2
        sortKeys := hgrouped.sortKeys
        outputs := houtputs
        orderBys := horderBys }
    exact ⟨fun h => hparts.of_answered hscan rfl hplan h,
      fun h std => hparts.answered (hscan std) rfl hplan h⟩

end Answers

end OneBase
