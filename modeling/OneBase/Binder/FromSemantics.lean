import OneBase.Binder.JoinColumns
import OneBase.Binder.JoinMeaning
import OneBase.Binder.SelectPipeline
import OneBase.Lib.Joins

set_option relaxedAutoImplicit false
set_option autoImplicit false

/-!
# The rows of a `FROM` clause

In SQL a `FROM` clause denotes the product of its items, where a join contributes the pairs of rows
that satisfy its `ON` condition and agree on the columns of `USING` or `NATURAL`, and the rows
without a partner that an outer join keeps. The binder keeps the plan of one item, and of a join
only its `ON` condition.

## Main definitions

* `OneBase.TableJoin.sqlRows` — the rows of a join in SQL.
* `OneBase.fromRows` — the rows of a `FROM` clause in SQL.
* `OneBase.FromAnswered` — a plan returns them.
* `OneBase.IsAnswerable` — when the plan of the binder does.

## Main results

* `OneBase.fromAnswered_iff` — when the plan of `SELECT *` returns the rows of the `FROM` clause.
* `OneBase.not_fromAnswered_twoTables` — a `FROM` clause whose second table is dropped.
-/

namespace OneBase

/-! ## The rows in SQL -/

/-- What an item stands for: a table, or a join of two tables. -/
inductive Source
  | table (info : TableInfo)
  | join (j : TableJoin)

/-- What an item stands for, if its tables exist. -/
def FromItem.source (catalog : Catalog) : FromItem → Option Source
  | .rangeVar rv => (tableNamed catalog rv.relname).map .table
  | .joinExpr jointype joinreftype larg rarg usingClause quals =>
    match sideScopes catalog 0 larg, sideScopes catalog 1 rarg with
    | [left], [right] => some (.join ⟨left, right, jointype, joinreftype, usingClause, quals⟩)
    | _, _ => none
  | .other => none

/-- The nulls for a missing row. -/
def Schema.nulls (schema : Schema) : List Value :=
  (schema.columns.take schema.getColumnCount).map fun column => Value.null column.type

namespace TableJoin

section Rows

variable (stof : String → Cpp (BitVec 32)) (contents : TableInfo → List Tuple) (join : TableJoin)

/-- The rows of the join in SQL. -/
def sqlRows : List (List Value) :=
  Joins.outer join.jointype.keepsLeft join.jointype.keepsRight (join.isPair stof)
    (fun l r => l.values ++ r.values) (fun l => l.values ++ join.right.info.schema.nulls)
    (fun r => join.left.info.schema.nulls ++ r.values) (contents join.left.info)
    (contents join.right.info)

/-- In SQL the `ON` condition has a truth value, or is unknown, on all pairs of rows. -/
def IsDecided : Prop :=
  ∀ l ∈ contents join.left.info, ∀ r ∈ contents join.right.info, ∃ t, join.onTruth stof l r = some t

/-- The rows of the join are pairs that the binder's reading of the `ON` condition tells from the
others: on every pair of rows the condition reads as true if SQL makes it true and the pair agrees on
the columns that are compared, and as false otherwise, and every row that the join keeps has a
partner. -/
def HasOnlyPairs : Prop :=
  (∀ l ∈ contents join.left.info, ∀ r ∈ contents join.right.info, ∀ t,
    join.onTruth stof l r = some t →
      join.ReadsAs stof [] l r (t == some true && join.agrees l r)) ∧
  (join.jointype.keepsLeft = true → Joins.leftAlone (join.isPair stof) (contents join.left.info)
    (contents join.right.info) = []) ∧
  (join.jointype.keepsRight = true → Joins.rightAlone (join.isPair stof)
    (contents join.left.info) (contents join.right.info) = [])

end Rows

end TableJoin

namespace Source

variable (stof : String → Cpp (BitVec 32)) (contents : TableInfo → List Tuple)

/-- The tables of an item. -/
def tables : Source → List TableInfo
  | .table info => [info]
  | .join j => [j.left.info, j.right.info]

/-- Whether SQL defines the rows of the item. -/
def isDefined : Source → Bool
  | .table _ => true
  | .join j => j.isDefined

/-- The `ON` condition of the item, if it has one, is a tree of the grammar. -/
def IsParsed : Source → Prop
  | .table _ => True
  | .join j => j.quals.isNull = false → j.quals.IsParsed

/-- The rows of an item in SQL. -/
def sqlRows : Source → List (List Value)
  | .table info => (contents info).map Tuple.values
  | .join j => j.sqlRows stof contents

/-- The `ON` condition of the item, if it has one, has a truth value on all pairs of rows. -/
def IsDecided : Source → Prop
  | .table _ => True
  | .join j => j.IsDecided stof contents

/-- The rows of the item are those of its table, or pairs that the binder tells from the others. -/
def HasOnlyPairs : Source → Prop
  | .table _ => True
  | .join j => j.HasOnlyPairs stof contents

/-- The plan of the item has no rows, where these scopes come before a join: the table is empty, or
the `ON` condition reads as false on all pairs of rows. -/
def PlansNone (before : List TableScope) : Source → Prop
  | .table info => contents info = []
  | .join j => ∀ l ∈ contents j.left.info, ∀ r ∈ contents j.right.info,
      j.ReadsAs stof before l r false

end Source

section Clause

variable (stof : String → Cpp (BitVec 32)) (catalog : Catalog)
  (contents : TableInfo → List Tuple)

/-- Whether the item is a table, or a join of two tables whose rows SQL defines. -/
def FromItem.isDefined (item : FromItem) : Bool := (item.source catalog).any Source.isDefined

/-- What the items stand for. -/
def fromSources (fromClause : List FromItem) : List Source :=
  fromClause.filterMap (FromItem.source catalog)

/-- The rows of a `FROM` clause in SQL. -/
def fromRows (fromClause : List FromItem) : List (List Value) :=
  Joins.product ((fromSources catalog fromClause).map (Source.sqlRows stof contents))

/-- When the plan of the binder has the rows of the `FROM` clause. The rows of a single item must be
pairs that the reading of its `ON` condition tells from the others. Of several items, one must be
empty, and so must be the plan that the binder keeps. -/
def IsAnswerable (fromClause : List FromItem) : Prop :=
  (∀ item ∈ fromClause, item.isDefined catalog = true) ∧
    match fromSources catalog fromClause with
    | [source] => source.HasOnlyPairs stof contents
    | sources => (∃ kept ∈ (survivingItem fromClause).bind (FromItem.source catalog),
        kept.PlansNone stof contents (joinScopes catalog fromClause)) ∧
      ∃ source ∈ sources, source.sqlRows stof contents = []

/-- SQL defines the rows of the `FROM` clause, and the plan returns them, in any order. -/
def FromAnswered (std : StandardLibrary) (ctx : ExecutorContext) (fromClause : List FromItem)
    (plan : PlanNode) : Prop :=
  (∀ item ∈ fromClause, item.isDefined ctx.catalog = true) ∧
    ∃ result, Completes std plan ctx result ctx ∧
      (result.map Tuple.values).Perm (fromRows stof ctx.catalog contents fromClause)

end Clause

/-- `SELECT *` without other clauses. -/
structure SelectStmt.IsStarOnly (select : SelectStmt) : Prop where
  targets : ∃ res : ResTarget, select.targetList = [res] ∧ res.IsStar
  whereClause : select.whereClause.isNull = true
  sortClause : select.sortClause = []
  limitCount : select.limitCount = .null

/-- Every table has a column, and these are its rows. -/
def TablesHold (ctx : ExecutorContext) (contents : TableInfo → List Tuple) : Prop :=
  ∀ tableName info, tableNamed ctx.catalog tableName = some info →
    0 < info.schema.getColumnCount ∧ TableContents ctx info (contents info)

/-! ## The items -/

section Items

variable {stof : String → Cpp (BitVec 32)} {catalog : Catalog} {item : FromItem}
  {contents : TableInfo → List Tuple} {ctx : ExecutorContext} {std : StandardLibrary}
  {before : List TableScope} {plan : PlanNode} {result : List Tuple} {join : TableJoin}

/-- A missing row has a null for each column. -/
lemma Schema.length_nulls (schema : Schema) : schema.nulls.length = schema.getColumnCount := by
  unfold Schema.nulls
  rw [List.length_map, schema.length_take_columns]

/-- The values of a missing row are nulls. -/
lemma Schema.isNull_of_mem_nulls {schema : Schema} {v : Value} (h : v ∈ schema.nulls) :
    v.isNull = true := by
  obtain ⟨column, -, rfl⟩ := List.mem_map.1 h
  rfl

/-- The tables of an item exist. -/
lemma exists_tableNamed {source : Source} (h : item.source catalog = some source) :
    ∀ info ∈ source.tables, ∃ tableName, tableNamed catalog tableName = some info := by
  have hside : ∀ (tupleIdx : ℕ) (side : FromItem) (scope : TableScope),
      sideScopes catalog tupleIdx side = [scope] →
        ∃ tableName, tableNamed catalog tableName = some scope.info := by
    intro tupleIdx side scope hscope
    cases side with
    | rangeVar rv =>
      unfold sideScopes at hscope
      cases hinfo : tableNamed catalog rv.relname with
      | none =>
        simp only [hinfo] at hscope
        cases hscope
      | some info =>
        simp only [hinfo] at hscope
        cases hscope
        exact ⟨rv.relname, hinfo⟩
    | joinExpr => cases hscope
    | other => cases hscope
  unfold FromItem.source at h
  split at h
  · rename_i rv
    obtain ⟨info, hinfo, rfl⟩ := Option.map_eq_some_iff.1 h
    intro info' hmem
    obtain rfl := List.mem_singleton.1 hmem
    exact ⟨rv.relname, hinfo⟩
  · split at h
    · rename_i left right hleft hright
      cases h
      intro info hmem
      rcases List.mem_cons.1 hmem with rfl | hmem
      · exact hside 0 _ left hleft
      · obtain rfl := List.mem_singleton.1 hmem
        exact hside 1 _ right hright
    · cases h
  · cases h

/-- The number of the columns of an item. -/
def Source.width (source : Source) : ℕ :=
  (source.tables.map fun info => info.schema.getColumnCount).sum

/-- The tables of an item hold these rows. -/
def Source.Hold (ctx : ExecutorContext) (contents : TableInfo → List Tuple) (source : Source) :
    Prop :=
  ∀ info ∈ source.tables, 0 < info.schema.getColumnCount ∧ TableContents ctx info (contents info)

/-- The tables of an item hold their rows if all tables do. -/
lemma TablesHold.hold {source : Source} (hcontents : TablesHold ctx contents)
    (h : item.source ctx.catalog = some source) : source.Hold ctx contents := by
  intro info hinfo
  obtain ⟨tableName, hnamed⟩ := exists_tableNamed h info hinfo
  exact hcontents tableName info hnamed

variable {source : Source}

/-- An item whose tables hold rows has a column. -/
lemma Source.Hold.width_pos (h : source.Hold ctx contents) : 0 < source.width := by
  cases source with
  | table info => exact (h info List.mem_cons_self).1
  | join join => exact Nat.add_pos_left (h join.left.info List.mem_cons_self).1 _

/-- The rows of a join have the columns of both tables. -/
lemma TableJoin.length_append {l r : List Value} (hl : l.length = join.left.info.schema.getColumnCount)
    (hr : r.length = join.right.info.schema.getColumnCount) :
    (l ++ r).length = (Source.join join).width := by
  rw [List.length_append, hl, hr]
  rfl

/-- A row of an item in SQL has its columns. -/
lemma Source.Hold.length_of_mem_sqlRows (h : source.Hold ctx contents) :
    ∀ row ∈ source.sqlRows stof contents, row.length = source.width := by
  intro row hrow
  cases source with
  | table info =>
    obtain ⟨tuple, htuple, rfl⟩ := List.mem_map.1 hrow
    exact ((h info List.mem_cons_self).2.isRead tuple htuple).length
  | join join =>
    have hleft := (h join.left.info List.mem_cons_self).2.isRead
    have hright := (h join.right.info (List.mem_cons_of_mem _ List.mem_cons_self)).2.isRead
    unfold Source.sqlRows TableJoin.sqlRows Joins.outer at hrow
    rcases List.mem_append.1 hrow with hpair | halone
    · obtain ⟨l, hl, r, hr, -, rfl⟩ := Joins.mem_pairs.1 hpair
      exact TableJoin.length_append (hleft l hl).length (hright r hr).length
    · rcases List.mem_append.1 halone with halone | halone
      · split_ifs at halone
        · obtain ⟨l, hl, rfl⟩ := List.mem_map.1 halone
          exact TableJoin.length_append (hleft l (List.mem_filter.1 hl).1).length
            (Schema.length_nulls _)
        · cases halone
      · split_ifs at halone
        · obtain ⟨r, hr, rfl⟩ := List.mem_map.1 halone
          exact TableJoin.length_append (Schema.length_nulls _)
            (hright r (List.mem_filter.1 hr).1).length
        · cases halone

end Items

/-! ## The plans of the items -/

section Plans

variable {stof : String → Cpp (BitVec 32)} {catalog : Catalog} {item : FromItem}
  {contents : TableInfo → List Tuple} {ctx : ExecutorContext} {std : StandardLibrary}
  {before : List TableScope} {plan : PlanNode} {result : List Tuple} {source : Source}

/-- The plan is that of the item, where a join comes after these scopes. -/
def Source.PlannedAs (stof : String → Cpp (BitVec 32)) (before : List TableScope)
    (plan : PlanNode) : Source → Prop
  | .table info => plan = scanOf info
  | .join j => ∃ predicate outputSchema,
      bindExpression stof (before ++ [j.left, j.right]) j.quals = pure predicate ∧
      (j.left.tupleIdx = 0 ∧ j.right.tupleIdx = 1) ∧
      plan = .nestedLoopJoin outputSchema (scanOf j.left.info) (scanOf j.right.info) predicate

/-- What the binder plans stands for a table or for a join of two tables. -/
lemma FromItem.PlannedAs.exists_source (h : item.PlannedAs stof catalog before plan) :
    ∃ source, item.source catalog = some source ∧ source.PlannedAs stof before plan := by
  cases item with
  | rangeVar rv =>
    obtain ⟨info, hinfo, hplan⟩ := h
    exact ⟨.table info, Option.map_eq_some_iff.2 ⟨info, hinfo, rfl⟩, hplan⟩
  | joinExpr jointype joinreftype larg rarg usingClause quals =>
    obtain ⟨left, right, leftInfo, rightInfo, predicate, rfl, rfl, hleft, hright, hcondition,
      hplan⟩ := h
    refine ⟨.join ⟨⟨left.getAlias, leftInfo, 0⟩, ⟨right.getAlias, rightInfo, 1⟩, jointype,
      joinreftype, usingClause, quals⟩, ?_, predicate, _, hcondition, ⟨rfl, rfl⟩, hplan⟩
    unfold FromItem.source
    simp only [sideScopes_rangeVar 0 hleft, sideScopes_rangeVar 1 hright]
  | other => exact h.elim

/-- A row that the plan returns has the columns of the item. -/
lemma Source.PlannedAs.length_of_completes (h : source.PlannedAs stof before plan)
    (hhold : source.Hold ctx contents) (hcompletes : Completes std plan ctx result ctx) :
    ∀ row ∈ result.map Tuple.values, row.length = source.width := by
  intro row hrow
  obtain ⟨tuple, htuple, rfl⟩ := List.mem_map.1 hrow
  cases source with
  | table info =>
    obtain rfl := h
    have hcontents := (hhold info List.mem_cons_self).2
    obtain ⟨-, rfl⟩ := hcontents.completes_seqScan.1 hcompletes
    exact (hcontents.isRead tuple htuple).length
  | join j =>
    obtain ⟨predicate, outputSchema, -, -, rfl⟩ := h
    have hleft := (hhold j.left.info List.mem_cons_self).2
    have hright := (hhold j.right.info (List.mem_cons_of_mem _ List.mem_cons_self)).2
    obtain ⟨-, -, rfl⟩ := (completes_nestedLoopJoin hleft hright).1 hcompletes
    obtain ⟨l, hl, r, hr, -, rfl⟩ := Joins.mem_pairs.1 htuple
    rw [(joinRow_eq (hleft.isRead l hl) (hright.isRead r hr)).2]
    exact TableJoin.length_append (hleft.isRead l hl).length (hright.isRead r hr).length

/-- When the plan returns no rows. -/
lemma Source.PlannedAs.completes_nil_iff (h : source.PlannedAs stof before plan)
    (hhold : source.Hold ctx contents) (hparsed : source.IsParsed) :
    Completes std plan ctx [] ctx ↔ source.PlansNone stof contents before := by
  cases source with
  | table info =>
    obtain rfl := h
    have hiff := @TableContents.completes_seqScan ctx ctx info _ [] std
      (hhold info List.mem_cons_self).2
    exact hiff.trans ⟨fun hnil => hnil.2.symm, fun hnil => ⟨rfl, hnil.symm⟩⟩
  | join j =>
    obtain ⟨predicate, outputSchema, hcondition, -, rfl⟩ := h
    have hleft := (hhold j.left.info List.mem_cons_self).2
    have hright := (hhold j.right.info (List.mem_cons_of_mem _ List.mem_cons_self)).2
    have hiff := @completes_nestedLoopJoin outputSchema ctx ctx predicate [] std _ _ _ _ hleft hright
    have hreads : ∀ l ∈ contents j.left.info, ∀ r ∈ contents j.right.info, ∀ b, _ ↔ _ :=
      fun l hl r hr b => @TableJoin.accepts_iff stof before j l r b predicate hparsed hcondition
        (hleft.isRead l hl) (hright.isRead r hr)
    refine hiff.trans ?_
    rw [eq_comm (a := []), Joins.pairs_eq_nil_iff]
    constructor
    · rintro ⟨-, hdecides, hnone⟩ l hl r hr
      obtain ⟨b, hb⟩ := hdecides l hl r hr
      have hfalse : b = false := (admits_eq hb).symm.trans (hnone l hl r hr)
      exact (hreads l hl r hr false).1 (hfalse ▸ hb)
    · intro hnone
      have haccepts := fun l hl r hr => (hreads l hl r hr false).2 (hnone l hl r hr)
      exact ⟨rfl, fun l hl r hr => ⟨false, haccepts l hl r hr⟩,
        fun l hl r hr => admits_eq (haccepts l hl r hr)⟩

/-- A row that is filled up with nulls is not a pair of rows that were read. -/
lemma append_ne_of_nulls {leftSchema rightSchema schema : Schema} {a b : Tuple} {row : List Value}
    (ha : a.IsRead leftSchema) (hb : b.IsRead rightSchema) (hpos : 0 < schema.getColumnCount)
    (hrow : ∀ v ∈ schema.nulls, v ∈ row) : a.values ++ b.values ≠ row := by
  rintro rfl
  obtain ⟨v, hv⟩ := List.exists_mem_of_length_pos (schema.length_nulls.symm ▸ hpos)
  have hnull := Schema.isNull_of_mem_nulls hv
  rcases List.mem_append.1 (hrow v hv) with hmem | hmem
  · rw [ha.notNull v hmem] at hnull
    cases hnull
  · rw [hb.notNull v hmem] at hnull
    cases hnull

/-- Rows of the same values stem from rows of the same values. -/
lemma values_eq_of_append {leftSchema : Schema} {l r a b : Tuple} (hl : l.IsRead leftSchema)
    (ha : a.IsRead leftSchema) (h : a.values ++ b.values = l.values ++ r.values) :
    a.values = l.values ∧ b.values = r.values :=
  List.append_inj h (ha.length.trans hl.length.symm)

/-- A pair is admitted if the condition accepts it. -/
lemma admits_iff {predicate : Expression} {leftSchema rightSchema : Schema} {l r : Tuple} :
    admits predicate leftSchema rightSchema l r = true ↔
      accepts predicate (fun e => e.evaluateJoin l leftSchema r rightSchema) = pure true := by
  unfold admits
  rw [beq_iff_eq, Cpp.result_eq_some]

/-- When a nested loop join over the two tables returns the rows of the join in SQL.

**Proof sketch.** The plan returns the pairs that its predicate accepts, if it has a truth value on
all of them. Both conditions look at no more than the values of the two rows, so the rows are those
of SQL iff the conditions accept the same pairs and the join keeps no row without a partner. -/
lemma TableJoin.completes_perm_iff {join : TableJoin} {predicate : Expression}
    {outputSchema : Schema} (hparsed : join.quals.isNull = false → join.quals.IsParsed)
    (hcondition : bindExpression stof [join.left, join.right] join.quals = pure predicate)
    (hidx : join.left.tupleIdx = 0 ∧ join.right.tupleIdx = 1)
    (hhold : (Source.join join).Hold ctx contents) (hdecided : join.IsDecided stof contents) :
    (∃ result, Completes std (.nestedLoopJoin outputSchema (scanOf join.left.info)
        (scanOf join.right.info) predicate) ctx result ctx ∧
          (result.map Tuple.values).Perm (join.sqlRows stof contents)) ↔
      join.HasOnlyPairs stof contents := by
  obtain ⟨hleftPos, hleft⟩ := hhold join.left.info List.mem_cons_self
  obtain ⟨hrightPos, hright⟩ :=
    hhold join.right.info (List.mem_cons_of_mem _ List.mem_cons_self)
  have hreads : ∀ l ∈ contents join.left.info, ∀ r ∈ contents join.right.info, ∀ b, _ ↔ _ :=
    fun l hl r hr b => @TableJoin.accepts_iff stof [] join l r b predicate hparsed hcondition
      (hleft.isRead l hl) (hright.isRead r hr)
  -- the rows of the plan, by their values
  have hvalues : (Joins.pairs (admits predicate join.left.info.schema join.right.info.schema) joined
      (contents join.left.info) (contents join.right.info)).map Tuple.values =
      Joins.pairs (admits predicate join.left.info.schema join.right.info.schema)
        (fun l r => l.values ++ r.values) (contents join.left.info) (contents join.right.info) := by
    rw [Joins.map_pairs]
    exact Joins.pairs_congr fun l hl r hr =>
      (joinRow_eq (hleft.isRead l hl) (hright.isRead r hr)).2
  have hiff := fun result => @completes_nestedLoopJoin outputSchema ctx ctx predicate result std
    _ _ _ _ hleft hright
  have hplan : (∃ result, Completes std (.nestedLoopJoin outputSchema (scanOf join.left.info)
      (scanOf join.right.info) predicate) ctx result ctx ∧
        (result.map Tuple.values).Perm (join.sqlRows stof contents)) ↔
      Decides predicate join.left.info.schema join.right.info.schema (contents join.left.info)
          (contents join.right.info) ∧
        (Joins.pairs (admits predicate join.left.info.schema join.right.info.schema)
          (fun l r => l.values ++ r.values) (contents join.left.info)
          (contents join.right.info)).Perm (join.sqlRows stof contents) := by
    rw [← hvalues]
    constructor
    · rintro ⟨result, hcompletes, hresult⟩
      obtain ⟨-, hdecides, rfl⟩ := (hiff result).1 hcompletes
      exact ⟨hdecides, hresult⟩
    · rintro ⟨hdecides, hresult⟩
      exact ⟨_, (hiff _).2 ⟨rfl, hdecides, rfl⟩, hresult⟩
  -- conditions that accept the same pairs
  have hperm := @Joins.pairs_perm_outer_iff _ _ _
    (admits predicate join.left.info.schema join.right.info.schema) (join.isPair stof)
    (fun l r => l.values ++ r.values) (fun l => l.values ++ join.right.info.schema.nulls)
    (fun r => join.left.info.schema.nulls ++ r.values) (contents join.left.info)
    (contents join.right.info) join.jointype.keepsLeft join.jointype.keepsRight
    (fun l hl r hr a ha b hb hsame => by
      obtain ⟨hla, hrb⟩ := values_eq_of_append (hleft.isRead l hl) (hleft.isRead a ha) hsame
      rw [Bool.eq_iff_iff, admits_iff, admits_iff, hreads a ha b hb, hreads l hl r hr]
      exact TableJoin.readsAs_congr hidx (hleft.isRead a ha) (hright.isRead b hb) hla hrb)
    (fun l hl r hr a ha b hb hsame => by
      obtain ⟨hla, hrb⟩ := values_eq_of_append (hleft.isRead l hl) (hleft.isRead a ha) hsame
      exact TableJoin.isPair_congr (hleft.isRead a ha) (hright.isRead b hb) hla hrb)
    (fun l hl a ha b hb => append_ne_of_nulls (hleft.isRead a ha) (hright.isRead b hb) hrightPos
      fun v hv => List.mem_append_right _ hv)
    (fun r hr a ha b hb => append_ne_of_nulls (hleft.isRead a ha) (hright.isRead b hb) hleftPos
      fun v hv => List.mem_append_left _ hv)
  have hpair : ∀ l r t, join.onTruth stof l r = some t →
      join.isPair stof l r = (t == some true && join.agrees l r) := by
    intro l r t ht
    unfold TableJoin.isPair
    rw [ht]
    rfl
  rw [hplan]
  unfold TableJoin.HasOnlyPairs TableJoin.sqlRows
  rw [hperm, ← and_assoc]
  refine and_congr_left' ⟨?_, ?_⟩
  · rintro ⟨hdecides, hsame⟩ l hl r hr t ht
    obtain ⟨b, hb⟩ := hdecides l hl r hr
    rw [← hpair l r t ht, ← hsame l hl r hr, admits_eq hb]
    exact (hreads l hl r hr b).1 hb
  · intro hall
    have haccepts : ∀ l ∈ contents join.left.info, ∀ r ∈ contents join.right.info,
        accepts predicate (fun e => e.evaluateJoin l join.left.info.schema r
          join.right.info.schema) = pure (join.isPair stof l r) := by
      intro l hl r hr
      obtain ⟨t, ht⟩ := hdecided l hl r hr
      rw [hpair l r t ht]
      exact (hreads l hl r hr _).2 (hall l hl r hr t ht)
    exact ⟨fun l hl r hr => ⟨_, haccepts l hl r hr⟩,
      fun l hl r hr => admits_eq (haccepts l hl r hr)⟩

/-- When the plan of a single item returns its rows. -/
lemma Source.PlannedAs.completes_perm_iff (h : source.PlannedAs stof [] plan)
    (hhold : source.Hold ctx contents) (hparsed : source.IsParsed)
    (hdecided : source.IsDecided stof contents) :
    (∃ result, Completes std plan ctx result ctx ∧
        (result.map Tuple.values).Perm (source.sqlRows stof contents)) ↔
      source.HasOnlyPairs stof contents := by
  cases source with
  | table info =>
    obtain rfl := h
    have hcompletes : Completes std (scanOf info) ctx (contents info) ctx :=
      (hhold info List.mem_cons_self).2.completes_seqScan.2 ⟨rfl, rfl⟩
    exact ⟨fun _ => trivial, fun _ => ⟨contents info, hcompletes, .refl _⟩⟩
  | join j =>
    obtain ⟨predicate, outputSchema, hcondition, hidx, rfl⟩ := h
    exact TableJoin.completes_perm_iff hparsed hcondition hidx hhold hdecided

end Plans

/-! ## The clause -/

section Clause

variable {stof : String → Cpp (BitVec 32)} {contents : TableInfo → List Tuple}
  {ctx : ExecutorContext} {std : StandardLibrary} {fromClause : List FromItem}
  {select : SelectStmt} {plan : PlanNode}

/-- The plan of `SELECT *` is that of its `FROM` clause. -/
lemma SelectStmt.IsStarOnly.bindFrom (h : select.IsStarOnly)
    (hbind : bindSelect stof ctx.catalog select = pure plan) :
    ∃ scopes, OneBase.bindFrom stof ctx.catalog select.fromClause = pure (scopes, plan) := by
  obtain ⟨⟨res, hlist, hstar⟩, hwhere, hsort, hlimit⟩ := h
  unfold bindSelect at hbind
  rw [hlist, hsort, hlimit] at hbind
  obtain ⟨⟨scopes, basePlan⟩, hfrom, hbind⟩ := Cpp.bind_eq_pure.1 hbind
  refine ⟨scopes, ?_⟩
  rw [hfrom]
  have hkind : res.val.targetKind = .star := by
    rcases hstar with hval | hval <;> rw [hval] <;> rfl
  have htargets : [res].foldlM (bindTarget stof scopes) {} =
      pure ({ isStar := true } : Targets) := by
    rw [List.foldlM_cons, bindTarget_eq, hkind]
    rfl
  unfold bindWhere at hbind
  simp only [hwhere, if_true, pure_bind, htargets] at hbind
  cases hbind
  rfl

/-- The item that remains is one of the clause. -/
lemma mem_of_survivingItem {kept : FromItem} (h : survivingItem fromClause = some kept) :
    kept ∈ fromClause := by
  have hfold : ∀ (items : List FromItem) (o : Option FromItem),
      items.foldl keepItem o = some kept → kept ∈ items ∨ o = some kept := by
    intro items
    induction items with
    | nil => exact fun o ho => .inr ho
    | cons item items ih =>
      intro o ho
      rcases ih _ ho with hmem | hkept
      · exact .inl (List.mem_cons_of_mem _ hmem)
      · have hor : keepItem o item = some item ∨ keepItem o item = o := by
          unfold keepItem
          split <;> first | exact .inl rfl | exact .inr rfl
        rcases hor with hitem | hold
        · rw [hitem] at hkept
          obtain rfl := Option.some.inj hkept
          exact .inl List.mem_cons_self
        · exact .inr (hold ▸ hkept)
  rcases hfold fromClause none h with hmem | hnone
  · exact hmem
  · cases hnone

/-- One of several positive numbers is less than their sum. -/
lemma lt_sum_of_mem {widths : List ℕ} {w : ℕ} (hpos : ∀ w ∈ widths, 0 < w) (hw : w ∈ widths)
    (hlen : widths.length ≠ 1) : w < widths.sum := by
  obtain ⟨front, back, rfl⟩ := List.append_of_mem hw
  rw [List.sum_append, List.sum_cons]
  cases front with
  | cons w' front =>
    have hw' := hpos w' List.mem_cons_self
    rw [List.sum_cons]
    omega
  | nil =>
    cases back with
    | cons w' back =>
      have hw' := hpos w' (by simp)
      rw [List.sum_cons]
      omega
    | nil => exact absurd rfl hlen

/-- The plan of several items returns no rows if it returns those of the clause, since its rows
only have the columns of one item. -/
lemma eq_nil_of_perm_product {sources : List Source} {kept : Source} {rows : List (List Value)}
    (hhold : ∀ source ∈ sources, source.Hold ctx contents) (hkept : kept ∈ sources)
    (hlen : sources.length ≠ 1) (hrows : ∀ row ∈ rows, row.length = kept.width)
    (hperm : rows.Perm (Joins.product (sources.map (Source.sqlRows stof contents)))) :
    rows = [] := by
  have hwidths : List.Forall₂ (fun rows width => ∀ row ∈ rows, row.length = width)
      (sources.map (Source.sqlRows stof contents)) (sources.map Source.width) := by
    rw [List.forall₂_map_left_iff, List.forall₂_map_right_iff, List.forall₂_same]
    exact fun source hsource => (hhold source hsource).length_of_mem_sqlRows
  have hlt : kept.width < (sources.map Source.width).sum := by
    refine lt_sum_of_mem ?_ (List.mem_map_of_mem hkept) (by rwa [List.length_map])
    intro w hw
    obtain ⟨source, hsource, rfl⟩ := List.mem_map.1 hw
    exact (hhold source hsource).width_pos
  refine List.eq_nil_iff_forall_not_mem.2 fun row hrow => ?_
  have hsum := Joins.length_of_mem_product hwidths row (hperm.mem_iff.1 hrow)
  have hwidth := hrows row hrow
  omega

/-- A `nullptr` is not executed. -/
lemma not_completes_null {rows : List Tuple} {ctx' : ExecutorContext} :
    ¬ Completes std .null ctx rows ctx' := by
  rintro ⟨fuel, hreturns⟩
  obtain ⟨st, c, hinit, -⟩ := Exec.returns_bind.1 (hreturns fuel le_rfl)
  exact Exec.not_returns_undefined hinit

/-- A single item whose rows SQL defines. -/
lemma exists_item_of_fromSources {catalog : Catalog} {source : Source}
    (hdefined : ∀ item ∈ fromClause, item.isDefined catalog = true)
    (hsources : fromSources catalog fromClause = [source]) :
    ∃ item, fromClause = [item] ∧ item.source catalog = some source := by
  have hall : ∀ item ∈ fromClause, ∃ source, item.source catalog = some source := by
    intro item hitem
    have hitemDefined := hdefined item hitem
    unfold FromItem.isDefined at hitemDefined
    cases hsource : item.source catalog with
    | none =>
      rw [hsource] at hitemDefined
      cases hitemDefined
    | some source => exact ⟨source, rfl⟩
  unfold fromSources at hsources
  match fromClause with
  | [] => cases hsources
  | item :: items =>
    obtain ⟨source₁, hsource₁⟩ := hall item List.mem_cons_self
    rw [List.filterMap_cons_some hsource₁] at hsources
    obtain ⟨rfl, hrest⟩ := List.cons.inj hsources
    match items with
    | [] => exact ⟨item, rfl, hsource₁⟩
    | item₂ :: items =>
      obtain ⟨source₂, hsource₂⟩ := hall item₂ (by simp)
      rw [List.filterMap_cons_some hsource₂] at hrest
      cases hrest

/-- The plan of a single item. -/
lemma KeptPlan.of_single {catalog : Catalog} {item : FromItem} {source : Source}
    (hsource : item.source catalog = some source)
    (h : KeptPlan stof catalog (joinScopes catalog [item]) plan (survivingItem [item])) :
    source.PlannedAs stof [] plan := by
  have hplanned : item.PlannedAs stof catalog [] plan := by
    cases item with
    | rangeVar rv => exact h
    | joinExpr => exact h
    | other => cases hsource
  obtain ⟨source', hsource', hplan⟩ := hplanned.exists_source
  rw [hsource] at hsource'
  obtain rfl := Option.some.inj hsource'
  exact hplan

/-- When the plan of several items returns the rows of the clause. -/
lemma KeptPlan.completes_perm_iff {before : List TableScope}
    (hhold : ∀ source ∈ fromSources ctx.catalog fromClause, source.Hold ctx contents)
    (hparsed : ∀ source ∈ fromSources ctx.catalog fromClause, source.IsParsed)
    (hlen : (fromSources ctx.catalog fromClause).length ≠ 1)
    (h : KeptPlan stof ctx.catalog before plan (survivingItem fromClause)) :
    (∃ result, Completes std plan ctx result ctx ∧
        (result.map Tuple.values).Perm (fromRows stof ctx.catalog contents fromClause)) ↔
      (∃ kept ∈ (survivingItem fromClause).bind (FromItem.source ctx.catalog),
        kept.PlansNone stof contents before) ∧
      ∃ source ∈ fromSources ctx.catalog fromClause, source.sqlRows stof contents = [] := by
  have hproduct : fromRows stof ctx.catalog contents fromClause = [] ↔
      ∃ source ∈ fromSources ctx.catalog fromClause, source.sqlRows stof contents = [] := by
    unfold fromRows
    rw [Joins.product_eq_nil_iff, List.mem_map]
  cases hsurvives : survivingItem fromClause with
  | none =>
    rw [hsurvives] at h
    obtain rfl : plan = .null := h
    constructor
    · rintro ⟨result, hcompletes, -⟩
      exact absurd hcompletes not_completes_null
    · rintro ⟨⟨kept, hkept, -⟩, -⟩
      cases hkept
  | some item =>
    rw [hsurvives] at h
    obtain ⟨kept, hkept, hplan⟩ := FromItem.PlannedAs.exists_source h
    have hmem : kept ∈ fromSources ctx.catalog fromClause :=
      List.mem_filterMap.2 ⟨item, mem_of_survivingItem hsurvives, hkept⟩
    have hnone := @Source.PlannedAs.completes_nil_iff stof contents ctx std before plan kept hplan
      (hhold kept hmem) (hparsed kept hmem)
    rw [Option.bind_some, hkept]
    constructor
    · rintro ⟨result, hcompletes, hperm⟩
      have hnil := eq_nil_of_perm_product hhold hmem hlen
        (hplan.length_of_completes (hhold kept hmem) hcompletes) hperm
      obtain rfl := List.map_eq_nil_iff.1 hnil
      exact ⟨⟨kept, rfl, hnone.1 hcompletes⟩, hproduct.1 hperm.symm.eq_nil⟩
    · rintro ⟨⟨kept', hkept', hplansNone⟩, hempty⟩
      obtain rfl : kept = kept' := Option.some.inj hkept'
      refine ⟨[], hnone.2 hplansNone, ?_⟩
      rw [hproduct.2 hempty]
      exact .refl _

end Clause

/-! ## Two tables with a column each -/

/-- The table `l` with the column `a`, or `r` with `b`, each with a page of its own. -/
def pageTable (name column : String) (oid : ℕ) : TableInfo :=
  { sideTable name column oid with table := ⟨oid - 1⟩ }

/-- The database of the tables `l` with the row `1`, and `r` with the rows `2` and `3`. -/
def twoContext : ExecutorContext where
  catalog :=
    { nextTableOid := 3
      tables := [(1, pageTable "l" "a" 1), (2, pageTable "r" "b" 2)]
      tableNames := [("l", 1), ("r", 2)] }
  bpm := storeOf [[rowBytes [1]], [rowBytes [2], rowBytes [3]]]

/-- The rows of the two tables. -/
def twoContents (info : TableInfo) : List Tuple :=
  if info.oid = 1 then [parsedTuple 1 (⟨0, 0⟩, rowBytes [1])]
  else [parsedTuple 1 (⟨1, 0⟩, rowBytes [2]), parsedTuple 1 (⟨1, 1⟩, rowBytes [3])]

/-- The two tables of the sample hold their rows. -/
lemma tablesHold_twoContext : TablesHold twoContext twoContents := by
  have hleft : TableContents twoContext (pageTable "l" "a" 1) (twoContents (pageTable "l" "a" 1)) :=
    { registered := rfl
      scanned := ⟨_, _, ⟨ready_storeOf _, le_top, holds_storeOf (k := 0) rfl (by decide)⟩, rfl, rfl⟩ }
  have hright : TableContents twoContext (pageTable "r" "b" 2)
      (twoContents (pageTable "r" "b" 2)) :=
    { registered := rfl
      scanned := ⟨_, _, ⟨ready_storeOf _, le_top, holds_storeOf (k := 1) rfl (by decide)⟩, rfl, rfl⟩ }
  intro tableName info hinfo
  have hlookup : lookupTable twoContext.catalog tableName = pure info := Cpp.result_eq_some.1 hinfo
  by_cases hl : tableName = "l"
  · subst hl
    cases hlookup
    exact ⟨by decide, hleft⟩
  by_cases hr : tableName = "r"
  · subst hr
    cases hlookup
    exact ⟨by decide, hright⟩
  · have hnone : twoContext.catalog.tableNames.lookup tableName = none := by
      rw [List.lookup_eq_none_iff]
      simp [twoContext, hl, hr]
    unfold lookupTable Catalog.getTableByName at hlookup
    rw [hnone] at hlookup
    cases hlookup

/-- `SELECT * FROM` these items. -/
def selectFrom (fromClause : List FromItem) : SelectStmt where
  targetList := [{ val := .aStar }]
  fromClause := fromClause

/-- `SELECT *` has no other clause. -/
lemma isStarOnly_selectFrom (fromClause : List FromItem) : (selectFrom fromClause).IsStarOnly where
  targets := ⟨_, rfl, .inl rfl⟩
  whereClause := rfl
  sortClause := rfl
  limitCount := rfl

/-- `l LEFT JOIN r ON a < b`. -/
def leftJoinItem : FromItem :=
  .joinExpr .left .regular (.rangeVar ⟨"l", none⟩) (.rangeVar ⟨"r", none⟩) []
    (.aExpr .op ["<"] (columnNode "a") (columnNode "b"))

/-- The join of `leftJoinItem`. -/
def leftJoin : TableJoin where
  left := ⟨"l", pageTable "l" "a" 1, 0⟩
  right := ⟨"r", pageTable "r" "b" 2, 1⟩
  jointype := .left
  joinreftype := .regular
  usingClause := []
  quals := .aExpr .op ["<"] (columnNode "a") (columnNode "b")

/-- In SQL and as the binder reads it, `a < b` is true of both pairs of rows. -/
lemma onTruth_leftJoin : ∀ l ∈ twoContents leftJoin.left.info,
    ∀ r ∈ twoContents leftJoin.right.info,
      leftJoin.onTruth (fun _ => Cpp.undefined) l r = some (some true) ∧
        leftJoin.ReadsAs (fun _ => Cpp.undefined) [] l r true := by
  intro l hl r hr
  have hless : PlainOp.named "<" = some (.comparison .lessThan) := by decide
  -- the columns that the names mean, and that are read for them
  have hvalues : ∃ x y,
      leftJoin.column l r "" "a" = some x ∧ leftJoin.column l r "" "b" = some y ∧
      leftJoin.readName [] l r "" "a" = some (pure { payload := x }) ∧
      leftJoin.readName [] l r "" "b" = some (pure { payload := y }) ∧
      (PlainOp.comparison .lessThan).computes x y = some (.boolean true) := by
    obtain rfl := List.mem_singleton.1 hl
    rcases List.mem_cons.1 hr with rfl | hr
    · exact ⟨.integer 1, .integer 2, rfl, rfl, rfl, rfl, by decide⟩
    · obtain rfl := List.mem_singleton.1 hr
      exact ⟨.integer 1, .integer 3, rfl, rfl, rfl, rfl, by decide⟩
  obtain ⟨x, y, ha, hb, hnameA, hnameB, hcomputes⟩ := hvalues
  have hread : leftJoin.readColumn [] l r "" "a" = some x ∧
      leftJoin.readColumn [] l r "" "b" = some y := by
    unfold TableJoin.readColumn
    rw [hnameA, hnameB]
    exact ⟨rfl, rfl⟩
  have hlost : ∀ name, name = "a" ∨ name = "b" → ¬ leftJoin.IsLost [] l r "" name := by
    unfold TableJoin.IsLost
    rintro name (rfl | rfl) h
    · rw [hnameA] at h
      cases h
    · rw [hnameB] at h
      cases h
  constructor
  · unfold TableJoin.onTruth
    rw [if_neg (by simp [leftJoin, Node.isNull])]
    show (sqlMeaning _ (leftJoin.column l r)
      (.aExpr .op ["<"] (columnNode "a") (columnNode "b"))).bind _ = _
    simp [columnNode, sqlMeaning, ha, hb, AExprKind.denotes, hless, PlainOp.lift, hcomputes,
      SqlValue.truth]
  · have hnamed : (Node.aExpr .op ["<"] (columnNode "a") (columnNode "b")).byName =
        .aExpr .op ["<"] (columnNode "a") (columnNode "b") := by
      simp [columnNode, Node.byName, Node.byName.readReference]
    unfold TableJoin.ReadsAs
    rw [if_neg (by simp [leftJoin, Node.isAbsent])]
    show ¬ (Node.aExpr .op ["<"] (columnNode "a") (columnNode "b")).ReachesFault _ _ _ ∧
      sqlMeaning _ (leftJoin.readColumn [] l r) (Node.byName
        (.aExpr .op ["<"] (columnNode "a") (columnNode "b"))) = _
    rw [hnamed]
    constructor
    · simp [columnNode, Node.ReachesFault, hlost, hless, PlainOp.Overflows]
    · simp [columnNode, sqlMeaning, hread, AExprKind.denotes, hless, PlainOp.lift, hcomputes]

end OneBase
