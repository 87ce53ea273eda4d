import OneBase.Execution.Indexes
import OneBase.Storage.Table.SmallHeaps

set_option relaxedAutoImplicit false
set_option autoImplicit false

/-!
# Databases of one small table

A database with one table of integers, on one page, and with indexes on some of its columns.

## Main definitions

* `OneBase.smallTable`, `OneBase.smallContext` — the table and its database.

## Main results

* `OneBase.integerTable_smallContext` — it is a table of integers with these rows.
* `OneBase.tableIndexes_smallContext`, `OneBase.agrees_smallContext` — its indexes agree with them.
-/

namespace OneBase

open TableHeap Memory

/-- The table with the oid 1. -/
def smallTable (columns : List String) : TableInfo where
  schema := Schema.new (columns.map fun name => .new name .integer)
  name := "t"
  table := ⟨0⟩
  oid := 1

/-- The bytes of a row of integers. -/
def rowBytes (row : List (BitVec 32)) : List UInt8 := row.flatMap fun i => leBytes 4 i.toNat

/-- The page of the table. -/
def smallPages (rows : List (List (BitVec 32))) : Pages :=
  [(0, rows.map fun row => some (rowBytes row))]

/-- An index on the column `attr`. -/
def smallIndex (columns : List String) (rows : List (List (BitVec 32))) (attr : ℕ) : IndexInfo :=
  IndexInfo.insertEntries
    { keySchema := Schema.new ((columns[attr]?).map fun name => Column.new name .integer).toList
      name := "i"
      tableName := "t"
      oid := 1
      keyAttrs := [attr]
      supportsPointLookup := true } attr (liveRows (smallPages rows))

/-- The database of the table, with an index on the column `attr` if there is one. -/
def smallContext (columns : List String) (rows : List (List (BitVec 32))) (attr : Option ℕ) :
    ExecutorContext where
  catalog :=
    { nextTableOid := 2
      nextIndexOid := 2
      tables := [(1, smallTable columns)]
      tableNames := [("t", 1)]
      indexes := attr.toList.map fun attr => (1, smallIndex columns rows attr)
      indexNames := attr.toList.map fun _ => ("t", [("i", 1)]) }
  bpm := storeOf [rows.map rowBytes]

section Small

variable {columns : List String} {rows : List (List (BitVec 32))} {attr : Option ℕ}

/-- A row takes four bytes for each integer. -/
lemma length_rowBytes (row : List (BitVec 32)) : (rowBytes row).length = 4 * row.length := by
  induction row with
  | nil => rfl
  | cons i row ih =>
    unfold rowBytes at *
    rw [List.flatMap_cons, List.length_append, ih, length_leBytes, List.length_cons]
    omega

/-- All columns are integers. -/
lemma isInteger_smallTable (columns : List String) : (smallTable columns).schema.IsInteger := by
  refine ⟨_, rfl, fun c hc => ?_⟩
  obtain ⟨name, -, rfl⟩ := List.mem_map.1 hc
  rfl

/-- Placing the columns does not change how many there are. -/
lemma length_assignOffsets (offset : ℕ) (cols : List Column) :
    (Schema.assignOffsets offset cols).1.length = cols.length := by
  induction cols generalizing offset with
  | nil => rfl
  | cons col cols ih => simp [Schema.assignOffsets, ih]

/-- The table has a column for each name. -/
lemma length_smallTable (columns : List String) :
    (smallTable columns).schema.columns.length = columns.length := by
  show (Schema.assignOffsets 0 _).1.length = _
  rw [length_assignOffsets, List.length_map]

/-- A table on a page of its own consists of these rows of integers, as long as they fit on the page:
the bytes of a row are four for each of its integers. -/
lemma integerTable_storeOf {ctx : ExecutorContext} {info : TableInfo} {k : ℕ}
    {tables : List (List (List UInt8))} (hbpm : ctx.bpm = storeOf tables) (hframes : 1 ≤ ctx.poolSize)
    (hrows : tables[k]? = some (rows.map rowBytes)) (htable : info.table = ⟨k⟩)
    (hschema : info.schema = (smallTable columns).schema)
    (hroom : roomOf (rows.map rowBytes) + 16 ≤ pageSize)
    (hwidth : ∀ row ∈ rows, row.length = columns.length) :
    IntegerTable ctx info [((k : ℤ), rows.map fun row => some (rowBytes row))] where
  ready := by
    rw [hbpm]
    exact ready_storeOf _
  frames := hframes
  holds := by
    have hholds := holds_storeOf hrows hroom
    rw [List.map_map] at hholds
    rw [hbpm, htable]
    exact hholds
  schema := by
    rw [hschema]
    exact isInteger_smallTable columns
  rows := by
    rintro ⟨rid, b⟩ hr
    obtain ⟨slots, hslots, hget, -⟩ := mem_liveRows.1 hr
    obtain ⟨-, rfl⟩ := Prod.mk.inj (List.mem_singleton.1 hslots)
    obtain ⟨row, hrow, hb⟩ := List.mem_map.1 (List.mem_of_getElem? hget)
    obtain rfl := Option.some.inj hb
    rw [length_rowBytes, hwidth row hrow, hschema, length_smallTable]

/-- The table of the small database consists of its rows. -/
lemma integerTable_smallContext (hroom : roomOf (rows.map rowBytes) + 16 ≤ pageSize)
    (hwidth : ∀ row ∈ rows, row.length = columns.length) :
    IntegerTable (smallContext columns rows attr) (smallTable columns) (smallPages rows) :=
  integerTable_storeOf rfl le_top rfl rfl rfl hroom hwidth

/-- Filing rows changes the entries of an index only. -/
lemma insertEntries_eq (i : IndexInfo) (attr : ℕ) (rows : List (RID × List UInt8)) :
    i.insertEntries attr rows = { i with intRidMap := (i.insertEntries attr rows).intRidMap } := by
  induction rows generalizing i with
  | nil => rfl
  | cons r rows ih => exact ih (i.insertEntry (keyAt attr r.2) r.1)

/-- The indexes of the table. -/
lemma tableIndexes_smallContext (hattr : ∀ a ∈ attr, a < columns.length) :
    TableIndexes (smallContext columns rows attr).catalog (smallTable columns)
      (attr.toList.map fun _ => 1) := by
  cases attr with
  | none => exact ⟨rfl, List.nodup_nil, by simp⟩
  | some a =>
    refine ⟨rfl, List.nodup_singleton _, fun oid hoid => ?_⟩
    obtain rfl : oid = 1 := List.mem_singleton.1 hoid
    refine ⟨smallIndex columns rows a, rfl, ?_, a, ?_, ?_⟩
    · unfold smallIndex
      rw [insertEntries_eq]
    · rw [length_smallTable]
      exact hattr a rfl
    · unfold smallIndex
      rw [insertEntries_eq]
      rfl

/-- The indexes agree with the rows. -/
lemma agrees_smallContext (columns : List String) (rows : List (List (BitVec 32)))
    (attr : Option ℕ) :
    (smallContext columns rows attr).catalog.Agrees (attr.toList.map fun _ => 1)
      (liveRows (smallPages rows)) := by
  cases attr with
  | none => exact fun oid hoid => by cases hoid
  | some a =>
    intro oid hoid i attr' hi _ hattr
    obtain rfl : oid = 1 := List.mem_singleton.1 hoid
    obtain rfl : smallIndex columns rows a = i := Option.some.inj hi
    unfold smallIndex at hattr ⊢
    rw [insertEntries_eq] at hattr
    obtain rfl : a = attr' := by
      cases hattr
      rfl
    have hnodup : (([] ++ liveRows (smallPages rows)).map Prod.fst).Nodup :=
      nodup_liveRows (List.nodup_singleton _)
    exact (IndexInfo.agrees_nil rfl).insertEntries hnodup

end Small

end OneBase
