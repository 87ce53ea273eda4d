import OneBase.Storage.Table.TableHeap

set_option relaxedAutoImplicit false
set_option autoImplicit false

/-!
# The catalog

`catalog/catalog.h` and the parts of `catalog.cpp` that do not touch the pages. An
`std::unordered_map` that is iterated over is the list of its entries in the order of the
iteration; the key map of an index is only looked up and is a function.

## Main definitions

* `OneBase.TableInfo`, `OneBase.IndexInfo`, `OneBase.Catalog` — the metadata.
* `OneBase.IndexInfo.lookupInteger`, `insertEntry`, `removeEntry` — the key map of an index.
* `OneBase.Catalog.getTable`, `getTableIndexes`, `dropIndex` and so on.

## Main results

* `OneBase.IndexInfo.lookupInteger_insertEntry`, `lookupInteger_removeEntry` — the map afterwards.
-/

namespace OneBase

/-- `TableInfo`. -/
structure TableInfo where
  schema : Schema
  name : String
  table : TableHeap
  oid : ℕ
  deriving DecidableEq, Repr

/-- `IndexInfo`. -/
structure IndexInfo where
  keySchema : Schema
  name : String
  tableName : String
  oid : ℕ
  keyAttrs : List ℕ
  supportsPointLookup : Bool := false
  intRidMap : ℤ → Option (List RID) := fun _ => none

namespace IndexInfo

/-- `GetLookupAttr`; `front()` of an empty vector is undefined. -/
def getLookupAttr (i : IndexInfo) : Cpp ℕ :=
  match i.keyAttrs with
  | attr :: _ => pure attr
  | [] => Cpp.undefined

/-- `LookupInteger`. -/
def lookupInteger (i : IndexInfo) (key : ℤ) : Option (List RID) := i.intRidMap key

/-- `InsertEntry`. -/
def insertEntry (i : IndexInfo) (key : ℤ) (rid : RID) : IndexInfo :=
  { i with
    intRidMap := Function.update i.intRidMap key (some ((i.intRidMap key).getD [] ++ [rid])) }

/-- `RemoveEntry`: an entry without row ids is erased. -/
def removeEntry (i : IndexInfo) (key : ℤ) (rid : RID) : IndexInfo :=
  match i.intRidMap key with
  | none => i
  | some rids =>
    let rids := rids.filter fun r => r ≠ rid
    { i with
      intRidMap := Function.update i.intRidMap key (if rids = [] then none else some rids) }

/-- The row ids filed under a key. -/
def rids (i : IndexInfo) (key : ℤ) : List RID := (i.lookupInteger key).getD []

/-- No entry is without row ids. -/
def Compact (i : IndexInfo) : Prop := ∀ key, i.lookupInteger key ≠ some []

section Map

variable (i : IndexInfo) (key key' : ℤ) (rid : RID)

/-- After an entry was filed its row id is the last one under its key. -/
lemma rids_insertEntry : (i.insertEntry key rid).rids key' =
    if key' = key then i.rids key ++ [rid] else i.rids key' := by
  unfold rids lookupInteger insertEntry
  by_cases h : key' = key
  · simp [h]
  · simp [h]

/-- After an entry was removed its row id is no longer under its key. -/
lemma rids_removeEntry : (i.removeEntry key rid).rids key' =
    if key' = key then (i.rids key).filter fun r => r ≠ rid else i.rids key' := by
  unfold rids lookupInteger removeEntry
  cases hrids : i.intRidMap key with
  | none =>
    split_ifs with h
    · rw [h, hrids]
      rfl
    · rfl
  | some rids =>
    by_cases h : key' = key
    · subst h
      simp only [Function.update_self, if_true, Option.getD_some]
      split_ifs with hnil
      · rw [hnil]
        rfl
      · rfl
    · simp [h]

variable {i}

/-- A key under which a row id was filed has one. -/
lemma Compact.insertEntry (h : i.Compact) : (i.insertEntry key rid).Compact := by
  intro k
  show Function.update i.intRidMap key (some ((i.intRidMap key).getD [] ++ [rid])) k ≠ some []
  by_cases hk : k = key
  · simp [hk]
  · rw [Function.update_of_ne hk]
    exact h k

/-- A key whose last row id was removed is removed with it. -/
lemma Compact.removeEntry (h : i.Compact) : (i.removeEntry key rid).Compact := by
  intro k
  unfold IndexInfo.removeEntry
  cases hrids : i.intRidMap key with
  | none => exact h k
  | some rids =>
    by_cases hk : k = key
    · subst hk
      simp only [lookupInteger, Function.update_self]
      split_ifs with hnil
      · simp
      · simpa using hnil
    · simpa [lookupInteger, hk] using h k

/-- Without empty entries, the row ids of a key say what `LookupInteger` returns. -/
lemma Compact.lookupInteger_eq (h : i.Compact) :
    i.lookupInteger key = if i.rids key = [] then none else some (i.rids key) := by
  unfold rids
  cases hrids : i.lookupInteger key with
  | none => rfl
  | some rids =>
    have hne : rids ≠ [] := by
      rintro rfl
      exact h key hrids
    simp [hne]

end Map

end IndexInfo

/-- `Catalog`. -/
structure Catalog where
  nextTableOid : ℕ := 1
  nextIndexOid : ℕ := 1
  tables : List (ℕ × TableInfo) := []
  tableNames : List (String × ℕ) := []
  indexes : List (ℕ × IndexInfo) := []
  indexNames : List (String × List (String × ℕ)) := []

namespace Catalog

/-- `at`, which throws where there is no entry. -/
def mapAt {α : Type} (map : List (ℕ × α)) (oid : ℕ) : Cpp α :=
  match map.lookup oid with
  | some x => pure x
  | none => throw (.logicError "unordered_map::at")

/-- `GetTable`, by name. -/
def getTableByName (c : Catalog) (tableName : String) : Cpp (Option TableInfo) :=
  match c.tableNames.lookup tableName with
  | none => pure none
  | some oid => do
    let info ← mapAt c.tables oid
    pure (some info)

/-- `GetTable`, by oid. -/
def getTable (c : Catalog) (oid : ℕ) : Option TableInfo := c.tables.lookup oid

/-- `GetAllTables`. -/
def getAllTables (c : Catalog) : List TableInfo := c.tables.map Prod.snd

/-- `GetIndex`, by name. -/
def getIndexByName (c : Catalog) (indexName tableName : String) : Cpp (Option IndexInfo) :=
  match c.indexNames.lookup tableName with
  | none => pure none
  | some names =>
    match names.lookup indexName with
    | none => pure none
    | some oid => do
      let info ← mapAt c.indexes oid
      pure (some info)

/-- `GetIndex`, by oid. -/
def getIndex (c : Catalog) (oid : ℕ) : Option IndexInfo := c.indexes.lookup oid

/-- `GetTableIndexes`; an `IndexInfo *` is the oid under which the index is filed. -/
def getTableIndexes (c : Catalog) (tableName : String) : Cpp (List ℕ) :=
  match c.indexNames.lookup tableName with
  | none => pure []
  | some names => names.mapM fun entry => do
    let _ ← mapAt c.indexes entry.2
    pure entry.2

/-- `GetAllIndexes`. -/
def getAllIndexes (c : Catalog) : List IndexInfo := c.indexes.map Prod.snd

/-- A change of the index that a pointer points to. -/
def modifyIndex (c : Catalog) (oid : ℕ) (f : IndexInfo → IndexInfo) : Catalog :=
  { c with
    indexes := c.indexes.map fun entry =>
      if entry.1 = oid then (entry.1, f entry.2) else entry }

/-- `DropIndex`. -/
def dropIndex (c : Catalog) (indexName tableName : String) : Bool × Catalog :=
  match c.indexNames.lookup tableName with
  | none => (false, c)
  | some names =>
    match names.lookup indexName with
    | none => (false, c)
    | some oid =>
      let names := names.filter fun entry => entry.1 ≠ indexName
      let others := c.indexNames.filter fun entry => entry.1 ≠ tableName
      (true, { c with
        indexes := c.indexes.filter fun entry => entry.1 ≠ oid
        indexNames := if names = [] then others else
          c.indexNames.map fun entry => if entry.1 = tableName then (tableName, names) else entry })

end Catalog

end OneBase
