import OneBase.Execution.ExecutorContext
import OneBase.Type.Operations

set_option relaxedAutoImplicit false
set_option autoImplicit false

/-!
# Creating tables and indexes

The parts of `catalog.cpp` that read or write pages.

## Main definitions

* `OneBase.Catalog.createTable`, `OneBase.Catalog.createIndex`.
-/

namespace OneBase

open Exec

/-- `tuple.GetValue(&schema, attr).GetAsInteger()`: the key of a row. -/
def Tuple.keyOf (tuple : Tuple) (schema : Schema) (attr : ℕ) : Cpp ℤ := do
  let value ← tuple.getValueAt schema attr
  value.getAsInteger

namespace Catalog

/-- `CreateTable`. -/
def createTable (tableName : String) (schema : Schema) : Exec (Option TableInfo) := do
  let catalog ← getCatalog
  if (catalog.tableNames.lookup tableName).isSome then pure none
  else
    let tableOid := catalog.nextTableOid
    modifyCatalog fun c => { c with nextTableOid := tableOid + 1 }
    let tableHeap ← ofThrowing TableHeap.create
    let tableInfo : TableInfo :=
      { schema := schema, name := tableName, table := tableHeap, oid := tableOid }
    modifyCatalog fun c => { c with
      tables := (tableOid, tableInfo) :: c.tables
      tableNames := (tableName, tableOid) :: c.tableNames }
    pure (some tableInfo)

/-- The columns of the key, or nothing if an attribute is no column. -/
def keyColumns (schema : Schema) (keyAttrs : List ℕ) : Option (List Column) :=
  keyAttrs.mapM fun attr => if attr < schema.getColumnCount then schema.getColumn attr else none

/-- The loop of `CreateIndex` that files the rows of the table. -/
def fileRows (fuel : ℕ) (schema : Schema) (attr : ℕ) :
    ℕ → RID → IndexInfo → Exec IndexInfo
  | 0, _, _ => undefined
  | n + 1, it, indexInfo =>
    if it = TableHeap.endIterator then pure indexInfo
    else do
      let tuple ← ofThrowing (TableHeap.getTuple it)
      let key ← ofCpp (tuple.keyOf schema attr)
      let next ← ofProgram (TableHeap.increment fuel it)
      fileRows fuel schema attr n next (indexInfo.insertEntry key it)

/-- The new entry of `index_names_`. -/
def addIndexName (indexNames : List (String × List (String × ℕ))) (tableName indexName : String)
    (oid : ℕ) : List (String × List (String × ℕ)) :=
  match indexNames.lookup tableName with
  | none => (tableName, [(indexName, oid)]) :: indexNames
  | some names => indexNames.map fun entry =>
      if entry.1 = tableName then (tableName, (indexName, oid) :: names) else entry

/-- `CreateIndex`; an `IndexInfo *` is the oid under which the index is filed. -/
def createIndex (fuel : ℕ) (indexName tableName : String) (keyAttrs : List ℕ) :
    Exec (Option ℕ) := do
  let catalog ← getCatalog
  match ← ofCpp (catalog.getTableByName tableName) with
  | none => pure none
  | some tableInfo =>
    if indexName = "" ∨ keyAttrs = [] then pure none
    else if (← ofCpp (catalog.getIndexByName indexName tableName)).isSome then pure none
    else
      match keyColumns tableInfo.schema keyAttrs, keyAttrs with
      | some columns, attr :: rest =>
        let indexOid := catalog.nextIndexOid
        let indexInfo : IndexInfo :=
          { keySchema := Schema.new columns, name := indexName, tableName := tableName,
            oid := indexOid, keyAttrs := keyAttrs }
        modifyCatalog fun c => { c with nextIndexOid := indexOid + 1 }
        let indexInfo ←
          if rest = [] ∧ (tableInfo.schema.getColumn attr).map Column.type = some .integer then do
            let it ← ofProgram (TableHeap.begin fuel tableInfo.table)
            fileRows fuel tableInfo.schema attr fuel it
              { indexInfo with supportsPointLookup := true }
          else pure indexInfo
        modifyCatalog fun c => { c with
          indexes := (indexOid, indexInfo) :: c.indexes
          indexNames := addIndexName c.indexNames tableName indexName indexOid }
        pure (some indexOid)
      | _, _ => pure none

end Catalog

end OneBase
