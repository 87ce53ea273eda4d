import OneBase.Catalog.States
import OneBase.Lib.Transition

set_option relaxedAutoImplicit false
set_option autoImplicit false

/-!
# The calls of a catalog

`CreateTable` and `CreateIndex` as programs on the buffer pool, which run on every pool: also on one
that has no frame left, where the constructor of a heap throws. The calls are the steps of a
transition system on the maps of the catalog.

## Main definitions

* `OneBase.Catalog.createTableOn`, `createIndexOn` — the two calls, with the catalog they leave.
* `OneBase.CatalogCall`, `OneBase.CatalogStep` — the steps.
* `OneBase.CatalogCall.Live` — the indexes that were created and not dropped since.

## Main results

* `OneBase.Catalog.runIn_createTable`, `runIn_createIndex` — the calls of the executors are these.
* `OneBase.Catalog.createTableOn_cases`, `createIndexOn_cases` — what a call can do.
* `OneBase.catalog_maps_of_run` — the maps after any calls.
-/

namespace OneBase

open Effect Effect.Program

namespace Catalog

/-! ## The calls on any pool -/

/-- `CreateTable`: the result and the catalog. -/
def createTableOn (c : Catalog) (tableName : String) (schema : Schema) :
    Program (PoolCall TablePage) (Except Exception (Option TableInfo) × Catalog) := do
  if (c.tableNames.lookup tableName).isSome then pure (.ok none, c)
  else
    let tableOid := c.nextTableOid
    let c := { c with nextTableOid := tableOid + 1 }
    match ← TableHeap.create with
    | .error e => pure (.error e, c)
    | .ok tableHeap =>
      let tableInfo : TableInfo :=
        { schema := schema, name := tableName, table := tableHeap, oid := tableOid }
      pure (.ok (some tableInfo), { c with
        tables := (tableOid, tableInfo) :: c.tables
        tableNames := (tableName, tableOid) :: c.tableNames })

/-- The loop of `CreateIndex` that files the rows of the table. -/
def fileRowsOn (fuel : ℕ) (schema : Schema) (attr : ℕ) :
    ℕ → RID → IndexInfo → Program (PoolCall TablePage) (Except Exception IndexInfo)
  | 0, _, _ => .fail
  | n + 1, it, indexInfo =>
    if it = TableHeap.endIterator then pure (.ok indexInfo)
    else do
      match ← TableHeap.getTuple it with
      | .error e => pure (.error e)
      | .ok tuple =>
        match ← ofOption (tuple.keyOf schema attr).run with
        | .error e => pure (.error e)
        | .ok key =>
          let next ← TableHeap.increment fuel it
          fileRowsOn fuel schema attr n next (indexInfo.insertEntry key it)

/-- The part of `CreateIndex` that fills the new index: only a lookup index gets entries. -/
def fillIndexOn (fuel : ℕ) (tableInfo : TableInfo) (attr : ℕ) (rest : List ℕ)
    (indexInfo : IndexInfo) : Program (PoolCall TablePage) (Except Exception IndexInfo) :=
  if rest = [] ∧ (tableInfo.schema.getColumn attr).map Column.type = some .integer then do
    let it ← TableHeap.begin fuel tableInfo.table
    fileRowsOn fuel tableInfo.schema attr fuel it { indexInfo with supportsPointLookup := true }
  else pure (.ok indexInfo)

/-- `CreateIndex`: the result, where an `IndexInfo *` is the oid under which the index is filed, and
the catalog. -/
def createIndexOn (c : Catalog) (fuel : ℕ) (indexName tableName : String) (keyAttrs : List ℕ) :
    Program (PoolCall TablePage) (Except Exception (Option ℕ) × Catalog) := do
  match ← ofOption (c.getTableByName tableName).run with
  | .error e => pure (.error e, c)
  | .ok none => pure (.ok none, c)
  | .ok (some tableInfo) =>
    if indexName = "" ∨ keyAttrs = [] then pure (.ok none, c)
    else
      match ← ofOption (c.getIndexByName indexName tableName).run with
      | .error e => pure (.error e, c)
      | .ok found =>
        if found.isSome then pure (.ok none, c)
        else
          match keyColumns tableInfo.schema keyAttrs, keyAttrs with
          | some columns, attr :: rest =>
            let indexOid := c.nextIndexOid
            let indexInfo : IndexInfo :=
              { keySchema := Schema.new columns, name := indexName, tableName := tableName,
                oid := indexOid, keyAttrs := keyAttrs }
            let c := { c with nextIndexOid := indexOid + 1 }
            match ← fillIndexOn fuel tableInfo attr rest indexInfo with
            | .error e => pure (.error e, c)
            | .ok indexInfo =>
              pure (.ok (some indexOid), { c with
                indexes := (indexOid, indexInfo) :: c.indexes
                indexNames := addIndexName c.indexNames tableName indexName indexOid })
          | _, _ => pure (.ok none, c)

/-! ## The calls of the executors -/

section Executors

open Exec

variable {α β : Type} {ctx : ExecutorContext}

/-- A computation that first reads the catalog is run on it. -/
lemma runIn_getCatalog_bind (f : Catalog → Exec β) :
    runIn (getCatalog >>= f) ctx = runIn (f ctx.catalog) ctx := rfl

/-- A computation that first changes the catalog goes on with the changed one. -/
lemma runIn_modifyCatalog_bind (g : Catalog → Catalog) (f : Unit → Exec β) :
    runIn (modifyCatalog g >>= f) ctx = runIn (f ()) { ctx with catalog := g ctx.catalog } := rfl

/-- A computation without the context may throw, and then the rest is not run. -/
lemma runIn_ofCpp_bind (x : Cpp α) (f : α → Exec β) :
    runIn (ofCpp x >>= f) ctx = x.run.bind fun r =>
      match r with
      | .ok a => runIn (f a) ctx
      | .error e => some (.error e, ctx) := by
  rw [runIn_bind]
  show (x.run.map fun r => (r, ctx)).bind _ = _
  rw [Option.bind_map]
  rfl

/-- A program on the buffer pool is run on its pages, and the rest on what it leaves of them. -/
lemma runIn_ofProgram_bind (p : Program (PoolCall TablePage) α) (f : α → Exec β) :
    runIn (ofProgram p >>= f) ctx =
      (p.run (PageStore.handler ctx.poolSize) ctx.bpm).bind fun r =>
        runIn (f r.1) { ctx with bpm := r.2 } := by
  rw [runIn_bind]
  show ((p.run (PageStore.handler ctx.poolSize) ctx.bpm).map fun r =>
    ((Except.ok r.1 : Except Exception α), { ctx with bpm := r.2 })).bind _ = _
  rw [Option.bind_map]
  rfl

/-- The same for a program that may throw. -/
lemma runIn_ofThrowing_bind (p : Program (PoolCall TablePage) (Except Exception α))
    (f : α → Exec β) :
    runIn (ofThrowing p >>= f) ctx =
      (p.run (PageStore.handler ctx.poolSize) ctx.bpm).bind fun r =>
        match r.1 with
        | .ok a => runIn (f a) { ctx with bpm := r.2 }
        | .error e => some (.error e, { ctx with bpm := r.2 }) := by
  unfold ofThrowing
  rw [runIn_bind, runIn_ofProgram_bind, Option.bind_assoc]
  refine Option.bind_congr fun r _ => ?_
  cases r.1 <;> rfl

/-- The call of an executor is the call on the pool. -/
lemma runIn_createTable (tableName : String) (schema : Schema) (ctx : ExecutorContext) :
    runIn (createTable tableName schema) ctx =
      ((ctx.catalog.createTableOn tableName schema).run (PageStore.handler ctx.poolSize)
        ctx.bpm).map fun r => (r.1.1, { ctx with catalog := r.1.2, bpm := r.2 }) := by
  unfold createTable createTableOn
  rw [runIn_getCatalog_bind]
  split_ifs
  · rfl
  · rw [runIn_modifyCatalog_bind, runIn_ofThrowing_bind, run_bind, Option.map_bind]
    refine Option.bind_congr fun r _ => ?_
    match r with
    | (.ok tableHeap, bpm) => rfl
    | (.error e, bpm) => rfl

/-- The loop of an executor is the loop on the pool. -/
lemma runIn_fileRows (fuel : ℕ) (schema : Schema) (attr n : ℕ) (it : RID) (indexInfo : IndexInfo)
    (ctx : ExecutorContext) :
    runIn (fileRows fuel schema attr n it indexInfo) ctx =
      ((fileRowsOn fuel schema attr n it indexInfo).run (PageStore.handler ctx.poolSize)
        ctx.bpm).map fun r => (r.1, { ctx with bpm := r.2 }) := by
  induction n generalizing it indexInfo ctx with
  | zero => rfl
  | succ n ih =>
    rw [fileRows, fileRowsOn]
    split_ifs
    · rfl
    · rw [runIn_ofThrowing_bind, run_bind, Option.map_bind]
      refine Option.bind_congr fun r _ => ?_
      match r with
      | (.error e, bpm) => rfl
      | (.ok tuple, bpm) =>
        dsimp only [Function.comp_apply]
        rw [runIn_ofCpp_bind, run_bind, run_ofOption, Option.map_bind, Option.bind_map]
        refine Option.bind_congr fun r _ => ?_
        match r with
        | .error e => rfl
        | .ok key =>
          dsimp only [Function.comp_apply]
          rw [runIn_ofProgram_bind, run_bind, Option.map_bind]
          refine Option.bind_congr fun r _ => ?_
          exact ih r.1 _ _

/-- The call of an executor is the call on the pool. -/
lemma runIn_createIndex (fuel : ℕ) (indexName tableName : String) (keyAttrs : List ℕ)
    (ctx : ExecutorContext) :
    runIn (createIndex fuel indexName tableName keyAttrs) ctx =
      ((ctx.catalog.createIndexOn fuel indexName tableName keyAttrs).run
        (PageStore.handler ctx.poolSize) ctx.bpm).map fun r =>
          (r.1.1, { ctx with catalog := r.1.2, bpm := r.2 }) := by
  unfold createIndex createIndexOn
  rw [runIn_getCatalog_bind, runIn_ofCpp_bind, run_bind, run_ofOption, Option.map_bind,
    Option.bind_map]
  refine Option.bind_congr fun r _ => ?_
  match r with
  | .error e => rfl
  | .ok none => rfl
  | .ok (some tableInfo) =>
    dsimp only [Function.comp_apply]
    split_ifs
    · rfl
    rw [runIn_ofCpp_bind, run_bind, run_ofOption, Option.map_bind, Option.bind_map]
    refine Option.bind_congr fun r _ => ?_
    match r with
    | .error e => rfl
    | .ok found =>
      dsimp only [Function.comp_apply]
      split_ifs
      · rfl
      cases hcolumns : keyColumns tableInfo.schema keyAttrs with
      | none => rfl
      | some columns =>
        cases keyAttrs with
        | nil => rfl
        | cons attr rest =>
          dsimp only
          unfold fillIndexOn
          rw [runIn_modifyCatalog_bind]
          split_ifs
          · rw [run_bind, run_bind, Option.bind_assoc, runIn_ofProgram_bind, Option.map_bind]
            refine Option.bind_congr fun r _ => ?_
            dsimp only [Function.comp_apply]
            rw [runIn_bind, runIn_fileRows, Option.bind_map, Option.map_bind]
            refine Option.bind_congr fun r _ => ?_
            match r with
            | (.error e, bpm) => rfl
            | (.ok indexInfo, bpm) => rfl
          · rfl

end Executors

/-! ## What a call can do -/

section Cases

variable {σ : Type} {h : Handler (PoolCall TablePage) σ} {s s' : σ} {c c' : Catalog}
  {tableName indexName : String}

/-- The catalog when an oid for a table was given out. -/
def giveTableOid (c : Catalog) : Catalog := { c with nextTableOid := c.nextTableOid + 1 }

/-- The catalog when an oid for an index was given out. -/
def giveIndexOid (c : Catalog) : Catalog := { c with nextIndexOid := c.nextIndexOid + 1 }

/-- A table is filed. -/
def fileTable (c : Catalog) (info : TableInfo) : Catalog :=
  { c with
    tables := (info.oid, info) :: c.tables
    tableNames := (info.name, info.oid) :: c.tableNames }

/-- An index is filed. -/
def fileIndex (c : Catalog) (info : IndexInfo) : Catalog :=
  { c with
    indexes := (info.oid, info) :: c.indexes
    indexNames := addIndexName c.indexNames info.tableName info.name info.oid }

/-- `CreateTable` returns `nullptr` for a name that is taken. Otherwise it gives out an oid, and
throws or files a table under it. -/
lemma createTableOn_cases {schema : Schema} {r : Except Exception (Option TableInfo)}
    (hrun : (c.createTableOn tableName schema).run h s = some ((r, c'), s')) :
    (r = .ok none ∧ c' = c) ∨
    (tableName ∉ c.tableNames.map Prod.fst ∧
      ((∃ e, r = .error e ∧ c' = c.giveTableOid) ∨
        ∃ info, r = .ok (some info) ∧ c' = c.giveTableOid.fileTable info ∧
          info.oid = c.nextTableOid ∧ info.name = tableName)) := by
  unfold createTableOn at hrun
  split_ifs at hrun with hname
  · cases hrun
    exact .inl ⟨rfl, rfl⟩
  · refine .inr ⟨?_, ?_⟩
    · intro hmem
      obtain ⟨oid, hoid⟩ := exists_lookup hmem
      rw [hoid] at hname
      exact hname rfl
    rw [run_bind] at hrun
    obtain ⟨⟨tableHeap, s₁⟩, -, hrun⟩ := Option.bind_eq_some_iff.1 hrun
    cases tableHeap with
    | error e =>
      cases hrun
      exact .inl ⟨e, rfl, rfl⟩
    | ok tableHeap =>
      cases hrun
      exact .inr ⟨_, rfl, rfl, rfl, rfl⟩

/-- The rows that are filed only change the entries of the index. -/
lemma eq_of_fileRowsOn {fuel attr n : ℕ} {schema : Schema} {it : RID} {info info' : IndexInfo}
    (hrun : (fileRowsOn fuel schema attr n it info).run h s = some (.ok info', s')) :
    info' = { info with intRidMap := info'.intRidMap } := by
  induction n generalizing it info s with
  | zero => cases hrun
  | succ n ih =>
    rw [fileRowsOn] at hrun
    split_ifs at hrun
    · cases hrun
      rfl
    · rw [run_bind] at hrun
      obtain ⟨⟨tuple, s₁⟩, -, hrun⟩ := Option.bind_eq_some_iff.1 hrun
      match tuple with
      | .error e => cases hrun
      | .ok tuple =>
        rw [run_bind] at hrun
        obtain ⟨⟨key, s₂⟩, -, hrun⟩ := Option.bind_eq_some_iff.1 hrun
        match key with
        | .error e => cases hrun
        | .ok key =>
          rw [run_bind] at hrun
          obtain ⟨⟨next, s₃⟩, -, hrun⟩ := Option.bind_eq_some_iff.1 hrun
          have heq := ih hrun
          exact heq

/-- Filling an index does not change what it is filed under, nor its key. -/
lemma eq_of_fillIndexOn {fuel attr : ℕ} {tableInfo : TableInfo} {rest : List ℕ}
    {info info' : IndexInfo}
    (hrun : (fillIndexOn fuel tableInfo attr rest info).run h s = some (.ok info', s')) :
    info'.oid = info.oid ∧ info'.name = info.name ∧ info'.tableName = info.tableName ∧
      info'.keyAttrs = info.keyAttrs := by
  unfold fillIndexOn at hrun
  split_ifs at hrun
  · rw [run_bind] at hrun
    obtain ⟨⟨it, s₁⟩, -, hrun⟩ := Option.bind_eq_some_iff.1 hrun
    rw [eq_of_fileRowsOn hrun]
    exact ⟨rfl, rfl, rfl, rfl⟩
  · cases hrun
    exact ⟨rfl, rfl, rfl, rfl⟩

/-- `CreateIndex` changes nothing when it returns `nullptr`, or when a lookup in the maps throws.
Otherwise it gives out an oid, and throws or files an index under it. -/
lemma createIndexOn_cases {fuel : ℕ} {keyAttrs : List ℕ} {r : Except Exception (Option ℕ)}
    (hrun : (c.createIndexOn fuel indexName tableName keyAttrs).run h s = some ((r, c'), s')) :
    (r = .ok none ∧ c' = c) ∨
    (∃ e, r = .error e ∧ c' = c ∧ (c.getTableByName tableName = throw e ∨
      c.getIndexByName indexName tableName = throw e)) ∨
    (∃ tableInfo, c.getTableByName tableName = pure (some tableInfo) ∧
      c.getIndexByName indexName tableName = pure none ∧
      ((∃ e, r = .error e ∧ c' = c.giveIndexOid) ∨
        ∃ info, r = .ok (some info.oid) ∧ c' = c.giveIndexOid.fileIndex info ∧
          info.oid = c.nextIndexOid ∧ info.tableName = tableName ∧ info.name = indexName ∧
          info.keyAttrs ≠ [])) := by
  unfold createIndexOn at hrun
  rw [run_bind, run_ofOption, Option.bind_map] at hrun
  obtain ⟨found, htable, hrun⟩ := Option.bind_eq_some_iff.1 hrun
  match found with
  | .error e =>
    cases hrun
    exact .inr (.inl ⟨e, rfl, rfl, .inl htable⟩)
  | .ok none =>
    cases hrun
    exact .inl ⟨rfl, rfl⟩
  | .ok (some tableInfo) =>
    dsimp only [Function.comp_apply] at hrun
    split_ifs at hrun
    · cases hrun
      exact .inl ⟨rfl, rfl⟩
    rw [run_bind, run_ofOption, Option.bind_map] at hrun
    obtain ⟨found, hindex, hrun⟩ := Option.bind_eq_some_iff.1 hrun
    match found with
    | .error e =>
      cases hrun
      exact .inr (.inl ⟨e, rfl, rfl, .inr hindex⟩)
    | .ok (some oid) =>
      cases hrun
      exact .inl ⟨rfl, rfl⟩
    | .ok none =>
      cases hcolumns : keyColumns tableInfo.schema keyAttrs with
      | none =>
        simp only [Function.comp_apply, hcolumns] at hrun
        cases hrun
        exact .inl ⟨rfl, rfl⟩
      | some columns =>
        cases keyAttrs with
        | nil =>
          simp only [Function.comp_apply, hcolumns] at hrun
          cases hrun
          exact .inl ⟨rfl, rfl⟩
        | cons attr rest =>
          simp only [Function.comp_apply, hcolumns, Option.isSome_none, Bool.false_eq_true,
            if_false, run_bind] at hrun
          obtain ⟨⟨info, s₁⟩, hfill, hrun⟩ := Option.bind_eq_some_iff.1 hrun
          refine .inr (.inr ⟨tableInfo, htable, hindex, ?_⟩)
          match info with
          | .error e =>
            cases hrun
            exact .inl ⟨e, rfl, rfl⟩
          | .ok info =>
            cases hrun
            obtain ⟨hoid, hname, htableName, hkey⟩ := eq_of_fillIndexOn hfill
            refine .inr ⟨info, ?_, ?_, hoid, htableName, hname, ?_⟩
            · rw [hoid]
            · unfold fileIndex giveIndexOid
              rw [hoid, hname, htableName]
            · rw [hkey]
              exact List.cons_ne_nil attr rest

end Cases

end Catalog

/-! ## The transition system -/

/-- A call of the catalog with its result, or a change of the entries of an index. -/
inductive CatalogCall
  | createTable (tableName : String) (schema : Schema)
      (result : Except Exception (Option TableInfo))
  | createIndex (indexName tableName : String) (keyAttrs : List ℕ)
      (result : Except Exception (Option ℕ))
  | dropIndex (indexName tableName : String) (result : Bool)
  | insertEntry (oid : ℕ) (key : ℤ) (rid : RID)
  | removeEntry (oid : ℕ) (key : ℤ) (rid : RID)

/-- A call changes the catalog. The buffer pool and its pages are arbitrary. -/
inductive CatalogStep : Catalog → CatalogCall → Catalog → Prop
  | createTable {c c' : Catalog} {tableName : String} {schema : Schema}
      {r : Except Exception (Option TableInfo)} {σ : Type} {h : Handler (PoolCall TablePage) σ}
      {s s' : σ} (hrun : (c.createTableOn tableName schema).run h s = some ((r, c'), s')) :
      CatalogStep c (.createTable tableName schema r) c'
  | createIndex {c c' : Catalog} {fuel : ℕ} {indexName tableName : String} {keyAttrs : List ℕ}
      {r : Except Exception (Option ℕ)} {σ : Type} {h : Handler (PoolCall TablePage) σ} {s s' : σ}
      (hrun : (c.createIndexOn fuel indexName tableName keyAttrs).run h s =
        some ((r, c'), s')) :
      CatalogStep c (.createIndex indexName tableName keyAttrs r) c'
  | dropIndex (c : Catalog) (indexName tableName : String) :
      CatalogStep c (.dropIndex indexName tableName (c.dropIndex indexName tableName).1)
        (c.dropIndex indexName tableName).2
  | insertEntry (c : Catalog) (oid : ℕ) (key : ℤ) (rid : RID) :
      CatalogStep c (.insertEntry oid key rid) (c.modifyIndex oid fun i => i.insertEntry key rid)
  | removeEntry (c : Catalog) (oid : ℕ) (key : ℤ) (rid : RID) :
      CatalogStep c (.removeEntry oid key rid) (c.modifyIndex oid fun i => i.removeEntry key rid)

namespace CatalogCall

variable {calls : List CatalogCall} {call : CatalogCall} {tableName indexName : String} {oid : ℕ}

/-- An index was created on the table, filed under this name and oid, and not dropped since. -/
def Live (calls : List CatalogCall) (tableName indexName : String) (oid : ℕ) : Prop :=
  ∃ pre keyAttrs post,
    calls = pre ++ .createIndex indexName tableName keyAttrs (.ok (some oid)) :: post ∧
      .dropIndex indexName tableName true ∉ post

/-- The oid of the table that the call created. -/
def tableOid : CatalogCall → Option ℕ
  | .createTable _ _ (.ok (some info)) => some info.oid
  | _ => none

/-- The oid of the index that the call created. -/
def indexOid : CatalogCall → Option ℕ
  | .createIndex _ _ _ (.ok (some oid)) => some oid
  | _ => none

/-- The call set out to create a table: it did not return `nullptr`. -/
def createsTable : CatalogCall → Bool
  | .createTable _ _ (.ok none) => false
  | .createTable _ _ _ => true
  | _ => false

/-- The call set out to create an index. -/
def createsIndex : CatalogCall → Bool
  | .createIndex _ _ _ (.ok none) => false
  | .createIndex _ _ _ _ => true
  | _ => false

/-- The call returned `nullptr`. -/
def ReturnsNull : CatalogCall → Prop
  | .createTable _ _ r => r = .ok none
  | .createIndex _ _ _ r => r = .ok none
  | _ => False

/-- What is live after one more call. -/
lemma live_concat : Live (calls ++ [call]) tableName indexName oid ↔
    (∃ keyAttrs, call = .createIndex indexName tableName keyAttrs (.ok (some oid))) ∨
      (Live calls tableName indexName oid ∧ call ≠ .dropIndex indexName tableName true) := by
  constructor
  · rintro ⟨pre, keyAttrs, post, hcalls, hdrop⟩
    rcases List.eq_nil_or_concat' post with rfl | ⟨post, last, rfl⟩
    · obtain ⟨-, hcall⟩ := List.append_inj' hcalls rfl
      exact .inl ⟨keyAttrs, List.singleton_inj.1 hcall⟩
    · have hcalls : calls ++ [call] =
          (pre ++ .createIndex indexName tableName keyAttrs (.ok (some oid)) :: post) ++ [last] := by
        rw [hcalls]
        simp
      obtain ⟨hcalls', hcall⟩ := List.append_inj' hcalls rfl
      obtain rfl := List.singleton_inj.1 hcall
      refine .inr ⟨⟨pre, keyAttrs, post, hcalls', fun hmem => hdrop ?_⟩, ?_⟩
      · exact List.mem_append.2 (.inl hmem)
      · rintro rfl
        exact hdrop (by simp)
  · rintro (⟨keyAttrs, rfl⟩ | ⟨⟨pre, keyAttrs, post, rfl, hdrop⟩, hcall⟩)
    · exact ⟨calls, keyAttrs, [], rfl, List.not_mem_nil⟩
    · refine ⟨pre, keyAttrs, post ++ [call], by simp, fun hmem => ?_⟩
      rcases List.mem_append.1 hmem with hmem | hmem
      · exact hdrop hmem
      · exact hcall (List.mem_singleton.1 hmem).symm

end CatalogCall

/-- A call that returns `nullptr` changes nothing. -/
lemma CatalogStep.eq_of_returnsNull {c c' : Catalog} {call : CatalogCall}
    (hstep : CatalogStep c call c') (hnull : call.ReturnsNull) : c' = c := by
  cases hstep with
  | createTable hrun =>
    rcases Catalog.createTableOn_cases hrun with ⟨-, hc'⟩ | ⟨-, ⟨e, rfl, -⟩ | ⟨info, rfl, -⟩⟩
    · exact hc'
    · cases hnull
    · cases hnull
  | createIndex hrun =>
    rcases Catalog.createIndexOn_cases hrun with ⟨-, hc'⟩ | ⟨e, -, hc', -⟩ |
      ⟨tableInfo, -, -, ⟨e, rfl, -⟩ | ⟨info, rfl, -⟩⟩
    · exact hc'
    · exact hc'
    · cases hnull
    · cases hnull
  | dropIndex => exact hnull.elim
  | insertEntry => exact hnull.elim
  | removeEntry => exact hnull.elim

/-! ## What a run keeps -/

/-- The catalog is what the calls made of it. -/
structure Catalog.Records (calls : List CatalogCall) (c : Catalog) : Prop where
  bijective : c.Bijective
  files_iff : ∀ tableName indexName oid,
    c.Files tableName indexName oid ↔ CatalogCall.Live calls tableName indexName oid
  tableOids_nodup : (calls.filterMap CatalogCall.tableOid).Nodup
  indexOids_nodup : (calls.filterMap CatalogCall.indexOid).Nodup
  tableOids_lt : ∀ oid ∈ calls.filterMap CatalogCall.tableOid, oid < c.nextTableOid
  indexOids_lt : ∀ oid ∈ calls.filterMap CatalogCall.indexOid, oid < c.nextIndexOid
  nextTableOid_eq : c.nextTableOid = calls.countP CatalogCall.createsTable + 1
  nextIndexOid_eq : c.nextIndexOid = calls.countP CatalogCall.createsIndex + 1

/-- Removing an entry does not change what an index is filed under, nor its key. -/
lemma IndexInfo.removeEntry_filed (i : IndexInfo) (key : ℤ) (rid : RID) :
    (i.removeEntry key rid).oid = i.oid ∧ (i.removeEntry key rid).name = i.name ∧
      (i.removeEntry key rid).tableName = i.tableName ∧
      (i.removeEntry key rid).keyAttrs = i.keyAttrs := by
  unfold IndexInfo.removeEntry
  split <;> exact ⟨rfl, rfl, rfl, rfl⟩

/-- `DropIndex` gives out no oids. -/
lemma Catalog.nextOids_dropIndex (c : Catalog) (indexName tableName : String) :
    (c.dropIndex indexName tableName).2.nextTableOid = c.nextTableOid ∧
      (c.dropIndex indexName tableName).2.nextIndexOid = c.nextIndexOid := by
  unfold Catalog.dropIndex
  cases c.indexNames.lookup tableName with
  | none => exact ⟨rfl, rfl⟩
  | some names =>
    dsimp only
    cases names.lookup indexName with
    | none => exact ⟨rfl, rfl⟩
    | some oid => exact ⟨rfl, rfl⟩

namespace Catalog.Records

variable {calls : List CatalogCall} {call : CatalogCall} {c c' : Catalog}

/-- Without calls the catalog is empty. -/
lemma empty : Records [] {} where
  bijective := bijective_empty
  files_iff := by
    intro tableName indexName oid
    constructor
    · rintro ⟨names, hnames, -⟩
      cases hnames
    · rintro ⟨pre, keyAttrs, post, hcalls, -⟩
      exact absurd hcalls (by simp)
  tableOids_nodup := List.nodup_nil
  indexOids_nodup := List.nodup_nil
  tableOids_lt := by simp
  indexOids_lt := by simp
  nextTableOid_eq := rfl
  nextIndexOid_eq := rfl

/-- The oids that were given out, with the next one. -/
lemma oids_concat {f : CatalogCall → Option ℕ} {next : ℕ} {b : Bool}
    (hnodup : (calls.filterMap f).Nodup) (hlt : ∀ oid ∈ calls.filterMap f, oid < next)
    (hoid : ∀ oid, f call = some oid → oid = next ∧ b = true) :
    ((calls ++ [call]).filterMap f).Nodup ∧
      ∀ oid ∈ (calls ++ [call]).filterMap f, oid < next + if b then 1 else 0 := by
  rw [List.filterMap_append]
  cases hf : f call with
  | none =>
    simp only [List.filterMap_cons, hf, List.filterMap_nil, List.append_nil]
    exact ⟨hnodup, fun oid hmem => lt_of_lt_of_le (hlt oid hmem) (Nat.le_add_right _ _)⟩
  | some oid =>
    obtain ⟨rfl, rfl⟩ := hoid oid hf
    simp only [List.filterMap_cons, hf, List.filterMap_nil, if_true]
    constructor
    · refine List.nodup_append.2 ⟨hnodup, List.nodup_singleton _, ?_⟩
      intro a ha b hb
      rw [List.mem_singleton.1 hb]
      exact (hlt a ha).ne
    · intro a ha
      rcases List.mem_append.1 ha with ha | ha
      · exact (hlt a ha).trans (Nat.lt_succ_self _)
      · rw [List.mem_singleton.1 ha]
        exact Nat.lt_succ_self _

/-- One more call, by what it does to the maps and the numbers of oids. -/
lemma concat (h : Records calls c) (hc' : c'.Bijective)
    (hfiles : ∀ tableName indexName oid, c'.Files tableName indexName oid ↔
      (∃ keyAttrs, call = .createIndex indexName tableName keyAttrs (.ok (some oid))) ∨
        (c.Files tableName indexName oid ∧ call ≠ .dropIndex indexName tableName true))
    (hnextTable : c'.nextTableOid = c.nextTableOid + if call.createsTable then 1 else 0)
    (hnextIndex : c'.nextIndexOid = c.nextIndexOid + if call.createsIndex then 1 else 0)
    (htableOid : ∀ oid, call.tableOid = some oid → oid = c.nextTableOid ∧ call.createsTable = true)
    (hindexOid : ∀ oid, call.indexOid = some oid →
      oid = c.nextIndexOid ∧ call.createsIndex = true) :
    Records (calls ++ [call]) c' := by
  have htables := oids_concat h.tableOids_nodup h.tableOids_lt htableOid
  have hindexes := oids_concat h.indexOids_nodup h.indexOids_lt hindexOid
  refine ⟨hc', ?_, htables.1, hindexes.1, ?_, ?_, ?_, ?_⟩
  · intro tableName indexName oid
    rw [hfiles, CatalogCall.live_concat, h.files_iff]
  · rw [hnextTable]
    exact htables.2
  · rw [hnextIndex]
    exact hindexes.2
  · rw [hnextTable, h.nextTableOid_eq, List.countP_append, List.countP_singleton]
    omega
  · rw [hnextIndex, h.nextIndexOid_eq, List.countP_append, List.countP_singleton]
    omega

/-- The record of a call of `CreateTable`.

**Proof sketch.** A call that is refused returns `nullptr` or throws before the catalog changes;
otherwise the table is new in all four maps. -/
lemma createTable {tableName : String} {schema : Schema}
    {r : Except Exception (Option TableInfo)} {σ : Type} {handler : Handler (PoolCall TablePage) σ}
    {s s' : σ} (h : Records calls c)
    (hrun : (c.createTableOn tableName schema).run handler s = some ((r, c'), s')) :
    Records (calls ++ [.createTable tableName schema r]) c' := by
  rcases createTableOn_cases hrun with ⟨rfl, rfl⟩ |
    ⟨hname, ⟨e, rfl, rfl⟩ | ⟨info, rfl, rfl, hoid, rfl⟩⟩
  · exact h.concat h.bijective (by simp) rfl rfl (fun oid hoid => by cases hoid)
      fun oid hoid => by cases hoid
  · exact h.concat (h.bijective.awaitsTable hname).toBijective (by simp [Files, giveTableOid]) rfl rfl
      (fun oid hoid => by cases hoid) fun oid hoid => by cases hoid
  · have hawaits : c.giveTableOid.AwaitsTable info.oid info.name := by
      rw [hoid]
      exact h.bijective.awaitsTable hname
    refine h.concat (Bijective.addTable hawaits) (by simp [Files, fileTable, giveTableOid]) rfl rfl ?_
      fun oid hoid => by cases hoid
    intro oid' hoid'
    cases hoid'
    exact ⟨hoid, rfl⟩

/-- The record of a call of `CreateIndex`, which is refused or files the rows of the table in a new
index. -/
lemma createIndex {fuel : ℕ} {indexName tableName : String} {keyAttrs : List ℕ}
    {r : Except Exception (Option ℕ)} {σ : Type} {handler : Handler (PoolCall TablePage) σ}
    {s s' : σ} (h : Records calls c)
    (hrun : (c.createIndexOn fuel indexName tableName keyAttrs).run handler s =
      some ((r, c'), s')) :
    Records (calls ++ [.createIndex indexName tableName keyAttrs r]) c' := by
  rcases createIndexOn_cases hrun with ⟨rfl, rfl⟩ | ⟨e, rfl, rfl, hthrow⟩ |
    ⟨tableInfo, htable, hindex, ⟨e, rfl, rfl⟩ | ⟨info, rfl, rfl, hoid, rfl, rfl, hkey⟩⟩
  · exact h.concat h.bijective (by simp) rfl rfl (fun oid hoid => by cases hoid)
      fun oid hoid => by cases hoid
  · exfalso
    rcases hthrow with hthrow | hthrow
    · obtain ⟨o, ho⟩ := h.bijective.consistent.getTableByName tableName
      cases hthrow.symm.trans ho
    · obtain ⟨o, ho, -⟩ := h.bijective.getIndexByName indexName tableName
      cases hthrow.symm.trans ho
  all_goals
    have hname := Bijective.mem_of_getTableByName htable
    have hunnamed := h.bijective.not_files_of_getIndexByName hindex (by simp)
  · have hawaits := h.bijective.awaitsIndex hname hunnamed
    exact h.concat hawaits.toBijective (by simp [Files, giveIndexOid]) rfl rfl
      (fun oid hoid => by cases hoid) fun oid hoid => by cases hoid
  · have hawaits : c.giveIndexOid.AwaitsIndex info.oid info.tableName info.name := by
      rw [hoid]
      exact h.bijective.awaitsIndex hname hunnamed
    refine h.concat (Bijective.addIndex hawaits hkey) ?_ rfl rfl (fun oid hoid => by cases hoid) ?_
    · intro tableName' indexName' oid'
      rw [fileIndex, hawaits.toBijective.files_addIndexName_iff rfl]
      constructor
      · rintro (hfiles | ⟨rfl, rfl, rfl⟩)
        · exact .inr ⟨hfiles, by simp⟩
        · exact .inl ⟨keyAttrs, rfl⟩
      · rintro (⟨keyAttrs', heq⟩ | ⟨hfiles, -⟩)
        · cases heq
          exact .inr ⟨rfl, rfl, rfl⟩
        · exact .inl hfiles
    · intro oid' hoid'
      cases hoid'
      exact ⟨hoid, rfl⟩

/-- The record of a call of `DropIndex`, which removes the index from both maps if there is one. -/
lemma dropIndex (h : Records calls c) (indexName tableName : String) :
    Records (calls ++ [.dropIndex indexName tableName (c.dropIndex indexName tableName).1])
      (c.dropIndex indexName tableName).2 := by
  have hnext := nextOids_dropIndex c indexName tableName
  refine h.concat (h.bijective.dropIndex indexName tableName) ?_ hnext.1 hnext.2
    (fun oid hoid => by cases hoid) fun oid hoid => by cases hoid
  intro tableName' indexName' oid'
  rw [h.bijective.files_dropIndex_iff]
  constructor
  · rintro ⟨hfiles, hnot⟩
    refine .inr ⟨hfiles, fun heq => hnot ?_⟩
    obtain ⟨rfl, rfl, -⟩ := CatalogCall.dropIndex.inj heq
    exact ⟨rfl, rfl⟩
  · rintro (⟨keyAttrs, heq⟩ | ⟨hfiles, hne⟩)
    · cases heq
    · refine ⟨hfiles, ?_⟩
      rintro ⟨rfl, rfl⟩
      exact hne (by rw [(h.bijective.dropIndex_of_files hfiles).1])

/-- What one step keeps. -/
lemma step (h : Records calls c) (hstep : CatalogStep c call c') : Records (calls ++ [call]) c' := by
  cases hstep with
  | createTable hrun => exact h.createTable hrun
  | createIndex hrun => exact h.createIndex hrun
  | dropIndex indexName tableName => exact h.dropIndex indexName tableName
  | insertEntry oid key rid =>
    exact h.concat (h.bijective.modifyIndex oid fun i => ⟨rfl, rfl, rfl, rfl⟩)
      (by simp [Files, modifyIndex]) rfl rfl (fun oid hoid => by cases hoid)
      fun oid hoid => by cases hoid
  | removeEntry oid key rid =>
    exact h.concat (h.bijective.modifyIndex oid fun i => i.removeEntry_filed key rid)
      (by simp [Files, modifyIndex]) rfl rfl (fun oid hoid => by cases hoid)
      fun oid hoid => by cases hoid

/-- What a run keeps. -/
lemma run {calls' : List CatalogCall} (h : Records calls c)
    (hrun : Transition.Run CatalogStep c calls' c') : Records (calls ++ calls') c' := by
  induction hrun generalizing calls with
  | nil c => rwa [List.append_nil]
  | cons hstep _ ih =>
    rw [List.append_cons]
    exact ih (h.step hstep)

end Catalog.Records

/-- `GetTableIndexes` lists what is filed for the table, each index once. -/
lemma Catalog.Bijective.getTableIndexes {c : Catalog} (h : c.Bijective) (tableName : String) :
    ∃ oids, c.getTableIndexes tableName = pure oids ∧ oids.Nodup ∧
      ∀ oid, oid ∈ oids ↔ ∃ indexName, c.Files tableName indexName oid := by
  unfold Catalog.getTableIndexes
  cases hlookup : c.indexNames.lookup tableName with
  | none =>
    refine ⟨[], rfl, List.nodup_nil, fun oid => ⟨fun hmem => absurd hmem List.not_mem_nil, ?_⟩⟩
    rintro ⟨indexName, hfiles⟩
    obtain ⟨names, hnames, -⟩ := h.files_iff_lookup.1 hfiles
    rw [hlookup] at hnames
    cases hnames
  | some names =>
    have hnames := mem_of_lookup hlookup
    refine ⟨names.map Prod.snd, ?_, ?_, ?_⟩
    · refine Cpp.mapM_eq_pure.2 ?_
      rw [List.forall₂_map_right_iff, List.forall₂_same]
      intro entry hentry
      obtain ⟨info, hinfo⟩ := exists_lookup (h.consistent.filed tableName entry.1 entry.2
        ⟨names, hnames, hentry⟩)
      simp only [mapAt, hinfo]
      rfl
    · -- two names with the same oid are the same
      refine List.Nodup.map_on ?_ (h.inner _ hnames).1.of_map
      intro entry hentry entry' hentry' heq
      have hfiles : c.Files tableName entry.1 entry.2 := ⟨names, hnames, hentry⟩
      have hfiles' : c.Files tableName entry'.1 entry.2 := heq ▸ ⟨names, hnames, hentry'⟩
      exact Prod.ext (h.consistent.distinct _ _ _ _ _ hfiles' hfiles).2 heq
    · intro oid
      rw [List.mem_map]
      constructor
      · rintro ⟨entry, hentry, rfl⟩
        exact ⟨entry.1, names, hnames, hentry⟩
      · rintro ⟨indexName, names', hnames', hmem⟩
        obtain rfl := eq_of_mem_of_nodup h.indexNames_nodup hnames hnames'
        exact ⟨_, hmem, rfl⟩

/-! ## Runs -/

/-- **The maps of a catalog.** After any calls, on any buffer pool and in any order: the maps by oid
and by name are inverse to each other, no oid was given out twice, none is larger than the number of
creations, so that a counter of 32 bits has not wrapped before there were `2 ^ 32`, no lookup throws,
the indexes of a table are those that were created and not dropped since, and a call that returns
`nullptr` changes no map. -/
theorem catalog_maps_of_run {calls : List CatalogCall} {c : Catalog}
    (hrun : Transition.Run CatalogStep {} calls c) :
    c.Bijective ∧
    ((calls.filterMap CatalogCall.tableOid).Nodup ∧
      ∀ oid ∈ calls.filterMap CatalogCall.tableOid,
        oid ≤ calls.countP CatalogCall.createsTable) ∧
    ((calls.filterMap CatalogCall.indexOid).Nodup ∧
      ∀ oid ∈ calls.filterMap CatalogCall.indexOid,
        oid ≤ calls.countP CatalogCall.createsIndex) ∧
    (∀ tableName, ∃ info, c.getTableByName tableName = pure info) ∧
    (∀ indexName tableName, ∃ info, c.getIndexByName indexName tableName = pure info) ∧
    (∀ tableName, ∃ oids, c.getTableIndexes tableName = pure oids ∧ oids.Nodup ∧
      ∀ oid, oid ∈ oids ↔ ∃ indexName, CatalogCall.Live calls tableName indexName oid) ∧
    ∀ call c', CatalogStep c call c' → call.ReturnsNull →
      c'.tables = c.tables ∧ c'.tableNames = c.tableNames ∧ c'.indexes = c.indexes ∧
        c'.indexNames = c.indexNames := by
  have h := Catalog.Records.empty.run hrun
  rw [List.nil_append] at h
  refine ⟨h.bijective, ⟨h.tableOids_nodup, ?_⟩, ⟨h.indexOids_nodup, ?_⟩,
    h.bijective.consistent.getTableByName, ?_, ?_, ?_⟩
  · intro oid hoid
    have hlt := h.tableOids_lt oid hoid
    rw [h.nextTableOid_eq] at hlt
    exact Nat.le_of_lt_succ hlt
  · intro oid hoid
    have hlt := h.indexOids_lt oid hoid
    rw [h.nextIndexOid_eq] at hlt
    exact Nat.le_of_lt_succ hlt
  · intro indexName tableName
    obtain ⟨info, hinfo, -⟩ := h.bijective.getIndexByName indexName tableName
    exact ⟨info, hinfo⟩
  · intro tableName
    obtain ⟨oids, hoids, hnodup, hmem⟩ := h.bijective.getTableIndexes tableName
    exact ⟨oids, hoids, hnodup, fun oid => (hmem oid).trans (by simp only [h.files_iff])⟩
  · intro call c' hstep hnull
    rw [hstep.eq_of_returnsNull hnull]
    exact ⟨rfl, rfl, rfl, rfl⟩

/-- A table with one column. -/
def createdTable : TableInfo :=
  { schema := Schema.new [.new "a" .integer], name := "t", table := ⟨0⟩, oid := 1 }

/-- A table is created, an index on it, and the index is dropped. -/
theorem catalog_maps_of_run_dropped :
    ∃ oids, Catalog.getTableIndexes
        { nextTableOid := 2, nextIndexOid := 2, tables := [(1, createdTable)],
          tableNames := [("t", 1)] } "t" = pure oids ∧ oids.Nodup ∧
      ∀ oid, oid ∈ oids ↔ ∃ indexName, CatalogCall.Live
        [.createTable "t" createdTable.schema (.ok (some createdTable)),
          .createIndex "i" "t" [0, 0] (.ok (some 1)), .dropIndex "i" "t" true] "t" indexName oid := by
  have htable : CatalogStep {} (.createTable "t" createdTable.schema (.ok (some createdTable)))
      { nextTableOid := 2, tables := [(1, createdTable)], tableNames := [("t", 1)] } :=
    @CatalogStep.createTable _ _ _ _ _ (PageStore TablePage) (PageStore.handler ⊤) {} _ rfl
  have hindex : CatalogStep
      { nextTableOid := 2, tables := [(1, createdTable)], tableNames := [("t", 1)] }
      (.createIndex "i" "t" [0, 0] (.ok (some 1)))
      { nextTableOid := 2, nextIndexOid := 2, tables := [(1, createdTable)],
        tableNames := [("t", 1)], indexNames := [("t", [("i", 1)])],
        indexes := [(1, { keySchema := Schema.new [.new "a" .integer, .new "a" .integer],
                          name := "i", tableName := "t", oid := 1, keyAttrs := [0, 0] })] } :=
    @CatalogStep.createIndex _ _ 0 _ _ _ _ (PageStore TablePage) (PageStore.handler ⊤) {} _ rfl
  have hdrop := CatalogStep.dropIndex
    { nextTableOid := 2, nextIndexOid := 2, tables := [(1, createdTable)],
      tableNames := [("t", 1)], indexNames := [("t", [("i", 1)])],
      indexes := [(1, { keySchema := Schema.new [.new "a" .integer, .new "a" .integer],
                        name := "i", tableName := "t", oid := 1, keyAttrs := [0, 0] })] } "i" "t"
  exact (catalog_maps_of_run (.cons htable (.cons hindex (.cons hdrop (.nil _))))).2.2.2.2.2.1 "t"

end OneBase
