import OneBase.Execution.CatalogRuns
import OneBase.Execution.Deletion
import OneBase.Execution.HeapDatabase

set_option relaxedAutoImplicit false
set_option autoImplicit false

/-!
# Databases of integers and their indexes

Every table lies on pages of its own, and every lookup index files the rows of its table. A row that
comes or goes is filed in the indexes of one table, and the other tables do not notice. A new index
is filled from the heap.

## Main definitions

* `OneBase.IntegerDatabase` — the tables.
* `OneBase.IndexedDatabase` — the tables with their indexes.

## Main results

* `OneBase.IndexedDatabase.rowInserted`, `OneBase.IndexedDatabase.rowDeleted` — a row more or less.
* `OneBase.IndexedDatabase.createIndex`, `OneBase.IndexedDatabase.dropIndex` — an index more or less.
-/

namespace OneBase

open Exec TableHeap

/-- All columns of all tables are `INTEGER`, every table lies on pages of its own, and the attributes
of an index are columns of its table. -/
structure IntegerDatabase (ctx : ExecutorContext) (pages : ℕ → Pages) : Prop where
  bijective : ctx.catalog.Bijective
  table : ∀ oid info, ctx.catalog.getTable oid = some info → IntegerTable ctx info (pages oid)
  apart : ∀ oid info oid' info', ctx.catalog.getTable oid = some info →
    ctx.catalog.getTable oid' = some info' → oid' ≠ oid →
    ∀ q ∈ (pages oid').map Prod.fst, q ∉ (pages oid).map Prod.fst
  attrs : ∀ indexOid i oid info, ctx.catalog.getIndex indexOid = some i →
    ctx.catalog.getTable oid = some info → i.tableName = info.name →
    ∀ attr ∈ i.keyAttrs, attr < info.schema.columns.length

/-- The lookup indexes file the rows of their tables. -/
structure IndexedDatabase (ctx : ExecutorContext) (pages : ℕ → Pages) : Prop extends
    IntegerDatabase ctx pages where
  agrees : ∀ indexOid i oid info attr, ctx.catalog.getIndex indexOid = some i →
    ctx.catalog.getTable oid = some info → i.tableName = info.name →
    i.supportsPointLookup = true → i.getLookupAttr = pure attr →
    i.Agrees attr (liveRows (pages oid))

section Catalogs

variable {c : Catalog} {oid oid' : ℕ} {info info' : TableInfo} {i : IndexInfo}

/-- The table under an oid is the one that is stored there. -/
lemma Catalog.Bijective.getTable_iff (h : c.Bijective) :
    c.getTable oid = some info ↔ (oid, info) ∈ c.tables :=
  Catalog.lookup_eq_some_iff_mem h.tables_nodup

/-- The index under an oid is the one that is stored there. -/
lemma Catalog.Bijective.getIndex_iff (h : c.Bijective) :
    c.getIndex oid = some i ↔ (oid, i) ∈ c.indexes :=
  Catalog.lookup_eq_some_iff_mem h.indexes_nodup

/-- Two tables of the same name are the same. -/
lemma Catalog.Bijective.table_unique (h : c.Bijective) (hinfo : c.getTable oid = some info)
    (hinfo' : c.getTable oid' = some info') (hname : info'.name = info.name) :
    oid' = oid ∧ info' = info := by
  have hnamed : (info.name, oid) ∈ c.tableNames :=
    (h.mem_tableNames _ _).2 ⟨info, h.getTable_iff.1 hinfo, rfl⟩
  have hnamed' : (info.name, oid') ∈ c.tableNames :=
    (h.mem_tableNames _ _).2 ⟨info', h.getTable_iff.1 hinfo', hname⟩
  obtain rfl := Catalog.eq_of_mem_of_nodup h.tableNames_nodup hnamed hnamed'
  exact ⟨rfl, Option.some.inj (hinfo'.symm.trans hinfo)⟩

/-- `GetTableIndexes` lists the indexes of the table. -/
lemma Catalog.Bijective.exists_indexes (h : c.Bijective) (tableName : String) :
    ∃ oids, c.getTableIndexes tableName = pure oids ∧ oids.Nodup ∧
      ∀ oid, oid ∈ oids ↔ ∃ i, c.getIndex oid = some i ∧ i.tableName = tableName := by
  obtain ⟨oids, hlisted, hnodup, hmem⟩ := h.getTableIndexes tableName
  refine ⟨oids, hlisted, hnodup, fun oid => ?_⟩
  rw [hmem]
  constructor
  · rintro ⟨indexName, hfiles⟩
    obtain ⟨i, hi, htable, -⟩ := (h.files_iff _ _ _).1 hfiles
    exact ⟨i, h.getIndex_iff.2 hi, htable⟩
  · rintro ⟨i, hi, htable⟩
    exact ⟨i.name, (h.files_iff _ _ _).2 ⟨i, h.getIndex_iff.1 hi, htable, rfl⟩⟩

end Catalogs

section Tables

variable {ctx ctx' : ExecutorContext} {pages : ℕ → Pages} {oid rowOid : ℕ} {info : TableInfo}
  {oids : List ℕ} {pages' : Pages} {b : List UInt8} {rid : RID} {n : ℕ∞}

/-- The number of frames does not matter, as long as there is one. -/
lemma IntegerTable.withFrames {p : Pages} (h : IntegerTable ctx info p) (hn : 1 ≤ n) :
    IntegerTable { ctx with poolSize := n } info p where
  ready := h.ready
  frames := hn
  holds := h.holds
  schema := h.schema
  rows := h.rows

/-- The number of frames does not matter, as long as there is one. -/
lemma IndexedDatabase.withFrames (h : IndexedDatabase ctx pages) (hn : 1 ≤ n) :
    IndexedDatabase { ctx with poolSize := n } pages where
  bijective := h.bijective
  table := fun oid info hinfo => (h.table oid info hinfo).withFrames hn
  apart := h.apart
  attrs := h.attrs
  agrees := h.agrees

/-- The tables, as heaps. -/
lemma IntegerDatabase.heaps (h : IntegerDatabase ctx pages) : HeapDatabase ctx pages where
  table := fun oid info hinfo => (h.table oid info hinfo).toHeapTable
  apart := h.apart

/-- The indexes of a table. -/
lemma IntegerDatabase.exists_tableIndexes (h : IntegerDatabase ctx pages)
    (hinfo : ctx.catalog.getTable oid = some info) :
    ∃ oids, TableIndexes ctx.catalog info oids ∧
      ∀ indexOid, indexOid ∈ oids ↔
        ∃ i, ctx.catalog.getIndex indexOid = some i ∧ i.tableName = info.name := by
  obtain ⟨oids, hlisted, hnodup, hmem⟩ := h.bijective.exists_indexes info.name
  refine ⟨oids, ⟨hlisted, hnodup, fun indexOid hoid => ?_⟩, hmem⟩
  obtain ⟨i, hi, htable⟩ := (hmem indexOid).1 hoid
  have hentry := h.bijective.getIndex_iff.1 hi
  refine ⟨i, hi, (h.bijective.index_oid _ hentry).1, ?_⟩
  obtain ⟨attr, rest, hattrs⟩ := List.exists_cons_of_ne_nil (h.bijective.keys _ hentry)
  refine ⟨attr, h.attrs _ i _ info hi hinfo htable attr ?_, ?_⟩
  · rw [hattrs]
    exact List.mem_cons_self
  · unfold IndexInfo.getLookupAttr
    rw [hattrs]

/-- The list of `GetTableIndexes` is that of the indexes of the table. -/
lemma IntegerDatabase.tableIndexes (h : IntegerDatabase ctx pages)
    (hinfo : ctx.catalog.getTable oid = some info)
    (hlisted : ctx.catalog.getTableIndexes info.name = pure oids) :
    TableIndexes ctx.catalog info oids ∧ ∀ indexOid, indexOid ∈ oids ↔
      ∃ i, ctx.catalog.getIndex indexOid = some i ∧ i.tableName = info.name := by
  obtain ⟨oids', hindexes, hmem⟩ := h.exists_tableIndexes hinfo
  cases hlisted.symm.trans hindexes.listed
  exact ⟨hindexes, hmem⟩

/-- The indexes of a table agree with its rows. -/
lemma IndexedDatabase.agrees_table (h : IndexedDatabase ctx pages)
    (hinfo : ctx.catalog.getTable oid = some info)
    (hlisted : ctx.catalog.getTableIndexes info.name = pure oids) :
    ctx.catalog.Agrees oids (liveRows (pages oid)) := by
  intro indexOid hoid i attr hi hlookup hattr
  obtain ⟨i', hi', htable⟩ := ((h.tableIndexes hinfo hlisted).2 indexOid).1 hoid
  obtain rfl := Option.some.inj (hi.symm.trans hi')
  exact h.agrees _ i oid info attr hi hinfo htable hlookup hattr

/-- A table that gets other rows, with its indexes: the other tables do not notice. -/
lemma IndexedDatabase.modified (h : IndexedDatabase ctx pages)
    (hinfo : ctx.catalog.getTable oid = some info)
    (hlisted : ctx.catalog.getTableIndexes info.name = pure oids)
    {change : ℕ → Cpp (IndexInfo → IndexInfo)} (honly : OnlyEntries change)
    (hmaintained : ctx.catalog.Maintained oids change ctx'.catalog)
    (hbijective : ctx'.catalog.Bijective) (htable : IntegerTable ctx' info pages')
    (hagrees : ctx'.catalog.Agrees oids (liveRows pages'))
    (hframe : Frame ((pages oid).map Prod.fst) ctx.bpm ctx'.bpm)
    (hpages : ∀ q ∈ pages'.map Prod.fst, q ∈ (pages oid).map Prod.fst ∨ q = ctx.bpm.nextPageId) :
    IndexedDatabase ctx' (Function.update pages oid pages') := by
  have htables : ∀ oid', ctx'.catalog.getTable oid' = ctx.catalog.getTable oid' := by
    intro oid'
    rw [hmaintained.others]
    rfl
  -- an index is one from before, up to its entries
  have hback : ∀ indexOid i', ctx'.catalog.getIndex indexOid = some i' →
      ∃ i, ctx.catalog.getIndex indexOid = some i ∧
        i' = { i with intRidMap := i'.intRidMap } := by
    intro indexOid i' hi'
    rcases hmaintained.getIndex honly indexOid with ⟨-, hnone⟩ | ⟨i, j, hi, hj, heq⟩
    · rw [hi'] at hnone
      cases hnone
    · obtain rfl := Option.some.inj (hi'.symm.trans hj)
      exact ⟨i, hi, heq⟩
  have hmem := (h.tableIndexes hinfo hlisted).2
  have hheaps := h.heaps.modified hinfo htables htable.toHeapTable hframe hpages
  refine ⟨⟨hbijective, fun oid' info' hinfo' => ?_, hheaps.apart, ?_⟩, ?_⟩
  · have hheap := hheaps.table oid' info' hinfo'
    rw [htables] at hinfo'
    by_cases hoid : oid' = oid
    · subst hoid
      obtain rfl := Option.some.inj (hinfo.symm.trans hinfo')
      rw [Function.update_self]
      exact htable
    · rw [Function.update_of_ne hoid] at hheap ⊢
      have hother := h.table oid' info' hinfo'
      exact ⟨hheap, hother.schema, hother.rows⟩
  · intro indexOid i' oid' info' hi' hinfo' hname attr hattr
    rw [htables] at hinfo'
    obtain ⟨i, hi, heq⟩ := hback indexOid i' hi'
    rw [heq] at hname hattr
    exact h.attrs indexOid i oid' info' hi hinfo' hname attr hattr
  · intro indexOid i' oid' info' attr hi' hinfo' hname hlookup hattr
    rw [htables] at hinfo'
    obtain ⟨i, hi, heq⟩ := hback indexOid i' hi'
    have hname' : i.tableName = info'.name := by
      rw [← hname, heq]
    by_cases hoid : oid' = oid
    · subst hoid
      obtain rfl := Option.some.inj (hinfo.symm.trans hinfo')
      rw [Function.update_self]
      exact hagrees indexOid ((hmem indexOid).2 ⟨i, hi, hname'⟩) i' attr hi' hlookup hattr
    · -- the index of another table has not changed
      have hnotin : indexOid ∉ oids := by
        intro hin
        obtain ⟨j, hj, hjname⟩ := (hmem indexOid).1 hin
        obtain rfl := Option.some.inj (hi.symm.trans hj)
        exact hoid (h.bijective.table_unique hinfo hinfo' (hname'.symm.trans hjname)).1
      rw [hmaintained.unchanged indexOid hnotin] at hi'
      rw [Function.update_of_ne hoid]
      exact h.agrees indexOid i' oid' info' attr hi' hinfo' hname hlookup hattr

/-- A row more. -/
lemma IndexedDatabase.rowInserted (h : IndexedDatabase ctx pages)
    (hinfo : ctx.catalog.getTable oid = some info)
    (hlisted : ctx.catalog.getTableIndexes info.name = pure oids)
    (hbijective : ctx'.catalog.Bijective)
    (hinserted : RowInserted info oids b ctx (pages oid) rid ctx' pages') :
    IndexedDatabase ctx' (Function.update pages oid pages') := by
  obtain ⟨tuple, hcarries, hmaintained⟩ := hinserted.catalog
  obtain ⟨before, after, hrows, hrows'⟩ := hinserted.rows
  have hnew : rid ∉ (before ++ after).map Prod.fst := by
    have hnodup := nodup_liveRows hinserted.table.holds.nodup
    rw [hrows', List.map_append, List.map_cons, List.nodup_middle, List.nodup_cons,
      ← List.map_append] at hnodup
    exact hnodup.1
  refine h.modified hinfo hlisted (onlyEntries_insertChange _ _ _) hmaintained hbijective
    hinserted.table ?_ hinserted.inserts.frame fun q hq => ?_
  · have hagrees := h.agrees_table hinfo hlisted
    rw [hrows] at hagrees
    rw [hrows']
    exact (h.tableIndexes hinfo hlisted).1.agrees_insert hagrees hcarries hnew hmaintained
  · rcases hinserted.inserts.pages_eq with heq | ⟨heq, -⟩
    · rw [heq] at hq
      exact .inl hq
    · rw [heq, List.mem_append, List.mem_singleton] at hq
      exact hq

/-- A row less. -/
lemma IndexedDatabase.rowDeleted (h : IndexedDatabase ctx pages)
    (hinfo : ctx.catalog.getTable oid = some info)
    (hlisted : ctx.catalog.getTableIndexes info.name = pure oids)
    (hbijective : ctx'.catalog.Bijective)
    (hdeleted : RowDeleted info oids b ctx (pages oid) rid ctx' pages') :
    IndexedDatabase ctx' (Function.update pages oid pages') := by
  obtain ⟨tuple, hcarries, hmaintained⟩ := hdeleted.catalog
  obtain ⟨before, after, hrows, hrows'⟩ := hdeleted.rows
  refine h.modified hinfo hlisted (onlyEntries_deleteChange _ _ _) hmaintained hbijective
    hdeleted.table ?_ hdeleted.frame fun q hq => ?_
  · have hagrees := h.agrees_table hinfo hlisted
    have hnodup := nodup_liveRows (h.table oid info hinfo).holds.nodup
    rw [hrows] at hagrees hnodup
    rw [hrows']
    exact (h.tableIndexes hinfo hlisted).1.agrees_delete hagrees hcarries hnodup hmaintained
  · rw [hdeleted.pages_eq] at hq
    exact .inl hq

end Tables

/-! ## Indexes -/

section CreateIndex

variable {ctx ctx' : ExecutorContext} {tableInfo : TableInfo} {p : Pages} {i i' : IndexInfo}
  {before rows : List (RID × List UInt8)} {fuel n attr : ℕ} {indexName tableName : String}
  {keyAttrs : List ℕ} {indexOid : ℕ}

/-- The key of a row of integers is the integer in its column. -/
lemma IntegerTable.keyOf_raw (h : IntegerTable ctx tableInfo p) {r : RID × List UInt8}
    (hr : r ∈ liveRows p) (hattr : attr < tableInfo.schema.columns.length) :
    (rawTuple r).keyOf tableInfo.schema attr = pure (keyAt attr r.2) := by
  have hsize := (h.length_le hr).2
  have hcarries := carries_rawTuple h.schema (h.rows r hr) (by unfold pageSize at hsize; omega)
  exact hcarries.keyOf attr hattr

/-- The loop of `CreateIndex` files the rows from the iterator on. -/
lemma IntegerTable.eq_of_fileRows (h : IntegerTable ctx tableInfo p)
    (hattr : attr < tableInfo.schema.columns.length) (hrows : liveRows p = before ++ rows)
    (hret : Returns (Catalog.fileRows fuel tableInfo.schema attr n (first rows) i) ctx i' ctx') :
    i' = i.insertEntries attr rows ∧ ctx' = ctx := by
  induction n generalizing before rows i with
  | zero => exact absurd hret not_returns_undefined
  | succ n ih =>
    rw [Catalog.fileRows] at hret
    cases rows with
    | nil =>
      have hend : first ([] : List (RID × List UInt8)) = endIterator := rfl
      rw [if_pos hend] at hret
      obtain ⟨rfl, rfl⟩ := returns_pure.1 hret
      exact ⟨rfl, rfl⟩
    | cons r rows =>
      obtain ⟨rid, b⟩ := r
      have hmem : (rid, b) ∈ liveRows p := by
        rw [hrows]
        simp
      have hne : first ((rid, b) :: rows) ≠ endIterator := (h.length_le hmem).1
      rw [if_neg hne] at hret
      obtain ⟨tuple, c₁, htuple, hret₁⟩ := returns_bind.1 hret
      obtain ⟨bpm, hrun, rfl⟩ := returns_ofThrowing.1 htuple
      obtain ⟨htuple', rfl⟩ := Prod.mk.inj
        (Option.some.inj ((h.holds.getTuple h.ready h.frames hmem).symm.trans hrun))
      cases htuple'
      obtain ⟨key, c₂, hkey, hret₂⟩ := returns_bind.1 hret₁
      obtain ⟨hkey', rfl⟩ := returns_ofCpp.1 hkey
      cases hkey'.symm.trans (h.keyOf_raw hmem hattr)
      obtain ⟨next, c₃, hnext, hret₃⟩ := returns_bind.1 hret₂
      obtain ⟨bpm', hrun', rfl⟩ := returns_ofProgram.1 hnext
      obtain ⟨rfl, rfl⟩ :=
        Prod.mk.inj ((h.holds.increment h.ready h.frames hrows fuel).2 _ hrun')
      have hrows' : liveRows p = (before ++ [(rid, b)]) ++ rows := by
        rw [hrows]
        simp
      have hrest := ih hrows' hret₃
      exact hrest

/-- The key columns of an index exist. -/
lemma lt_of_keyColumns {schema : Schema} {columns : List Column}
    (h : Catalog.keyColumns schema keyAttrs = some columns) :
    ∀ attr ∈ keyAttrs, attr < schema.columns.length := by
  induction keyAttrs generalizing columns with
  | nil => simp
  | cons a keyAttrs ih =>
    unfold Catalog.keyColumns at h ih
    rw [List.mapM_cons] at h
    obtain ⟨column, hcolumn, hrest⟩ := Option.bind_eq_some_iff.1 h
    obtain ⟨columns', hcolumns', -⟩ := Option.bind_eq_some_iff.1 hrest
    rw [List.forall_mem_cons]
    refine ⟨?_, ih hcolumns'⟩
    split_ifs at hcolumn
    exact (List.getElem?_eq_some_iff.1 hcolumn).1

/-- A table that is found by its name is filed under an oid. -/
lemma Catalog.Bijective.exists_table {c : Catalog} (h : c.Bijective)
    (hfound : c.getTableByName tableName = pure (some tableInfo)) :
    c.getTable tableInfo.oid = some tableInfo ∧ tableInfo.name = tableName := by
  have htable := h.consistent.getTable hfound
  refine ⟨htable, ?_⟩
  unfold Catalog.getTableByName at hfound
  cases hlookup : c.tableNames.lookup tableName with
  | none =>
    simp only [hlookup] at hfound
    cases hfound
  | some oid =>
    simp only [hlookup] at hfound
    obtain ⟨info, hinfo, heq⟩ := Cpp.bind_eq_pure.1 hfound
    cases heq
    obtain ⟨info', hinfo', hname⟩ := (h.mem_tableNames _ _).1 (Catalog.mem_of_lookup hlookup)
    unfold Catalog.mapAt at hinfo
    cases hmap : c.tables.lookup oid with
    | none =>
      simp only [hmap] at hinfo
      cases hinfo
    | some info'' =>
      simp only [hmap] at hinfo
      cases hinfo
      rw [← Catalog.eq_of_mem_of_nodup h.tables_nodup hinfo' (Catalog.mem_of_lookup hmap)]
      exact hname

/-- A `CreateIndex` that returns an index gives out an oid and files an index under it, with the rows
of the table if it supports lookups. -/
lemma IntegerDatabase.returns_createIndex {pages : ℕ → Pages} (h : IntegerDatabase ctx pages)
    (hret : Returns (Catalog.createIndex fuel indexName tableName keyAttrs) ctx (some indexOid)
      ctx') :
    ∃ oid tableInfo info, ctx.catalog.getTable oid = some tableInfo ∧
      tableInfo.name = tableName ∧ ctx.catalog.getIndexByName indexName tableName = pure none ∧
      info.oid = ctx.catalog.nextIndexOid ∧ info.tableName = tableName ∧ info.name = indexName ∧
      info.keyAttrs = keyAttrs ∧ keyAttrs ≠ [] ∧
      (∀ attr ∈ keyAttrs, attr < tableInfo.schema.columns.length) ∧
      (info.supportsPointLookup = true → ∀ attr, info.getLookupAttr = pure attr →
        info.Agrees attr (liveRows (pages oid))) ∧
      ctx' = { ctx with catalog := ctx.catalog.giveIndexOid.fileIndex info } := by
  obtain ⟨catalog, c₁, hcatalog, hret₁⟩ := returns_bind.1 hret
  obtain ⟨rfl, rfl⟩ := returns_getCatalog.1 hcatalog
  obtain ⟨found, c₂, hfound, hret₂⟩ := returns_bind.1 hret₁
  obtain ⟨hfound', rfl⟩ := returns_ofCpp.1 hfound
  cases found with
  | none =>
    obtain ⟨hcontra, -⟩ := returns_pure.1 hret₂
    cases hcontra
  | some tableInfo =>
    obtain ⟨htable, hname⟩ := h.bijective.exists_table hfound'
    dsimp only at hret₂
    split_ifs at hret₂
    · obtain ⟨hcontra, -⟩ := returns_pure.1 hret₂
      cases hcontra
    obtain ⟨existing, c₃, hexisting, hret₃⟩ := returns_bind.1 hret₂
    obtain ⟨hexisting', rfl⟩ := returns_ofCpp.1 hexisting
    cases existing with
    | some oid =>
      obtain ⟨hcontra, -⟩ := returns_pure.1 hret₃
      cases hcontra
    | none =>
      rw [if_neg (by simp)] at hret₃
      cases hcolumns : Catalog.keyColumns tableInfo.schema keyAttrs with
      | none =>
        rw [hcolumns] at hret₃
        obtain ⟨hcontra, -⟩ := returns_pure.1 hret₃
        cases hcontra
      | some columns =>
        rw [hcolumns] at hret₃
        cases keyAttrs with
        | nil =>
          obtain ⟨hcontra, -⟩ := returns_pure.1 hret₃
          cases hcontra
        | cons attr rest =>
          have hlt := lt_of_keyColumns hcolumns
          obtain ⟨⟨⟩, c₄, hgiven, hret₄⟩ := returns_bind.1 hret₃
          obtain rfl := returns_modifyCatalog.1 hgiven
          split_ifs at hret₄
          · -- a lookup index is filled from the heap
            obtain ⟨it, c₅, hbegin, hret₅⟩ := returns_bind.1 hret₄
            obtain ⟨bpm, hrun, rfl⟩ := returns_ofProgram.1 hbegin
            have hp := h.table _ _ htable
            obtain ⟨rfl, rfl⟩ := Prod.mk.inj ((hp.holds.begin hp.ready hp.frames fuel).2 _ hrun)
            have hgiven : IntegerTable
                { ctx with catalog := ctx.catalog.giveIndexOid } tableInfo (pages tableInfo.oid) :=
              ⟨⟨hp.ready, hp.frames, hp.holds⟩, hp.schema, hp.rows⟩
            obtain ⟨info, c₆, hfill, hret₆⟩ := returns_bind.1 hret₅
            obtain ⟨hinfo, rfl⟩ := hgiven.eq_of_fileRows (hlt attr List.mem_cons_self)
              (List.nil_append _).symm hfill
            obtain ⟨⟨⟩, c₇, hfile, hret₇⟩ := returns_bind.1 hret₆
            obtain rfl := returns_modifyCatalog.1 hfile
            obtain ⟨-, rfl⟩ := returns_pure.1 hret₇
            have hnodup : (([] ++ liveRows (pages tableInfo.oid)).map Prod.fst).Nodup :=
              nodup_liveRows hp.holds.nodup
            have hagrees : info.Agrees attr (liveRows (pages tableInfo.oid)) := by
              rw [hinfo]
              exact (IndexInfo.agrees_nil rfl).insertEntries hnodup
            rw [insertEntries_eq] at hinfo
            generalize IndexInfo.intRidMap _ = entries at hinfo
            subst hinfo
            refine ⟨tableInfo.oid, tableInfo,
              { keySchema := Schema.new columns, name := indexName, tableName := tableName,
                oid := ctx.catalog.nextIndexOid, keyAttrs := attr :: rest,
                supportsPointLookup := true, intRidMap := entries },
              htable, hname, hexisting', rfl, rfl, rfl, rfl, List.cons_ne_nil _ _, hlt,
              fun _ attr' hattr' => ?_, rfl⟩
            cases hattr'
            exact hagrees
          · obtain ⟨info, c₅, hblank, hret₅⟩ := returns_bind.1 hret₄
            obtain ⟨rfl, rfl⟩ := returns_pure.1 hblank
            obtain ⟨⟨⟩, c₆, hfile, hret₆⟩ := returns_bind.1 hret₅
            obtain rfl := returns_modifyCatalog.1 hfile
            obtain ⟨-, rfl⟩ := returns_pure.1 hret₆
            exact ⟨tableInfo.oid, tableInfo,
              { keySchema := Schema.new columns, name := indexName, tableName := tableName,
                oid := ctx.catalog.nextIndexOid, keyAttrs := attr :: rest },
              htable, hname, hexisting', rfl, rfl, rfl, rfl, List.cons_ne_nil _ _, hlt, nofun, rfl⟩

/-- An index more. -/
lemma IndexedDatabase.createIndex {pages : ℕ → Pages} (h : IndexedDatabase ctx pages)
    (hret : Returns (Catalog.createIndex fuel indexName tableName keyAttrs) ctx (some indexOid)
      ctx') : IndexedDatabase ctx' pages := by
  obtain ⟨oid, tableInfo, info, htable, rfl, hunnamed, hoid, htableName, rfl, rfl, hkeys, hlt,
    hagrees, rfl⟩ := h.returns_createIndex hret
  have hnamed : tableInfo.name ∈ ctx.catalog.tableNames.map Prod.fst :=
    List.mem_map.2 ⟨(tableInfo.name, oid), (h.bijective.mem_tableNames _ _).2
      ⟨tableInfo, h.bijective.getTable_iff.1 htable, rfl⟩, rfl⟩
  have hbijective : (ctx.catalog.giveIndexOid.fileIndex info).Bijective := by
    refine Catalog.Bijective.addIndex ?_ hkeys
    rw [hoid, htableName]
    exact h.bijective.awaitsIndex hnamed
      (h.bijective.not_files_of_getIndexByName hunnamed (by simp))
  -- an index is the new one, or one from before
  have hback : ∀ indexOid i, (ctx.catalog.giveIndexOid.fileIndex info).getIndex indexOid = some i →
      i = info ∨ ctx.catalog.getIndex indexOid = some i := by
    intro indexOid i hi
    rcases List.mem_cons.1 (hbijective.getIndex_iff.1 hi) with heq | hmem
    · exact .inl (Prod.mk.inj heq).2
    · exact .inr (h.bijective.getIndex_iff.2 hmem)
  refine ⟨⟨hbijective, fun oid' info' hinfo' => ?_, h.apart, ?_⟩, ?_⟩
  · have hp := h.table oid' info' hinfo'
    exact ⟨⟨hp.ready, hp.frames, hp.holds⟩, hp.schema, hp.rows⟩
  · intro indexOid' i oid' info' hi hinfo' hname
    rcases hback indexOid' i hi with rfl | hi
    · obtain ⟨rfl, rfl⟩ := h.bijective.table_unique htable hinfo' (hname.symm.trans htableName)
      exact hlt
    · exact h.attrs indexOid' i oid' info' hi hinfo' hname
  · intro indexOid' i oid' info' attr hi hinfo' hname hlookup hattr
    rcases hback indexOid' i hi with rfl | hi
    · obtain ⟨rfl, rfl⟩ := h.bijective.table_unique htable hinfo' (hname.symm.trans htableName)
      exact hagrees hlookup attr hattr
    · exact h.agrees indexOid' i oid' info' attr hi hinfo' hname hlookup hattr

/-- `DropIndex` leaves the tables alone. -/
lemma Catalog.tables_dropIndex (c : Catalog) (indexName tableName : String) :
    (c.dropIndex indexName tableName).2.tables = c.tables := by
  unfold Catalog.dropIndex
  cases c.indexNames.lookup tableName with
  | none => rfl
  | some names =>
    dsimp only
    cases names.lookup indexName <;> rfl

/-- An index that is left was there. -/
lemma Catalog.Bijective.getIndex_of_dropIndex {c : Catalog} (h : c.Bijective)
    {indexName tableName : String}
    (hi : (c.dropIndex indexName tableName).2.getIndex indexOid = some i) :
    c.getIndex indexOid = some i := by
  by_cases hfiled : ∃ oid, c.Files tableName indexName oid
  · obtain ⟨oid, hfiles⟩ := hfiled
    have hmem := (h.dropIndex indexName tableName).getIndex_iff.1 hi
    rw [(h.dropIndex_of_files hfiles).2] at hmem
    exact h.getIndex_iff.2 (List.mem_of_mem_filter hmem)
  · rwa [h.dropIndex_of_not_files fun oid hfiles => hfiled ⟨oid, hfiles⟩] at hi

/-- An index less. -/
lemma IndexedDatabase.dropIndex {pages : ℕ → Pages} (h : IndexedDatabase ctx pages)
    (indexName tableName : String) :
    IndexedDatabase
      { ctx with catalog := (ctx.catalog.dropIndex indexName tableName).2 } pages := by
  have htables : ∀ oid, (ctx.catalog.dropIndex indexName tableName).2.getTable oid =
      ctx.catalog.getTable oid := by
    intro oid
    unfold Catalog.getTable
    rw [Catalog.tables_dropIndex]
  refine ⟨⟨h.bijective.dropIndex indexName tableName, ?_, ?_, ?_⟩, ?_⟩
  · intro oid info hinfo
    have hp := h.table oid info ((htables oid).symm.trans hinfo)
    exact ⟨⟨hp.ready, hp.frames, hp.holds⟩, hp.schema, hp.rows⟩
  · intro oid info oid' info' hinfo hinfo'
    exact h.apart oid info oid' info' ((htables oid).symm.trans hinfo)
      ((htables oid').symm.trans hinfo')
  · intro indexOid i oid info hi hinfo
    exact h.attrs indexOid i oid info (h.bijective.getIndex_of_dropIndex hi)
      ((htables oid).symm.trans hinfo)
  · intro indexOid i oid info attr hi hinfo
    exact h.agrees indexOid i oid info attr (h.bijective.getIndex_of_dropIndex hi)
      ((htables oid).symm.trans hinfo)

end CreateIndex

end OneBase
