import OneBase.Catalog.Consistency

set_option relaxedAutoImplicit false
set_option autoImplicit false

/-!
# The maps of a catalog

The four maps of a catalog hold the same facts twice: a table is filed under its oid and its name,
an index under its oid, and under its name in the map of its table. No map has two entries for a
key, and no inner map is empty.

## Main definitions

* `OneBase.Catalog.Bijective` — the invariant.

## Main results

* `OneBase.Catalog.Bijective.addTable`, `addIndex`, `dropIndex`, `modifyIndex` — the operations keep
  it.
* `OneBase.Catalog.files_dropIndex_iff` — what `DROP INDEX` leaves.
* `OneBase.Catalog.Bijective.consistent` — the maps refer to each other.
-/

namespace OneBase.Catalog

/-- The maps by oid and by name are inverse to each other, and every key occurs once. -/
structure Bijective (c : Catalog) : Prop where
  tables_nodup : (c.tables.map Prod.fst).Nodup
  tableNames_nodup : (c.tableNames.map Prod.fst).Nodup
  mem_tableNames : ∀ name oid, (name, oid) ∈ c.tableNames ↔
    ∃ info, (oid, info) ∈ c.tables ∧ info.name = name
  table_oid : ∀ entry ∈ c.tables, entry.2.oid = entry.1 ∧ entry.1 < c.nextTableOid
  indexes_nodup : (c.indexes.map Prod.fst).Nodup
  indexNames_nodup : (c.indexNames.map Prod.fst).Nodup
  inner : ∀ entry ∈ c.indexNames, (entry.2.map Prod.fst).Nodup ∧ entry.2 ≠ []
  files_iff : ∀ tableName indexName oid, c.Files tableName indexName oid ↔
    ∃ info, (oid, info) ∈ c.indexes ∧ info.tableName = tableName ∧ info.name = indexName
  index_oid : ∀ entry ∈ c.indexes, entry.2.oid = entry.1 ∧ entry.1 < c.nextIndexOid
  index_table : ∀ entry ∈ c.indexes, entry.2.tableName ∈ c.tableNames.map Prod.fst
  keys : ∀ entry ∈ c.indexes, entry.2.keyAttrs ≠ []

/-- The oid was given out for an index that is not filed yet, on a table that exists. -/
structure AwaitsIndex (c : Catalog) (oid : ℕ) (tableName indexName : String) : Prop extends
    Bijective c where
  unfiled : ∀ entry ∈ c.indexes, entry.1 ≠ oid
  given : oid < c.nextIndexOid
  table : tableName ∈ c.tableNames.map Prod.fst
  unnamed : ∀ oid', ¬ c.Files tableName indexName oid'

/-- The oid was given out for a table that is not filed yet, with a name that is not taken. -/
structure AwaitsTable (c : Catalog) (oid : ℕ) (tableName : String) : Prop extends
    Bijective c where
  unfiled : ∀ entry ∈ c.tables, entry.1 ≠ oid
  given : oid < c.nextTableOid
  unnamed : tableName ∉ c.tableNames.map Prod.fst

variable {c : Catalog} {tableName indexName tableName' indexName' : String} {oid oid' : ℕ}

/-! ## Keys that occur once -/

section Keys

variable {α β : Type} {l : List (α × β)} {a : α} {b b' : β}

/-- A key has one value. -/
lemma eq_of_mem_of_nodup (h : (l.map Prod.fst).Nodup) (hb : (a, b) ∈ l) (hb' : (a, b') ∈ l) :
    b = b' :=
  (Prod.mk.inj (List.inj_on_of_nodup_map h hb hb' rfl)).2

variable [BEq α] [LawfulBEq α]

/-- Looking up a key finds its entry. -/
lemma lookup_eq_some_iff_mem (h : (l.map Prod.fst).Nodup) :
    l.lookup a = some b ↔ (a, b) ∈ l := by
  constructor
  · exact mem_of_lookup
  · intro hmem
    obtain ⟨b', hb'⟩ := exists_lookup (List.mem_map_of_mem (f := Prod.fst) hmem)
    rw [hb', eq_of_mem_of_nodup h hmem (mem_of_lookup hb')]

end Keys

/-! ## The empty catalog -/

/-- The maps of an empty catalog fit each other. -/
lemma bijective_empty : Bijective {} where
  tables_nodup := List.nodup_nil
  tableNames_nodup := List.nodup_nil
  mem_tableNames := by simp
  table_oid := by simp
  indexes_nodup := List.nodup_nil
  indexNames_nodup := List.nodup_nil
  inner := by simp
  files_iff := by simp [Files]
  index_oid := by simp
  index_table := by simp
  keys := by simp

namespace Bijective

/-- The maps refer to each other. -/
lemma consistent (h : c.Bijective) : c.Consistent where
  named := by
    intro entry hentry
    obtain ⟨info, hinfo, -⟩ := (h.mem_tableNames entry.1 entry.2).1 hentry
    exact List.mem_map_of_mem (f := Prod.fst) hinfo
  oids := fun entry hentry => (h.table_oid entry hentry).1
  filed := by
    intro tableName indexName oid hfiles
    obtain ⟨info, hinfo, -⟩ := (h.files_iff _ _ _).1 hfiles
    exact List.mem_map_of_mem (f := Prod.fst) hinfo
  distinct := by
    intro tableName indexName tableName' indexName' oid hfiles hfiles'
    obtain ⟨info, hinfo, htable, hname⟩ := (h.files_iff _ _ _).1 hfiles
    obtain ⟨info', hinfo', htable', hname'⟩ := (h.files_iff _ _ _).1 hfiles'
    obtain rfl := eq_of_mem_of_nodup h.indexes_nodup hinfo hinfo'
    exact ⟨htable'.symm.trans htable, hname'.symm.trans hname⟩
  keys := fun entry hentry _ => h.keys entry hentry
  next := fun entry hentry => (h.index_oid entry hentry).2

/-! ## Tables -/

/-- An oid for a table is given out. -/
lemma awaitsTable (h : c.Bijective) (hname : tableName ∉ c.tableNames.map Prod.fst) :
    AwaitsTable { c with nextTableOid := c.nextTableOid + 1 } c.nextTableOid tableName where
  tables_nodup := h.tables_nodup
  tableNames_nodup := h.tableNames_nodup
  mem_tableNames := h.mem_tableNames
  table_oid := fun entry hentry =>
    ⟨(h.table_oid entry hentry).1, (h.table_oid entry hentry).2.trans (Nat.lt_succ_self _)⟩
  indexes_nodup := h.indexes_nodup
  indexNames_nodup := h.indexNames_nodup
  inner := h.inner
  files_iff := h.files_iff
  index_oid := h.index_oid
  index_table := h.index_table
  keys := h.keys
  unfiled := fun entry hentry => (h.table_oid entry hentry).2.ne
  given := Nat.lt_succ_self _
  unnamed := hname

/-- `CREATE TABLE`. -/
lemma addTable {info : TableInfo} (h : AwaitsTable c info.oid info.name) :
    Bijective { c with
      tables := (info.oid, info) :: c.tables
      tableNames := (info.name, info.oid) :: c.tableNames } where
  tables_nodup := by
    rw [List.map_cons, List.nodup_cons]
    refine ⟨fun hmem => ?_, h.tables_nodup⟩
    obtain ⟨entry, hentry, heq⟩ := List.mem_map.1 hmem
    exact h.unfiled entry hentry heq
  tableNames_nodup := by
    rw [List.map_cons, List.nodup_cons]
    exact ⟨h.unnamed, h.tableNames_nodup⟩
  mem_tableNames := by
    intro name oid
    constructor
    · intro hmem
      rcases List.mem_cons.1 hmem with heq | hmem
      · obtain ⟨rfl, rfl⟩ := Prod.mk.inj heq
        exact ⟨info, List.mem_cons_self, rfl⟩
      · obtain ⟨info', hinfo', hname⟩ := (h.mem_tableNames name oid).1 hmem
        exact ⟨info', List.mem_cons_of_mem _ hinfo', hname⟩
    · rintro ⟨info', hmem, hname⟩
      rcases List.mem_cons.1 hmem with heq | hmem
      · obtain ⟨rfl, rfl⟩ := Prod.mk.inj heq
        rw [← hname]
        exact List.mem_cons_self
      · exact List.mem_cons_of_mem _ ((h.mem_tableNames name oid).2 ⟨info', hmem, hname⟩)
  table_oid := by
    intro entry hentry
    rcases List.mem_cons.1 hentry with rfl | hmem
    · exact ⟨rfl, h.given⟩
    · exact h.table_oid entry hmem
  indexes_nodup := h.indexes_nodup
  indexNames_nodup := h.indexNames_nodup
  inner := h.inner
  files_iff := h.files_iff
  index_oid := h.index_oid
  index_table := fun entry hentry => List.mem_cons_of_mem _ (h.index_table entry hentry)
  keys := h.keys

/-! ## Indexes -/

/-- A change of an index that leaves what it is filed under, and its key. -/
lemma modifyIndex (h : c.Bijective) (oid : ℕ) {f : IndexInfo → IndexInfo}
    (hf : ∀ i, (f i).oid = i.oid ∧ (f i).name = i.name ∧ (f i).tableName = i.tableName ∧
      (f i).keyAttrs = i.keyAttrs) : (c.modifyIndex oid f).Bijective := by
  have hkeys : (c.modifyIndex oid f).indexes.map Prod.fst = c.indexes.map Prod.fst := by
    show (c.indexes.map _).map Prod.fst = _
    rw [List.map_map]
    refine List.map_congr_left fun entry _ => ?_
    show (if entry.1 = oid then _ else _ : ℕ × IndexInfo).1 = entry.1
    split_ifs <;> rfl
  -- an index afterwards is one from before, up to its entries
  have hback : ∀ entry ∈ (c.modifyIndex oid f).indexes, ∃ info, (entry.1, info) ∈ c.indexes ∧
      entry.2.oid = info.oid ∧ entry.2.name = info.name ∧ entry.2.tableName = info.tableName ∧
        entry.2.keyAttrs = info.keyAttrs := by
    intro entry hentry
    obtain ⟨entry', hmem, rfl⟩ := List.mem_map.1 hentry
    split_ifs
    · exact ⟨entry'.2, hmem, hf entry'.2⟩
    · exact ⟨entry'.2, hmem, rfl, rfl, rfl, rfl⟩
  have hforth : ∀ entry ∈ c.indexes, ∃ info, (entry.1, info) ∈ (c.modifyIndex oid f).indexes ∧
      info.name = entry.2.name ∧ info.tableName = entry.2.tableName := by
    intro entry hentry
    have hmem := List.mem_map_of_mem (f := fun entry : ℕ × IndexInfo =>
      if entry.1 = oid then (entry.1, f entry.2) else entry) hentry
    split_ifs at hmem
    · exact ⟨f entry.2, hmem, (hf entry.2).2.1, (hf entry.2).2.2.1⟩
    · exact ⟨entry.2, hmem, rfl, rfl⟩
  refine ⟨h.tables_nodup, h.tableNames_nodup, h.mem_tableNames, h.table_oid, ?_, h.indexNames_nodup,
    h.inner, ?_, ?_, ?_, ?_⟩
  · rw [hkeys]
    exact h.indexes_nodup
  · intro tableName indexName oid'
    refine (h.files_iff tableName indexName oid').trans ?_
    constructor
    · rintro ⟨info, hinfo, rfl, rfl⟩
      obtain ⟨info', hinfo', hname, htable⟩ := hforth _ hinfo
      exact ⟨info', hinfo', htable, hname⟩
    · rintro ⟨info, hinfo, rfl, rfl⟩
      obtain ⟨info', hinfo', -, hname, htable, -⟩ := hback _ hinfo
      exact ⟨info', hinfo', htable.symm, hname.symm⟩
  · intro entry hentry
    obtain ⟨info, hinfo, hoid, -⟩ := hback entry hentry
    rw [hoid]
    exact h.index_oid _ hinfo
  · intro entry hentry
    obtain ⟨info, hinfo, -, -, htable, -⟩ := hback entry hentry
    rw [htable]
    exact h.index_table _ hinfo
  · intro entry hentry
    obtain ⟨info, hinfo, -, -, -, hkey⟩ := hback entry hentry
    rw [hkey]
    exact h.keys _ hinfo

/-- An oid for an index is given out. -/
lemma awaitsIndex (h : c.Bijective) (htable : tableName ∈ c.tableNames.map Prod.fst)
    (hname : ∀ oid, ¬ c.Files tableName indexName oid) :
    AwaitsIndex { c with nextIndexOid := c.nextIndexOid + 1 } c.nextIndexOid tableName
      indexName where
  tables_nodup := h.tables_nodup
  tableNames_nodup := h.tableNames_nodup
  mem_tableNames := h.mem_tableNames
  table_oid := h.table_oid
  indexes_nodup := h.indexes_nodup
  indexNames_nodup := h.indexNames_nodup
  inner := h.inner
  files_iff := h.files_iff
  index_oid := fun entry hentry =>
    ⟨(h.index_oid entry hentry).1, (h.index_oid entry hentry).2.trans (Nat.lt_succ_self _)⟩
  index_table := h.index_table
  keys := h.keys
  unfiled := fun entry hentry => (h.index_oid entry hentry).2.ne
  given := Nat.lt_succ_self _
  table := htable
  unnamed := hname

/-- What is filed after an index was added. -/
lemma files_addIndexName_iff (h : c.Bijective) {c' : Catalog}
    (hnames : c'.indexNames = addIndexName c.indexNames tableName indexName oid) :
    c'.Files tableName' indexName' oid' ↔ c.Files tableName' indexName' oid' ∨
      tableName' = tableName ∧ indexName' = indexName ∧ oid' = oid := by
  unfold Files
  rw [hnames]
  constructor
  · rintro ⟨names, hentry, hmem⟩
    rcases Consistent.files_addIndexName hentry hmem with ⟨htable, hname⟩ | ⟨names', hfiled⟩
    · obtain ⟨rfl, rfl⟩ := Prod.mk.inj hname
      exact .inr ⟨htable, rfl, rfl⟩
    · exact .inl ⟨names', hfiled⟩
  · unfold addIndexName
    cases hlookup : c.indexNames.lookup tableName with
    | none =>
      rintro (⟨names, hentry, hmem⟩ | ⟨rfl, rfl, rfl⟩)
      · exact ⟨names, List.mem_cons_of_mem _ hentry, hmem⟩
      · exact ⟨_, List.mem_cons_self, List.mem_cons_self⟩
    | some names₀ =>
      have hnames₀ := mem_of_lookup hlookup
      rintro (⟨names, hentry, hmem⟩ | ⟨rfl, rfl, rfl⟩)
      · by_cases htable : tableName' = tableName
        · subst htable
          obtain rfl := eq_of_mem_of_nodup h.indexNames_nodup hentry hnames₀
          exact ⟨_, List.mem_map.2 ⟨_, hentry, if_pos rfl⟩, List.mem_cons_of_mem _ hmem⟩
        · exact ⟨names, List.mem_map.2 ⟨_, hentry, if_neg htable⟩, hmem⟩
      · exact ⟨_, List.mem_map.2 ⟨_, hnames₀, if_pos rfl⟩, List.mem_cons_self⟩

/-- A table keeps a single list of index names. -/
lemma addIndexName_nodup (h : (c.indexNames.map Prod.fst).Nodup) :
    ((addIndexName c.indexNames tableName indexName oid).map Prod.fst).Nodup := by
  unfold addIndexName
  cases hlookup : c.indexNames.lookup tableName with
  | none =>
    rw [List.map_cons, List.nodup_cons]
    refine ⟨fun hmem => ?_, h⟩
    obtain ⟨names, hnames⟩ := exists_lookup hmem
    rw [hlookup] at hnames
    cases hnames
  | some names =>
    rw [List.map_map]
    have hkeys : (Prod.fst ∘ fun entry : String × List (String × ℕ) =>
        if entry.1 = tableName then (tableName, (indexName, oid) :: names) else entry) =
          Prod.fst := by
      funext entry
      rw [Function.comp_apply]
      split_ifs with heq
      · exact heq.symm
      · rfl
    rw [hkeys]
    exact h

/-- `CREATE INDEX`. -/
lemma addIndex {info : IndexInfo} (h : AwaitsIndex c info.oid info.tableName info.name)
    (hkey : info.keyAttrs ≠ []) :
    Bijective { c with
      indexes := (info.oid, info) :: c.indexes
      indexNames := addIndexName c.indexNames info.tableName info.name info.oid } where
  tables_nodup := h.tables_nodup
  tableNames_nodup := h.tableNames_nodup
  mem_tableNames := h.mem_tableNames
  table_oid := h.table_oid
  indexes_nodup := by
    rw [List.map_cons, List.nodup_cons]
    refine ⟨fun hmem => ?_, h.indexes_nodup⟩
    obtain ⟨entry, hentry, heq⟩ := List.mem_map.1 hmem
    exact h.unfiled entry hentry heq
  indexNames_nodup := addIndexName_nodup h.indexNames_nodup
  inner := by
    intro entry hentry
    dsimp only at hentry
    unfold addIndexName at hentry
    cases hlookup : c.indexNames.lookup info.tableName with
    | none =>
      simp only [hlookup] at hentry
      rcases List.mem_cons.1 hentry with rfl | hmem
      · exact ⟨List.nodup_singleton _, List.cons_ne_nil _ _⟩
      · exact h.inner entry hmem
    | some names =>
      have hnames := mem_of_lookup hlookup
      simp only [hlookup] at hentry
      obtain ⟨entry', hentry', rfl⟩ := List.mem_map.1 hentry
      split_ifs
      · refine ⟨?_, List.cons_ne_nil _ _⟩
        rw [List.map_cons, List.nodup_cons]
        refine ⟨fun hmem => ?_, (h.inner _ hnames).1⟩
        obtain ⟨name, hname, heq⟩ := List.mem_map.1 hmem
        refine h.unnamed name.2 ⟨names, hnames, ?_⟩
        have hpair : name = (info.name, name.2) := Prod.ext heq rfl
        rwa [← hpair]
      · exact h.inner entry' hentry'
  files_iff := by
    intro tableName indexName oid
    rw [files_addIndexName_iff h.toBijective rfl, h.files_iff]
    constructor
    · rintro (⟨info', hinfo', hnames⟩ | ⟨rfl, rfl, rfl⟩)
      · exact ⟨info', List.mem_cons_of_mem _ hinfo', hnames⟩
      · exact ⟨info, List.mem_cons_self, rfl, rfl⟩
    · rintro ⟨info', hmem, rfl, rfl⟩
      rcases List.mem_cons.1 hmem with heq | hmem
      · obtain ⟨rfl, rfl⟩ := Prod.mk.inj heq
        exact .inr ⟨rfl, rfl, rfl⟩
      · exact .inl ⟨info', hmem, rfl, rfl⟩
  index_oid := by
    intro entry hentry
    rcases List.mem_cons.1 hentry with rfl | hmem
    · exact ⟨rfl, h.given⟩
    · exact h.index_oid entry hmem
  index_table := by
    intro entry hentry
    rcases List.mem_cons.1 hentry with rfl | hmem
    · exact h.table
    · exact h.index_table entry hmem
  keys := by
    intro entry hentry
    rcases List.mem_cons.1 hentry with rfl | hmem
    · exact hkey
    · exact h.keys entry hmem

/-- What is filed under the name of an index. -/
lemma files_iff_lookup (h : c.Bijective) : c.Files tableName indexName oid ↔
    ∃ names, c.indexNames.lookup tableName = some names ∧ names.lookup indexName = some oid := by
  constructor
  · rintro ⟨names, hentry, hmem⟩
    exact ⟨names, (lookup_eq_some_iff_mem h.indexNames_nodup).2 hentry,
      (lookup_eq_some_iff_mem (h.inner _ hentry).1).2 hmem⟩
  · rintro ⟨names, hentry, hmem⟩
    exact ⟨names, mem_of_lookup hentry, mem_of_lookup hmem⟩

/-- What is filed after `DROP INDEX`. -/
lemma files_dropIndex_iff (h : c.Bijective) :
    ((c.dropIndex indexName tableName).2).Files tableName' indexName' oid' ↔
      c.Files tableName' indexName' oid' ∧ ¬ (tableName' = tableName ∧ indexName' = indexName) := by
  unfold Catalog.dropIndex
  cases hnames : c.indexNames.lookup tableName with
  | none =>
    refine (and_iff_left_of_imp fun hfiles => ?_).symm
    rintro ⟨rfl, -⟩
    obtain ⟨names, hlookup, -⟩ := h.files_iff_lookup.1 hfiles
    rw [hnames] at hlookup
    cases hlookup
  | some names =>
    have hentry := mem_of_lookup hnames
    dsimp only
    cases hoid : names.lookup indexName with
    | none =>
      refine (and_iff_left_of_imp fun hfiles => ?_).symm
      rintro ⟨rfl, rfl⟩
      obtain ⟨names', hlookup, hname⟩ := h.files_iff_lookup.1 hfiles
      rw [hnames] at hlookup
      cases hlookup
      rw [hoid] at hname
      cases hname
    | some oid =>
      unfold Files
      dsimp only
      constructor
      · rintro ⟨names', hentry', hmem'⟩
        split_ifs at hentry' with hnil
        · obtain ⟨hentry', hne⟩ := List.mem_filter.1 hentry'
          refine ⟨⟨names', hentry', hmem'⟩, fun hboth => ?_⟩
          rw [hboth.1] at hne
          simp at hne
        · obtain ⟨entry, hmem, heq⟩ := List.mem_map.1 hentry'
          split_ifs at heq with htable
          · obtain ⟨rfl, rfl⟩ := Prod.mk.inj heq
            obtain ⟨hmem', hne⟩ := List.mem_filter.1 hmem'
            refine ⟨⟨names, hentry, hmem'⟩, fun hboth => ?_⟩
            rw [hboth.2] at hne
            simp at hne
          · subst heq
            exact ⟨⟨names', hmem, hmem'⟩, fun hboth => htable hboth.1⟩
      · rintro ⟨⟨names', hentry', hmem'⟩, hnot⟩
        by_cases htable : tableName' = tableName
        · subst htable
          obtain rfl := eq_of_mem_of_nodup h.indexNames_nodup hentry hentry'
          have hkept : (indexName', oid') ∈ names.filter fun entry => entry.1 ≠ indexName :=
            List.mem_filter.2 ⟨hmem', by simpa using fun heq => hnot ⟨rfl, heq⟩⟩
          rw [if_neg fun hnil => List.not_mem_nil (hnil ▸ hkept)]
          exact ⟨_, List.mem_map.2 ⟨_, hentry, if_pos rfl⟩, hkept⟩
        · refine ⟨names', ?_, hmem'⟩
          split_ifs
          · exact List.mem_filter.2 ⟨hentry', by simpa using htable⟩
          · exact List.mem_map.2 ⟨_, hentry', if_neg htable⟩

/-- The index that is dropped. -/
lemma dropIndex_of_files (h : c.Bijective) (hfiles : c.Files tableName indexName oid) :
    (c.dropIndex indexName tableName).1 = true ∧
      (c.dropIndex indexName tableName).2.indexes =
        c.indexes.filter fun entry => entry.1 ≠ oid := by
  obtain ⟨names, hnames, hoid⟩ := h.files_iff_lookup.1 hfiles
  unfold Catalog.dropIndex
  simp [hnames, hoid]

/-- Without the index, nothing is dropped. -/
lemma dropIndex_of_not_files (h : c.Bijective)
    (hfiles : ∀ oid, ¬ c.Files tableName indexName oid) :
    c.dropIndex indexName tableName = (false, c) := by
  unfold Catalog.dropIndex
  cases hnames : c.indexNames.lookup tableName with
  | none => rfl
  | some names =>
    cases hoid : names.lookup indexName with
    | none =>
      simp only [hoid]
    | some oid => exact absurd (h.files_iff_lookup.2 ⟨names, hnames, hoid⟩) (hfiles oid)

/-- `DROP INDEX`. -/
lemma dropIndex (h : c.Bijective) (indexName tableName : String) :
    (c.dropIndex indexName tableName).2.Bijective := by
  by_cases hexists : ∃ oid, c.Files tableName indexName oid
  swap
  · rw [h.dropIndex_of_not_files fun oid hfiles => hexists ⟨oid, hfiles⟩]
    exact h
  obtain ⟨oid, hfiles⟩ := hexists
  have hindexes := (h.dropIndex_of_files hfiles).2
  obtain ⟨dropped, hdropped, htable, hname⟩ := (h.files_iff _ _ _).1 hfiles
  have hsub : ∀ entry ∈ (c.dropIndex indexName tableName).2.indexes, entry ∈ c.indexes := by
    intro entry hentry
    rw [hindexes] at hentry
    exact List.mem_of_mem_filter hentry
  have hrest : (c.dropIndex indexName tableName).2.tables = c.tables ∧
      (c.dropIndex indexName tableName).2.tableNames = c.tableNames ∧
      (c.dropIndex indexName tableName).2.nextTableOid = c.nextTableOid ∧
      (c.dropIndex indexName tableName).2.nextIndexOid = c.nextIndexOid := by
    obtain ⟨names, hnames, hoid⟩ := h.files_iff_lookup.1 hfiles
    unfold Catalog.dropIndex
    simp [hnames, hoid]
  have hnames : ((c.dropIndex indexName tableName).2.indexNames.map Prod.fst).Nodup ∧
      ∀ entry ∈ (c.dropIndex indexName tableName).2.indexNames,
        (entry.2.map Prod.fst).Nodup ∧ entry.2 ≠ [] := by
    obtain ⟨names, hnames, hoid⟩ := h.files_iff_lookup.1 hfiles
    unfold Catalog.dropIndex
    simp only [hnames, hoid]
    split_ifs with hnil
    · refine ⟨h.indexNames_nodup.sublist (List.filter_sublist.map _), fun entry hentry => ?_⟩
      exact h.inner entry (List.mem_of_mem_filter hentry)
    · constructor
      · rw [List.map_map]
        have hkeys : (Prod.fst ∘ fun entry : String × List (String × ℕ) =>
            if entry.1 = tableName then
              (tableName, names.filter fun entry => entry.1 ≠ indexName)
            else entry) = Prod.fst := by
          funext entry
          rw [Function.comp_apply]
          split_ifs with heq
          · exact heq.symm
          · rfl
        rw [hkeys]
        exact h.indexNames_nodup
      · intro entry hentry
        obtain ⟨entry', hmem, rfl⟩ := List.mem_map.1 hentry
        split_ifs
        · exact ⟨(h.inner _ (mem_of_lookup hnames)).1.sublist (List.filter_sublist.map _), hnil⟩
        · exact h.inner entry' hmem
  obtain ⟨htables, htableNames, hnextTable, hnextIndex⟩ := hrest
  constructor
  · rw [htables]
    exact h.tables_nodup
  · rw [htableNames]
    exact h.tableNames_nodup
  · rw [htables, htableNames]
    exact h.mem_tableNames
  · rw [htables, hnextTable]
    exact h.table_oid
  · rw [hindexes]
    exact h.indexes_nodup.sublist (List.filter_sublist.map _)
  · exact hnames.1
  · exact hnames.2
  · intro tableName' indexName' oid'
    rw [h.files_dropIndex_iff, h.files_iff, hindexes]
    constructor
    · rintro ⟨⟨info, hinfo, rfl, rfl⟩, hnot⟩
      refine ⟨info, List.mem_filter.2 ⟨hinfo, decide_eq_true fun heq => hnot ?_⟩, rfl, rfl⟩
      dsimp only at heq
      rw [heq] at hinfo
      obtain rfl := eq_of_mem_of_nodup h.indexes_nodup hinfo hdropped
      exact ⟨htable, hname⟩
    · rintro ⟨info, hinfo, rfl, rfl⟩
      obtain ⟨hmem, hne⟩ := List.mem_filter.1 hinfo
      refine ⟨⟨info, hmem, rfl, rfl⟩, fun hboth => of_decide_eq_true hne ?_⟩
      have hfiles' : c.Files tableName indexName oid' :=
        (h.files_iff _ _ _).2 ⟨info, hmem, hboth.1, hboth.2⟩
      obtain ⟨names, hlookup, hoid⟩ := h.files_iff_lookup.1 hfiles
      obtain ⟨names', hlookup', hoid'⟩ := h.files_iff_lookup.1 hfiles'
      rw [hlookup] at hlookup'
      cases hlookup'
      rw [hoid] at hoid'
      exact (Option.some.inj hoid').symm
  · rw [hnextIndex]
    exact fun entry hentry => h.index_oid entry (hsub entry hentry)
  · rw [htableNames]
    exact fun entry hentry => h.index_table entry (hsub entry hentry)
  · exact fun entry hentry => h.keys entry (hsub entry hentry)

/-! ## What the lookups find -/

/-- A table that is found by its name has this name. -/
lemma mem_of_getTableByName {info : TableInfo}
    (hinfo : c.getTableByName tableName = pure (some info)) :
    tableName ∈ c.tableNames.map Prod.fst := by
  unfold Catalog.getTableByName at hinfo
  cases hlookup : c.tableNames.lookup tableName with
  | none =>
    simp only [hlookup] at hinfo
    cases hinfo
  | some oid => exact List.mem_map_of_mem (f := Prod.fst) (mem_of_lookup hlookup)

/-- The lookup of an index by its name. -/
lemma getIndexByName_eq_iff (h : c.Bijective) {info : IndexInfo} :
    c.getIndexByName indexName tableName = pure (some info) ↔
      ∃ oid, c.Files tableName indexName oid ∧ c.getIndex oid = some info := by
  unfold Catalog.getIndexByName Catalog.getIndex
  simp only [h.files_iff_lookup]
  cases hnames : c.indexNames.lookup tableName with
  | none =>
    constructor
    · intro hpure
      cases hpure
    · rintro ⟨oid, ⟨names, hlookup, -⟩, -⟩
      cases hlookup
  | some names =>
    dsimp only
    cases hoid : names.lookup indexName with
    | none =>
      constructor
      · intro hpure
        cases hpure
      · rintro ⟨oid, ⟨names', hlookup, hname⟩, -⟩
        cases hlookup
        rw [hoid] at hname
        cases hname
    | some oid =>
      unfold mapAt
      constructor
      · intro hpure
        refine ⟨oid, ⟨names, rfl, hoid⟩, ?_⟩
        cases hfound : c.indexes.lookup oid with
        | none =>
          simp only [hfound] at hpure
          cases hpure
        | some info' =>
          simp only [hfound] at hpure
          cases hpure
          rfl
      · rintro ⟨oid', ⟨names', hlookup, hname⟩, hfound⟩
        cases hlookup
        rw [hoid] at hname
        cases hname
        simp only [hfound]
        rfl

/-- The lookup of an index does not throw. -/
lemma getIndexByName (h : c.Bijective) (indexName tableName : String) :
    ∃ o, c.getIndexByName indexName tableName = pure o ∧
      (o.isSome = true ↔ ∃ oid, c.Files tableName indexName oid) := by
  by_cases hexists : ∃ oid, c.Files tableName indexName oid
  · obtain ⟨oid, hfiles⟩ := hexists
    obtain ⟨info, hinfo, -⟩ := (h.files_iff _ _ _).1 hfiles
    refine ⟨some info, h.getIndexByName_eq_iff.2 ⟨oid, hfiles, ?_⟩, ?_⟩
    · exact (lookup_eq_some_iff_mem h.indexes_nodup).2 hinfo
    · exact ⟨fun _ => ⟨oid, hfiles⟩, fun _ => rfl⟩
  · refine ⟨none, ?_, fun hsome => (by cases hsome), fun hfiles => absurd hfiles hexists⟩
    unfold Catalog.getIndexByName
    cases hnames : c.indexNames.lookup tableName with
    | none => rfl
    | some names =>
      cases hoid : names.lookup indexName with
      | none => simp only [hoid]
      | some oid => exact absurd ⟨oid, h.files_iff_lookup.2 ⟨names, hnames, hoid⟩⟩ hexists

/-- If no index of this name is found, none is filed under it. -/
lemma not_files_of_getIndexByName (h : c.Bijective) {found : Option IndexInfo}
    (hfound : c.getIndexByName indexName tableName = pure found) (hsome : ¬ found.isSome = true)
    (oid : ℕ) : ¬ c.Files tableName indexName oid := by
  obtain ⟨o, ho, hiff⟩ := h.getIndexByName indexName tableName
  rw [hfound] at ho
  obtain rfl := Except.ok.inj (Option.some.inj ho)
  exact fun hfiles => hsome (hiff.2 ⟨oid, hfiles⟩)

end Bijective

end OneBase.Catalog
