import OneBase.Catalog.CreateIndex

set_option relaxedAutoImplicit false
set_option autoImplicit false

/-!
# Consistent catalogs

The maps of a catalog refer to each other: every name of an index is filed with an oid that has an
index. The operations of the catalog keep this.

## Main definitions

* `OneBase.Catalog.Consistent` — the invariant.

## Main results

* `OneBase.Catalog.Consistent.addTable`, `addIndex`, `dropIndex`, `modifyIndex` — the operations
  keep it.
* `OneBase.Catalog.Consistent.getTableIndexes` — the indexes of a table exist.
-/

namespace OneBase.Catalog

/-- An index of this name is filed under this oid for this table. -/
def Files (c : Catalog) (tableName indexName : String) (oid : ℕ) : Prop :=
  ∃ names, (tableName, names) ∈ c.indexNames ∧ (indexName, oid) ∈ names

/-- Every name of a table or an index leads to one, a table is filed under its oid, no two names of
indexes lead to the same one, and a lookup index has a key. -/
structure Consistent (c : Catalog) : Prop where
  named : ∀ entry ∈ c.tableNames, entry.2 ∈ c.tables.map Prod.fst
  oids : ∀ entry ∈ c.tables, entry.2.oid = entry.1
  filed : ∀ tableName indexName oid, c.Files tableName indexName oid →
    oid ∈ c.indexes.map Prod.fst
  distinct : ∀ tableName indexName tableName' indexName' oid, c.Files tableName indexName oid →
    c.Files tableName' indexName' oid → tableName' = tableName ∧ indexName' = indexName
  keys : ∀ entry ∈ c.indexes, entry.2.supportsPointLookup = true → entry.2.keyAttrs ≠ []
  next : ∀ entry ∈ c.indexes, entry.1 < c.nextIndexOid

/-- The oid was given out for an index that is not filed yet. -/
structure Awaits (c : Catalog) (oid : ℕ) : Prop extends Consistent c where
  unfiled : ∀ entry ∈ c.indexes, entry.1 ≠ oid
  given : oid < c.nextIndexOid

variable {c : Catalog}

/-- The empty catalog. -/
lemma consistent_empty : Consistent {} where
  named := by simp
  oids := by simp
  filed := by
    rintro tableName indexName oid ⟨names, hnames, -⟩
    cases hnames
  distinct := by
    rintro tableName indexName tableName' indexName' oid ⟨names, hnames, -⟩
    cases hnames
  keys := by simp
  next := by simp

/-- What is looked up is an entry. -/
lemma mem_of_lookup {α β : Type} [BEq α] [LawfulBEq α] {l : List (α × β)} {a : α} {b : β}
    (h : l.lookup a = some b) : (a, b) ∈ l := by
  obtain ⟨before, after, rfl, -⟩ := List.lookup_eq_some_iff.1 h
  simp

/-- A key of a list of entries is found. -/
lemma exists_lookup {α β : Type} [BEq α] [LawfulBEq α] {l : List (α × β)} {a : α}
    (h : a ∈ l.map Prod.fst) : ∃ b, l.lookup a = some b := by
  obtain ⟨entry, hmem, rfl⟩ := List.mem_map.1 h
  cases hlookup : l.lookup entry.1 with
  | none => exact absurd (List.lookup_eq_none_iff.1 hlookup entry hmem) (by simp)
  | some b => exact ⟨b, rfl⟩

namespace Consistent

/-! ## Lookups -/

/-- The lookup of a table does not throw. -/
lemma getTableByName (h : c.Consistent) (tableName : String) :
    ∃ o, c.getTableByName tableName = pure o := by
  unfold Catalog.getTableByName
  cases hlookup : c.tableNames.lookup tableName with
  | none => exact ⟨none, rfl⟩
  | some oid =>
    obtain ⟨info, hinfo⟩ := exists_lookup (h.named _ (mem_of_lookup hlookup))
    refine ⟨some info, ?_⟩
    simp only [mapAt, hinfo]
    rfl

/-- A table that is found by its name is found by its oid. -/
lemma getTable (h : c.Consistent) {tableName : String} {info : TableInfo}
    (hinfo : c.getTableByName tableName = pure (some info)) :
    c.getTable info.oid = some info := by
  unfold Catalog.getTableByName at hinfo
  cases hlookup : c.tableNames.lookup tableName with
  | none =>
    simp only [hlookup] at hinfo
    cases hinfo
  | some oid =>
    simp only [hlookup, mapAt] at hinfo
    cases hfound : c.tables.lookup oid with
    | none =>
      simp only [hfound] at hinfo
      cases hinfo
    | some info' =>
      simp only [hfound] at hinfo
      cases hinfo
      unfold Catalog.getTable
      rw [h.oids _ (mem_of_lookup hfound)]
      exact hfound

/-- The indexes of a table exist. -/
lemma getTableIndexes (h : c.Consistent) (tableName : String) :
    ∃ oids, c.getTableIndexes tableName = pure oids ∧
      ∀ oid ∈ oids, ∃ i, c.getIndex oid = some i := by
  unfold Catalog.getTableIndexes Catalog.getIndex
  cases hlookup : c.indexNames.lookup tableName with
  | none => exact ⟨[], rfl, by simp⟩
  | some names =>
    have hindex : ∀ entry ∈ names, ∃ i, c.indexes.lookup entry.2 = some i := fun entry hentry =>
      exists_lookup (h.filed tableName entry.1 entry.2 ⟨names, mem_of_lookup hlookup, hentry⟩)
    refine ⟨names.map Prod.snd, ?_, ?_⟩
    · refine Cpp.mapM_eq_pure.2 ?_
      rw [List.forall₂_map_right_iff, List.forall₂_same]
      intro entry hentry
      obtain ⟨i, hi⟩ := hindex entry hentry
      simp only [mapAt, hi]
      rfl
    · intro oid hoid
      obtain ⟨entry, hentry, rfl⟩ := List.mem_map.1 hoid
      exact hindex entry hentry

/-- A lookup index has a lookup attribute. -/
lemma getLookupAttr (h : c.Consistent) {oid : ℕ} {i : IndexInfo} (hi : c.getIndex oid = some i)
    (hlookup : i.supportsPointLookup = true) : ∃ attr, i.getLookupAttr = pure attr := by
  have hkeys := h.keys _ (mem_of_lookup hi) hlookup
  unfold IndexInfo.getLookupAttr
  cases hattrs : i.keyAttrs with
  | nil => exact absurd hattrs hkeys
  | cons attr attrs => exact ⟨attr, rfl⟩

/-! ## The operations -/

/-- Only the number of oids given out changes. -/
lemma addOids (h : c.Consistent) (nextTableOid : ℕ) {nextIndexOid : ℕ}
    (hle : c.nextIndexOid ≤ nextIndexOid) :
    Consistent { c with nextTableOid := nextTableOid, nextIndexOid := nextIndexOid } where
  named := h.named
  oids := h.oids
  filed := h.filed
  distinct := h.distinct
  keys := h.keys
  next := fun entry hentry => lt_of_lt_of_le (h.next entry hentry) hle

/-- `CREATE TABLE`. -/
lemma addTable (h : c.Consistent) (tableName : String) (info : TableInfo) :
    Consistent { c with
      tables := (info.oid, info) :: c.tables
      tableNames := (tableName, info.oid) :: c.tableNames } where
  named := by
    intro entry hentry
    rw [List.map_cons, List.mem_cons]
    rcases List.mem_cons.1 hentry with rfl | hmem
    · exact .inl rfl
    · exact .inr (h.named entry hmem)
  oids := by
    intro entry hentry
    rcases List.mem_cons.1 hentry with rfl | hmem
    · rfl
    · exact h.oids entry hmem
  filed := h.filed
  distinct := h.distinct
  keys := h.keys
  next := h.next

/-- A change of an index that leaves its key. -/
lemma modifyIndex (h : c.Consistent) (oid : ℕ) {f : IndexInfo → IndexInfo}
    (hf : ∀ i, (f i).supportsPointLookup = i.supportsPointLookup ∧ (f i).keyAttrs = i.keyAttrs) :
    (c.modifyIndex oid f).Consistent := by
  have hentry : ∀ entry ∈ (c.modifyIndex oid f).indexes, ∃ entry' ∈ c.indexes,
      entry.1 = entry'.1 ∧ entry.2.supportsPointLookup = entry'.2.supportsPointLookup ∧
        entry.2.keyAttrs = entry'.2.keyAttrs := by
    intro entry hentry
    obtain ⟨entry', hmem, rfl⟩ := List.mem_map.1 hentry
    refine ⟨entry', hmem, ?_⟩
    split_ifs
    · exact ⟨rfl, hf entry'.2⟩
    · exact ⟨rfl, rfl, rfl⟩
  have hkeys : (c.modifyIndex oid f).indexes.map Prod.fst = c.indexes.map Prod.fst := by
    show (c.indexes.map _).map Prod.fst = _
    rw [List.map_map]
    refine List.map_congr_left fun entry _ => ?_
    show (if entry.1 = oid then _ else _ : ℕ × IndexInfo).1 = entry.1
    split_ifs <;> rfl
  refine ⟨h.named, h.oids, ?_, h.distinct, ?_, ?_⟩
  · intro tableName indexName oid' hfiles
    rw [hkeys]
    exact h.filed tableName indexName oid' hfiles
  · intro entry hmem hlookup
    obtain ⟨entry', hmem', -, hsupports, hattrs⟩ := hentry entry hmem
    rw [hattrs]
    exact h.keys entry' hmem' (hsupports ▸ hlookup)
  · intro entry hmem
    obtain ⟨entry', hmem', hoid, -⟩ := hentry entry hmem
    rw [hoid]
    exact h.next entry' hmem'

/-- `DROP INDEX`. -/
lemma dropIndex (h : c.Consistent) (indexName tableName : String) :
    (c.dropIndex indexName tableName).2.Consistent := by
  unfold Catalog.dropIndex
  cases hnames : c.indexNames.lookup tableName with
  | none => exact h
  | some names =>
    cases hoid : names.lookup indexName with
    | none =>
      simp only [hoid]
      exact h
    | some oid =>
      have hdropped : c.Files tableName indexName oid :=
        ⟨names, mem_of_lookup hnames, mem_of_lookup hoid⟩
      -- what is filed afterwards was filed before, under another name
      have hold : ∀ tableName' indexName' oid',
          ((c.dropIndex indexName tableName).2).Files tableName' indexName' oid' →
            c.Files tableName' indexName' oid' ∧
              (tableName' = tableName → indexName' ≠ indexName) := by
        unfold Catalog.dropIndex
        simp only [hnames, hoid]
        rintro tableName' indexName' oid' ⟨names', hentry, hmem⟩
        dsimp only at hentry
        split_ifs at hentry with hnil
        · obtain ⟨hentry, hne⟩ := List.mem_filter.1 hentry
          exact ⟨⟨names', hentry, hmem⟩, fun heq => absurd heq (by simpa using hne)⟩
        · obtain ⟨entry, hentry, heq⟩ := List.mem_map.1 hentry
          split_ifs at heq with htable
          · obtain ⟨rfl, rfl⟩ := Prod.mk.inj heq
            obtain ⟨hmem, hne⟩ := List.mem_filter.1 hmem
            exact ⟨⟨names, mem_of_lookup hnames, hmem⟩, fun _ => by simpa using hne⟩
          · subst heq
            exact ⟨⟨names', hentry, hmem⟩, fun heq => absurd heq htable⟩
      unfold Catalog.dropIndex at hold
      simp only [hnames, hoid] at hold ⊢
      refine ⟨h.named, h.oids, ?_, ?_, ?_, ?_⟩
      · intro tableName' indexName' oid' hafter
        obtain ⟨hfiles, hother⟩ := hold _ _ _ hafter
        have hne : oid' ≠ oid := by
          intro heq
          subst heq
          obtain ⟨htable, hindex⟩ := h.distinct _ _ _ _ _ hdropped hfiles
          exact hother htable hindex
        obtain ⟨entry, hentry, rfl⟩ := List.mem_map.1 (h.filed _ _ _ hfiles)
        exact List.mem_map.2 ⟨entry, List.mem_filter.2 ⟨hentry, by simpa using hne⟩, rfl⟩
      · intro _ _ _ _ _ hfiles hfiles'
        exact h.distinct _ _ _ _ _ (hold _ _ _ hfiles).1 (hold _ _ _ hfiles').1
      · exact fun entry hentry => h.keys entry (List.mem_filter.1 hentry).1
      · exact fun entry hentry => h.next entry (List.mem_filter.1 hentry).1

/-- The names filed after a new one was added are the new one and the ones that were filed before.
-/
lemma files_addIndexName {indexNames : List (String × List (String × ℕ))}
    {tableName indexName : String} {oid : ℕ} {entry : String × List (String × ℕ)}
    {name : String × ℕ} (hentry : entry ∈ addIndexName indexNames tableName indexName oid)
    (hname : name ∈ entry.2) :
    (entry.1 = tableName ∧ name = (indexName, oid)) ∨
      ∃ names, (entry.1, names) ∈ indexNames ∧ name ∈ names := by
  unfold addIndexName at hentry
  cases hnames : indexNames.lookup tableName with
  | none =>
    simp only [hnames] at hentry
    rcases List.mem_cons.1 hentry with rfl | hmem
    · exact .inl ⟨rfl, List.mem_singleton.1 hname⟩
    · exact .inr ⟨entry.2, hmem, hname⟩
  | some names =>
    simp only [hnames] at hentry
    obtain ⟨entry', hmem, rfl⟩ := List.mem_map.1 hentry
    split_ifs at hname ⊢ with htable
    · rcases List.mem_cons.1 hname with heq | hold
      · exact .inl ⟨rfl, heq⟩
      · exact .inr ⟨names, mem_of_lookup hnames, hold⟩
    · exact .inr ⟨entry'.2, hmem, hname⟩

/-- An oid for an index is given out. -/
lemma awaits (h : c.Consistent) :
    Awaits { c with nextIndexOid := c.nextIndexOid + 1 } c.nextIndexOid where
  toConsistent := h.addOids c.nextTableOid (Nat.le_succ _)
  unfiled := fun entry hentry => (h.next entry hentry).ne
  given := Nat.lt_succ_self _

/-- `CREATE INDEX`. -/
lemma addIndex {oid : ℕ} (h : Awaits c oid) (tableName indexName : String)
    {indexInfo : IndexInfo} (hkey : indexInfo.keyAttrs ≠ []) :
    Consistent { c with
      indexes := (oid, indexInfo) :: c.indexes
      indexNames := addIndexName c.indexNames tableName indexName oid } := by
  have hold : ∀ tableName' indexName' oid',
      Files { c with
        indexes := (oid, indexInfo) :: c.indexes
        indexNames := addIndexName c.indexNames tableName indexName oid }
        tableName' indexName' oid' →
      (tableName' = tableName ∧ indexName' = indexName ∧ oid' = oid) ∨
        c.Files tableName' indexName' oid' ∧ oid' ≠ oid := by
    rintro tableName' indexName' oid' ⟨names, hentry, hmem⟩
    rcases files_addIndexName hentry hmem with ⟨htable, hname⟩ | ⟨names', hentry', hmem'⟩
    · obtain ⟨rfl, rfl⟩ := Prod.mk.inj hname
      exact .inl ⟨htable, rfl, rfl⟩
    · have hfiles : c.Files tableName' indexName' oid' := ⟨names', hentry', hmem'⟩
      obtain ⟨entry, hfiled, rfl⟩ := List.mem_map.1 (h.filed _ _ _ hfiles)
      exact .inr ⟨hfiles, h.unfiled entry hfiled⟩
  refine ⟨h.named, h.oids, ?_, ?_, ?_, ?_⟩
  · intro tableName' indexName' oid' hfiles
    rw [List.map_cons, List.mem_cons]
    rcases hold _ _ _ hfiles with ⟨-, -, rfl⟩ | ⟨hfiles, -⟩
    · exact .inl rfl
    · exact .inr (h.filed _ _ _ hfiles)
  · intro _ _ _ _ oid' hfiles hfiles'
    rcases hold _ _ _ hfiles with ⟨rfl, rfl, rfl⟩ | ⟨hfiles, hne⟩
    · rcases hold _ _ _ hfiles' with ⟨rfl, rfl, -⟩ | ⟨-, hne⟩
      · exact ⟨rfl, rfl⟩
      · exact absurd rfl hne
    · rcases hold _ _ _ hfiles' with ⟨-, -, rfl⟩ | ⟨hfiles', -⟩
      · exact absurd rfl hne
      · exact h.distinct _ _ _ _ _ hfiles hfiles'
  · intro entry hentry hlookup
    rcases List.mem_cons.1 hentry with rfl | hmem
    · exact hkey
    · exact h.keys entry hmem hlookup
  · intro entry hentry
    rcases List.mem_cons.1 hentry with rfl | hmem
    · exact h.given
    · exact h.next entry hmem

end Consistent

end OneBase.Catalog
