import OneBase.Execution.Indexes
import OneBase.Storage.Table.HeapUpdates

set_option relaxedAutoImplicit false
set_option autoImplicit false

/-!
# Modified rows

What the loops of `INSERT` and `DELETE` do with a row, on a table of integers with its indexes.

## Main definitions

* `OneBase.Carries` — the row has these bytes, and the keys in them.
* `OneBase.insertChange`, `OneBase.deleteChange` — what becomes of an index.

## Main results

* `OneBase.IntegerTable.insertRow_returns`, `OneBase.IntegerTable.exists_insertRow` — a row is
  inserted.
* `OneBase.IntegerTable.deleteRow_returns`, `OneBase.IntegerTable.exists_deleteRow` — a row is
  deleted.
-/

namespace OneBase

open Exec TableHeap

/-- A row with these bytes, whose keys are read from them. -/
structure Carries (schema : Schema) (b : List UInt8) (tuple : Tuple) : Prop where
  data : tuple.data = b
  keyOf : ∀ attr < schema.columns.length, tuple.keyOf schema attr = pure (keyAt attr b)

/-- What `INSERT` does with an index. -/
def insertChange (schema : Schema) (tuple : Tuple) (rid : RID) (attr : ℕ) :
    Cpp (IndexInfo → IndexInfo) := do
  let key ← tuple.keyOf schema attr
  pure fun i => i.insertEntry key rid

/-- What `DELETE` does with an index. -/
def deleteChange (schema : Schema) (tuple : Tuple) (rid : RID) (attr : ℕ) :
    Cpp (IndexInfo → IndexInfo) := do
  let key ← tuple.keyOf schema attr
  pure fun i => i.removeEntry key rid

section Rows

variable {s : Schema} {r : RID × List UInt8} {b : List UInt8} {tuple : Tuple} {n : ℕ}

/-- The tuple of a sequential scan carries the row. -/
lemma carries_parsedTuple (hn : s.columns.length = n) : Carries s r.2 (parsedTuple n r) where
  data := rfl
  keyOf := by
    intro attr hattr
    unfold Tuple.keyOf
    rw [getValueAt_parsed (hn ▸ hattr), pure_bind]
    rfl

/-- The raw tuple of a row of integers carries it. -/
lemma carries_rawTuple (h : s.IsInteger) (hlen : r.2.length = 4 * s.columns.length)
    (hsize : r.2.length < 2 ^ 32) : Carries s r.2 (rawTuple r) where
  data := rfl
  keyOf := by
    intro attr hattr
    unfold Tuple.keyOf
    rw [h.getValueAt_raw hattr hlen hsize, pure_bind]
    rfl

/-- A tuple that carries a row below 4 GiB is stored as its bytes. -/
lemma Carries.bytesOf_eq (h : Carries s b tuple) (hsize : b.length < 2 ^ 32) :
    bytesOf tuple = b := by
  unfold bytesOf Tuple.getLength
  rw [h.data, Nat.mod_eq_of_lt hsize, List.take_length]

end Rows

/-! ## The catalog -/

section Maintenance

variable {c c' : Catalog} {oids : List ℕ} {change : ℕ → Cpp (IndexInfo → IndexInfo)}
  {tableInfo : TableInfo} {tuple : Tuple} {b : List UInt8} {rid : RID} {name : String}
  {before after : List (RID × List UInt8)}

/-- The change only touches the key maps. -/
def OnlyEntries (change : ℕ → Cpp (IndexInfo → IndexInfo)) : Prop :=
  ∀ attr f i, change attr = pure f → f i = { i with intRidMap := (f i).intRidMap }

/-- Filing an entry changes the entries of an index only. -/
lemma onlyEntries_insertChange (schema : Schema) (tuple : Tuple) (rid : RID) :
    OnlyEntries (insertChange schema tuple rid) := by
  intro attr f i hf
  obtain ⟨key, -, hkey⟩ := Cpp.bind_eq_pure.1 hf
  cases hkey
  rfl

/-- Removing an entry changes the entries of an index only. -/
lemma removeEntry_eq (i : IndexInfo) (key : ℤ) (rid : RID) :
    i.removeEntry key rid = { i with intRidMap := (i.removeEntry key rid).intRidMap } := by
  unfold IndexInfo.removeEntry
  cases i.intRidMap key <;> rfl

/-- The change of `DELETE` removes an entry, and changes nothing else. -/
lemma onlyEntries_deleteChange (schema : Schema) (tuple : Tuple) (rid : RID) :
    OnlyEntries (deleteChange schema tuple rid) := by
  intro attr f i hf
  obtain ⟨key, -, hkey⟩ := Cpp.bind_eq_pure.1 hf
  cases hkey
  exact removeEntry_eq i key rid

/-- A change of the entries keeps the rest of an index. -/
lemma IndexInfo.changed_eq {i i' : IndexInfo} (h : i.changed change = pure i')
    (honly : OnlyEntries change) : i' = { i with intRidMap := i'.intRidMap } := by
  unfold IndexInfo.changed at h
  split at h
  · obtain ⟨attr, -, hrest⟩ := Cpp.bind_eq_pure.1 h
    obtain ⟨f, hf, hfin⟩ := Cpp.bind_eq_pure.1 hrest
    cases hfin
    exact honly attr f i hf
  · cases h
    rfl

/-- An index is there before iff it is there afterwards, and has only other entries. -/
lemma Catalog.Maintained.getIndex (h : c.Maintained oids change c') (honly : OnlyEntries change)
    (oid : ℕ) : (c.getIndex oid = none ∧ c'.getIndex oid = none) ∨
      ∃ i i', c.getIndex oid = some i ∧ c'.getIndex oid = some i' ∧
        i' = { i with intRidMap := i'.intRidMap } := by
  by_cases hoid : oid ∈ oids
  · obtain ⟨i, i', hi, hchanged, hi'⟩ := h.changed oid hoid
    exact .inr ⟨i, i', hi, hi', IndexInfo.changed_eq hchanged honly⟩
  · rw [h.unchanged oid hoid]
    cases c.getIndex oid with
    | none => exact .inl ⟨rfl, rfl⟩
    | some i => exact .inr ⟨i, i, rfl, rfl, rfl⟩

/-- `GetTableIndexes` lists the same indexes as before. -/
lemma Catalog.Maintained.getTableIndexes (h : c.Maintained oids change c')
    (honly : OnlyEntries change) (name : String) :
    c'.getTableIndexes name = c.getTableIndexes name := by
  have hnames : c'.indexNames = c.indexNames := by
    rw [h.others]
  have hentry : ∀ entry : String × ℕ,
      (do let _ ← Catalog.mapAt c'.indexes entry.2; pure entry.2 : Cpp ℕ) =
        (do let _ ← Catalog.mapAt c.indexes entry.2; pure entry.2) := by
    intro entry
    unfold Catalog.mapAt
    rcases h.getIndex honly entry.2 with ⟨hnone, hnone'⟩ | ⟨i, i', hi, hi', -⟩
    · unfold Catalog.getIndex at hnone hnone'
      rw [hnone, hnone']
    · unfold Catalog.getIndex at hi hi'
      rw [hi, hi']
      rfl
  unfold Catalog.getTableIndexes
  rw [hnames]
  cases c.indexNames.lookup name with
  | none => rfl
  | some names => simp only [hentry]

/-- The table has the same indexes as before. -/
lemma TableIndexes.maintained {listed : List ℕ} (hindexes : TableIndexes c tableInfo listed)
    (h : c.Maintained oids change c') (honly : OnlyEntries change) :
    TableIndexes c' tableInfo listed where
  listed := (h.getTableIndexes honly _).trans hindexes.listed
  nodup := hindexes.nodup
  filed := by
    intro oid hoid
    obtain ⟨i, hi, hoid', attr, hlt, hattr⟩ := hindexes.filed oid hoid
    rcases h.getIndex honly oid with ⟨hnone, -⟩ | ⟨j, j', hj, hj', heq⟩
    · rw [hi] at hnone
      cases hnone
    · obtain rfl := Option.some.inj (hi.symm.trans hj)
      refine ⟨j', hj', ?_, attr, hlt, ?_⟩
      · rw [heq]
        exact hoid'
      · rw [heq]
        exact hattr

/-- The indexes of the table can be changed. -/
lemma TableIndexes.changeable (hindexes : TableIndexes c tableInfo oids)
    (hchange : ∀ attr < tableInfo.schema.columns.length, ∃ f, change attr = pure f) :
    ∀ oid ∈ oids, ∃ i i', c.getIndex oid = some i ∧ i.changed change = pure i' := by
  intro oid hoid
  obtain ⟨i, hi, -, attr, hlt, hattr⟩ := hindexes.filed oid hoid
  obtain ⟨f, hf⟩ := hchange attr hlt
  refine ⟨i, if i.supportsPointLookup then f i else i, hi, ?_⟩
  unfold IndexInfo.changed
  rw [hattr, pure_bind, hf, pure_bind]
  split_ifs <;> rfl

/-- What the loop makes of a lookup index of the table. -/
lemma TableIndexes.exists_changed (hindexes : TableIndexes c tableInfo oids)
    (h : c.Maintained oids change c') (honly : OnlyEntries change) {oid : ℕ} (hoid : oid ∈ oids)
    {i' : IndexInfo} {attr : ℕ} (hi' : c'.getIndex oid = some i')
    (hlookup : i'.supportsPointLookup = true) (hattr : i'.getLookupAttr = pure attr) :
    ∃ i f, c.getIndex oid = some i ∧ i.supportsPointLookup = true ∧
      i.getLookupAttr = pure attr ∧ attr < tableInfo.schema.columns.length ∧
      change attr = pure f ∧ i' = f i := by
  obtain ⟨i, j, hi, hchanged, hj⟩ := h.changed oid hoid
  obtain rfl : j = i' := Option.some.inj (hj.symm.trans hi')
  have heq := IndexInfo.changed_eq hchanged honly
  rw [heq] at hlookup hattr
  have hlookup' : i.supportsPointLookup = true := hlookup
  have hattr' : i.getLookupAttr = pure attr := hattr
  unfold IndexInfo.changed at hchanged
  rw [if_pos hlookup', hattr', pure_bind] at hchanged
  obtain ⟨f, hf, hfin⟩ := Cpp.bind_eq_pure.1 hchanged
  obtain ⟨k, hk, -, attr', hlt, hattr''⟩ := hindexes.filed oid hoid
  obtain rfl := Option.some.inj (hi.symm.trans hk)
  cases hattr'.symm.trans hattr''
  cases hfin
  exact ⟨i, f, hi, hlookup', hattr', hlt, hf, rfl⟩

/-- A new row is filed in the indexes of the table. -/
lemma TableIndexes.agrees_insert (hindexes : TableIndexes c tableInfo oids)
    (hagrees : c.Agrees oids (before ++ after)) (hcarries : Carries tableInfo.schema b tuple)
    (hnew : rid ∉ (before ++ after).map Prod.fst)
    (h : c.Maintained oids (insertChange tableInfo.schema tuple rid) c') :
    c'.Agrees oids (before ++ (rid, b) :: after) := by
  intro oid hoid i' attr hi' hlookup hattr
  obtain ⟨i, f, hi, hlookup', hattr', hlt, hf, rfl⟩ :=
    hindexes.exists_changed h (onlyEntries_insertChange _ _ _) hoid hi' hlookup hattr
  unfold insertChange at hf
  rw [hcarries.keyOf attr hlt, pure_bind] at hf
  cases hf
  exact (hagrees oid hoid i attr hi hlookup' hattr').insertEntry hnew

/-- A row that goes is taken out of the indexes of the table. -/
lemma TableIndexes.agrees_delete (hindexes : TableIndexes c tableInfo oids)
    (hagrees : c.Agrees oids (before ++ (rid, b) :: after))
    (hcarries : Carries tableInfo.schema b tuple)
    (hnodup : ((before ++ (rid, b) :: after).map Prod.fst).Nodup)
    (h : c.Maintained oids (deleteChange tableInfo.schema tuple rid) c') :
    c'.Agrees oids (before ++ after) := by
  intro oid hoid i' attr hi' hlookup hattr
  obtain ⟨i, f, hi, hlookup', hattr', hlt, hf, rfl⟩ :=
    hindexes.exists_changed h (onlyEntries_deleteChange _ _ _) hoid hi' hlookup hattr
  unfold deleteChange at hf
  rw [hcarries.keyOf attr hlt, pure_bind] at hf
  cases hf
  exact (hagrees oid hoid i attr hi hlookup' hattr').removeEntry hnodup

end Maintenance

/-! ## The table -/

/-- The context after a row with these bytes was inserted into the table. -/
structure RowInserted (tableInfo : TableInfo) (oids : List ℕ) (b : List UInt8) (ctx : ExecutorContext)
    (pages : Pages) (rid : RID) (ctx' : ExecutorContext) (pages' : Pages) : Prop where
  table : IntegerTable ctx' tableInfo pages'
  inserts : Inserts tableInfo.table b ctx.bpm pages (some rid) ctx'.bpm pages'
  rows : ∃ before after, liveRows pages = before ++ after ∧
    liveRows pages' = before ++ (rid, b) :: after
  catalog : ∃ tuple, Carries tableInfo.schema b tuple ∧
    ctx.catalog.Maintained oids (insertChange tableInfo.schema tuple rid) ctx'.catalog
  poolSize_eq : ctx'.poolSize = ctx.poolSize

/-- The context after a row was deleted from the table. -/
structure RowDeleted (tableInfo : TableInfo) (oids : List ℕ) (b : List UInt8) (ctx : ExecutorContext)
    (pages : Pages) (rid : RID) (ctx' : ExecutorContext) (pages' : Pages) : Prop where
  table : IntegerTable ctx' tableInfo pages'
  frame : Frame (pages.map Prod.fst) ctx.bpm ctx'.bpm
  pages_eq : pages'.map Prod.fst = pages.map Prod.fst
  rows : ∃ before after, liveRows pages = before ++ (rid, b) :: after ∧
    liveRows pages' = before ++ after
  catalog : ∃ tuple, Carries tableInfo.schema b tuple ∧
    ctx.catalog.Maintained oids (deleteChange tableInfo.schema tuple rid) ctx'.catalog
  poolSize_eq : ctx'.poolSize = ctx.poolSize

section Tables

variable {ctx ctx' : ExecutorContext} {tableInfo : TableInfo} {pages pages' : Pages}
  {oids : List ℕ} {b : List UInt8} {row : Row} {count count' : ℤ} {fuel : ℕ} {rid : RID}

/-- The counter goes up by one. -/
lemma countUp_returns (h : countUp count = pure count') : count' = count + 1 := by
  unfold countUp at h
  split at h
  · cases h
    rfl
  · cases h

/-- The counter stays below `2 ^ 31`. -/
lemma countUp_lt (h : countUp count = pure count') : count' < 2 ^ 31 := by
  unfold countUp at h
  split at h
  · cases h
    assumption
  · cases h

/-- The counter goes up as long as it is below `2 ^ 31 - 1`. -/
lemma countUp_eq (h : count + 1 < 2 ^ 31) : countUp count = pure (count + 1) := if_pos h

/-- A row that fits on a page is inserted. -/
lemma IntegerTable.rowInserted (h : IntegerTable ctx tableInfo pages)
    (hcarries : Carries tableInfo.schema b row.1)
    (hlen : b.length = 4 * tableInfo.schema.columns.length) (hfits : b.length + 20 ≤ pageSize)
    (hne : b ≠ []) {r : Option RID} {bpm : PageStore TablePage} {c : Catalog}
    (hinserts : Inserts tableInfo.table b ctx.bpm pages r bpm pages')
    (hcatalog : ∀ rid, r = some rid →
      ctx.catalog.Maintained oids (insertChange tableInfo.schema row.1 rid) c) :
    ∃ rid, r = some rid ∧ RowInserted tableInfo oids b ctx pages rid
      { ctx with bpm := bpm, catalog := c } pages' := by
  obtain ⟨rid, before, after, rfl, hrows, hrows'⟩ : ∃ rid before after, r = some rid ∧
      liveRows pages = before ++ after ∧ liveRows pages' = before ++ (rid, b) :: after := by
    have hgrows := hinserts.grows
    generalize hl : liveRows pages = l at hgrows
    generalize hl' : liveRows pages' = l' at hgrows
    cases hgrows with
    | refused hlarge => omega
    | @inserted rid before after =>
      refine ⟨rid, before, after, rfl, rfl, ?_⟩
      rw [if_neg hne]
      simp
  refine ⟨rid, rfl, ?_, hinserts, ⟨before, after, hrows, hrows'⟩,
    ⟨row.1, hcarries, hcatalog rid rfl⟩, rfl⟩
  refine ⟨⟨hinserts.frame.ready, h.frames, hinserts.holds⟩, h.schema, fun x hx => ?_⟩
  rw [hrows', List.mem_append, List.mem_cons] at hx
  have hold := h.rows
  rw [hrows] at hold
  rcases hx with hx | rfl | hx
  · exact hold x (List.mem_append_left _ hx)
  · exact hlen
  · exact hold x (List.mem_append_right _ hx)

/-- The body of the loop of `INSERT`, if it returns. -/
lemma IntegerTable.insertRow_returns (h : IntegerTable ctx tableInfo pages)
    (hframes : 2 ≤ ctx.poolSize) (hnodup : oids.Nodup)
    (hcarries : Carries tableInfo.schema b row.1)
    (hlen : b.length = 4 * tableInfo.schema.columns.length) (hfits : b.length + 20 ≤ pageSize)
    (hne : b ≠ []) (hret : Returns (insertRow fuel tableInfo oids count row) ctx count' ctx') :
    count' = count + 1 ∧ ∃ rid pages', RowInserted tableInfo oids b ctx pages rid ctx' pages' := by
  have hbytes : bytesOf row.1 = b := hcarries.bytesOf_eq (by unfold pageSize at hfits; omega)
  obtain ⟨r, c₁, hinsert, hret₁⟩ := returns_bind.1 hret
  obtain ⟨bpm, hrun, rfl⟩ := returns_ofProgram.1 hinsert
  obtain ⟨pages', hinserts⟩ := (h.holds.insertTuple h.ready hframes fuel row.1).2 _ _ hrun
  rw [hbytes] at hinserts
  cases r with
  | none =>
    have hnone : ∀ rid, none = some rid → ctx.catalog.Maintained oids
      (insertChange tableInfo.schema row.1 rid) ctx.catalog := nofun
    obtain ⟨rid, hcontra, -⟩ := h.rowInserted hcarries hlen hfits hne hinserts hnone
    cases hcontra
  | some rid =>
    obtain ⟨n, c₂, hcount, hret₂⟩ := returns_bind.1 hret₁
    obtain ⟨hcount', rfl⟩ := returns_ofCpp.1 hcount
    obtain ⟨⟨⟩, c₃, hloop, hret₃⟩ := returns_bind.1 hret₂
    obtain ⟨rfl, rfl⟩ := returns_pure.1 hret₃
    obtain ⟨hmaintained, hc₃⟩ := returns_maintainIndexes hnodup hloop
    have hsome : ∀ rid', some rid = some rid' → ctx.catalog.Maintained oids
        (insertChange tableInfo.schema row.1 rid') c₃.catalog := by
      intro rid' hrid'
      cases hrid'
      exact hmaintained
    obtain ⟨rid', hrid', hinserted⟩ := h.rowInserted hcarries hlen hfits hne hinserts hsome
    cases hrid'
    rw [← hc₃] at hinserted
    exact ⟨countUp_returns hcount', rid, pages', hinserted⟩

/-- The body of the loop of `INSERT` returns, if there are page ids left. -/
lemma IntegerTable.exists_insertRow (h : IntegerTable ctx tableInfo pages)
    (hframes : 2 ≤ ctx.poolSize) (hindexes : TableIndexes ctx.catalog tableInfo oids)
    (hcarries : Carries tableInfo.schema b row.1)
    (hlen : b.length = 4 * tableInfo.schema.columns.length) (hfits : b.length + 20 ≤ pageSize)
    (hne : b ≠ []) (hnext : ctx.bpm.nextPageId < 2 ^ 31) (hfuel : pages.length ≤ fuel)
    (hcount : count + 1 < 2 ^ 31) :
    ∃ ctx', Returns (insertRow fuel tableInfo oids count row) ctx (count + 1) ctx' := by
  have hbytes : bytesOf row.1 = b := hcarries.bytesOf_eq (by unfold pageSize at hfits; omega)
  obtain ⟨htotal, hwhen⟩ := h.holds.insertTuple h.ready hframes fuel row.1
  obtain ⟨r, bpm, hrun⟩ := htotal hfuel hnext
  obtain ⟨pages', hinserts⟩ := hwhen r bpm hrun
  rw [hbytes] at hinserts
  have hinsert : Returns (ofProgram (TableHeap.insertTuple fuel tableInfo.table row.1)) ctx r
      { ctx with bpm := bpm } := returns_ofProgram.2 ⟨bpm, hrun, rfl⟩
  cases r with
  | none =>
    have hnone : ∀ rid, none = some rid → ctx.catalog.Maintained oids
      (insertChange tableInfo.schema row.1 rid) ctx.catalog := nofun
    obtain ⟨rid, hcontra, -⟩ := h.rowInserted hcarries hlen hfits hne hinserts hnone
    cases hcontra
  | some rid =>
    have hchange : ∀ attr < tableInfo.schema.columns.length,
        ∃ f, insertChange tableInfo.schema row.1 rid attr = pure f := by
      intro attr hattr
      unfold insertChange
      rw [hcarries.keyOf attr hattr, pure_bind]
      exact ⟨_, rfl⟩
    obtain ⟨ctx', hloop⟩ : ∃ ctx', Returns (maintainIndexes oids
        (insertChange tableInfo.schema row.1 rid)) { ctx with bpm := bpm } () ctx' :=
      exists_maintainIndexes hindexes.nodup (hindexes.changeable hchange)
    refine ⟨ctx', returns_bind.2 ⟨some rid, _, hinsert, ?_⟩⟩
    refine returns_bind.2 ⟨count + 1, _, returns_ofCpp.2 ⟨countUp_eq hcount, rfl⟩, ?_⟩
    exact returns_bind.2 ⟨(), ctx', hloop, returns_pure.2 ⟨rfl, rfl⟩⟩

/-- The body of the loop of `DELETE`, if it returns. -/
lemma IntegerTable.deleteRow_returns (h : IntegerTable ctx tableInfo pages) (hnodup : oids.Nodup)
    (hcarries : Carries tableInfo.schema b row.1) (hrow : (row.2, b) ∈ liveRows pages)
    (hret : Returns (deleteRow tableInfo oids count row) ctx count' ctx') :
    count' = count + 1 ∧ ∃ pages', RowDeleted tableInfo oids b ctx pages row.2 ctx' pages' := by
  obtain ⟨before, after, hrows⟩ := List.append_of_mem hrow
  obtain ⟨bpm, pages', hrun, hholds, hrows', hpages, hframe⟩ :=
    h.holds.deleteTuple h.ready h.frames hrows
  obtain ⟨⟨⟩, c₁, hdelete, hret₁⟩ := returns_bind.1 hret
  obtain ⟨bpm', hrun', rfl⟩ := returns_ofProgram.1 hdelete
  obtain ⟨-, rfl⟩ := Prod.mk.inj (Option.some.inj (hrun.symm.trans hrun'))
  obtain ⟨n, c₂, hcount, hret₂⟩ := returns_bind.1 hret₁
  obtain ⟨hcount', rfl⟩ := returns_ofCpp.1 hcount
  obtain ⟨⟨⟩, c₃, hloop, hret₃⟩ := returns_bind.1 hret₂
  obtain ⟨rfl, rfl⟩ := returns_pure.1 hret₃
  obtain ⟨hmaintained, hc₃⟩ := returns_maintainIndexes hnodup hloop
  refine ⟨countUp_returns hcount', pages', ?_⟩
  rw [hc₃]
  refine ⟨⟨⟨hframe.ready, h.frames, hholds⟩, h.schema, fun x hx => ?_⟩, hframe, hpages,
    ⟨before, after, hrows, hrows'⟩, ⟨row.1, hcarries, hmaintained⟩, rfl⟩
  apply h.rows
  rw [hrows', List.mem_append] at hx
  rw [hrows, List.mem_append, List.mem_cons]
  tauto

/-- The body of the loop of `DELETE` returns. -/
lemma IntegerTable.exists_deleteRow (h : IntegerTable ctx tableInfo pages)
    (hindexes : TableIndexes ctx.catalog tableInfo oids)
    (hcarries : Carries tableInfo.schema b row.1) (hrow : (row.2, b) ∈ liveRows pages)
    (hcount : count + 1 < 2 ^ 31) :
    ∃ ctx', Returns (deleteRow tableInfo oids count row) ctx (count + 1) ctx' := by
  obtain ⟨before, after, hrows⟩ := List.append_of_mem hrow
  obtain ⟨bpm, pages', hrun, -⟩ := h.holds.deleteTuple h.ready h.frames hrows
  have hdelete : Returns (ofProgram (TableHeap.deleteTuple row.2)) ctx ()
      { ctx with bpm := bpm } := returns_ofProgram.2 ⟨bpm, hrun, rfl⟩
  have hchange : ∀ attr < tableInfo.schema.columns.length,
      ∃ f, deleteChange tableInfo.schema row.1 row.2 attr = pure f := by
    intro attr hattr
    unfold deleteChange
    rw [hcarries.keyOf attr hattr, pure_bind]
    exact ⟨_, rfl⟩
  obtain ⟨ctx', hloop⟩ : ∃ ctx', Returns (maintainIndexes oids
      (deleteChange tableInfo.schema row.1 row.2)) { ctx with bpm := bpm } () ctx' :=
    exists_maintainIndexes hindexes.nodup (hindexes.changeable hchange)
  refine ⟨ctx', returns_bind.2 ⟨(), _, hdelete, ?_⟩⟩
  refine returns_bind.2 ⟨count + 1, _, returns_ofCpp.2 ⟨countUp_eq hcount, rfl⟩, ?_⟩
  exact returns_bind.2 ⟨(), ctx', hloop, returns_pure.2 ⟨rfl, rfl⟩⟩

end Tables

/-! ## The statement -/

section Statement

variable {count count' : ℤ}

/-- The count in the row that the statement returns. -/
lemma countTuple_eq (count : ℤ) : ∃ tuple, countTuple count = pure tuple ∧
    tuple.values = [Value.ofInt (BitVec.ofInt 32 count)] := by
  refine ⟨_, ofValues_eq fun v hv => ?_, rfl⟩
  obtain rfl := List.mem_singleton.1 hv
  exact ⟨by simp [Value.ofInt, Value.getTypeId, Payload.typeId],
    by simp [Value.ofInt, Value.encodedSize]⟩

/-- The count is read off the row that is returned. -/
lemma countTuple_inj {tuple : Tuple} (hcount : countTuple count = pure tuple)
    (hcount' : countTuple count' = pure tuple) (hlo : 0 ≤ count) (hhi : count < 2 ^ 31)
    (hlo' : 0 ≤ count') (hhi' : count' < 2 ^ 31) : count = count' := by
  obtain ⟨t, ht, hvalues⟩ := countTuple_eq count
  obtain ⟨t', ht', hvalues'⟩ := countTuple_eq count'
  cases hcount.symm.trans ht
  cases hcount'.symm.trans ht'
  rw [hvalues] at hvalues'
  have hbits : BitVec.ofInt 32 count = BitVec.ofInt 32 count' := by
    simpa [Value.ofInt] using hvalues'
  have hint := congrArg BitVec.toInt hbits
  have hsmall : ∀ i : ℤ, 0 ≤ i → i < 2 ^ 31 → i.bmod (2 ^ 32) = i := by
    intro i hlo hhi
    exact Int.bmod_eq_of_le (by omega) (by omega)
  rwa [BitVec.toInt_ofInt, BitVec.toInt_ofInt, hsmall _ hlo hhi, hsmall _ hlo' hhi'] at hint

end Statement

/-- What the engine returns for a modification: the count of a loop over the rows of the child. -/
lemma returns_execute_modification {ctx ctx' : ExecutorContext} {outputSchema : Schema}
    {child : Executor} {oid fuel n : ℕ} {body : TableInfo → List ℕ → ℤ → Row → Exec ℤ}
    {result : List Tuple} :
    Returns (execute n (modificationExecutor fuel outputSchema child oid body)) ctx result ctx' ↔
      2 ≤ n ∧ ∃ st c tableInfo oids st' count tuple, Returns (child.init child.fresh) ctx st c ∧
        c.catalog.getTable oid = some tableInfo ∧
        c.catalog.getTableIndexes tableInfo.name = pure oids ∧
        Returns (forEachRow child.next (body tableInfo oids) fuel st 0) c (st', count) ctx' ∧
        countTuple count = pure tuple ∧ result = [tuple] := by
  constructor
  · intro h
    obtain ⟨st, c, hinit, h₁⟩ := returns_bind.1 h
    obtain ⟨childState, c₀, hchild, h₂⟩ := returns_bind.1 hinit
    obtain ⟨rfl, rfl⟩ := returns_pure.1 h₂
    obtain ⟨⟨s, rows⟩, c₁, hloop, h₃⟩ := returns_bind.1 h₁
    obtain ⟨rfl, rfl⟩ := returns_pure.1 h₃
    cases n with
    | zero => exact absurd hloop not_returns_undefined
    | succ n =>
      obtain ⟨⟨o, s₁⟩, c₂, hnext, hrest⟩ := returns_bind.1 hloop
      obtain ⟨catalog, c₃, hcatalog, hn₁⟩ := returns_bind.1 hnext
      obtain ⟨rfl, rfl⟩ := returns_getCatalog.1 hcatalog
      obtain ⟨tableInfo, c₄, htable, hn₂⟩ := returns_bind.1 hn₁
      obtain ⟨htable', rfl⟩ := returns_deref.1 htable
      obtain ⟨oids, c₅, hindexes, hn₃⟩ := returns_bind.1 hn₂
      obtain ⟨hindexes', rfl⟩ := returns_ofCpp.1 hindexes
      obtain ⟨⟨st', count⟩, c₆, hfor, hn₄⟩ := returns_bind.1 hn₃
      obtain ⟨tuple, c₇, htuple, hn₅⟩ := returns_bind.1 hn₄
      obtain ⟨htuple', rfl⟩ := returns_ofCpp.1 htuple
      obtain ⟨heq, rfl⟩ := returns_pure.1 hn₅
      obtain ⟨rfl, rfl⟩ := Prod.mk.inj heq
      obtain ⟨acc, c₈, hacc, htail⟩ := returns_bind.1 hrest
      obtain ⟨rfl, rfl⟩ := returns_pure.1 hacc
      cases n with
      | zero => exact absurd htail not_returns_undefined
      | succ n =>
        obtain ⟨⟨o, s₂⟩, c₉, hdone, hfin⟩ := returns_bind.1 htail
        obtain ⟨heq', rfl⟩ := returns_pure.1 hdone
        obtain ⟨rfl, rfl⟩ := Prod.mk.inj heq'
        obtain ⟨heq'', rfl⟩ := returns_pure.1 hfin
        obtain ⟨rfl, rfl⟩ := Prod.mk.inj heq''
        exact ⟨by omega, childState, _, tableInfo, oids, st', count, tuple, hchild, htable',
          hindexes', hfor, htuple', rfl⟩
  · rintro ⟨hn, st, c, tableInfo, oids, st', count, tuple, hchild, htable, hindexes, hfor, htuple,
      rfl⟩
    obtain ⟨n, rfl⟩ : ∃ m, n = m + 2 := ⟨n - 2, by omega⟩
    refine returns_bind.2 ⟨{ child := st }, c, ?_, ?_⟩
    · exact returns_bind.2 ⟨st, c, hchild, returns_pure.2 ⟨rfl, rfl⟩⟩
    refine returns_bind.2 ⟨(({ child := st', done := true } : Modification child.State), [tuple]),
      ctx', ?_, returns_pure.2 ⟨rfl, rfl⟩⟩
    refine returns_bind.2 ⟨(some (tuple, default), { child := st', done := true }), ctx', ?_, ?_⟩
    · refine returns_bind.2 ⟨_, c, returns_getCatalog.2 ⟨rfl, rfl⟩, ?_⟩
      refine returns_bind.2 ⟨tableInfo, c, returns_deref.2 ⟨htable, rfl⟩, ?_⟩
      refine returns_bind.2 ⟨oids, c, returns_ofCpp.2 ⟨hindexes, rfl⟩, ?_⟩
      refine returns_bind.2 ⟨(st', count), ctx', hfor, ?_⟩
      exact returns_bind.2 ⟨tuple, ctx', returns_ofCpp.2 ⟨htuple, rfl⟩, returns_pure.2 ⟨rfl, rfl⟩⟩
    · refine returns_bind.2 ⟨[tuple], ctx', returns_pure.2 ⟨rfl, rfl⟩, ?_⟩
      exact returns_bind.2 ⟨(none, { child := st', done := true }), ctx',
        returns_pure.2 ⟨rfl, rfl⟩, returns_pure.2 ⟨rfl, rfl⟩⟩

end OneBase
