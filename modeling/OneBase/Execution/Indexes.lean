import OneBase.Execution.IntegerTables

set_option relaxedAutoImplicit false
set_option autoImplicit false

/-!
# The indexes of a table

A modification of a row changes every lookup index of its table. The key map of such an index
files the rows of the table under the integers in one of their columns.

## Main definitions

* `OneBase.IndexInfo.changed` — what the loop over the indexes makes of one of them.
* `OneBase.Catalog.Maintained` — what it makes of the catalog.
* `OneBase.IndexInfo.Agrees` — the key map files exactly these rows.
* `OneBase.TableIndexes`, `OneBase.IndexedTable` — a table with its indexes.

## Main results

* `OneBase.returns_maintainIndexes`, `OneBase.exists_maintainIndexes` — the loop.
* `OneBase.IndexInfo.Agrees.insertEntry`, `OneBase.IndexInfo.Agrees.removeEntry` — a row more or
  less.
-/

namespace OneBase

open Exec TableHeap

/-! ## The loop over the indexes -/

/-- What the loop makes of an index. -/
def IndexInfo.changed (change : ℕ → Cpp (IndexInfo → IndexInfo)) (i : IndexInfo) :
    Cpp IndexInfo :=
  if i.supportsPointLookup then do
    let attr ← i.getLookupAttr
    let f ← change attr
    pure (f i)
  else pure i

/-- What the loop over the indexes `oids` makes of the catalog. -/
structure Catalog.Maintained (c : Catalog) (oids : List ℕ)
    (change : ℕ → Cpp (IndexInfo → IndexInfo)) (c' : Catalog) : Prop where
  others : c' = { c with indexes := c'.indexes }
  changed : ∀ oid ∈ oids, ∃ i i', c.getIndex oid = some i ∧ i.changed change = pure i' ∧
    c'.getIndex oid = some i'
  unchanged : ∀ oid ∉ oids, c'.getIndex oid = c.getIndex oid

section Loop

variable {c c' : Catalog} {oids : List ℕ} {oid oid' : ℕ} {i : IndexInfo} {f : IndexInfo → IndexInfo}
  {change : ℕ → Cpp (IndexInfo → IndexInfo)} {ctx ctx' : ExecutorContext}

/-- A changed index, and the others as they were. -/
lemma Catalog.getIndex_modifyIndex (c : Catalog) (oid oid' : ℕ) (f : IndexInfo → IndexInfo) :
    (c.modifyIndex oid f).getIndex oid' =
      if oid' = oid then (c.getIndex oid').map f else c.getIndex oid' := by
  unfold Catalog.modifyIndex Catalog.getIndex
  induction c.indexes with
  | nil => simp
  | cons entry entries ih =>
    obtain ⟨k, i⟩ := entry
    rw [List.map_cons]
    by_cases hk : oid' = k
    · subst hk
      by_cases hoid : oid' = oid
      · simp [hoid]
      · simp [hoid]
    · have hbeq : (oid' == k) = false := by simpa using hk
      by_cases hoid : k = oid
      · simpa [hoid, List.lookup_cons, hoid ▸ hbeq] using ih
      · simpa [hoid, List.lookup_cons, hbeq] using ih

/-- One more index before the loop. -/
lemma Catalog.Maintained.cons {c₁ : Catalog} (h : c.Maintained [oid] change c₁)
    (h' : c₁.Maintained oids change c') (hnotin : oid ∉ oids) :
    c.Maintained (oid :: oids) change c' where
  others := by
    rw [h'.others, h.others]
  changed := by
    intro oid' hoid'
    rcases List.mem_cons.1 hoid' with rfl | hmem
    · obtain ⟨i, i', hi, hchanged, hi'⟩ := h.changed oid' List.mem_cons_self
      exact ⟨i, i', hi, hchanged, (h'.unchanged oid' hnotin).trans hi'⟩
    · obtain ⟨i, i', hi, hchanged, hi'⟩ := h'.changed oid' hmem
      have hne : oid' ∉ [oid] := by
        rintro hmem'
        obtain rfl := List.mem_singleton.1 hmem'
        exact hnotin hmem
      exact ⟨i, i', (h.unchanged oid' hne).symm.trans hi, hchanged, hi'⟩
  unchanged := by
    intro oid' hoid'
    rw [List.mem_cons, not_or] at hoid'
    rw [h'.unchanged oid' hoid'.2, h.unchanged oid' (by simpa using hoid'.1)]

/-- Without indexes there is nothing to change. -/
lemma Catalog.maintained_nil (c : Catalog) : c.Maintained [] change c where
  others := rfl
  changed := by simp
  unchanged := fun _ _ => rfl

/-- One round of the loop that returns. -/
lemma returns_maintainIndex (h : Returns (maintainIndexes [oid] change) ctx () ctx') :
    ctx.catalog.Maintained [oid] change ctx'.catalog ∧
      ctx' = { ctx with catalog := ctx'.catalog } := by
  unfold maintainIndexes at h
  obtain ⟨⟨⟩, c₀, hbody, hnil⟩ := returns_bind.1 h
  obtain ⟨-, rfl⟩ := returns_pure.1 hnil
  obtain ⟨catalog, c₁, hcatalog, h₁⟩ := returns_bind.1 hbody
  obtain ⟨rfl, rfl⟩ := returns_getCatalog.1 hcatalog
  obtain ⟨i, c₂, hderef, h₂⟩ := returns_bind.1 h₁
  obtain ⟨hi, rfl⟩ := returns_deref.1 hderef
  cases hlookup : i.supportsPointLookup with
  | false =>
    rw [hlookup] at h₂
    obtain ⟨-, rfl⟩ := returns_pure.1 h₂
    refine ⟨⟨rfl, fun oid' hoid' => ?_, fun _ _ => rfl⟩, rfl⟩
    obtain rfl := List.mem_singleton.1 hoid'
    exact ⟨i, i, hi, by rw [IndexInfo.changed, hlookup]; rfl, hi⟩
  | true =>
    rw [hlookup] at h₂
    obtain ⟨attr, c₃, hattr, h₃⟩ := returns_bind.1 h₂
    obtain ⟨hattr', rfl⟩ := returns_ofCpp.1 hattr
    obtain ⟨f, c₄, hf, h₄⟩ := returns_bind.1 h₃
    obtain ⟨hf', rfl⟩ := returns_ofCpp.1 hf
    obtain rfl := returns_modifyCatalog.1 h₄
    refine ⟨⟨rfl, fun oid' hoid' => ?_, fun oid' hoid' => ?_⟩, rfl⟩
    · obtain rfl := List.mem_singleton.1 hoid'
      refine ⟨i, f i, hi, ?_, ?_⟩
      · rw [IndexInfo.changed, hlookup, if_pos rfl, hattr', pure_bind, hf', pure_bind]
      · rw [Catalog.getIndex_modifyIndex, if_pos rfl, hi, Option.map_some]
    · rw [Catalog.getIndex_modifyIndex, if_neg (by simpa using hoid')]

/-- One round of the loop, on an index that can be changed. -/
lemma exists_maintainIndex {i' : IndexInfo} (hi : ctx.catalog.getIndex oid = some i)
    (hchanged : i.changed change = pure i') :
    ∃ ctx', Returns (maintainIndexes [oid] change) ctx () ctx' := by
  have hbody : ∃ ctx', Returns (do
      let catalog ← getCatalog
      let indexInfo ← deref (catalog.getIndex oid)
      if indexInfo.supportsPointLookup then
        let attr ← ofCpp indexInfo.getLookupAttr
        let f ← ofCpp (change attr)
        modifyCatalog fun c => c.modifyIndex oid f) ctx () ctx' := by
    cases hlookup : i.supportsPointLookup with
    | false =>
      refine ⟨ctx, returns_bind.2 ⟨_, ctx, returns_getCatalog.2 ⟨rfl, rfl⟩, ?_⟩⟩
      refine returns_bind.2 ⟨i, ctx, returns_deref.2 ⟨hi, rfl⟩, ?_⟩
      rw [hlookup]
      exact returns_pure.2 ⟨rfl, rfl⟩
    | true =>
      rw [IndexInfo.changed, hlookup] at hchanged
      obtain ⟨attr, hattr, hrest⟩ := Cpp.bind_eq_pure.1 hchanged
      obtain ⟨f, hf, -⟩ := Cpp.bind_eq_pure.1 hrest
      refine ⟨{ ctx with catalog := ctx.catalog.modifyIndex oid f }, ?_⟩
      refine returns_bind.2 ⟨_, ctx, returns_getCatalog.2 ⟨rfl, rfl⟩, ?_⟩
      refine returns_bind.2 ⟨i, ctx, returns_deref.2 ⟨hi, rfl⟩, ?_⟩
      rw [hlookup]
      refine returns_bind.2 ⟨attr, ctx, returns_ofCpp.2 ⟨hattr, rfl⟩, ?_⟩
      refine returns_bind.2 ⟨f, ctx, returns_ofCpp.2 ⟨hf, rfl⟩, ?_⟩
      exact returns_modifyCatalog.2 rfl
  obtain ⟨ctx', hbody⟩ := hbody
  exact ⟨ctx', returns_bind.2 ⟨(), ctx', hbody, returns_pure.2 ⟨rfl, rfl⟩⟩⟩

/-- The indexes are changed one after the other. -/
lemma returns_maintainIndexes_cons :
    Returns (maintainIndexes (oid :: oids) change) ctx () ctx' ↔
      ∃ c, Returns (maintainIndexes [oid] change) ctx () c ∧
        Returns (maintainIndexes oids change) c () ctx' := by
  constructor
  · intro h
    obtain ⟨⟨⟩, c, hbody, hrest⟩ := returns_bind.1 h
    exact ⟨c, returns_bind.2 ⟨(), c, hbody, returns_pure.2 ⟨rfl, rfl⟩⟩, hrest⟩
  · rintro ⟨c, hround, hrest⟩
    obtain ⟨⟨⟩, c', hbody, hnil⟩ := returns_bind.1 hround
    obtain ⟨-, rfl⟩ := returns_pure.1 hnil
    exact returns_bind.2 ⟨(), c', hbody, hrest⟩

/-- The loop, if it returns. -/
lemma returns_maintainIndexes (hnodup : oids.Nodup)
    (h : Returns (maintainIndexes oids change) ctx () ctx') :
    ctx.catalog.Maintained oids change ctx'.catalog ∧
      ctx' = { ctx with catalog := ctx'.catalog } := by
  induction oids generalizing ctx with
  | nil =>
    obtain ⟨-, rfl⟩ := returns_pure.1 h
    exact ⟨ctx.catalog.maintained_nil, rfl⟩
  | cons oid oids ih =>
    rw [List.nodup_cons] at hnodup
    obtain ⟨c, hbody, hrest⟩ := returns_maintainIndexes_cons.1 h
    obtain ⟨hmaintained, hc⟩ := returns_maintainIndex hbody
    obtain ⟨hmaintained', hctx'⟩ := ih hnodup.2 hrest
    refine ⟨hmaintained.cons hmaintained' hnodup.1, ?_⟩
    rw [hctx', hc]

/-- The loop returns, if every index can be changed. -/
lemma exists_maintainIndexes (hnodup : oids.Nodup) (h : ∀ oid ∈ oids, ∃ i i',
    ctx.catalog.getIndex oid = some i ∧ i.changed change = pure i') :
    ∃ ctx', Returns (maintainIndexes oids change) ctx () ctx' := by
  induction oids generalizing ctx with
  | nil => exact ⟨ctx, returns_pure.2 ⟨rfl, rfl⟩⟩
  | cons oid oids ih =>
    rw [List.nodup_cons] at hnodup
    obtain ⟨i, i', hi, hchanged⟩ := h oid List.mem_cons_self
    obtain ⟨c, hbody⟩ := exists_maintainIndex hi hchanged
    obtain ⟨hmaintained, -⟩ := returns_maintainIndex hbody
    have hrest : ∀ oid' ∈ oids, ∃ i i',
        c.catalog.getIndex oid' = some i ∧ i.changed change = pure i' := by
      intro oid' hoid'
      have hne : oid' ∉ [oid] := by
        intro hmem
        obtain rfl := List.mem_singleton.1 hmem
        exact hnodup.1 hoid'
      rw [hmaintained.unchanged oid' hne]
      exact h oid' (List.mem_cons_of_mem oid hoid')
    obtain ⟨ctx', hloop⟩ := ih hnodup.2 hrest
    exact ⟨ctx', returns_maintainIndexes_cons.2 ⟨c, hbody, hloop⟩⟩

end Loop

/-! ## Agreement with the rows -/

/-- The key of a row of integers in the column `attr`. -/
def keyAt (attr : ℕ) (b : List UInt8) : ℤ := (integerAt b attr).toInt

/-- The key map files exactly these rows, under the integer in the column `attr`. -/
structure IndexInfo.Agrees (i : IndexInfo) (attr : ℕ) (rows : List (RID × List UInt8)) : Prop where
  compact : i.Compact
  nodup : ∀ key, (i.rids key).Nodup
  mem_iff : ∀ key rid, rid ∈ i.rids key ↔ ∃ b, (rid, b) ∈ rows ∧ keyAt attr b = key

section Agreement

variable {i : IndexInfo} {attr : ℕ} {rows rows' : List (RID × List UInt8)} {rid : RID}
  {b : List UInt8} {before after : List (RID × List UInt8)}

/-- Only the set of the rows matters. -/
lemma IndexInfo.Agrees.congr (h : i.Agrees attr rows) (hrows : ∀ r, r ∈ rows' ↔ r ∈ rows) :
    i.Agrees attr rows' where
  compact := h.compact
  nodup := h.nodup
  mem_iff := by
    intro key rid
    rw [h.mem_iff]
    simp only [hrows]

/-- A new row is filed under its key. -/
lemma IndexInfo.Agrees.insertEntry (h : i.Agrees attr (before ++ after))
    (hnew : rid ∉ (before ++ after).map Prod.fst) :
    (i.insertEntry (keyAt attr b) rid).Agrees attr (before ++ (rid, b) :: after) where
  compact := h.compact.insertEntry _ rid
  nodup := by
    intro key
    rw [IndexInfo.rids_insertEntry]
    split_ifs with hkey
    · rw [List.nodup_append]
      refine ⟨h.nodup _, List.nodup_singleton rid, ?_⟩
      intro x hx y hy hxy
      obtain rfl : y = rid := List.mem_singleton.1 hy
      subst hxy
      obtain ⟨b', hb', -⟩ := (h.mem_iff _ _).1 hx
      exact hnew (List.mem_map.2 ⟨_, hb', rfl⟩)
    · exact h.nodup key
  mem_iff := by
    intro key x
    rw [IndexInfo.rids_insertEntry]
    have hsplit : ∀ d, (x, d) ∈ before ++ (rid, b) :: after ↔
        (x, d) ∈ before ++ after ∨ x = rid ∧ d = b := by
      intro d
      simp only [List.mem_append, List.mem_cons, Prod.mk.injEq]
      tauto
    simp only [hsplit]
    split_ifs with hkey
    · rw [List.mem_append, List.mem_singleton, h.mem_iff]
      constructor
      · rintro (⟨d, hd, hd'⟩ | rfl)
        · exact ⟨d, .inl hd, hd'.trans hkey.symm⟩
        · exact ⟨b, .inr ⟨rfl, rfl⟩, hkey.symm⟩
      · rintro ⟨d, hd | ⟨rfl, rfl⟩, hd'⟩
        · exact .inl ⟨d, hd, hd'.trans hkey⟩
        · exact .inr rfl
    · rw [h.mem_iff]
      constructor
      · rintro ⟨d, hd, hd'⟩
        exact ⟨d, .inl hd, hd'⟩
      · rintro ⟨d, hd | ⟨rfl, rfl⟩, hd'⟩
        · exact ⟨d, hd, hd'⟩
        · exact absurd hd'.symm hkey

/-- A row that goes is filed no longer. -/
lemma IndexInfo.Agrees.removeEntry (h : i.Agrees attr (before ++ (rid, b) :: after))
    (hnodup : ((before ++ (rid, b) :: after).map Prod.fst).Nodup) :
    (i.removeEntry (keyAt attr b) rid).Agrees attr (before ++ after) where
  compact := h.compact.removeEntry _ rid
  nodup := by
    intro key
    rw [IndexInfo.rids_removeEntry]
    split_ifs
    · exact (h.nodup _).filter _
    · exact h.nodup key
  mem_iff := by
    intro key x
    rw [List.map_append, List.map_cons, List.nodup_middle, List.nodup_cons] at hnodup
    have hgone : ∀ d, (rid, d) ∉ before ++ after := by
      intro d hd
      apply hnodup.1
      rw [← List.map_append]
      exact List.mem_map.2 ⟨_, hd, rfl⟩
    have hsplit : ∀ d, (x, d) ∈ before ++ (rid, b) :: after ↔
        (x, d) ∈ before ++ after ∨ x = rid ∧ d = b := by
      intro d
      simp only [List.mem_append, List.mem_cons, Prod.mk.injEq]
      tauto
    have hmem := h.mem_iff
    rw [IndexInfo.rids_removeEntry]
    split_ifs with hkey
    · rw [List.mem_filter, hmem]
      simp only [hsplit, decide_eq_true_eq]
      constructor
      · rintro ⟨⟨d, hd | ⟨rfl, rfl⟩, hd'⟩, hne⟩
        · exact ⟨d, hd, hd'.trans hkey.symm⟩
        · exact absurd rfl hne
      · rintro ⟨d, hd, hd'⟩
        refine ⟨⟨d, .inl hd, hd'.trans hkey⟩, ?_⟩
        rintro rfl
        exact hgone d hd
    · rw [hmem]
      simp only [hsplit]
      constructor
      · rintro ⟨d, hd | ⟨rfl, rfl⟩, hd'⟩
        · exact ⟨d, hd, hd'⟩
        · exact absurd hd'.symm hkey
      · rintro ⟨d, hd, hd'⟩
        exact ⟨d, .inl hd, hd'⟩

/-- The rows are filed one after the other. -/
def IndexInfo.insertEntries (i : IndexInfo) (attr : ℕ) (rows : List (RID × List UInt8)) :
    IndexInfo :=
  rows.foldl (fun i r => i.insertEntry (keyAt attr r.2) r.1) i

/-- An index that agrees with some rows agrees with more of them once they were filed.

**Proof sketch.** Induction on the new rows, with the lemma for one row. -/
lemma IndexInfo.Agrees.insertEntries (h : i.Agrees attr rows)
    (hnodup : ((rows ++ rows').map Prod.fst).Nodup) :
    (i.insertEntries attr rows').Agrees attr (rows ++ rows') := by
  induction rows' generalizing i rows with
  | nil => simpa [IndexInfo.insertEntries] using h
  | cons r rows' ih =>
    obtain ⟨rid, b⟩ := r
    have hassoc : rows ++ (rid, b) :: rows' = (rows ++ [(rid, b)]) ++ rows' := by simp
    have hnew : rid ∉ (rows ++ []).map Prod.fst := by
      rw [List.map_append, List.map_cons, List.nodup_middle, List.nodup_cons,
        List.mem_append, not_or] at hnodup
      simpa using hnodup.1.1
    have hstep : (i.insertEntry (keyAt attr b) rid).Agrees attr (rows ++ [(rid, b)]) :=
      IndexInfo.Agrees.insertEntry (by rwa [List.append_nil]) hnew
    rw [hassoc] at hnodup ⊢
    exact ih hstep hnodup

/-- An index without entries agrees with a table without rows. -/
lemma IndexInfo.agrees_nil (h : i.intRidMap = fun _ => none) : i.Agrees attr [] where
  compact := by
    intro key
    simp [IndexInfo.lookupInteger, h]
  nodup := by
    intro key
    simp [IndexInfo.rids, IndexInfo.lookupInteger, h]
  mem_iff := by
    intro key rid
    simp [IndexInfo.rids, IndexInfo.lookupInteger, h]

end Agreement

/-! ## Tables with their indexes -/

/-- `GetTableIndexes` lists these indexes. Each is filed under its oid and has a column of the
table as its first attribute. -/
structure TableIndexes (c : Catalog) (tableInfo : TableInfo) (oids : List ℕ) : Prop where
  listed : c.getTableIndexes tableInfo.name = pure oids
  nodup : oids.Nodup
  filed : ∀ oid ∈ oids, ∃ i, c.getIndex oid = some i ∧ i.oid = oid ∧
    ∃ attr < tableInfo.schema.columns.length, i.getLookupAttr = pure attr

/-- The lookup indexes among these agree with the rows. -/
def Catalog.Agrees (c : Catalog) (oids : List ℕ) (rows : List (RID × List UInt8)) : Prop :=
  ∀ oid ∈ oids, ∀ i attr, c.getIndex oid = some i → i.supportsPointLookup = true →
    i.getLookupAttr = pure attr → i.Agrees attr rows

end OneBase
