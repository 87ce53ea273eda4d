import OneBase.Execution.Following
import OneBase.Execution.Modifications

set_option relaxedAutoImplicit false
set_option autoImplicit false

/-!
# Inserting the rows of another table

The loop of `INSERT` over a scan of another table stores the rows that the scan returns, but for
those that no page has room for, and reads the key of each stored row in the lookup indexes of the
table.

## Main definitions

* `OneBase.Catalog.lookupColumns` — the columns of the lookup indexes.
* `OneBase.insertAll` — the rows that the loop inserts.
* `OneBase.storedBytes` — what is stored of them.
* `OneBase.Inserting` — a table and another one whose rows it gets.

## Main results

* `OneBase.follows_maintainIndexes` — the loop over the indexes.
* `OneBase.Inserting.follows_insertRow` — a round of the loop.
* `OneBase.Inserting.follows_loop` — the loop.
* `OneBase.follows_execute_modification` — the statement.
-/

namespace OneBase

open Exec TableHeap

/-- The columns of the lookup indexes among these, in their order. -/
def Catalog.lookupColumns (c : Catalog) (oids : List ℕ) : List ℕ :=
  oids.filterMap fun oid =>
    (c.getIndex oid).bind fun i =>
      if i.supportsPointLookup then i.getLookupAttr.result else none

/-- The row has a key in each of these columns. -/
def Tuple.hasKeys (schema : Schema) (attrs : List ℕ) (tuple : Tuple) : Cpp Unit :=
  attrs.forM fun attr => do
    let _ ← tuple.keyOf schema attr
    pure ()

/-- No page is too small for these bytes, and they are not those of a deleted tuple. -/
def IsStored (b : List UInt8) : Prop := b ≠ [] ∧ b.length + 20 ≤ pageSize

instance (b : List UInt8) : Decidable (IsStored b) := inferInstanceAs (Decidable (_ ∧ _))

/-- What is stored of some rows. -/
def storedBytes (tuples : List Tuple) : List (List UInt8) :=
  (tuples.map bytesOf).filter fun b => IsStored b

/-- The keys that `INSERT` reads of a row: none, if no page has room for it. -/
def keysRead (schema : Schema) (attrs : List ℕ) (tuple : Tuple) : Cpp Unit :=
  if (bytesOf tuple).length + 20 ≤ pageSize then tuple.hasKeys schema attrs else pure ()

/-- The rows that the loop of `INSERT` inserts, of those that it reads one after the other. -/
def insertAll {α : Type} (read : α → Cpp (Option Tuple)) (schema : Schema) (attrs : List ℕ) :
    List α → Cpp (List Tuple)
  | [] => pure []
  | r :: rows => do
    match ← read r with
    | some tuple =>
      keysRead schema attrs tuple
      let rest ← insertAll read schema attrs rows
      pure (tuple :: rest)
    | none => insertAll read schema attrs rows

/-- The bytes of tuples, one after the other. -/
lemma storedBytes_cons (tuple : Tuple) (tuples : List Tuple) :
    storedBytes (tuple :: tuples) = storedBytes [tuple] ++ storedBytes tuples := by
  unfold storedBytes
  rw [← List.filter_append, ← List.map_append, List.singleton_append]

/-- The loop goes from one row that the scan returns to the next. -/
lemma insertAll_eq (read : RID × List UInt8 → Cpp (Option Tuple)) (schema : Schema)
    (attrs : List ℕ) (rows : List (RID × List UInt8)) :
    insertAll read schema attrs rows = nextRow read rows >>= fun found =>
      match found.1 with
      | none => pure []
      | some row => keysRead schema attrs row.1 >>= fun _ =>
        insertAll read schema attrs found.2 >>= fun rest => pure (row.1 :: rest) := by
  induction rows with
  | nil => rfl
  | cons r rows ih =>
    rw [insertAll, nextRow, bind_assoc]
    refine bind_congr fun o => ?_
    cases o with
    | none => exact ih
    | some tuple => rfl

/-! ## The indexes -/

section Indexes

variable {ctx : ExecutorContext} {c c' : Catalog} {oid : ℕ} {oids : List ℕ} {i : IndexInfo}
  {change : ℕ → Cpp (IndexInfo → IndexInfo)}

/-- The indexes are filed, and have a column. -/
def Catalog.HasColumns (c : Catalog) (oids : List ℕ) : Prop :=
  ∀ oid ∈ oids, ∃ i attr, c.getIndex oid = some i ∧ i.getLookupAttr = pure attr

/-- Only the indexes matter. -/
lemma Catalog.lookupColumns_congr (h : ∀ oid ∈ oids, c'.getIndex oid = c.getIndex oid) :
    c'.lookupColumns oids = c.lookupColumns oids := by
  unfold Catalog.lookupColumns
  apply List.filterMap_congr
  intro oid hoid
  rw [h oid hoid]

/-- The loop leaves the columns of the indexes alone. -/
lemma Catalog.Maintained.lookupColumns {listed : List ℕ} (h : c.Maintained listed change c')
    (honly : OnlyEntries change) (oids : List ℕ) : c'.lookupColumns oids = c.lookupColumns oids := by
  unfold Catalog.lookupColumns
  apply List.filterMap_congr
  intro oid _
  rcases h.getIndex honly oid with ⟨hnone, hnone'⟩ | ⟨i, i', hi, hi', heq⟩
  · rw [hnone, hnone']
  · rw [hi, hi', heq]
    rfl

/-- A round of the loop over the indexes. -/
lemma follows_maintainIndex (h : ctx.catalog.HasColumns [oid]) :
    Follows (maintainIndexes [oid] change) ctx
      ((ctx.catalog.lookupColumns [oid]).forM fun attr => do
        let _ ← change attr
        pure ()) fun _ _ _ => True := by
  obtain ⟨i, attr, hi, hattr⟩ := h oid List.mem_cons_self
  have hcolumns : ctx.catalog.lookupColumns [oid] =
      if i.supportsPointLookup then [attr] else [] := by
    unfold Catalog.lookupColumns
    rw [List.filterMap_cons, hi, Option.bind_some, hattr]
    split_ifs <;> rfl
  have hround : maintainIndexes [oid] change = (do
      let catalog ← getCatalog
      let indexInfo ← deref (catalog.getIndex oid)
      if indexInfo.supportsPointLookup then
        let attr ← ofCpp indexInfo.getLookupAttr
        let f ← ofCpp (change attr)
        modifyCatalog fun c => c.modifyIndex oid f) := bind_pure _
  rw [hcolumns, hround]
  refine Follows.of_returns (returns_getCatalog.2 ⟨rfl, rfl⟩) ?_
  refine Follows.of_returns (returns_deref.2 ⟨hi, rfl⟩) ?_
  cases hlookup : i.supportsPointLookup with
  | false => exact follows_of_returns (returns_pure.2 ⟨rfl, rfl⟩) trivial
  | true =>
    rw [if_pos rfl, if_pos rfl]
    refine Follows.of_returns (returns_ofCpp.2 ⟨hattr, rfl⟩) ?_
    have hkeys : ([attr].forM fun attr => do
        let _ ← change attr
        pure ()) = change attr >>= fun _ => pure () := bind_pure _
    rw [hkeys]
    refine Follows.ofCpp_bind fun f _ => ?_
    exact follows_of_returns (returns_modifyCatalog.2 rfl) trivial

/-- The loop over the indexes. -/
lemma follows_maintainIndexes (hnodup : oids.Nodup) (h : ctx.catalog.HasColumns oids) :
    Follows (maintainIndexes oids change) ctx
      ((ctx.catalog.lookupColumns oids).forM fun attr => do
        let _ ← change attr
        pure ()) fun _ _ ctx' => ctx.catalog.Maintained oids change ctx'.catalog ∧
          ctx' = { ctx with catalog := ctx'.catalog } := by
  suffices hloop : Follows (maintainIndexes oids change) ctx
      ((ctx.catalog.lookupColumns oids).forM fun attr => do
        let _ ← change attr
        pure ()) fun _ _ _ => True from
    hloop.mono fun _ _ _ hret _ => returns_maintainIndexes hnodup hret
  induction oids generalizing ctx with
  | nil => exact follows_of_returns (returns_pure.2 ⟨rfl, rfl⟩) trivial
  | cons oid oids ih =>
    rw [List.nodup_cons] at hnodup
    have hhead : ctx.catalog.HasColumns [oid] := by
      intro oid' hoid'
      obtain rfl := List.mem_singleton.1 hoid'
      exact h oid' List.mem_cons_self
    have hcolumns : ctx.catalog.lookupColumns (oid :: oids) =
        ctx.catalog.lookupColumns [oid] ++ ctx.catalog.lookupColumns oids := by
      unfold Catalog.lookupColumns
      rw [← List.filterMap_append, List.singleton_append]
    have hsplit : maintainIndexes (oid :: oids) change =
        maintainIndexes [oid] change >>= fun _ => maintainIndexes oids change :=
      congrArg (· >>= fun _ => maintainIndexes oids change) (bind_pure _).symm
    rw [hcolumns, hsplit, List.forM_eq_forM, List.forM_append, ← List.forM_eq_forM]
    have hfirst : Follows (maintainIndexes [oid] change) ctx
        ((ctx.catalog.lookupColumns [oid]).forM fun attr => do
          let _ ← change attr
          pure ()) fun _ _ c => Returns (maintainIndexes [oid] change) ctx () c :=
      (follows_maintainIndex hhead).mono fun _ _ _ hret _ => hret
    refine hfirst.bind fun _ _ c _ hret => ?_
    have hunchanged : ∀ oid' ∈ oids, c.catalog.getIndex oid' = ctx.catalog.getIndex oid' := by
      intro oid' hoid'
      refine (returns_maintainIndex hret).1.unchanged oid' fun hmem => ?_
      obtain rfl := List.mem_singleton.1 hmem
      exact hnodup.1 hoid'
    rw [← Catalog.lookupColumns_congr hunchanged]
    refine ih hnodup.2 fun oid' hoid' => ?_
    rw [hunchanged oid' hoid']
    exact h oid' (List.mem_cons_of_mem oid hoid')

end Indexes

/-! ## The loop over the rows -/

/-- A table with its indexes, and another one on pages of its own whose rows it gets. -/
structure Inserting (ctx : ExecutorContext) (target source : TableInfo) (oids : List ℕ)
    (pages sourcePages : Pages) : Prop where
  grown : HeapTable ctx target pages
  scanned : HeapTable ctx source sourcePages
  apart : ∀ q ∈ sourcePages.map Prod.fst, q ∉ pages.map Prod.fst
  twoFrames : 2 ≤ ctx.poolSize
  indexes : TableIndexes ctx.catalog target oids

/-- The context after the loop has inserted these rows. -/
structure RowsInserted (target source : TableInfo) (oids : List ℕ) (tuples : List Tuple)
    (ctx : ExecutorContext) (pages sourcePages : Pages) (ctx' : ExecutorContext) (pages' : Pages) :
    Prop where
  inserting : Inserting ctx' target source oids pages' sourcePages
  rows : ((liveRows pages').map Prod.snd).Perm
    ((liveRows pages).map Prod.snd ++ storedBytes tuples)
  length_le : pages'.length ≤ pages.length + tuples.length
  next_le : ctx'.bpm.nextPageId ≤ ctx.bpm.nextPageId + tuples.length
  columns_eq : ctx'.catalog.lookupColumns oids = ctx.catalog.lookupColumns oids

section Loop

variable {ctx c c' : ExecutorContext} {target source : TableInfo} {oids : List ℕ}
  {pages pages' pages'' sourcePages : Pages} {fuel n : ℕ} {count : ℤ} {row : Row}
  {predicate : Expression} {before rows : List (RID × List UInt8)} {tuple : Tuple}
  {tuples : List Tuple} {r : Option RID} {bpm : PageStore TablePage}

/-- Without rows nothing is inserted. -/
lemma Inserting.rowsInserted_nil (h : Inserting ctx target source oids pages sourcePages) :
    RowsInserted target source oids [] ctx pages sourcePages ctx pages where
  inserting := h
  rows := by simp [storedBytes]
  length_le := le_rfl
  next_le := by simp
  columns_eq := rfl

/-- The rows behind the first one are inserted into what the first one leaves. -/
lemma RowsInserted.cons
    (h : RowsInserted target source oids [tuple] ctx pages sourcePages c pages')
    (h' : RowsInserted target source oids tuples c pages' sourcePages c' pages'') :
    RowsInserted target source oids (tuple :: tuples) ctx pages sourcePages c' pages'' where
  inserting := h'.inserting
  rows := by
    rw [storedBytes_cons, ← List.append_assoc]
    exact h'.rows.trans (h.rows.append_right _)
  length_le := by
    have hle := h.length_le
    have hle' := h'.length_le
    rw [List.length_cons, List.length_nil] at hle
    rw [List.length_cons]
    omega
  next_le := by
    have hle := h.next_le
    have hle' := h'.next_le
    rw [List.length_cons, List.length_nil] at hle
    rw [List.length_cons]
    push_cast at hle ⊢
    lia
  columns_eq := h'.columns_eq.trans h.columns_eq

/-- The rows of a heap after a call of `InsertTuple`. -/
lemma perm_of_inserts {heap : TableHeap} {t : PageStore TablePage}
    (h : Inserts heap (bytesOf tuple) t pages r bpm pages') :
    ((liveRows pages').map Prod.snd).Perm
      ((liveRows pages).map Prod.snd ++ storedBytes [tuple]) := by
  have hgrows := h.grows
  generalize hl : liveRows pages = l at hgrows
  generalize hl' : liveRows pages' = l' at hgrows
  have hstored : storedBytes [tuple] = if IsStored (bytesOf tuple) then [bytesOf tuple] else [] := by
    unfold storedBytes
    rw [List.map_singleton, List.filter_singleton]
    simp
  rw [hstored]
  cases hgrows with
  | refused hlarge =>
    rw [if_neg fun hstored => by have := hstored.2; omega, List.append_nil]
  | @inserted rid before after =>
    by_cases hnil : bytesOf tuple = []
    · rw [if_pos hnil, if_neg fun hstored => hstored.1 hnil, List.append_nil, List.append_nil]
    · have hmem : (rid, bytesOf tuple) ∈ liveRows pages' := by
        rw [hl', if_neg hnil]
        simp
      obtain ⟨before', after', hrows⟩ := List.append_of_mem hmem
      obtain ⟨-, slots, -, x, -, -, -, hintact, -, hget, -⟩ := h.holds.page_of_row hrows
      rw [if_neg hnil, if_pos ⟨hnil, hintact.length_le_of_live hget⟩]
      simp only [List.map_append, List.map_cons, List.map_nil, List.append_assoc]
      exact List.perm_append_comm.append_left _

/-- The context after a call of `InsertTuple`, with what has become of the indexes. -/
lemma Inserting.rowsInserted (h : Inserting ctx target source oids pages sourcePages)
    (hinserts : Inserts target.table (bytesOf tuple) ctx.bpm pages r bpm pages')
    (hnext : bpm.nextPageId ≤ ctx.bpm.nextPageId + 1) {catalog : Catalog}
    (hindexes : TableIndexes catalog target oids)
    (hcolumns : catalog.lookupColumns oids = ctx.catalog.lookupColumns oids) :
    RowsInserted target source oids [tuple] ctx pages sourcePages
      { ctx with bpm := bpm, catalog := catalog } pages' where
  inserting :=
    { grown := ⟨hinserts.frame.ready, h.grown.frames, hinserts.holds⟩
      scanned := ⟨hinserts.frame.ready, h.scanned.frames,
        h.scanned.holds.other h.scanned.ready h.apart hinserts.frame⟩
      apart := by
        intro q hq hq'
        rcases hinserts.pages_eq with heq | ⟨heq, -⟩
        · rw [heq] at hq'
          exact h.apart q hq hq'
        · rw [heq, List.mem_append, List.mem_singleton] at hq'
          rcases hq' with hq' | rfl
          · exact h.apart q hq hq'
          · exact absurd (h.scanned.holds.chain.lt_next h.scanned.ready _ hq).2 (lt_irrefl _)
      twoFrames := h.twoFrames
      indexes := hindexes }
  rows := perm_of_inserts hinserts
  length_le := by
    rcases hinserts.pages_eq with heq | ⟨heq, -⟩
    · have hlen := congrArg List.length heq
      rw [List.length_map, List.length_map] at hlen
      rw [hlen]
      exact Nat.le_add_right _ _
    · have hlen := congrArg List.length heq
      rw [List.length_map, List.length_append, List.length_map] at hlen
      rw [hlen]
      rfl
  next_le := hnext
  columns_eq := hcolumns

/-- A round of the loop. -/
lemma Inserting.follows_insertRow (h : Inserting ctx target source oids pages sourcePages)
    (hfuel : pages.length ≤ fuel) (hnext : ctx.bpm.nextPageId < 2 ^ 31)
    (hcount : count + 1 < 2 ^ 31) :
    Follows (insertRow fuel target oids count row) ctx
      (keysRead target.schema (ctx.catalog.lookupColumns oids) row.1)
      fun _ count' ctx' => count' ≤ count + 1 ∧ ∃ pages',
        RowsInserted target source oids [row.1] ctx pages sourcePages ctx' pages' := by
  obtain ⟨htotal, hwhen⟩ := h.grown.holds.insertTuple h.grown.ready h.twoFrames fuel row.1
  obtain ⟨r, bpm, hrun⟩ := htotal hfuel hnext
  obtain ⟨pages', hinserts⟩ := hwhen r bpm hrun
  have hnextLe := h.grown.holds.insertTuple_next_le h.grown.ready h.twoFrames hrun
  have hinsert : Returns (ofProgram (TableHeap.insertTuple fuel target.table row.1)) ctx r
      { ctx with bpm := bpm } := returns_ofProgram.2 ⟨bpm, hrun, rfl⟩
  have hgrows := hinserts.grows
  refine Follows.of_returns hinsert ?_
  unfold keysRead
  cases r with
  | none =>
    have hlarge : pageSize < (bytesOf row.1).length + 20 := by
      generalize liveRows pages = l at hgrows
      generalize liveRows pages' = l' at hgrows
      cases hgrows with
      | refused hlarge => exact hlarge
    rw [if_neg (Nat.not_le.2 hlarge)]
    refine follows_of_returns (returns_pure.2 ⟨rfl, rfl⟩) ⟨by omega, pages', ?_⟩
    exact h.rowsInserted hinserts hnextLe h.indexes rfl
  | some rid =>
    -- even a tuple without bytes, of which the heap shows nothing, has its keys read
    have hfits : (bytesOf row.1).length + 20 ≤ pageSize := by
      by_cases hnil : bytesOf row.1 = []
      · rw [hnil]
        decide
      · have hmem : ∃ rid, (rid, bytesOf row.1) ∈ liveRows pages' := by
          generalize liveRows pages = l at hgrows
          generalize liveRows pages' = l' at hgrows
          cases hgrows with
          | inserted => exact ⟨rid, by simp [hnil]⟩
        obtain ⟨rid', hrid'⟩ := hmem
        have hgrown : HeapTable { ctx with bpm := bpm } target pages' :=
          ⟨hinserts.frame.ready, h.grown.frames, hinserts.holds⟩
        exact (hgrown.length_le hrid').2
    rw [if_pos hfits]
    refine Follows.of_returns (returns_ofCpp.2 ⟨countUp_eq hcount, rfl⟩) ?_
    have hfiled : ctx.catalog.HasColumns oids := by
      intro oid hoid
      obtain ⟨i, hi, -, attr, -, hattr⟩ := h.indexes.filed oid hoid
      exact ⟨i, attr, hi, hattr⟩
    have hloop := @follows_maintainIndexes { ctx with bpm := bpm } oids
      (insertChange target.schema row.1 rid) h.indexes.nodup hfiled
    have hkeys : (ctx.catalog.lookupColumns oids).forM (fun attr => do
        let _ ← insertChange target.schema row.1 rid attr
        pure ()) = row.1.hasKeys target.schema (ctx.catalog.lookupColumns oids) := by
      unfold Tuple.hasKeys insertChange
      simp only [bind_assoc, pure_bind]
    rw [hkeys] at hloop
    have hbind := hloop.bind (f := fun _ => (pure (count + 1) : Exec ℤ)) (g := fun _ => pure ())
      (R := fun _ count' ctx' => count' ≤ count + 1 ∧ ∃ pages',
        RowsInserted target source oids [row.1] ctx pages sourcePages ctx' pages') ?_
    · rwa [bind_pure_unit] at hbind
    · rintro _ _ c - ⟨hmaintained, hc⟩
      refine follows_of_returns (returns_pure.2 ⟨rfl, rfl⟩) ⟨le_rfl, pages', ?_⟩
      rw [hc]
      have honly := onlyEntries_insertChange target.schema row.1 rid
      exact h.rowsInserted hinserts hnextLe (h.indexes.maintained hmaintained honly)
        (hmaintained.lookupColumns honly oids)

/-- The loop. -/
lemma Inserting.follows_loop {attrs : List ℕ}
    (h : Inserting ctx target source oids pages sourcePages)
    (hattrs : ctx.catalog.lookupColumns oids = attrs)
    (hrows : liveRows sourcePages = before ++ rows) (hsource : sourcePages.length < fuel)
    (hlive : (liveRows sourcePages).length < fuel) (hfuel : pages.length + rows.length ≤ fuel)
    (hnext : ctx.bpm.nextPageId + rows.length < 2 ^ 31) (hcount : count + rows.length < 2 ^ 31)
    (hn : rows.length < n) :
    Follows (forEachRow (seqScanNext fuel predicate fuel) (insertRow fuel target oids) n
        (scanAt source rows) count) ctx
      (insertAll (scanRow predicate source.schema) target.schema attrs rows)
      fun tuples _ ctx' => ∃ pages',
        RowsInserted target source oids tuples ctx pages sourcePages ctx' pages' := by
  induction n generalizing ctx pages before rows count with
  | zero => exact absurd hn (Nat.not_lt_zero _)
  | succ n ih =>
    have hscan := @HeapTable.follows_seqScanNext ctx source sourcePages predicate before rows fuel
      fuel h.scanned hsource (by rw [hrows, List.length_append] at hlive; omega) hrows
    rw [insertAll_eq, forEachRow]
    refine hscan.bind ?_
    rintro ⟨o, rest⟩ _ ctx hfound ⟨rfl, rfl⟩
    cases o with
    | none => exact follows_of_returns (returns_pure.2 ⟨rfl, rfl⟩) ⟨pages, h.rowsInserted_nil⟩
    | some row =>
      obtain ⟨seen, hsplit, hlt⟩ := nextRow_spec hfound
      have hpos : 0 < rows.length := by omega
      have hbody := @Inserting.follows_insertRow ctx target source oids pages sourcePages fuel count
        row h (by omega) (by lia) (by omega)
      rw [hattrs] at hbody
      refine hbody.bind ?_
      rintro _ count' c - ⟨hle, pages', hinserted⟩
      have hpages' := hinserted.length_le
      have hnext' := hinserted.next_le
      rw [List.length_singleton] at hpages' hnext'
      have hrest := @ih c pages' count' (before ++ seen) rest hinserted.inserting
        (hinserted.columns_eq.trans hattrs) (by rw [hrows, hsplit, List.append_assoc]) (by omega)
        (by lia) (by omega) (by omega)
      have hcons := hrest.bind (f := fun out => (pure out : Exec _))
        (g := fun tuples => pure (row.1 :: tuples)) (R := fun tuples _ ctx' => ∃ pages',
          RowsInserted target source oids tuples ctx pages sourcePages ctx' pages') ?_
      · rw [bind_pure] at hcons
        exact hcons
      · rintro tuples _ ctx' - ⟨pages'', hinserted'⟩
        exact follows_of_returns (returns_pure.2 ⟨rfl, rfl⟩)
          ⟨pages'', hinserted.cons hinserted'⟩

end Loop

/-! ## The statement -/

/-- The engine follows what the loop of a modification follows. -/
lemma follows_execute_modification {β : Type} {ctx c : ExecutorContext} {outputSchema : Schema}
    {child : Executor} {oid fuel n : ℕ} {body : TableInfo → List ℕ → ℤ → Row → Exec ℤ}
    {tableInfo : TableInfo} {oids : List ℕ} {st : child.State} {o : Cpp β}
    {Q : β → child.State × ℤ → ExecutorContext → Prop} (hn : 2 ≤ n)
    (hinit : Returns (child.init child.fresh) ctx st c)
    (htable : c.catalog.getTable oid = some tableInfo)
    (hoids : c.catalog.getTableIndexes tableInfo.name = pure oids)
    (hloop : Follows (forEachRow child.next (body tableInfo oids) fuel st 0) c o Q) :
    Follows (execute n (modificationExecutor fuel outputSchema child oid body)) ctx o
      fun b result ctx' => ∃ out tuple, Q b out ctx' ∧ result = [tuple] := by
  obtain ⟨m, rfl⟩ : ∃ m, n = m + 2 := ⟨n - 2, by omega⟩
  have hfirst : Returns ((modificationExecutor fuel outputSchema child oid body).init
      (modificationExecutor fuel outputSchema child oid body).fresh) ctx { child := st } c :=
    returns_bind.2 ⟨st, c, hinit, returns_pure.2 ⟨rfl, rfl⟩⟩
  have hnext : Follows ((modificationExecutor fuel outputSchema child oid body).next
      { child := st }) c o fun b r ctx' => ∃ out tuple, Q b out ctx' ∧
        r = (some (tuple, default), { child := out.1, done := true }) := by
    show Follows (getCatalog >>= _) c o _
    refine Follows.of_returns (returns_getCatalog.2 ⟨rfl, rfl⟩) ?_
    refine Follows.of_returns (returns_deref.2 ⟨htable, rfl⟩) ?_
    refine Follows.of_returns (returns_ofCpp.2 ⟨hoids, rfl⟩) ?_
    rw [← bind_pure o]
    refine hloop.bind fun b out ctx' _ hout => ?_
    obtain ⟨tuple, htuple, -⟩ := countTuple_eq out.2
    exact Follows.of_returns (returns_ofCpp.2 ⟨htuple, rfl⟩)
      (follows_of_returns (returns_pure.2 ⟨rfl, rfl⟩) ⟨out, tuple, hout, rfl⟩)
  unfold execute
  refine Follows.of_returns hfirst ?_
  -- the first call of `Next` modifies the table, and the second one ends the loop
  show Follows ((_ >>= _) >>= _) c o _
  rw [bind_assoc, ← bind_pure o]
  refine hnext.bind ?_
  rintro b _ ctx' - ⟨out, tuple, hout, rfl⟩
  refine follows_of_returns ?_ ⟨out, tuple, hout, rfl⟩
  refine returns_bind.2 ⟨(({ child := out.1, done := true } : Modification child.State), [tuple]),
    ctx', ?_, returns_pure.2 ⟨rfl, rfl⟩⟩
  refine returns_bind.2 ⟨[tuple], ctx', returns_pure.2 ⟨rfl, rfl⟩, ?_⟩
  exact returns_bind.2 ⟨(none, { child := out.1, done := true }), ctx',
    returns_pure.2 ⟨rfl, rfl⟩, returns_pure.2 ⟨rfl, rfl⟩⟩

end OneBase
