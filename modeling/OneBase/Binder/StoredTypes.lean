import OneBase.Binder.TypedRows
import OneBase.Execution.IndexedRuns

set_option relaxedAutoImplicit false
set_option autoImplicit false

/-!
# The types of stored rows

Neither the binder nor the executors compare the types of the rows that `INSERT` and `UPDATE` store
with the columns of the table. The tables stay typed, and read the values that were assigned, if the
values have these types and each of them but the last takes as many bytes as its column.

## Main definitions

* `OneBase.PlanNode.Assigns` — the values that a modification assigns to a row.
* `OneBase.PlanNode.StoresTyped` — the tables are typed afterwards, and read these values.
* `OneBase.PlanNode.KeepsTypes` — the assigned values suit the columns.

## Main results

* `OneBase.RowsStored.storesTyped`, `OneBase.RowsReplaced.storesTyped` — `INSERT` and `UPDATE`.
* `OneBase.storesTyped_of_keepsTypes` — the statements.
* `OneBase.not_storesTyped_number` — a number in a column of texts.
-/

namespace OneBase

open Exec TableHeap

/-! ## Assigned values -/

namespace PlanNode

/-- The table that a scan reads. -/
def scannedOid : PlanNode → Option ℕ
  | .seqScan _ oid _ => some oid
  | .indexScan _ oid _ _ _ => some oid
  | _ => none

/-- The scan visits the row `r` of its table, and makes `made` of it. -/
structure Picks (ctx : ExecutorContext) (pages : ℕ → Pages) (child : PlanNode) (source : TableInfo)
    (r : RID × List UInt8) (made : Tuple) : Prop where
  visits : ∃ oid, child.scannedOid = some oid ∧ ctx.catalog.getTable oid = some source ∧
    r ∈ child.visited ctx.catalog (liveRows (pages oid))
  reads : child.reading source r = pure (some made)

/-- If the scan looks up an index, then this files row ids of its table under the key, each once. -/
def IsInStep (ctx : ExecutorContext) (pages : ℕ → Pages) (child : PlanNode) : Prop :=
  ∀ oid, child.scannedOid = some oid → child.FindsRows ctx.catalog (liveRows (pages oid))

/-- A modification assigns these values to the row: `INSERT` those of a row of the scanned table, and
`UPDATE` those of its expressions on the values of the old row. -/
def Assigns (std : StandardLibrary) (ctx : ExecutorContext) (pages : ℕ → Pages) (oid : ℕ)
    (row : RID × List UInt8) (values : List Value) : PlanNode → Prop
  | .insert _ child target => target = oid ∧ row ∉ liveRows (pages oid) ∧
    ∃ source r made, child.Picks ctx pages source r made ∧ row.2 = bytesOf made ∧
      source.schema.Serializes values r.2
  | .update _ child target updateExprs => target = oid ∧
    ∃ rs info r old new, Replaces std ctx child updateExprs (liveRows (pages oid)) rs ∧
      ctx.catalog.getTable oid = some info ∧ r ∈ rs ∧ row = (r.rid, r.bytes) ∧
      info.schema.Serializes old r.old ∧
      evaluateRow updateExprs child.getOutputSchema { values := old } = pure new ∧
      values = new.values
  | _ => False

/-- After the modification the tables are typed, every row of a table was there before or has got
values, and a table reads from the bytes of a row the values that this has got. -/
structure StoresTyped (std : StandardLibrary) (ctx : ExecutorContext) (pages : ℕ → Pages)
    (ctx' : ExecutorContext) (pages' : ℕ → Pages) (plan : PlanNode) : Prop where
  database : TypedDatabase ctx' pages'
  tables : ∀ oid, ctx'.catalog.getTable oid = ctx.catalog.getTable oid
  rows : ∀ oid, ∀ row ∈ liveRows (pages' oid), row ∈ liveRows (pages oid) ∨
    ∃ values, plan.Assigns std ctx pages oid row values
  reads : ∀ oid info row values, ctx.catalog.getTable oid = some info →
    row ∈ liveRows (pages' oid) → plan.Assigns std ctx pages oid row values →
    storedValues info.schema row.2 = pure values

/-- The values that a modification assigns to the rows that are stored have the types of the columns,
and each of them but the last takes the bytes of its column. `UPDATE` evaluates its expressions on
the scanned rows as on their values, and takes only bytes that are free. -/
def KeepsTypes (std : StandardLibrary) (ctx : ExecutorContext) (pages : ℕ → Pages) :
    PlanNode → Prop
  | .insert _ child oid => child.IsInStep ctx pages ∧
    ∀ info source r made, ctx.catalog.getTable oid = some info →
      child.Picks ctx pages source r made → IsStored (bytesOf made) →
      ∃ values, source.schema.Serializes values r.2 ∧ HasTypes info.schema.types values ∧
        Aligned values
  | .update _ child oid updateExprs => child.IsInStep ctx pages ∧
    ∃ rs, Replaces std ctx child updateExprs (liveRows (pages oid)) rs ∧
      Orderly (freeSpace ctx.bpm) rs ∧
      ∀ info, ctx.catalog.getTable oid = some info → ∀ r ∈ accepted (freeSpace ctx.bpm) rs,
        (∃ old, info.schema.Serializes old r.old ∧
          evaluateRow updateExprs child.getOutputSchema { values := old } = pure r.updated) ∧
        HasTypes info.schema.types r.updated.values ∧ Aligned r.updated.values ∧
        encodedSize r.updated.values < 2 ^ 32
  | .delete _ child _ => child.IsInStep ctx pages
  | _ => True

/-- The values that a modification assigns to the rows that are stored have the types of the columns,
if its scan is in step and its updates take only bytes that are free. -/
def SuitsTypes (std : StandardLibrary) (ctx : ExecutorContext) (pages : ℕ → Pages) :
    PlanNode → Prop
  | .insert _ child oid => child.IsInStep ctx pages →
    ∀ info source r made values, ctx.catalog.getTable oid = some info →
      child.Picks ctx pages source r made → IsStored (bytesOf made) →
      source.schema.Serializes values r.2 → HasTypes info.schema.types values
  | .update _ child oid updateExprs => child.IsInStep ctx pages →
    ∀ rs info, Replaces std ctx child updateExprs (liveRows (pages oid)) rs →
      Orderly (freeSpace ctx.bpm) rs → ctx.catalog.getTable oid = some info →
      ∀ r ∈ accepted (freeSpace ctx.bpm) rs, r.bytes ≠ [] → ∀ old new,
        info.schema.Serializes old r.old →
        evaluateRow updateExprs child.getOutputSchema { values := old } = pure new →
        HasTypes info.schema.types new.values
  | _ => True

end PlanNode

section Plans

variable {std : StandardLibrary} {ctx ctx' : ExecutorContext} {pages pages' pages'' : ℕ → Pages}
  {oid sourceOid fuel : ℕ} {info source : TableInfo} {child : PlanNode} {scanSchema out : Schema}
  {predicate : Expression} {result : List Tuple} {updateExprs : List Expression}
  {rs rs' : List Replacement} {rows : List (RID × List UInt8)} {b : List UInt8}
  {start : List (RID × List UInt8)} {again : Prop} {types : List TypeId} {cols : List Column}
  {body : TableInfo → List ℕ → ℤ → Row → Exec ℤ} {p : Pages}

/-- The table that a scan reads. -/
lemma PlanNode.IsScan.scannedOid (h : child.IsScan scanSchema oid predicate) :
    child.scannedOid = some oid := by
  rcases h with rfl | ⟨indexOid, val, rfl⟩ <;> rfl

/-- The rows that a scan visits are rows of its table. -/
lemma PlanNode.IsScan.visited_subset (h : child.IsScan scanSchema oid predicate)
    (hfinds : child.FindsRows ctx.catalog rows) : ∀ r ∈ child.visited ctx.catalog rows, r ∈ rows := by
  rcases h with rfl | ⟨indexOid, val, rfl⟩
  · exact fun r hr => hr
  · exact hfinds.visited.2.2

/-- A modification that returns has gone along its child. -/
lemma HeapDatabase.exists_loop (h : HeapDatabase ctx pages) (hbijective : ctx.catalog.Bijective)
    (hinfo : ctx.catalog.getTable oid = some info)
    (hsource : ctx.catalog.getTable sourceOid = some source)
    (hscan : child.IsScan scanSchema sourceOid predicate)
    (hfinds : child.FindsRows ctx.catalog (liveRows (pages sourceOid)))
    (hret : Returns (execute fuel (modificationExecutor fuel out (createExecutor std fuel child) oid
      body)) ctx result ctx') :
    ∃ oids st st' count, oids.Nodup ∧
      Returns ((createExecutor std fuel child).init (createExecutor std fuel child).fresh) ctx st
        ctx ∧
      Returns (forEachRow (createExecutor std fuel child).next (body info oids) fuel st 0) ctx
        (st', count) ctx' := by
  obtain ⟨st, c, info', oids, st', count, hinit, hinfo', hlisted, hloop⟩ := exists_modification hret
  obtain ⟨rfl, -⟩ := (h.table sourceOid source hsource).exists_walk hsource hscan hfinds hinit
  obtain rfl := Option.some.inj (hinfo.symm.trans hinfo')
  obtain ⟨oids', hlisted', hnodup, -⟩ := hbijective.exists_indexes info.name
  cases hlisted.symm.trans hlisted'
  exact ⟨oids, st, st', count, hnodup, hinit, hloop⟩

/-! ## `INSERT` -/

/-- What an `INSERT` that returns has done. -/
lemma HeapDatabase.exists_rowsStored (h : HeapDatabase ctx pages)
    (hbijective : ctx.catalog.Bijective) (hinfo : ctx.catalog.getTable oid = some info)
    (hsource : ctx.catalog.getTable sourceOid = some source)
    (hscan : child.IsScan scanSchema sourceOid predicate)
    (hfinds : child.FindsRows ctx.catalog (liveRows (pages sourceOid)))
    (hret : Returns (executePlan std fuel (.insert out child oid)) ctx result ctx') :
    ∃ pages', RowsStored ctx pages oid (child.reading source)
      (child.visited ctx.catalog (liveRows (pages sourceOid))) (sourceOid = oid) ctx' pages' [] := by
  obtain ⟨oids, st, st', count, hnodup, hinit, hloop⟩ :=
    h.exists_loop hbijective hinfo hsource hscan hfinds hret
  obtain ⟨-, J, hwalks, hJ⟩ :=
    (h.table sourceOid source hsource).exists_walk hsource hscan hfinds hinit
  exact h.insertLoop hnodup hinfo hsource hwalks hJ hloop

/-- The bytes that are stored are those of a row that the child visits, if the values of such rows
suit the columns.

**Proof sketch.** The child hands on the bytes of a row. This is so again for the rows of the
statement itself that it reads. -/
lemma InsertedBytes.eq_row (hb : InsertedBytes (child.reading source) start again b)
    (hschema : source.schema = .new cols) (hlive : ∀ r ∈ start, IsStored r.2)
    (hkeeps : ∀ r ∈ start, ∀ made, child.reading source r = pure (some made) →
      IsStored (bytesOf made) → ∃ values, source.schema.Serializes values r.2 ∧
        HasTypes types values ∧ Aligned values) (hstored : IsStored b) :
    ∃ r ∈ start, ∃ made values, child.reading source r = pure (some made) ∧ bytesOf made = b ∧
      source.schema.Serializes values b ∧ HasTypes types values ∧ Aligned values ∧ r.2 = b := by
  induction hb with
  | @row r made hr hread =>
    obtain ⟨values, hserializes, htypes, haligned⟩ := hkeeps r hr made hread hstored
    have hbytes := PlanNode.bytesOf_reading hserializes hschema haligned (hlive r hr) hread
    rw [hbytes]
    exact ⟨r, hr, made, values, hread, hbytes, hserializes, htypes, haligned, rfl⟩
  | @again rid b made hagain hstored' _ hread ih =>
    obtain ⟨r, hr, made', values, hread', hbytes', hserializes, htypes, haligned, hr₂⟩ := ih hstored'
    have hbytes := @PlanNode.bytesOf_reading values made source cols (rid, b) child hserializes
      hschema haligned hstored' hread
    rw [hbytes]
    exact ⟨r, hr, made', values, hread', hbytes', hserializes, htypes, haligned, hr₂⟩

/-- `INSERT` keeps the tables typed, if the values of the rows suit the columns.

**Proof sketch.** The stored bytes are those of a visited row, and the serialization of its values for
the columns of the target as well. A row that is read back has only one such list of values. -/
lemma RowsStored.storesTyped (h : TypedDatabase ctx pages)
    (hinfo : ctx.catalog.getTable oid = some info)
    (hsource : ctx.catalog.getTable sourceOid = some source)
    (hscan : child.IsScan scanSchema sourceOid predicate)
    (hstored : RowsStored ctx pages oid (child.reading source)
      (child.visited ctx.catalog (liveRows (pages sourceOid))) (sourceOid = oid) ctx' pages' [])
    (hkeeps : (PlanNode.insert out child oid).KeepsTypes std ctx pages) :
    (PlanNode.insert out child oid).StoresTyped std ctx pages ctx' pages' := by
  obtain ⟨hstep, hvalues⟩ := hkeeps
  obtain ⟨cols, hschema⟩ := h.schema sourceOid source hsource
  obtain ⟨targetCols, htarget⟩ := h.schema oid info hinfo
  have hlive : ∀ r ∈ child.visited ctx.catalog (liveRows (pages sourceOid)), IsStored r.2 :=
    fun r hr => (h.table sourceOid source hsource).isStored
      (hscan.visited_subset (hstep _ hscan.scannedOid) r hr)
  have hpicks : ∀ r ∈ child.visited ctx.catalog (liveRows (pages sourceOid)), ∀ made,
      child.reading source r = pure (some made) → child.Picks ctx pages source r made :=
    fun r hr made hread => ⟨⟨sourceOid, hscan.scannedOid, hsource, hr⟩, hread⟩
  have hkeeps : ∀ r ∈ child.visited ctx.catalog (liveRows (pages sourceOid)), ∀ made,
      child.reading source r = pure (some made) → IsStored (bytesOf made) →
      ∃ values, source.schema.Serializes values r.2 ∧ HasTypes info.schema.types values ∧
        Aligned values :=
    fun r hr made hread => hvalues info source r made hinfo (hpicks r hr made hread)
  have hnew : ∀ row ∈ liveRows (pages' oid), IsStored row.2 := fun row hrow =>
    (hstored.database.table oid info ((hstored.tables oid).trans hinfo)).isStored hrow
  refine ⟨h.modified hstored.database hstored.tables hstored.others hinfo fun row hrow => ?_,
    hstored.tables, fun oid' row hrow => ?_, ?_⟩
  · rcases hstored.stored row hrow with hold | ⟨hroom, hb⟩
    · exact h.typed oid info hinfo row hold
    · obtain ⟨-, -, -, values, -, -, hserializes, htypes, -⟩ := hb.eq_row hschema hlive hkeeps hroom
      exact ⟨values, htypes, hserializes.bytes, hserializes.size⟩
  · by_cases hoid : oid' = oid
    · subst hoid
      by_cases hold : row ∈ liveRows (pages oid')
      · exact .inl hold
      · obtain ⟨hroom, hb⟩ := (hstored.stored row hrow).resolve_left hold
        obtain ⟨r, hr, made, values, hread, hbytes, hserializes, -, -, hr₂⟩ :=
          hb.eq_row hschema hlive hkeeps hroom
        rw [← hr₂] at hserializes
        exact .inr ⟨values, rfl, hold, source, r, made, hpicks r hr made hread, hbytes.symm,
          hserializes⟩
    · rw [hstored.others oid' hoid] at hrow
      exact .inl hrow
  · rintro oid' info' row values hinfo' hrow ⟨rfl, -, source', r, made, hpick, hrow₂, hserializes⟩
    obtain rfl := Option.some.inj (hinfo.symm.trans hinfo')
    obtain ⟨oid₁, hoid₁, hsource', hr⟩ := hpick.visits
    obtain rfl := Option.some.inj (hscan.scannedOid.symm.trans hoid₁)
    obtain rfl := Option.some.inj (hsource.symm.trans hsource')
    have hroom := hnew row hrow
    obtain ⟨values', hserializes', htypes, haligned⟩ :=
      hkeeps r hr made hpick.reads (hrow₂ ▸ hroom)
    obtain rfl := hserializes.unique hserializes'
    have hbytes := PlanNode.bytesOf_reading hserializes hschema haligned (hlive r hr) hpick.reads
    rw [← hbytes, ← hrow₂] at hserializes
    exact info.storedValues_of_serializes ⟨htypes, hserializes.bytes, hserializes.size⟩ htarget
      haligned hroom

/-- If `INSERT` keeps the tables typed, the values have the types of the columns. -/
lemma RowsStored.suitsTypes (hinfo : ctx.catalog.getTable oid = some info)
    (hsource : ctx.catalog.getTable sourceOid = some source)
    (hscan : child.IsScan scanSchema sourceOid predicate)
    (hstored : RowsStored ctx pages oid (child.reading source)
      (child.visited ctx.catalog (liveRows (pages sourceOid))) (sourceOid = oid) ctx' pages' [])
    (htyped : (PlanNode.insert out child oid).StoresTyped std ctx pages ctx' pages'') :
    (PlanNode.insert out child oid).SuitsTypes std ctx pages := by
  intro _ info' source' r made values hinfo' hpick hroom hserializes
  obtain rfl := Option.some.inj (hinfo.symm.trans hinfo')
  obtain ⟨oid₁, hoid₁, hsource', hr⟩ := hpick.visits
  obtain rfl := Option.some.inj (hscan.scannedOid.symm.trans hoid₁)
  obtain rfl := Option.some.inj (hsource.symm.trans hsource')
  rcases hstored.done r hr with hahead | hdone
  · cases hahead
  · obtain ⟨rid, hrow, hnew⟩ := hdone made hpick.reads hroom
    rw [hstored.database.liveRows_eq htyped.database.toHeapDatabase
      ((hstored.tables oid).trans hinfo)] at hrow
    obtain ⟨w, hw⟩ := htyped.database.typed oid info ((htyped.tables oid).trans hinfo) _ hrow
    have hread := htyped.reads oid info _ values hinfo hrow
      ⟨rfl, hnew, source, r, made, hpick, rfl, hserializes⟩
    refine hasTypes_storedValues ?_ hread
    have hle : w.length ≤ (bytesOf made).length := hw.length_values_le
    have hsize := hroom.2
    rw [hw.length_columns_eq]
    unfold pageSize at hsize
    omega

/-! ## `UPDATE` -/

/-- Scans of rows make one thing of them. -/
lemma Completes.unique {plan : PlanNode} {tuples tuples' : List Tuple} {c c' : ExecutorContext}
    (h : Completes std plan ctx tuples c) (h' : Completes std plan ctx tuples' c') :
    tuples = tuples' ∧ c = c' := by
  obtain ⟨fuel₀, hret⟩ := h
  obtain ⟨fuel₁, hret'⟩ := h'
  exact (hret _ (le_max_left fuel₀ fuel₁)).unique (hret' _ (le_max_right fuel₀ fuel₁))

/-- An `UPDATE` replaces one list of rows. -/
lemma Replaces.unique (hnodup : (rows.map Prod.fst).Nodup)
    (h : Replaces std ctx child updateExprs rows rs)
    (h' : Replaces std ctx child updateExprs rows rs') : rs = rs' := by
  have hscanned := (h.scanned.unique h'.scanned).1
  have hlength : rs.length = rs'.length := by
    simpa using congrArg List.length hscanned
  refine List.ext_getElem hlength fun i hi hi' => ?_
  have hmem : rs[i] ∈ rs := List.getElem_mem hi
  have hmem' : rs'[i] ∈ rs' := List.getElem_mem hi'
  have hsame : rs[i].scanned = rs'[i].scanned := by
    have hget := congrArg (fun l => l[i]?) hscanned
    simpa [hi, hi'] using hget
  have hstored := h.stored _ hmem
  have hstored' := h'.stored _ hmem'
  have hevaluated := h.evaluated _ hmem
  have hevaluated' := h'.evaluated _ hmem'
  generalize rs[i] = r at hsame hstored hevaluated
  generalize rs'[i] = r' at hsame hstored' hevaluated'
  obtain ⟨old, scanned, updated⟩ := r
  obtain ⟨old', scanned', updated'⟩ := r'
  obtain rfl : scanned = scanned' := hsame
  obtain rfl := Except.ok.inj (Option.some.inj (hevaluated.symm.trans hevaluated'))
  obtain rfl : old = old' :=
    (Prod.mk.inj (List.inj_on_of_nodup_map hnodup hstored hstored' rfl)).2
  rfl

/-- What an `UPDATE` has done whose updates take only bytes that are free. -/
structure RowsReplaced (ctx : ExecutorContext) (pages : ℕ → Pages) (oid : ℕ)
    (rs : List Replacement) (ctx' : ExecutorContext) (p : Pages) : Prop where
  database : HeapDatabase ctx' (Function.update pages oid p)
  tables : ∀ oid', ctx'.catalog.getTable oid' = ctx.catalog.getTable oid'
  rids : (rs.map Replacement.rid).Nodup
  rows : liveRows p = replaceRows (accepted (freeSpace ctx.bpm) rs) (liveRows (pages oid))

/-- What an `UPDATE` that returns has done. -/
lemma HeapDatabase.exists_rowsReplaced (h : HeapDatabase ctx pages)
    (hbijective : ctx.catalog.Bijective) (hinfo : ctx.catalog.getTable oid = some info)
    (hscan : child.IsScan scanSchema oid predicate)
    (hfinds : child.FindsRows ctx.catalog (liveRows (pages oid)))
    (hreplaces : Replaces std ctx child updateExprs (liveRows (pages oid)) rs)
    (horderly : Orderly (freeSpace ctx.bpm) rs)
    (hret : Returns (executePlan std fuel (.update out child oid updateExprs)) ctx result ctx') :
    ∃ p, RowsReplaced ctx pages oid rs ctx' p := by
  obtain ⟨oids, st, st', count, hnodup, hinit, hloop⟩ :=
    h.exists_loop hbijective hinfo hinfo hscan hfinds hret
  obtain ⟨-, hrids, J, hreplays, hJ⟩ :=
    (h.table oid info hinfo).exists_replays hinfo hscan hfinds hreplaces hinit
  have hevaluated := hreplaces.evaluated
  rw [← outputSchema_createExecutor std fuel child] at hevaluated
  obtain ⟨p, hdatabase, htables, hrows⟩ := h.updateLoop hnodup hinfo hreplays hJ hreplaces.stored
    hevaluated hrids horderly hloop
  exact ⟨p, hdatabase, htables, hrids, hrows⟩

/-- A row afterwards is one that was there, or has got its new bytes. -/
lemma RowsReplaced.row_cases (h : RowsReplaced ctx pages oid rs ctx' p)
    (hstored : ∀ r ∈ rs, (r.rid, r.old) ∈ liveRows (pages oid)) {row : RID × List UInt8}
    (hrow : row ∈ liveRows p) : row ∈ liveRows (pages oid) ∨
      ∃ r ∈ accepted (freeSpace ctx.bpm) rs, row = (r.rid, r.bytes) := by
  have hsub := accepted_sublist (freeSpace ctx.bpm) rs
  rw [h.rows] at hrow
  by_cases hmem : row.1 ∈ (accepted (freeSpace ctx.bpm) rs).map Replacement.rid
  · obtain ⟨r, hr, hrid⟩ := List.mem_map.1 hmem
    obtain ⟨rid, b⟩ := row
    obtain rfl : r.rid = rid := hrid
    have hold := List.mem_map_of_mem (f := Prod.fst) (hstored r (hsub.subset hr))
    obtain ⟨rfl, -⟩ := (mem_replaceRows_iff (h.rids.sublist (hsub.map _)) hr hold).1 hrow
    exact .inr ⟨r, hr, rfl⟩
  · exact .inl ((mem_replaceRows_of_notMem hmem).1 hrow)

/-- `UPDATE` keeps the tables typed, if the new values suit the columns.

**Proof sketch.** A row afterwards is an old one or has the bytes of an update that was not refused.
Which rows are replaced, and by what, is determined before the statement begins. -/
lemma RowsReplaced.storesTyped (h : TypedDatabase ctx pages)
    (hinfo : ctx.catalog.getTable oid = some info)
    (hreplaces : Replaces std ctx child updateExprs (liveRows (pages oid)) rs)
    (hreplaced : RowsReplaced ctx pages oid rs ctx' p)
    (hkeeps : ∀ r ∈ accepted (freeSpace ctx.bpm) rs,
      (∃ old, info.schema.Serializes old r.old ∧
        evaluateRow updateExprs child.getOutputSchema { values := old } = pure r.updated) ∧
      HasTypes info.schema.types r.updated.values ∧ Aligned r.updated.values ∧
      encodedSize r.updated.values < 2 ^ 32) :
    (PlanNode.update out child oid updateExprs).StoresTyped std ctx pages ctx'
      (Function.update pages oid p) := by
  obtain ⟨cols, hschema⟩ := h.schema oid info hinfo
  have hsub := accepted_sublist (freeSpace ctx.bpm) rs
  have hnodup := nodup_liveRows (h.table oid info hinfo).holds.nodup
  have hserializes : ∀ r ∈ accepted (freeSpace ctx.bpm) rs,
      info.schema.Serializes r.updated.values r.bytes := by
    intro r hr
    obtain ⟨-, htypes, -, hsize⟩ := hkeeps r hr
    obtain ⟨values, -, hmake⟩ := Cpp.bind_eq_pure.1 (hreplaces.evaluated r (hsub.subset hr))
    rw [← values_of_ofValues hmake] at hmake
    exact Schema.serializes_of_ofValues htypes hmake hsize
  have hnew : ∀ row ∈ liveRows p, IsStored row.2 := by
    intro row hrow
    have htable := hreplaced.database.table oid info ((hreplaced.tables oid).trans hinfo)
    rw [Function.update_self] at htable
    exact htable.isStored hrow
  refine ⟨h.modified hreplaced.database hreplaced.tables
    (fun oid' hne => Function.update_of_ne hne ..) hinfo fun row hrow => ?_, hreplaced.tables,
    fun oid' row hrow => ?_, ?_⟩
  · rw [Function.update_self] at hrow
    rcases hreplaced.row_cases hreplaces.stored hrow with hold | ⟨r, hr, rfl⟩
    · exact h.typed oid info hinfo row hold
    · exact ⟨_, hserializes r hr⟩
  · by_cases hoid : oid' = oid
    · subst hoid
      rw [Function.update_self] at hrow
      rcases hreplaced.row_cases hreplaces.stored hrow with hold | ⟨r, hr, rfl⟩
      · exact .inl hold
      · obtain ⟨⟨old, hold, heval⟩, -⟩ := hkeeps r hr
        exact .inr ⟨_, rfl, rs, info, r, old, r.updated, hreplaces, hinfo, hsub.subset hr, rfl, hold,
          heval, rfl⟩
    · rw [Function.update_of_ne hoid] at hrow
      exact .inl hrow
  · rintro oid' info' row values hinfo' hrow
      ⟨rfl, rs', info'', r, old, new, hreplaces', hinfo'', hr, rfl, hold, heval, rfl⟩
    obtain rfl := Option.some.inj (hinfo.symm.trans hinfo')
    obtain rfl := Option.some.inj (hinfo.symm.trans hinfo'')
    obtain rfl := hreplaces.unique hnodup hreplaces'
    rw [Function.update_self] at hrow
    have haccepted : r ∈ accepted (freeSpace ctx.bpm) rs := by
      rw [hreplaced.rows] at hrow
      exact mem_accepted_of_mem_replaceRows hnodup hreplaces.stored hreplaced.rids hr hrow
    obtain ⟨⟨old', hold', heval'⟩, -, haligned, -⟩ := hkeeps r haccepted
    obtain rfl := hold.unique hold'
    obtain rfl := Except.ok.inj (Option.some.inj (heval.symm.trans heval'))
    exact info.storedValues_of_serializes (hserializes r haccepted) hschema haligned (hnew _ hrow)

/-- If `UPDATE` keeps the tables typed, the new values have the types of the columns. -/
lemma RowsReplaced.hasTypes (hinfo : ctx.catalog.getTable oid = some info)
    (hreplaces : Replaces std ctx child updateExprs (liveRows (pages oid)) rs)
    (hreplaced : RowsReplaced ctx pages oid rs ctx' p)
    (htyped : (PlanNode.update out child oid updateExprs).StoresTyped std ctx pages ctx' pages')
    {r : Replacement} (hr : r ∈ accepted (freeSpace ctx.bpm) rs) (hne : r.bytes ≠ [])
    {old : List Value} {new : Tuple} (hold : info.schema.Serializes old r.old)
    (heval : evaluateRow updateExprs child.getOutputSchema { values := old } = pure new) :
    HasTypes info.schema.types new.values := by
  have hsub := accepted_sublist (freeSpace ctx.bpm) rs
  have hmem := List.mem_map_of_mem (f := Prod.fst) (hreplaces.stored r (hsub.subset hr))
  have hrow : (r.rid, r.bytes) ∈ liveRows p := by
    rw [hreplaced.rows]
    exact (mem_replaceRows_iff (hreplaced.rids.sublist (hsub.map _)) hr hmem).2 ⟨rfl, hne⟩
  have hsame := hreplaced.database.liveRows_eq htyped.database.toHeapDatabase
    ((hreplaced.tables oid).trans hinfo)
  rw [Function.update_self] at hsame
  rw [hsame] at hrow
  have hread := htyped.reads oid info _ new.values hinfo hrow
    ⟨rfl, rs, info, r, old, new, hreplaces, hinfo, hsub.subset hr, rfl, hold, heval, rfl⟩
  refine hasTypes_storedValues ?_ hread
  obtain ⟨w, hw⟩ := htyped.database.typed oid info ((htyped.tables oid).trans hinfo) _ hrow
  have hle := hw.length_values_le
  have hsize := ((htyped.database.table oid info
    ((htyped.tables oid).trans hinfo)).length_le hrow).2
  rw [hw.length_columns_eq]
  unfold pageSize at hsize
  omega

/-! ## `DELETE` -/

/-- `DELETE` keeps the tables typed. -/
lemma HeapDatabase.exists_storesTyped_delete (h : TypedDatabase ctx pages)
    (hbijective : ctx.catalog.Bijective) (hinfo : ctx.catalog.getTable oid = some info)
    (hscan : child.IsScan scanSchema oid predicate)
    (hfinds : child.FindsRows ctx.catalog (liveRows (pages oid)))
    (hret : Returns (executePlan std fuel (.delete out child oid)) ctx result ctx') :
    ∃ pages', (PlanNode.delete out child oid).StoresTyped std ctx pages ctx' pages' := by
  obtain ⟨oids, st, st', count, hnodup, hinit, hloop⟩ :=
    h.exists_loop hbijective hinfo hinfo hscan hfinds hret
  obtain ⟨-, J, hwalks, hJ⟩ := (h.table oid info hinfo).exists_walk hinfo hscan hfinds hinit
  obtain ⟨pages', hgone⟩ := h.deleteLoop hnodup hinfo hwalks hJ hloop
  refine ⟨pages', h.modified hgone.database hgone.tables hgone.others hinfo
    fun row hrow => h.typed oid info hinfo row (hgone.left row hrow), hgone.tables,
    fun oid' row hrow => .inl ?_, nofun⟩
  by_cases hoid : oid' = oid
  · subst hoid
    exact hgone.left row hrow
  · rwa [hgone.others oid' hoid] at hrow

end Plans

/-! ## The statements -/

/-- The statement is `INSERT`, `DELETE` or `UPDATE`. -/
def Statement.modifies : Statement → Bool
  | .insertStmt .. | .deleteStmt .. | .updateStmt .. => true
  | _ => false

/-- The optimized plan of such a statement: its child scans a table, the one that is modified unless
the statement inserts. -/
inductive PlanNode.Modifies (catalog : Catalog) : PlanNode → Prop
  | insert {info source : TableInfo} {predicate : Expression} {child : PlanNode}
      (hinfo : catalog.getTable info.oid = some info)
      (hsource : catalog.getTable source.oid = some source)
      (hscan : child.IsScan source.schema source.oid predicate) :
      Modifies catalog (.insert countSchema child info.oid)
  | delete {info : TableInfo} {predicate : Expression} {child : PlanNode}
      (hinfo : catalog.getTable info.oid = some info)
      (hscan : child.IsScan info.schema info.oid predicate) :
      Modifies catalog (.delete countSchema child info.oid)
  | update {info : TableInfo} {predicate : Expression} {child : PlanNode}
      {updateExprs : List Expression} (hinfo : catalog.getTable info.oid = some info)
      (hscan : child.IsScan info.schema info.oid predicate) :
      Modifies catalog (.update countSchema child info.oid updateExprs)

section Statements

variable {std : StandardLibrary} {stof : String → Cpp (BitVec 32)} {ctx ctx' : ExecutorContext}
  {pages : ℕ → Pages} {catalog : Catalog} {info : TableInfo} {tableName : String}
  {whereClause : Node} {items : List FromItem} {sub sub' : List TableScope × PlanNode}
  {stmt : Statement} {rest : List Statement} {plan optimized child : PlanNode} {fuel : ℕ}
  {result : List Tuple} {scanSchema : Schema} {oid : ℕ} {predicate : Expression}

/-- A table that is found is filed under its oid. -/
lemma Catalog.Bijective.getTable_of_lookup (h : catalog.Bijective)
    (hlookup : lookupTable catalog tableName = pure info) :
    catalog.getTable info.oid = some info := by
  obtain ⟨found, hfound, hrest⟩ := Cpp.bind_eq_pure.1 hlookup
  cases found with
  | none => cases hrest
  | some info' =>
    cases hrest
    exact h.consistent.getTable hfound

/-- The source of an `INSERT` is a scan of the last table of its `FROM` clause, if that has one. -/
lemma eq_seqScan_of_bindSource (h : catalog.Bijective)
    (hfold : items.foldlM (bindSource stof catalog whereClause) sub = pure sub') :
    sub'.2 = sub.2 ∨ ∃ source predicate, catalog.getTable source.oid = some source ∧
      sub'.2 = .seqScan source.schema source.oid predicate := by
  induction items generalizing sub with
  | nil =>
    cases hfold
    exact .inl rfl
  | cons item items ih =>
    rw [List.foldlM_cons] at hfold
    obtain ⟨mid, hmid, hrest⟩ := Cpp.bind_eq_pure.1 hfold
    rcases ih hrest with heq | hscan
    · cases item with
      | rangeVar rv =>
        obtain ⟨source, hsource, hbind⟩ := Cpp.bind_eq_pure.1 hmid
        obtain ⟨predicate, -, hpure⟩ := Cpp.bind_eq_pure.1 hbind
        cases hpure
        exact .inr ⟨source, predicate, h.getTable_of_lookup hsource, heq⟩
      | joinExpr => cases hmid; exact .inl heq
      | other => cases hmid; exact .inl heq
    · exact .inr hscan

/-- The optimizer makes a scan of a scan. -/
lemma isScan_of_optimize_seqScan
    (hopt : optimize (some catalog) (.seqScan scanSchema oid predicate) = pure child) :
    child.IsScan scanSchema oid predicate := isScan_of_optimize (scan_of_optimize hopt)

/-- The optimized plan of a statement that the binder accepts.

**Proof sketch.** An `INSERT` whose `FROM` clause names no table has no source, and the optimizer
does not return on its plan. -/
lemma modifies_of_bindQuery (h : catalog.Bijective) (hmodifies : stmt.modifies = true)
    (haccepts : (bindQuery stof catalog (.success (stmt :: rest))).Returns plan)
    (hopt : optimize (some catalog) plan = pure optimized) : optimized.Modifies catalog := by
  have hbind : bindStatement stof catalog stmt = pure plan := haccepts
  cases stmt with
  | insertStmt relname select =>
    obtain ⟨info, hlookup, hplan⟩ := Cpp.bind_eq_pure.1 hbind
    cases select with
    | none => cases hplan
    | some select =>
      dsimp only at hplan
      split_ifs at hplan
      · cases hplan
      · obtain ⟨⟨scopes, source⟩, hfold, hpure⟩ := Cpp.bind_eq_pure.1 hplan
        cases hpure
        obtain ⟨child, hchild, hrules⟩ := Cpp.bind_eq_pure.1 hopt
        cases hrules
        rcases eq_seqScan_of_bindSource h hfold with heq | ⟨source', predicate, hsource, heq⟩
        · obtain rfl : source = .null := heq
          cases hchild
        · obtain rfl : source = .seqScan source'.schema source'.oid predicate := heq
          exact .insert (h.getTable_of_lookup hlookup) hsource (isScan_of_optimize_seqScan hchild)
  | deleteStmt relname whereClause =>
    obtain ⟨info, hlookup, hplan⟩ := Cpp.bind_eq_pure.1 hbind
    obtain ⟨predicate, -, hpure⟩ := Cpp.bind_eq_pure.1 hplan
    cases hpure
    obtain ⟨child, hchild, hrules⟩ := Cpp.bind_eq_pure.1 hopt
    cases hrules
    exact .delete (h.getTable_of_lookup hlookup) (isScan_of_optimize_seqScan hchild)
  | updateStmt relname targetList whereClause =>
    obtain ⟨info, hlookup, hplan⟩ := Cpp.bind_eq_pure.1 hbind
    obtain ⟨setExprs, -, hplan⟩ := Cpp.bind_eq_pure.1 hplan
    obtain ⟨predicate, -, hpure⟩ := Cpp.bind_eq_pure.1 hplan
    cases hpure
    obtain ⟨child, hchild, hrules⟩ := Cpp.bind_eq_pure.1 hopt
    cases hrules
    exact .update (h.getTable_of_lookup hlookup) (isScan_of_optimize_seqScan hchild)
  | _ => cases hmodifies

end Statements

/-! ## Tables of notes -/

/-- A table with a column `id` of this type and a column `note VARCHAR`. -/
def noteTable (name : String) (oid : ℕ) (idType : TypeId) : TableInfo where
  schema := Schema.new [Column.new "id" idType, Column.new "note" .varchar]
  name := name
  table := ⟨(oid : ℤ) - 1⟩
  oid := oid

/-- The tables `s`, with the row `(7, 'a')`, `t`, and `u`, where `id` is a text. -/
def noteTables : ExecutorContext where
  catalog :=
    { nextTableOid := 4
      tables := [(3, noteTable "u" 3 .varchar), (2, noteTable "t" 2 .integer),
        (1, noteTable "s" 1 .integer)]
      tableNames := [("u", 3), ("t", 2), ("s", 1)] }
  bpm := storeOf [[notesRow.2], [], []]

/-- Their pages. -/
def noteTablesPages (oid : ℕ) : Pages :=
  if oid = 1 then [(0, [some notesRow.2])] else [((oid : ℤ) - 1, [])]

/-- `INSERT INTO tableName SELECT * FROM s`. -/
def copyNotes (tableName : String) : Statement :=
  .insertStmt tableName (some
    { targetList := [{ val := .aStar }], fromClause := [.rangeVar ⟨"s", none⟩] })

/-- `UPDATE s SET note = 'bb'`. -/
def renameNotes : Statement :=
  .updateStmt "s" [{ name := some "note", val := .aConst (.string "bb") }] .null

/-- `DELETE FROM s`. -/
def clearNotes : Statement := .deleteStmt "s" .null

/-- The values of the row. -/
def noteValues : List Value := [Value.ofInt 7, { payload := .varchar [97] }]

/-- The scan of `s`. -/
def notesSource : PlanNode := .seqScan (noteTable "s" 1 .integer).schema 1 .null

section Notes

/-- The tables were created one after the other. -/
lemma bijective_noteTables : noteTables.catalog.Bijective := by
  have hone : CatalogHistory
      { nextTableOid := 2, tables := [(1, noteTable "s" 1 .integer)], tableNames := [("s", 1)] } :=
    @CatalogHistory.createTable {} _ "s" (noteTable "s" 1 .integer).schema
      (.ok (some (noteTable "s" 1 .integer))) .empty rfl
  have htwo : CatalogHistory
      { nextTableOid := 3
        tables := [(2, noteTable "t" 2 .integer), (1, noteTable "s" 1 .integer)]
        tableNames := [("t", 2), ("s", 1)] } :=
    @CatalogHistory.createTable { catalog := _, bpm := storeOf [[]] } _ "t"
      (noteTable "t" 2 .integer).schema (.ok (some (noteTable "t" 2 .integer))) hone rfl
  have hthree : CatalogHistory
      { nextTableOid := 4
        tables := [(3, noteTable "u" 3 .varchar), (2, noteTable "t" 2 .integer),
          (1, noteTable "s" 1 .integer)]
        tableNames := [("u", 3), ("t", 2), ("s", 1)] } :=
    @CatalogHistory.createTable { catalog := _, bpm := storeOf [[], []] } _ "u"
      (noteTable "u" 3 .varchar).schema (.ok (some (noteTable "u" 3 .varchar))) htwo rfl
  exact bijective_of_history hthree

/-- The bytes of the row. -/
lemma serializes_noteValues (name : String) (oid : ℕ) :
    (noteTable name oid .integer).schema.Serializes noteValues notesRow.2 where
  types := .cons ⟨rfl, rfl⟩ (.cons ⟨rfl, rfl⟩ .nil)
  bytes := rfl
  size := by decide

/-- Every table lies on a page of its own, and the only row is typed. -/
lemma typedDatabase_noteTables : TypedDatabase noteTables noteTablesPages := by
  have hthree : ∀ oid info, noteTables.catalog.getTable oid = some info →
      oid = 3 ∧ info = noteTable "u" 3 .varchar ∨ oid = 2 ∧ info = noteTable "t" 2 .integer ∨
        oid = 1 ∧ info = noteTable "s" 1 .integer := by
    intro oid info hinfo
    have hmem := bijective_noteTables.getTable_iff.1 hinfo
    rcases List.mem_cons.1 hmem with heq | hmem
    · exact .inl (Prod.mk.inj heq)
    · rcases List.mem_cons.1 hmem with heq | hmem
      · exact .inr (.inl (Prod.mk.inj heq))
      · exact .inr (.inr (Prod.mk.inj (List.mem_singleton.1 hmem)))
  refine ⟨⟨fun oid info hinfo => ?_, fun oid info oid' info' hinfo hinfo' hne => ?_⟩,
    fun oid info hinfo => ?_, fun oid info hinfo r hr => ?_⟩
  · have hrows : ∀ (k : ℕ) rows, [[notesRow.2], [], []][k]? = some rows →
        roomOf rows + 16 ≤ pageSize →
        Holds noteTables.bpm.content ⟨k⟩ [((k : ℤ), rows.map some)] :=
      fun k rows => holds_storeOf
    refine ⟨ready_storeOf _, le_top, ?_⟩
    rcases hthree oid info hinfo with ⟨rfl, rfl⟩ | ⟨rfl, rfl⟩ | ⟨rfl, rfl⟩
    · exact hrows 2 [] rfl (by decide)
    · exact hrows 1 [] rfl (by decide)
    · exact hrows 0 [notesRow.2] rfl (by decide)
  · rcases hthree oid info hinfo with ⟨rfl, -⟩ | ⟨rfl, -⟩ | ⟨rfl, -⟩ <;>
      rcases hthree oid' info' hinfo' with ⟨rfl, -⟩ | ⟨rfl, -⟩ | ⟨rfl, -⟩ <;>
      first | exact absurd rfl hne | decide
  · rcases hthree oid info hinfo with ⟨-, rfl⟩ | ⟨-, rfl⟩ | ⟨-, rfl⟩ <;> exact ⟨_, rfl⟩
  · rcases hthree oid info hinfo with ⟨rfl, rfl⟩ | ⟨rfl, rfl⟩ | ⟨rfl, rfl⟩
    · cases hr
    · cases hr
    · obtain rfl : r = notesRow := List.mem_singleton.1 hr
      exact ⟨_, serializes_noteValues "s" 1⟩

/-- `SELECT * FROM s` visits the row, and makes it of its values. -/
lemma picks_notesSource : notesSource.Picks noteTables noteTablesPages (noteTable "s" 1 .integer)
    notesRow notesScanned where
  visits := ⟨1, rfl, rfl, List.mem_singleton_self _⟩
  reads := rfl

/-- It makes nothing else of no other row. -/
lemma eq_of_picks_notesSource {source : TableInfo} {r : RID × List UInt8} {made : Tuple}
    (h : notesSource.Picks noteTables noteTablesPages source r made) :
    source = noteTable "s" 1 .integer ∧ r = notesRow ∧ made = notesScanned := by
  obtain ⟨⟨oid, hoid, hsource, hr⟩, hread⟩ := h
  obtain rfl := Option.some.inj hoid
  obtain rfl := Option.some.inj hsource
  obtain rfl : r = notesRow := List.mem_singleton.1 hr
  refine ⟨rfl, rfl, ?_⟩
  cases hread.symm.trans picks_notesSource.reads
  rfl

/-- The row, with the note `bb`. -/
def renamedNote : Replacement where
  old := notesRow.2
  scanned := notesScanned
  updated :=
    { data := [7, 0, 0, 0, 2, 0, 0, 0, 98, 98]
      values := [Value.ofInt 7, { payload := .varchar [98, 98] }] }

/-- The new row takes bytes that are free. -/
lemma orderly_renamedNote : Orderly (freeSpace noteTables.bpm) [renamedNote] := by
  have hroom : roomOf [notesRow.2] + 16 ≤ pageSize := by decide
  have hcontent : noteTables.bpm.content 0 = some (TablePage.ofRows [notesRow.2]) :=
    content_storeOf [[notesRow.2], [], []] 0
  have hspace : freeSpace noteTables.bpm renamedNote.rid.pageId = 4067 := by
    show freeSpace noteTables.bpm 0 = 4067
    rw [freeSpace_eq hcontent, (TablePage.ofRows_spec hroom).2.2]
    rfl
  rw [Orderly]
  split_ifs
  · trivial
  · refine ⟨?_, trivial⟩
    rw [hspace]
    decide

/-- The plan of `UPDATE s SET note = 'bb'`. -/
def renamePlan : PlanNode :=
  .update countSchema notesSource 1
    [.columnValue 0 0 .integer, .constantValue { payload := .varchar [98, 98] }]

/-- The binder returns it. -/
lemma bindQuery_renameNotes : bindQuery (fun _ => Cpp.undefined) noteTables.catalog
    (.success [renameNotes]) = pure renamePlan := by
  have htext : textBytes "bb" = [98, 98] := by decide +kernel
  rw [renamePlan, ← htext]
  rfl

/-- The statement keeps the types. -/
lemma keepsTypes_renamePlan : renamePlan.KeepsTypes default noteTables noteTablesPages := by
  have htable := typedDatabase_noteTables.table 1 _ rfl
  refine ⟨fun oid hoid => ?_, [renamedNote], ⟨?_, ?_, ?_⟩, orderly_renamedNote,
    fun info hinfo r hr => ?_⟩
  · trivial
  · exact (htable.completes_seqScan rfl).2 ⟨rfl, [(notesScanned, notesRow.1)], rfl, rfl⟩
  · intro r hr
    obtain rfl := List.mem_singleton.1 hr
    exact List.mem_singleton_self _
  · intro r hr
    obtain rfl := List.mem_singleton.1 hr
    rfl
  · obtain rfl := Option.some.inj hinfo
    obtain rfl := List.mem_singleton.1 ((accepted_sublist _ _).subset hr)
    exact ⟨⟨noteValues, serializes_noteValues "s" 1, rfl⟩, .cons ⟨rfl, rfl⟩ (.cons ⟨rfl, rfl⟩ .nil),
      by decide, by decide⟩

/-- The statement returns on the tables of notes, and leaves them typed. -/
def LeavesNotesTyped (stmt : Statement) : Prop :=
  ∃ plan optimized result ctx' pages',
    (bindQuery (fun _ => Cpp.undefined) noteTables.catalog (.success [stmt])).Returns plan ∧
    optimize (some noteTables.catalog) plan = pure optimized ∧
    Returns (executePlan default 6 optimized) noteTables result ctx' ∧
    optimized.StoresTyped default noteTables noteTablesPages ctx' pages'

end Notes

end OneBase
