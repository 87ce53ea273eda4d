import OneBase.Execution.CatalogHistory
import OneBase.Execution.IndexedDatabase
import OneBase.Execution.Walks
import OneBase.Lib.Transition

set_option relaxedAutoImplicit false
set_option autoImplicit false

/-!
# Indexes over runs of statements

`CREATE INDEX`, `DROP INDEX`, `INSERT INTO t SELECT * FROM s` and `DELETE FROM t` keep the indexes in
step with the heap, in any order. A statement may be driven by an index scan, also a `DELETE` by one
on an index that it changes.

## Main definitions

* `OneBase.ReturnsRows` — a scan whose rows may be deleted behind it.
* `OneBase.DatabaseStatement`, `OneBase.DatabaseStep` — the statements, as they are executed.
* `OneBase.executeAll` — the database after statements that are executed one after the other.
* `OneBase.AnswersLookups` — `LookupInteger` finds the rows with a key.

## Main results

* `OneBase.IndexedDatabase.insertLoop`, `OneBase.IndexedDatabase.deleteLoop` — the loops.
* `OneBase.IndexedDatabase.step` — a statement.
* `OneBase.answersLookups_of_run` — a run of statements.
-/

namespace OneBase

open Exec TableHeap

/-! ## Scans -/

/-- From a state with `J` on, the scan returns rows of the table. It goes on whether a row is deleted
then or not. -/
def ReturnsRows {σ : Type} (next : σ → Exec (Option Row × σ)) (tableInfo : TableInfo)
    (schema : Schema) (J : σ → List (RID × List UInt8) → Prop) : Prop :=
  ∀ c p st o st' c', IntegerTable c tableInfo p → J st (liveRows p) →
    Returns (next st) c (o, st') c' → c' = c ∧ ∀ row, o = some row →
      ∃ r ∈ liveRows p, Carries schema r.2 row.1 ∧ row.2 = r.1 ∧ J st' (liveRows p) ∧
        J st' ((liveRows p).erase r)

section Scans

variable {σ : Type} {next : σ → Exec (Option Row × σ)}
  {J : σ → List (RID × List UInt8) → List (RID × List UInt8) → Prop}
  {ctx c : ExecutorContext} {tableInfo : TableInfo} {pages : ℕ → Pages} {schema : Schema}
  {read : RID × List UInt8 → Cpp (Option Tuple)} {fuel oid : ℕ} {predicate : Expression}
  {scanSchema : Schema} {std : StandardLibrary} {child : PlanNode}

/-- The rows of a scan may be deleted behind it: it has already moved on to the next row. -/
lemma Walks.returnsRows (h : Walks next tableInfo read J)
    (hread : ∀ c p r tuple, IntegerTable c tableInfo p → r ∈ liveRows p →
      read r = pure (some tuple) → Carries schema r.2 tuple) :
    ReturnsRows next tableInfo schema fun st rows => ∃ ahead, J st ahead rows := by
  rintro c p st o st' c' htable ⟨ahead, hJ⟩ hret
  obtain ⟨rfl, rest, hscan, hJ'⟩ := h.returns c p st ahead o st' c' htable.toHeapTable hJ hret
  refine ⟨rfl, ?_⟩
  rintro ⟨tuple, rid⟩ rfl
  obtain ⟨skipped, r, rfl, -, hmade, hrid⟩ := Scans.some_iff.1 hscan
  obtain rfl : rid = r.1 := hrid
  have hr : r ∈ liveRows p := h.subset _ _ _ hJ r (by simp)
  refine ⟨r, hr, hread c' p r tuple htable hr hmade, rfl, ⟨rest, hJ'⟩, rest, ?_⟩
  rw [← setRow_nil (nodup_liveRows htable.holds.nodup) hr]
  exact h.replaced _ _ _ _ _ hJ' (h.notMem_rest hJ)

/-- What a scan makes of a row of integers carries it. -/
lemma IntegerTable.carries_reading {p : Pages} (h : IntegerTable ctx tableInfo p)
    (hschema : schema.IsInteger)
    (hlen : schema.columns.length = tableInfo.schema.columns.length) {r : RID × List UInt8}
    {tuple : Tuple} (hr : r ∈ liveRows p) (hread : child.reading tableInfo r = pure (some tuple)) :
    Carries schema r.2 tuple := by
  have hraw : Carries schema r.2 (rawTuple r) := by
    have hsize := (h.length_le hr).2
    refine carries_rawTuple hschema ?_ (by unfold pageSize at hsize; omega)
    rw [hlen]
    exact h.rows r hr
  cases child with
  | seqScan out oid predicate =>
    obtain ⟨-, htuple⟩ := h.selects_of_scanRow hr hread
    obtain rfl := htuple tuple rfl
    exact carries_parsedTuple hlen
  | _ =>
    cases hread
    exact hraw

/-- The child of a statement, as the optimizer leaves it, starts as a scan of its table. -/
lemma IndexedDatabase.exists_scan (h : IndexedDatabase ctx pages)
    (hinfo : ctx.catalog.getTable oid = some tableInfo)
    (hopt : optimizeSeqScanToIndexScan (some ctx.catalog) (.seqScan scanSchema oid predicate) =
      pure child) {st : (createExecutor std fuel child).State}
    (hinit : Returns ((createExecutor std fuel child).init (createExecutor std fuel child).fresh)
      ctx st c) :
    c = ctx ∧ ∀ schema : Schema, schema.IsInteger →
      schema.columns.length = tableInfo.schema.columns.length →
      ∃ J, ReturnsRows (createExecutor std fuel child).next tableInfo schema J ∧
        J st (liveRows (pages oid)) := by
  have htable := h.table oid tableInfo hinfo
  obtain ⟨oids, hindexes, -⟩ := h.exists_tableIndexes hinfo
  have hfinds : child.FindsRows ctx.catalog (liveRows (pages oid)) := by
    refine hindexes.findsRows hinfo hopt fun indexOid hmem i attr hi hlookup hattr key => ?_
    have hfiled := h.agrees_table hinfo hindexes.listed indexOid hmem i attr hi hlookup hattr
    refine ⟨hfiled.nodup key, fun rid hrid => ?_⟩
    obtain ⟨b, hb, -⟩ := (hfiled.mem_iff key rid).1 hrid
    exact List.mem_map_of_mem hb
  obtain ⟨rfl, J, hwalks, hJ⟩ := htable.exists_walk hinfo (isScan_of_optimize hopt) hfinds
    hinit
  refine ⟨rfl, fun schema hschema hlen => ⟨_, hwalks.returnsRows fun c p r tuple hp hr hread => ?_,
    _, hJ⟩⟩
  exact hp.carries_reading hschema hlen hr hread

end Scans

/-! ## The loops -/

section Loops

variable {σ : Type} {next : σ → Exec (Option Row × σ)} {J : σ → List (RID × List UInt8) → Prop}
  {ctx ctx' : ExecutorContext} {info sourceInfo : TableInfo} {pages : ℕ → Pages} {oids : List ℕ}
  {fuel n oid source : ℕ} {st st' : σ} {count count' : ℤ}

/-- The loop of `INSERT` over a scan of another table. -/
lemma IndexedDatabase.insertLoop (h : IndexedDatabase ctx pages) (hframes : 2 ≤ ctx.poolSize)
    (hinfo : ctx.catalog.getTable oid = some info)
    (hlisted : ctx.catalog.getTableIndexes info.name = pure oids)
    (hsource : ctx.catalog.getTable source = some sourceInfo) (hne : source ≠ oid)
    (hlen : info.schema.columns.length = sourceInfo.schema.columns.length)
    (hscan : ReturnsRows next sourceInfo info.schema J) (hJ : J st (liveRows (pages source)))
    (hret : Returns (forEachRow next (insertRow fuel info oids) n st count) ctx (st', count')
      ctx') : ∃ pages', IndexedDatabase ctx' pages' := by
  refine forEachRow_rule
    (I := fun st _ c => ∃ pages', IndexedDatabase c pages' ∧ 2 ≤ c.poolSize ∧
      c.catalog.getTable oid = some info ∧ c.catalog.getTableIndexes info.name = pure oids ∧
      c.catalog.getTable source = some sourceInfo ∧ J st (liveRows (pages' source)))
    (Q := fun _ _ c => ∃ pages', IndexedDatabase c pages') ?_ ?_
    ⟨pages, h, hframes, hinfo, hlisted, hsource, hJ⟩ hret
  · rintro st acc c row st' c' acc' c'' ⟨pages, h, hframes, hinfo, hlisted, hsource, hJ⟩ hnext hbody
    obtain ⟨rfl, hrow⟩ := hscan c _ st _ st' c' (h.table source _ hsource) hJ hnext
    obtain ⟨r, hr, hcarries, -, hJ', -⟩ := hrow row rfl
    have hwidth : r.2.length = 4 * info.schema.columns.length := by
      rw [hlen]
      exact (h.table source _ hsource).rows r hr
    have hfits := ((h.table source _ hsource).length_le hr).2
    have hsome : r.2 ≠ [] := (mem_liveRows.1 hr).choose_spec.2.2
    obtain ⟨-, rid, p, hinserted⟩ := (h.table oid _ hinfo).insertRow_returns hframes
      (h.tableIndexes hinfo hlisted).1.nodup hcarries hwidth hfits hsome hbody
    have hbijective : c''.catalog.Bijective :=
      leads_insertRow (fun _ oid _ _ hc => hc.modifyIndex oid fun _ => ⟨rfl, rfl, rfl, rfl⟩) _ _ _ _
        _ _ _ hbody h.bijective
    obtain ⟨tuple, -, hmaintained⟩ := hinserted.catalog
    have htables : ∀ oid', c''.catalog.getTable oid' = c'.catalog.getTable oid' := by
      intro oid'
      rw [hmaintained.others]
      rfl
    refine ⟨_, h.rowInserted hinfo hlisted hbijective hinserted, ?_, (htables oid).trans hinfo, ?_,
      (htables source).trans hsource, ?_⟩
    · rw [hinserted.poolSize_eq]
      exact hframes
    · exact (hmaintained.getTableIndexes (onlyEntries_insertChange _ _ _) _).trans hlisted
    · rw [Function.update_of_ne hne]
      exact hJ'
  · rintro st acc c st' c' ⟨pages, h, -, -, -, hsource, hJ⟩ hnext
    obtain ⟨rfl, -⟩ := hscan c _ st _ st' c' (h.table source _ hsource) hJ hnext
    exact ⟨pages, h⟩

/-- The loop of `DELETE` over a scan of its table. -/
lemma IndexedDatabase.deleteLoop (h : IndexedDatabase ctx pages)
    (hinfo : ctx.catalog.getTable oid = some info)
    (hlisted : ctx.catalog.getTableIndexes info.name = pure oids)
    (hscan : ReturnsRows next info info.schema J) (hJ : J st (liveRows (pages oid)))
    (hret : Returns (forEachRow next (deleteRow info oids) n st count) ctx (st', count') ctx') :
    ∃ pages', IndexedDatabase ctx' pages' := by
  refine forEachRow_rule
    (I := fun st _ c => ∃ pages', IndexedDatabase c pages' ∧
      c.catalog.getTable oid = some info ∧ c.catalog.getTableIndexes info.name = pure oids ∧
      J st (liveRows (pages' oid)))
    (Q := fun _ _ c => ∃ pages', IndexedDatabase c pages') ?_ ?_
    ⟨pages, h, hinfo, hlisted, hJ⟩ hret
  · rintro st acc c row st' c' acc' c'' ⟨pages, h, hinfo, hlisted, hJ⟩ hnext hbody
    obtain ⟨rfl, hrow⟩ := hscan c _ st _ st' c' (h.table oid _ hinfo) hJ hnext
    obtain ⟨r, hr, hcarries, hrid, -, hJ'⟩ := hrow row rfl
    have hmem : (row.2, r.2) ∈ liveRows (pages oid) := by
      rw [hrid]
      exact hr
    obtain ⟨-, p, hdeleted⟩ := (h.table oid _ hinfo).deleteRow_returns
      (h.tableIndexes hinfo hlisted).1.nodup hcarries hmem hbody
    have hbijective : c''.catalog.Bijective :=
      leads_deleteRow (fun _ oid key rid hc => hc.modifyIndex oid fun i => i.removeEntry_filed key rid)
        _ _ _ _ _ _ _ hbody h.bijective
    obtain ⟨tuple, -, hmaintained⟩ := hdeleted.catalog
    have htables : c''.catalog.getTable oid = c'.catalog.getTable oid := by
      rw [hmaintained.others]
      rfl
    refine ⟨_, h.rowDeleted hinfo hlisted hbijective hdeleted, htables.trans hinfo, ?_, ?_⟩
    · exact (hmaintained.getTableIndexes (onlyEntries_deleteChange _ _ _) _).trans hlisted
    · rw [Function.update_self, hdeleted.erase (h.table oid _ hinfo).nodup_rows, hrid]
      exact hJ'
  · rintro st acc c st' c' ⟨pages, h, hinfo, -, hJ⟩ hnext
    obtain ⟨rfl, -⟩ := hscan c _ st _ st' c' (h.table oid _ hinfo) hJ hnext
    exact ⟨pages, h⟩

end Loops

/-! ## The statements -/

/-- The plans of `CREATE INDEX`, `DROP INDEX`, `INSERT INTO t SELECT * FROM s` for two tables with as
many columns, and `DELETE FROM t`, the last two with a `WHERE` clause or without. -/
inductive DatabaseStatement (c : Catalog) : PlanNode → Prop
  | createIndex (out : Schema) (tableName indexName : String) (keyAttrs : List ℕ)
      (objectNames : List String) (missingOk : Bool) :
      DatabaseStatement c
        (.utility out .createIndex tableName indexName keyAttrs objectNames missingOk)
  | dropIndex (out : Schema) (tableName indexName : String) (keyAttrs : List ℕ)
      (objectNames : List String) (missingOk : Bool) :
      DatabaseStatement c
        (.utility out .dropIndex tableName indexName keyAttrs objectNames missingOk)
  | insert (out scanSchema : Schema) (predicate : Expression) {source target : ℕ}
      (hne : source ≠ target)
      (hlen : ∀ info sourceInfo, c.getTable target = some info →
        c.getTable source = some sourceInfo →
        info.schema.columns.length = sourceInfo.schema.columns.length) :
      DatabaseStatement c (.insert out (.seqScan scanSchema source predicate) target)
  | delete (out scanSchema : Schema) (predicate : Expression) (oid : ℕ) :
      DatabaseStatement c (.delete out (.seqScan scanSchema oid predicate) oid)

/-- The computation returns, and does the same with as many frames as it likes: it has not exhausted
the pool. -/
def ReturnsUnhindered {α : Type} (x : Exec α) (ctx : ExecutorContext) (a : α)
    (ctx' : ExecutorContext) : Prop :=
  Returns x ctx a ctx' ∧ Returns x { ctx with poolSize := ⊤ } a { ctx' with poolSize := ⊤ }

/-- A statement is optimized and executed, without exception and without exhausting the pool. -/
structure DatabaseStep (std : StandardLibrary) (ctx : ExecutorContext) (plan : PlanNode)
    (ctx' : ExecutorContext) : Prop where
  statement : DatabaseStatement ctx.catalog plan
  executed : ∃ optimized fuel result, optimize (some ctx.catalog) plan = pure optimized ∧
    ReturnsUnhindered (executePlan std fuel optimized) ctx result ctx'

/-- Whether the plan is one of these statements, for a run. -/
def Catalog.allowsStatement (c : Catalog) : PlanNode → Bool
  | .utility _ .createIndex .. => true
  | .utility _ .dropIndex .. => true
  | .insert _ (.seqScan _ source _) target =>
    decide (source ≠ target) && decide ((c.getTable target).map (·.schema.columns.length) =
      (c.getTable source).map (·.schema.columns.length))
  | .delete _ (.seqScan _ source _) oid => decide (source = oid)
  | _ => false

/-- The database after these statements, one after the other, in a pool of as many frames as they
like. -/
def executeAll (std : StandardLibrary) (fuel : ℕ) (ctx : ExecutorContext) :
    List PlanNode → Option ExecutorContext
  | [] => some ctx
  | plan :: plans =>
    if ctx.catalog.allowsStatement plan then do
      let optimized ← (optimize (some ctx.catalog) plan).result
      match ← runIn (executePlan std fuel optimized) ctx with
      | (.ok _, c) => if c.poolSize = ⊤ then executeAll std fuel c plans else none
      | (.error _, _) => none
    else none

/-- The check finds statements. -/
lemma databaseStatement_of_allows {c : Catalog} {plan : PlanNode}
    (h : c.allowsStatement plan = true) : DatabaseStatement c plan := by
  unfold Catalog.allowsStatement at h
  split at h
  · exact .createIndex _ _ _ _ _ _
  · exact .dropIndex _ _ _ _ _ _
  · simp only [Bool.and_eq_true, decide_eq_true_eq] at h
    refine .insert _ _ _ h.1 fun info sourceInfo hinfo hsource => ?_
    have hlen := h.2
    rw [hinfo, hsource] at hlen
    exact Option.some.inj hlen
  · obtain rfl := of_decide_eq_true h
    exact .delete _ _ _ _
  · cases h

/-- Statements that are executed one after the other are a run. -/
lemma run_of_executeAll {std : StandardLibrary} {fuel : ℕ} {ctx ctx' : ExecutorContext}
    {plans : List PlanNode} (hctx : ctx.poolSize = ⊤)
    (hexecute : executeAll std fuel ctx plans = some ctx') :
    Transition.Run (DatabaseStep std) ctx plans ctx' ∧ ctx'.poolSize = ⊤ := by
  have hsame : ∀ c : ExecutorContext, c.poolSize = ⊤ → { c with poolSize := ⊤ } = c := by
    intro c hc
    rw [← hc]
  induction plans generalizing ctx with
  | nil =>
    obtain rfl := Option.some.inj hexecute
    exact ⟨.nil _, hctx⟩
  | cons plan plans ih =>
    unfold executeAll at hexecute
    split_ifs at hexecute with hallows
    obtain ⟨optimized, hopt, hexecute⟩ := Option.bind_eq_some_iff.1 hexecute
    obtain ⟨⟨outcome, c⟩, hrun, hexecute⟩ := Option.bind_eq_some_iff.1 hexecute
    cases outcome with
    | error e => cases hexecute
    | ok result =>
      dsimp only at hexecute
      split_ifs at hexecute with hframes
      obtain ⟨hrest, htop⟩ := ih hframes hexecute
      refine ⟨.cons ⟨databaseStatement_of_allows hallows, optimized, fuel, result,
        Cpp.result_eq_some.1 hopt, hrun, ?_⟩ hrest, htop⟩
      rw [hsame ctx hctx, hsame c hframes]
      exact hrun

section Statements

variable {std : StandardLibrary} {ctx ctx' c : ExecutorContext} {pages : ℕ → Pages} {fuel : ℕ}
  {plan : PlanNode} {out scanSchema : Schema} {predicate : Expression} {oid source target : ℕ}
  {names : List String} {missingOk removedAny removed : Bool} {name : String}

/-- A command does all its work in `Init`. -/
lemma exists_utilityRows {utilityType : UtilityType} {tableName indexName : String}
    {keyAttrs : List ℕ} {result : List Tuple}
    (hret : Returns (executePlan std fuel
      (.utility out utilityType tableName indexName keyAttrs names missingOk)) ctx result ctx') :
    ∃ rows, Returns (utilityRows std fuel utilityType tableName indexName keyAttrs names missingOk)
      ctx rows ctx' := by
  obtain ⟨st, c, hinit, hrest⟩ := returns_bind.1 hret
  obtain ⟨rows, c₁, hrows, hstate⟩ := returns_bind.1 hinit
  obtain ⟨rfl, rfl⟩ := returns_pure.1 hstate
  obtain ⟨⟨s, acc⟩, c₂, hloop, hend⟩ := returns_bind.1 hrest
  obtain ⟨-, rfl⟩ := returns_pure.1 hend
  have hsame : c₂ = c₁ := by
    refine forEachRow_rule (I := fun _ _ c => c = c₁) (Q := fun _ _ c => c = c₁) ?_ ?_ rfl hloop
    · rintro st acc c row st' c' acc' c'' rfl hnext hbody
      have hnext' : Returns (nextResult st) c (some row, st') c' := hnext
      unfold nextResult at hnext'
      split at hnext'
      · obtain ⟨-, rfl⟩ := returns_pure.1 hnext'
        exact (returns_pure.1 hbody).2.symm
      · obtain ⟨hcontra, -⟩ := returns_pure.1 hnext'
        cases hcontra
    · rintro st acc c st' c' rfl hnext
      have hnext' : Returns (nextResult st) c (none, st') c' := hnext
      unfold nextResult at hnext'
      split at hnext'
      · obtain ⟨hcontra, -⟩ := returns_pure.1 hnext'
        cases hcontra
      · exact (returns_pure.1 hnext').2.symm
  rw [hsame]
  exact ⟨rows, hrows⟩

/-- A round of the loop of `DROP INDEX` drops an index, or nothing. -/
lemma returns_dropNamedIndex
    (hret : Returns (dropNamedIndex missingOk removedAny name) ctx removed ctx') :
    ctx' = ctx ∨
      ∃ t, ctx' = { ctx with catalog := (ctx.catalog.dropIndex name t).2 } := by
  obtain ⟨catalog, c₁, hcatalog, hret₁⟩ := returns_bind.1 hret
  obtain ⟨rfl, rfl⟩ := returns_getCatalog.1 hcatalog
  obtain ⟨matched, c₂, hmatched, hret₂⟩ := returns_bind.1 hret₁
  obtain ⟨-, rfl⟩ := returns_ofCpp.1 hmatched
  split_ifs at hret₂
  · exact .inl (returns_pure.1 hret₂).2.symm
  · exact absurd hret₂ (not_returns_throw _)
  · obtain ⟨⟨⟩, c₃, hdrop, hret₃⟩ := returns_bind.1 hret₂
    obtain rfl := returns_modifyCatalog.1 hdrop
    exact .inr ⟨matched, (returns_pure.1 hret₃).2.symm⟩

/-- The loop of `DROP INDEX`. -/
lemma IndexedDatabase.dropLoop (h : IndexedDatabase ctx pages)
    (hret : Returns (names.foldlM (dropNamedIndex missingOk) removedAny) ctx removed ctx') :
    IndexedDatabase ctx' pages := by
  induction names generalizing ctx removedAny with
  | nil =>
    obtain ⟨-, rfl⟩ := returns_pure.1 hret
    exact h
  | cons name names ih =>
    rw [List.foldlM_cons] at hret
    obtain ⟨removed', c, hround, hrest⟩ := returns_bind.1 hret
    rcases returns_dropNamedIndex hround with rfl | ⟨t, rfl⟩
    · exact ih h hrest
    · exact ih (h.dropIndex name t) hrest

/-- The optimizer leaves a scan or makes it an index scan: there is no join for the other rule. -/
lemma scan_of_optimize {catalog : Catalog} {child : PlanNode}
    (hopt : optimize (some catalog) (.seqScan scanSchema source predicate) = pure child) :
    optimizeSeqScanToIndexScan (some catalog) (.seqScan scanSchema source predicate) =
      pure child := by
  obtain ⟨scan, hscan, hjoin⟩ := Cpp.bind_eq_pure.1 hopt
  have hsame : optimizeNLJToHashJoin scan = scan := by
    unfold optimizeSeqScanToIndexScan at hscan
    dsimp only at hscan
    split at hscan
    · obtain ⟨indexes, -, hrest⟩ := Cpp.bind_eq_pure.1 hscan
      obtain ⟨found, -, hplan⟩ := Cpp.bind_eq_pure.1 hrest
      cases found <;> cases hplan <;> rfl
    · cases hscan
      rfl
  rw [hsame] at hjoin
  cases hjoin
  exact hscan

/-- A scan that starts has a table. -/
lemma exists_scanned {child : PlanNode}
    (hopt : optimizeSeqScanToIndexScan (some ctx.catalog) (.seqScan scanSchema source predicate) =
      pure child) {st : (createExecutor std fuel child).State}
    (hinit : Returns ((createExecutor std fuel child).init (createExecutor std fuel child).fresh)
      ctx st c) : ∃ info, ctx.catalog.getTable source = some info := by
  cases hinfo : ctx.catalog.getTable source with
  | some info => exact ⟨info, rfl⟩
  | none =>
    obtain rfl : child = .seqScan scanSchema source predicate := by
      unfold optimizeSeqScanToIndexScan at hopt
      dsimp only at hopt
      rw [hinfo] at hopt
      split at hopt
      · rename_i hcontra
        cases hcontra
      · cases hopt
        rfl
    obtain ⟨catalog, c₁, hcatalog, hret₁⟩ := returns_bind.1 hinit
    obtain ⟨rfl, rfl⟩ := returns_getCatalog.1 hcatalog
    obtain ⟨info, c₂, hderef, -⟩ := returns_bind.1 hret₁
    rw [hinfo] at hderef
    exact absurd hderef not_returns_undefined

/-- What a modification that returns has done. -/
lemma exists_modification {child : Executor} {outputSchema : Schema} {n : ℕ} {result : List Tuple}
    {body : TableInfo → List ℕ → ℤ → Row → Exec ℤ}
    (hret : Returns (execute n (modificationExecutor fuel outputSchema child oid body)) ctx result
      ctx') :
    ∃ st c info oids st' count, Returns (child.init child.fresh) ctx st c ∧
      c.catalog.getTable oid = some info ∧ c.catalog.getTableIndexes info.name = pure oids ∧
      Returns (forEachRow child.next (body info oids) fuel st 0) c (st', count) ctx' := by
  obtain ⟨-, st, c, info, oids, st', count, tuple, hinit, hinfo, hlisted, hloop, -⟩ :=
    returns_execute_modification.1 hret
  exact ⟨st, c, info, oids, st', count, hinit, hinfo, hlisted, hloop⟩

/-- A statement keeps the indexes in step with the heap. -/
lemma IndexedDatabase.step (h : IndexedDatabase ctx pages) (hframes : 2 ≤ ctx.poolSize)
    (hstatement : DatabaseStatement ctx.catalog plan) {optimized : PlanNode} {result : List Tuple}
    (hopt : optimize (some ctx.catalog) plan = pure optimized)
    (hret : Returns (executePlan std fuel optimized) ctx result ctx') :
    ∃ pages', IndexedDatabase ctx' pages' := by
  cases hstatement with
  | createIndex out tableName indexName keyAttrs objectNames missingOk =>
    cases hopt
    obtain ⟨rows, hrows⟩ := exists_utilityRows hret
    obtain ⟨created, c, hcreate, hrest⟩ := returns_bind.1 hrows
    cases created with
    | none => exact absurd hrest (not_returns_throw _)
    | some indexOid =>
      obtain ⟨row, c', hrow, hend⟩ := returns_bind.1 hrest
      obtain ⟨-, rfl⟩ := returns_ofCpp.1 hrow
      obtain ⟨-, rfl⟩ := returns_pure.1 hend
      exact ⟨pages, h.createIndex hcreate⟩
  | dropIndex out tableName indexName keyAttrs objectNames missingOk =>
    cases hopt
    obtain ⟨rows, hrows⟩ := exists_utilityRows hret
    obtain ⟨removed, c, hloop, hrest⟩ := returns_bind.1 hrows
    obtain ⟨row, c', hrow, hend⟩ := returns_bind.1 hrest
    obtain ⟨-, rfl⟩ := returns_ofCpp.1 hrow
    obtain ⟨-, rfl⟩ := returns_pure.1 hend
    exact ⟨pages, h.dropLoop hloop⟩
  | @insert out scanSchema predicate source target hne hlen =>
    obtain ⟨child, hchild, hplan⟩ := Cpp.bind_eq_pure.1 hopt
    cases hplan
    have hscan := scan_of_optimize hchild
    obtain ⟨st, c, info, oids, st', count, hinit, hinfo, hlisted, hloop⟩ := exists_modification hret
    obtain ⟨sourceInfo, hsource⟩ := exists_scanned hscan hinit
    obtain ⟨rfl, hscans⟩ := h.exists_scan hsource hscan hinit
    have hwidth := hlen info sourceInfo hinfo hsource
    obtain ⟨J, hreturns, hJ⟩ := hscans info.schema (h.table _ _ hinfo).schema hwidth
    exact h.insertLoop hframes hinfo hlisted hsource hne hwidth hreturns hJ hloop
  | delete out scanSchema predicate oid =>
    obtain ⟨child, hchild, hplan⟩ := Cpp.bind_eq_pure.1 hopt
    cases hplan
    have hscan := scan_of_optimize hchild
    obtain ⟨st, c, info, oids, st', count, hinit, hinfo, hlisted, hloop⟩ := exists_modification hret
    obtain ⟨info', hinfo'⟩ := exists_scanned hscan hinit
    obtain ⟨rfl, hscans⟩ := h.exists_scan hinfo' hscan hinit
    obtain rfl : info = info' := Option.some.inj (hinfo.symm.trans hinfo')
    obtain ⟨J, hreturns, hJ⟩ := hscans info.schema (h.table _ _ hinfo).schema rfl
    exact h.deleteLoop hinfo hlisted hreturns hJ hloop

end Statements

/-! ## Runs -/

/-- For every integer, `LookupInteger` returns `nullptr` if no row of the table has it in the column
`attr`, and otherwise the row ids of the rows that have it, each once. The rows are those that an
iteration over the heap visits, as `GetTuple` returns them. -/
def AnswersLookups (bpm : PageStore TablePage) (info : TableInfo) (i : IndexInfo) (attr : ℕ) :
    Prop :=
  ∃ rows : List (RID × List UInt8),
    (∀ frames ≥ 1, Terminates frames (fun fuel => iterate fuel info.table) bpm
        (rows.map Prod.fst) bpm ∧
      ∀ r ∈ rows, (TableHeap.getTuple r.1).run (PageStore.handler frames) bpm =
        some (.ok (rawTuple r), bpm)) ∧
    ∀ k : BitVec 32,
      (i.lookupInteger k.toInt = none ∧
        ∀ r ∈ rows, (rawTuple r).getValueAt info.schema attr ≠ pure (Value.ofInt k)) ∨
      ∃ rids, i.lookupInteger k.toInt = some rids ∧ rids ≠ [] ∧ rids.Nodup ∧
        ∀ rid, rid ∈ rids ↔ ∃ r ∈ rows, r.1 = rid ∧
          (rawTuple r).getValueAt info.schema attr = pure (Value.ofInt k)

section Runs

variable {std : StandardLibrary} {ctx ctx' : ExecutorContext} {pages : ℕ → Pages}
  {plans : List PlanNode} {oid attr indexOid : ℕ} {info : TableInfo} {i : IndexInfo} {p : Pages}

/-- An index that agrees with a table answers lookups. -/
lemma IntegerTable.answersLookups (h : IntegerTable ctx info p)
    (hattr : attr < info.schema.columns.length) (hagrees : i.Agrees attr (liveRows p)) :
    AnswersLookups ctx.bpm info i attr := by
  have hcolumn : ∀ r ∈ liveRows p, ∀ k : BitVec 32,
      (rawTuple r).getValueAt info.schema attr = pure (Value.ofInt k) ↔ keyAt attr r.2 = k.toInt := by
    intro r hr k
    have hsize := (h.length_le hr).2
    rw [h.schema.getValueAt_raw hattr (h.rows r hr) (by unfold pageSize at hsize; omega)]
    unfold keyAt
    rw [BitVec.toInt_inj]
    constructor
    · intro heq
      cases heq
      rfl
    · intro heq
      rw [heq]
  refine ⟨liveRows p, fun frames hframes => ⟨?_, fun r hr => ?_⟩, fun k => ?_⟩
  · exact h.holds.terminates_iterate h.ready hframes
  · exact h.holds.getTuple h.ready hframes hr
  · rw [hagrees.compact.lookupInteger_eq]
    by_cases hnil : i.rids k.toInt = []
    · rw [if_pos hnil]
      refine .inl ⟨rfl, fun r hr heq => ?_⟩
      have hmem : r.1 ∈ i.rids k.toInt :=
        (hagrees.mem_iff _ _).2 ⟨r.2, hr, (hcolumn r hr k).1 heq⟩
      rw [hnil] at hmem
      cases hmem
    · rw [if_neg hnil]
      refine .inr ⟨_, rfl, hnil, hagrees.nodup _, fun rid => ?_⟩
      rw [hagrees.mem_iff]
      constructor
      · rintro ⟨b, hb, hkey⟩
        exact ⟨(rid, b), hb, rfl, (hcolumn (rid, b) hb k).2 hkey⟩
      · rintro ⟨r, hr, rfl, heq⟩
        exact ⟨r.2, hr, (hcolumn r hr k).1 heq⟩

/-- **Indexes over runs.** In a database of integers whose indexes agree with its tables (as they do
where there is no index yet), after any run of statements every lookup index answers with exactly
the rows of its table. -/
theorem answersLookups_of_run (h : IndexedDatabase ctx pages)
    (hrun : Transition.Run (DatabaseStep std) ctx plans ctx')
    (hinfo : ctx'.catalog.getTable oid = some info) :
    ∃ oids, ctx'.catalog.getTableIndexes info.name = pure oids ∧
      ∀ indexOid ∈ oids, ∃ i, ctx'.catalog.getIndex indexOid = some i ∧
        (i.supportsPointLookup = true → ∃ attr, i.getLookupAttr = pure attr ∧
          AnswersLookups ctx'.bpm info i attr) := by
  obtain ⟨pages', h'⟩ : ∃ pages', IndexedDatabase { ctx' with poolSize := ⊤ } pages' := by
    refine hrun.invariant (I := fun c => ∃ pages, IndexedDatabase { c with poolSize := ⊤ } pages)
      ?_ ⟨pages, h.withFrames le_top⟩
    rintro c plan c' ⟨pages, h⟩ ⟨hstatement, optimized, fuel, result, hopt, -, hret⟩
    exact h.step le_top hstatement hopt hret
  obtain ⟨oids, hindexes, hmem⟩ := h'.exists_tableIndexes hinfo
  refine ⟨oids, hindexes.listed, fun indexOid hoid => ?_⟩
  obtain ⟨i, hi, -, attr, hlt, hattr⟩ := hindexes.filed indexOid hoid
  refine ⟨i, hi, fun hlookup => ⟨attr, hattr, ?_⟩⟩
  exact (h'.table oid info hinfo).answersLookups hlt
    (h'.agrees_table hinfo hindexes.listed indexOid hoid i attr hi hlookup hattr)

end Runs

/-- The table with the row 7, before there is an index. -/
def unindexedContext : ExecutorContext :=
  { smallContext ["a"] [[7]] none with
    catalog := { nextTableOid := 2, tables := [(1, smallTable ["a"])], tableNames := [("t", 1)] } }

/-- Its catalog, after `CreateTable`. -/
lemma catalogHistory_unindexed : CatalogHistory unindexedContext.catalog := by
  have hhistory : CatalogHistory
      { nextTableOid := 2, tables := [(1, smallTable ["a"])], tableNames := [("t", 1)] } :=
    @CatalogHistory.createTable {} _ "t" (smallTable ["a"]).schema
      (.ok (some (smallTable ["a"]))) .empty rfl
  exact hhistory

/-- The tables `t`, with the row 7, and `s`, with the rows 7 and 8, before there is an index. -/
def twoTables : ExecutorContext where
  catalog :=
    { nextTableOid := 3
      tables := [(2, { smallTable ["a"] with name := "s", table := ⟨1⟩, oid := 2 }),
        (1, smallTable ["a"])]
      tableNames := [("s", 2), ("t", 1)] }
  bpm := storeOf [[rowBytes [7]], [rowBytes [7], rowBytes [8]]]

/-- `CREATE INDEX i ON t (a)`. -/
def indexColumn : PlanNode :=
  .utility (Schema.new []) .createIndex "t" "i" [0] [] false

/-- `INSERT INTO t SELECT * FROM s`. -/
def copyRows : PlanNode :=
  .insert (Schema.new []) (.seqScan (smallTable ["a"]).schema 2 .null) 1

/-- `DELETE FROM t WHERE a = 7`. -/
def deleteSevens : PlanNode :=
  .delete (Schema.new []) (.seqScan (smallTable ["a"]).schema 1
    (.comparison (.columnValue 0 0 .integer) (.constantValue (Value.ofInt 7)) .equal)) 1

/-- There is no index that could disagree with a table, and each table lies on a page of its own. -/
lemma indexedDatabase_twoTables : IndexedDatabase twoTables fun oid =>
    if oid = 1 then [(0, [some (rowBytes [7])])]
    else [(1, [some (rowBytes [7]), some (rowBytes [8])])] := by
  have hhistory : CatalogHistory
      { nextTableOid := 3,
        tables := [(2, { smallTable ["a"] with name := "s", table := ⟨1⟩, oid := 2 }),
          (1, smallTable ["a"])],
        tableNames := [("s", 2), ("t", 1)] } :=
    @CatalogHistory.createTable unindexedContext _ "s" (smallTable ["a"]).schema
      (.ok (some { smallTable ["a"] with name := "s", table := ⟨1⟩, oid := 2 }))
      catalogHistory_unindexed rfl
  have hbijective : twoTables.catalog.Bijective := bijective_of_history hhistory
  have htwo : ∀ oid info, twoTables.catalog.getTable oid = some info →
      oid = 2 ∧ info = { smallTable ["a"] with name := "s", table := ⟨1⟩, oid := 2 } ∨
        oid = 1 ∧ info = smallTable ["a"] := by
    intro oid info hinfo
    rcases List.mem_cons.1 (hbijective.getTable_iff.1 hinfo) with heq | hmem
    · exact .inl (Prod.mk.inj heq)
    · exact .inr (Prod.mk.inj (List.mem_singleton.1 hmem))
  have hnone : ∀ indexOid, twoTables.catalog.getIndex indexOid = none := fun _ => rfl
  refine ⟨⟨hbijective, ?_, ?_, ?_⟩, ?_⟩
  · intro oid info hinfo
    rcases htwo oid info hinfo with ⟨rfl, rfl⟩ | ⟨rfl, rfl⟩
    · exact @integerTable_storeOf ["a"] [[7], [8]] _ _ 1 _ rfl le_top rfl rfl rfl (by decide)
        (by decide)
    · exact @integerTable_storeOf ["a"] [[7]] _ _ 0 _ rfl le_top rfl rfl rfl (by decide) (by decide)
  · intro oid info oid' info' hinfo hinfo' hne
    rcases htwo oid info hinfo with ⟨rfl, -⟩ | ⟨rfl, -⟩ <;>
      rcases htwo oid' info' hinfo' with ⟨rfl, -⟩ | ⟨rfl, -⟩
    · exact absurd rfl hne
    · decide
    · decide
    · exact absurd rfl hne
  · intro indexOid i oid info hi
    rw [hnone] at hi
    cases hi
  · intro indexOid i oid info attr hi
    rw [hnone] at hi
    cases hi

/-- Create the index, copy the rows of `s` and delete the rows with 7, which the index finds: the
index is left with one row. -/
theorem answersLookups_of_run_sample : ∃ ctx' info,
    Transition.Run (DatabaseStep default) twoTables [indexColumn, copyRows, deleteSevens] ctx' ∧
      ctx'.catalog.getTable 1 = some info ∧
      ∃ oids, ctx'.catalog.getTableIndexes info.name = pure oids ∧
        ∀ indexOid ∈ oids, ∃ i, ctx'.catalog.getIndex indexOid = some i ∧
          (i.supportsPointLookup = true → ∃ attr, i.getLookupAttr = pure attr ∧
            AnswersLookups ctx'.bpm info i attr) := by
  have hok : (executeAll default 6 twoTables [indexColumn, copyRows, deleteSevens]).any
      (fun c => (c.catalog.getTable 1).isSome) = true := by
    decide +kernel
  obtain ⟨ctx', hexecute, htable⟩ := Option.any_eq_true _ _ |>.1 hok
  obtain ⟨info, hinfo⟩ := Option.isSome_iff_exists.1 htable
  obtain ⟨hrun, -⟩ := run_of_executeAll rfl hexecute
  exact ⟨ctx', info, hrun, hinfo, answersLookups_of_run indexedDatabase_twoTables hrun hinfo⟩

end OneBase
