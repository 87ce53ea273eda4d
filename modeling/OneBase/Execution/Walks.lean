import OneBase.Execution.UpdatedRows

set_option relaxedAutoImplicit false
set_option autoImplicit false

/-!
# Scans of a table that changes

The child of a modification goes along its table while rows of it are deleted and replaced behind it
and other rows come. A sequential scan has the rows ahead of its iterator before it, and a row that
comes there too; an index scan has copied the row ids that it visits.

## Main definitions

* `OneBase.Walks` — a child that visits rows of a table that changes.
* `OneBase.PlanNode.visited`, `OneBase.PlanNode.reading` — the rows that a scan visits, and what it
  makes of them.
* `OneBase.PlanNode.IsScan` — the plans of such scans.
* `OneBase.PlanNode.FindsRows` — the row ids of an index scan are those of rows.

## Main results

* `OneBase.walks_seqScan`, `OneBase.walks_indexScan` — both scans.
* `OneBase.HeapTable.exists_walk` — the child of a modification.
-/

namespace OneBase

open Exec TableHeap

/-- From a state with `J ahead rows` on, the child visits the rows `ahead` of a table that holds
`rows`, and returns what it reads of them. It goes on if a row that is not ahead is replaced or
deleted, and also if another row comes, whether it will visit that row or not. -/
structure Walks {σ : Type} (next : σ → Exec (Option Row × σ)) (tableInfo : TableInfo)
    (read : RID × List UInt8 → Cpp (Option Tuple))
    (J : σ → List (RID × List UInt8) → List (RID × List UInt8) → Prop) : Prop where
  subset : ∀ st ahead rows, J st ahead rows → ∀ r ∈ ahead, r ∈ rows
  nodup : ∀ st ahead rows, J st ahead rows → (ahead.map Prod.fst).Nodup
  returns : ∀ c p st ahead o st' c', HeapTable c tableInfo p → J st ahead (liveRows p) →
    Returns (next st) c (o, st') c' → c' = c ∧ ∃ rest, Scans read ahead o rest ∧
      J st' rest (liveRows p)
  replaced : ∀ st ahead rows rid b, J st ahead rows → rid ∉ ahead.map Prod.fst →
    J st ahead (setRow rid b rows)
  inserted : ∀ st ahead before after r, J st ahead (before ++ after) →
    r.1 ∉ (before ++ after).map Prod.fst → ∃ ahead', J st ahead' (before ++ r :: after) ∧
      (∀ x ∈ ahead, x ∈ ahead') ∧ ∀ x ∈ ahead', x = r ∨ x ∈ ahead

/-- A sequential scan has these rows ahead of it. -/
def SeqScanAt (tableInfo : TableInfo) (st : SeqScanState)
    (ahead rows : List (RID × List UInt8)) : Prop :=
  ∃ seen, rows = seen ++ ahead ∧ (rows.map Prod.fst).Nodup ∧ st = scanAt tableInfo ahead

/-- An index scan has found rows, and not returned these last ones of them. -/
def IndexScanAt (tableInfo : TableInfo) (st : IndexScanState)
    (ahead rows : List (RID × List UInt8)) : Prop :=
  ∃ before, st = indexScanAt tableInfo (before ++ ahead) before.length ∧
    (∀ r ∈ ahead, r ∈ rows) ∧ (ahead.map Prod.fst).Nodup

section Walking

variable {σ : Type} {next : σ → Exec (Option Row × σ)} {tableInfo : TableInfo}
  {read : RID × List UInt8 → Cpp (Option Tuple)}
  {J : σ → List (RID × List UInt8) → List (RID × List UInt8) → Prop} {predicate : Expression}
  {ahead before after seen rows rest rest' : List (RID × List UInt8)} {r : RID × List UInt8}
  {fuel n oid indexOid : ℕ} {outputSchema : Schema} {lookupKey : Expression} {o o' : Option Row}
  {st : SeqScanState}

/-- A call of `Next` does one thing. -/
lemma Scans.unique (h : Scans read rows o rest) (h' : Scans read rows o' rest') :
    o = o' ∧ rest = rest' := by
  induction h with
  | done =>
    cases h'
    exact ⟨rfl, rfl⟩
  | skip hread hrest ih =>
    cases h' with
    | skip _ hrest' => exact ih hrest'
    | row hread' => cases hread.symm.trans hread'
  | row hread =>
    cases h' with
    | skip hread' _ => cases hread.symm.trans hread'
    | row hread' =>
      cases hread.symm.trans hread'
      exact ⟨rfl, rfl⟩

/-- A row that comes lies behind the iterator of a sequential scan or ahead of it. The iterator stays
where it is. -/
lemma SeqScanAt.inserted (h : SeqScanAt tableInfo st ahead (before ++ after))
    (hr : r.1 ∉ (before ++ after).map Prod.fst) :
    ∃ ahead', SeqScanAt tableInfo st ahead' (before ++ r :: after) ∧
      (∀ x ∈ ahead, x ∈ ahead') ∧ ∀ x ∈ ahead', x = r ∨ x ∈ ahead := by
  obtain ⟨seen, hrows, hnodup, rfl⟩ := h
  have hnodup' : ((before ++ r :: after).map Prod.fst).Nodup := by
    rw [List.map_append] at hr hnodup
    rw [List.map_append, List.map_cons, List.nodup_middle]
    exact List.nodup_cons.2 ⟨hr, hnodup⟩
  rcases List.append_eq_append_iff.1 hrows with ⟨between, rfl, rfl⟩ | ⟨between, rfl, rfl⟩
  · -- the row comes behind the iterator
    refine ⟨ahead, ⟨before ++ r :: between, by simp, hnodup', rfl⟩, fun x hx => hx,
      fun x hx => .inr hx⟩
  · cases between with
    | nil =>
      rw [List.append_nil] at hnodup'
      refine ⟨after, ⟨seen ++ [r], by simp, ?_, rfl⟩, fun x hx => hx, fun x hx => .inr hx⟩
      simpa using hnodup'
    | cons y between =>
      -- the row comes ahead of the iterator, which points to `y`
      refine ⟨y :: between ++ r :: after, ⟨seen, by simp, hnodup', rfl⟩, fun x hx => ?_,
        fun x hx => ?_⟩
      · rw [List.mem_append] at hx ⊢
        exact hx.imp_right (List.mem_cons_of_mem r)
      · simp only [List.mem_append, List.mem_cons] at hx ⊢
        tauto

/-- A sequential scan walks along its table. -/
lemma walks_seqScan : Walks (seqScanNext fuel predicate n) tableInfo
    (scanRow predicate tableInfo.schema) (SeqScanAt tableInfo) where
  subset := by
    rintro st ahead rows ⟨seen, rfl, -⟩ r hr
    exact List.mem_append_right _ hr
  nodup := by
    rintro st ahead rows ⟨seen, rfl, hnodup, -⟩
    rw [List.map_append] at hnodup
    exact (List.nodup_append.1 hnodup).2.1
  returns := by
    rintro c p st ahead o st' c' h ⟨seen, hrows, hnodup, rfl⟩ hret
    obtain ⟨rest, hscan, rfl, rfl⟩ := h.scans_of_returns hrows hret
    obtain ⟨skipped, hahead⟩ := hscan.suffix
    refine ⟨rfl, rest, hscan, seen ++ skipped, ?_, hnodup, rfl⟩
    rw [hrows, hahead, List.append_assoc]
  replaced := by
    rintro st ahead rows rid b ⟨seen, rfl, hnodup, rfl⟩ hrid
    refine ⟨setRow rid b seen, ?_, hnodup.sublist (map_setRow_sublist _ _ _), rfl⟩
    rw [setRow_append, setRow_of_notMem hrid]
  inserted := fun st ahead before after r h hr => h.inserted hr

/-- An index scan walks along the rows that it has found. -/
lemma walks_indexScan : Walks (indexScanExecutor outputSchema oid indexOid lookupKey).next tableInfo
    (fun r => pure (some (rawTuple r))) (IndexScanAt tableInfo) where
  subset := by
    rintro st ahead rows ⟨before, -, hfound, -⟩
    exact hfound
  nodup := by
    rintro st ahead rows ⟨before, -, -, hnodup⟩
    exact hnodup
  returns := by
    rintro c p st ahead o st' c' h ⟨before, rfl, hfound, hnodup⟩ hret
    cases ahead with
    | nil =>
      obtain ⟨heq, rfl⟩ := hret.unique (returns_indexScanNext_end (by simp [indexScanAt]))
      obtain ⟨rfl, rfl⟩ := Prod.mk.inj heq
      exact ⟨rfl, [], .done, before, rfl, hfound, hnodup⟩
    | cons r ahead =>
      have hr : r ∈ liveRows p := hfound r List.mem_cons_self
      obtain ⟨heq, rfl⟩ := hret.unique (h.returns_indexScanNext rfl (by simp [indexScanAt]) hr)
      obtain ⟨rfl, rfl⟩ := Prod.mk.inj heq
      have hassoc : before ++ r :: ahead = (before ++ [r]) ++ ahead := by simp
      have hstate : ({ indexScanAt tableInfo (before ++ r :: ahead) before.length with
          cursor := before.length + 1 } : IndexScanState) =
            indexScanAt tableInfo ((before ++ [r]) ++ ahead) (before ++ [r]).length := by
        rw [hassoc, List.length_append, List.length_singleton]
        rfl
      rw [List.map_cons, List.nodup_cons] at hnodup
      exact ⟨rfl, ahead, .row rfl, before ++ [r], hstate,
        fun x hx => hfound x (List.mem_cons_of_mem r hx), hnodup.2⟩
  replaced := by
    rintro st ahead rows rid b ⟨before, rfl, hfound, hnodup⟩ hrid
    refine ⟨before, rfl, fun x hx => mem_setRow_iff.2 (.inl ⟨hfound x hx, ?_⟩), hnodup⟩
    rintro rfl
    exact hrid (List.mem_map_of_mem hx)
  inserted := by
    rintro st ahead before after r ⟨seen, rfl, hfound, hnodup⟩ hr
    refine ⟨ahead, ⟨seen, rfl, fun x hx => ?_, hnodup⟩, fun x hx => hx, fun x hx => .inr hx⟩
    have hx' := hfound x hx
    rw [List.mem_append] at hx' ⊢
    exact hx'.imp_right (List.mem_cons_of_mem r)

/-- A walk that emits rows has read them. -/
lemma Walks.scanRows_of_emits {ctx : ExecutorContext} {p : Pages} {out : List Row} {s s' : σ}
    (h : Walks next tableInfo read J) (htable : HeapTable ctx tableInfo p)
    (hJ : J s ahead (liveRows p)) (hemits : Emits next ctx s out s') :
    scanRows read ahead = pure out := by
  induction hemits generalizing ahead with
  | done hnext =>
    obtain ⟨-, rest, hscan, -⟩ := h.returns _ _ _ _ _ _ _ htable hJ hnext
    exact hscan.of_none.2
  | row hnext _ ih =>
    obtain ⟨-, rest, hscan, hJ'⟩ := h.returns _ _ _ _ _ _ _ htable hJ hnext
    exact hscan.scanRows_eq (ih hJ')

/-- The row that a walk returns is not ahead any more. -/
lemma Walks.notMem_rest (h : Walks next tableInfo read J) {s : σ} {skipped : List (RID × List UInt8)}
    (hJ : J s (skipped ++ r :: rest) rows) : r.1 ∉ rest.map Prod.fst := by
  have hnodup := h.nodup _ _ _ hJ
  rw [List.map_append, List.map_cons] at hnodup
  exact (List.nodup_cons.1 (List.nodup_append.1 hnodup).2.1).1

end Walking

/-! ## The child of a modification -/

/-- The row ids that an index scan looks up. -/
def Catalog.foundRids (c : Catalog) (indexOid : ℕ) : Expression → List RID
  | .constantValue { payload := .integer k, .. } =>
    (c.getIndex indexOid).elim [] fun i => i.rids k.toInt
  | _ => []

namespace PlanNode

/-- The rows of its table that a scan visits. -/
def visited (c : Catalog) (rows : List (RID × List UInt8)) : PlanNode → List (RID × List UInt8)
  | .seqScan .. => rows
  | .indexScan _ _ indexOid lookupKey _ =>
    (c.foundRids indexOid lookupKey).filterMap fun rid => rows.find? fun r => decide (r.1 = rid)
  | _ => []

/-- What a scan makes of a row that it visits. -/
def reading (tableInfo : TableInfo) : PlanNode → RID × List UInt8 → Cpp (Option Tuple)
  | .seqScan _ _ predicate => scanRow predicate tableInfo.schema
  | _ => fun r => pure (some (rawTuple r))

/-- The plan is a sequential scan, or the index scan for a constant that the optimizer makes of it.
-/
def IsScan (scanSchema : Schema) (oid : ℕ) (predicate : Expression) (child : PlanNode) : Prop :=
  child = .seqScan scanSchema oid predicate ∨ ∃ indexOid val,
    child = .indexScan scanSchema oid indexOid (.constantValue val) predicate

/-- The row ids that an index scan looks up are those of rows of its table, each once. -/
def FindsRows (c : Catalog) (rows : List (RID × List UInt8)) : PlanNode → Prop
  | .indexScan _ _ indexOid lookupKey _ => (c.foundRids indexOid lookupKey).Nodup ∧
    ∀ rid ∈ c.foundRids indexOid lookupKey, rid ∈ rows.map Prod.fst
  | _ => True

end PlanNode

section Child

variable {std : StandardLibrary} {ctx c : ExecutorContext} {tableInfo : TableInfo} {pages : Pages}
  {catalog : Catalog} {scanSchema : Schema} {predicate : Expression} {oid indexOid fuel : ℕ}
  {lookupKey : Expression} {child : PlanNode} {rows : List (RID × List UInt8)} {rids : List RID}

/-- The optimizer leaves a scan, or makes it an index scan for a constant. -/
lemma isScan_of_optimize
    (hopt : optimizeSeqScanToIndexScan (some catalog) (.seqScan scanSchema oid predicate) =
      pure child) : child.IsScan scanSchema oid predicate := by
  unfold optimizeSeqScanToIndexScan at hopt
  dsimp only at hopt
  split at hopt
  · rename_i hoperands _
    obtain ⟨indexes, -, hrest⟩ := Cpp.bind_eq_pure.1 hopt
    obtain ⟨found, -, hplan⟩ := Cpp.bind_eq_pure.1 hrest
    cases found with
    | none =>
      cases hplan
      exact .inl rfl
    | some indexOid =>
      cases hplan
      obtain ⟨-, -, val, rfl, -⟩ := lookupOperands_eq hoperands
      exact .inr ⟨indexOid, val, rfl⟩
  · cases hopt
    exact .inl rfl

/-- The rows with these row ids. -/
lemma filterMap_find (h : ∀ rid ∈ rids, rid ∈ rows.map Prod.fst) :
    (rids.filterMap fun rid => rows.find? fun r => decide (r.1 = rid)).map Prod.fst = rids ∧
      ∀ r ∈ rids.filterMap fun rid => rows.find? fun r => decide (r.1 = rid), r ∈ rows := by
  induction rids with
  | nil => exact ⟨rfl, nofun⟩
  | cons rid rids ih =>
    obtain ⟨hfst, hmem⟩ := ih fun x hx => h x (List.mem_cons_of_mem rid hx)
    obtain ⟨r, hr⟩ : ∃ r, rows.find? (fun r => decide (r.1 = rid)) = some r := by
      rw [← Option.isSome_iff_exists, List.find?_isSome]
      obtain ⟨x, hx, rfl⟩ := List.mem_map.1 (h rid List.mem_cons_self)
      exact ⟨x, hx, decide_eq_true rfl⟩
    have hrid : r.1 = rid := by simpa using List.find?_some hr
    rw [List.filterMap_cons, hr]
    refine ⟨by rw [List.map_cons, hrid, hfst], fun x hx => ?_⟩
    rcases List.mem_cons.1 hx with rfl | hx
    · exact List.mem_of_find?_eq_some hr
    · exact hmem x hx

/-- The rows that an index scan visits are those that it looks up. -/
lemma PlanNode.FindsRows.visited
    (h : (PlanNode.indexScan scanSchema oid indexOid lookupKey predicate).FindsRows catalog rows) :
    let found := (PlanNode.indexScan scanSchema oid indexOid lookupKey predicate).visited catalog rows
    found.map Prod.fst = catalog.foundRids indexOid lookupKey ∧ (found.map Prod.fst).Nodup ∧
      ∀ r ∈ found, r ∈ rows := by
  obtain ⟨hfst, hmem⟩ := filterMap_find h.2
  exact ⟨hfst, hfst.symm ▸ h.1, hmem⟩

/-- The optimizer looks up rows, if the lookup indexes of the table file row ids of rows, each once
under a key. -/
lemma TableIndexes.findsRows {oids : List ℕ} (hindexes : TableIndexes ctx.catalog tableInfo oids)
    (htable : ctx.catalog.getTable oid = some tableInfo)
    (hopt : optimizeSeqScanToIndexScan (some ctx.catalog) (.seqScan scanSchema oid predicate) =
      pure child)
    (hfiles : ∀ indexOid ∈ oids, ∀ i attr, ctx.catalog.getIndex indexOid = some i →
      i.supportsPointLookup = true → i.getLookupAttr = pure attr →
      ∀ key, (i.rids key).Nodup ∧ ∀ rid ∈ i.rids key, rid ∈ rows.map Prod.fst) :
    child.FindsRows ctx.catalog rows := by
  rcases isScan_of_optimize hopt with rfl | ⟨indexOid, val, rfl⟩
  · trivial
  · obtain ⟨attr, -, i, -, -, -, hmem, hi, hlookup, hattr⟩ := hindexes.exists_index htable hopt
    have hrids : ctx.catalog.foundRids indexOid (.constantValue val) = [] ∨
        ∃ key, ctx.catalog.foundRids indexOid (.constantValue val) = i.rids key := by
      obtain ⟨payload, isNull⟩ := val
      cases payload with
      | integer k =>
        refine .inr ⟨k.toInt, ?_⟩
        show (ctx.catalog.getIndex indexOid).elim [] _ = _
        rw [hi]
        rfl
      | invalid => exact .inl rfl
      | boolean b => exact .inl rfl
      | float f => exact .inl rfl
      | varchar s => exact .inl rfl
    have hfinds : (ctx.catalog.foundRids indexOid (.constantValue val)).Nodup ∧
        ∀ rid ∈ ctx.catalog.foundRids indexOid (.constantValue val), rid ∈ rows.map Prod.fst := by
      rcases hrids with hnil | ⟨key, hkey⟩
      · rw [hnil]
        exact ⟨List.nodup_nil, nofun⟩
      · rw [hkey]
        exact hfiles indexOid hmem i attr hi hlookup hattr key
    exact hfinds

/-- The index of an index scan that starts. -/
lemma exists_indexScanInit {val : Value} {st s : IndexScanState}
    (hret : Returns ((indexScanExecutor scanSchema oid indexOid (.constantValue val)).init s) ctx st
      c) :
    c = ctx ∧ st = { tableInfo := ctx.catalog.getTable oid
                     matchingRids := ctx.catalog.foundRids indexOid (.constantValue val) } := by
  cases hi : ctx.catalog.getIndex indexOid with
  | none =>
    obtain ⟨catalog, c₁, hcatalog, hret₁⟩ := returns_bind.1 hret
    obtain ⟨rfl, rfl⟩ := returns_getCatalog.1 hcatalog
    obtain ⟨rawKey, c₂, hraw, hret₂⟩ := returns_bind.1 hret₁
    obtain ⟨-, rfl⟩ := returns_ofCpp.1 hraw
    obtain ⟨info, c₃, hderef, -⟩ := returns_bind.1 hret₂
    rw [hi] at hderef
    exact absurd hderef not_returns_undefined
  | some i =>
    obtain ⟨k, hk, rfl, rfl⟩ := (returns_indexScanInit hi).1 hret
    obtain ⟨payload, isNull⟩ := val
    obtain rfl : payload = .integer k := hk
    refine ⟨rfl, ?_⟩
    show _ = ({ tableInfo := _, matchingRids := (c.catalog.getIndex indexOid).elim [] _ } :
      IndexScanState)
    rw [hi]
    rfl

/-- The child of a modification starts as a scan that walks along its table.

**Proof sketch.** A sequential scan has all rows ahead of it, and an index scan those that it has
found. -/
lemma HeapTable.exists_walk (h : HeapTable ctx tableInfo pages)
    (htable : ctx.catalog.getTable oid = some tableInfo)
    (hshape : child.IsScan scanSchema oid predicate)
    (hfinds : child.FindsRows ctx.catalog (liveRows pages))
    {st : (createExecutor std fuel child).State}
    (hinit : Returns ((createExecutor std fuel child).init (createExecutor std fuel child).fresh)
      ctx st c) :
    c = ctx ∧ ∃ J, Walks (createExecutor std fuel child).next tableInfo (child.reading tableInfo) J ∧
      J st (child.visited ctx.catalog (liveRows pages)) (liveRows pages) := by
  rcases hshape with rfl | ⟨indexOid, val, rfl⟩
  · obtain ⟨rfl, rfl⟩ := h.eq_of_seqScanInit htable hinit
    exact ⟨rfl, _, walks_seqScan, [], rfl, nodup_liveRows h.holds.nodup, rfl⟩
  · obtain ⟨rfl, rfl⟩ := exists_indexScanInit hinit
    obtain ⟨hfst, hnodup, hmem⟩ := hfinds.visited
    refine ⟨rfl, _, walks_indexScan, [], ?_, hmem, hnodup⟩
    rw [htable, ← hfst]
    rfl

/-- A child that completes has read the rows that it visits. -/
lemma HeapTable.scanRows_of_completes (h : HeapTable ctx tableInfo pages)
    (htable : ctx.catalog.getTable oid = some tableInfo)
    (hshape : child.IsScan scanSchema oid predicate)
    (hfinds : child.FindsRows ctx.catalog (liveRows pages)) {result : List Tuple}
    (hcompletes : Completes std child ctx result c) :
    ∃ todo, scanRows (child.reading tableInfo) (child.visited ctx.catalog (liveRows pages)) =
      pure todo ∧ result = todo.map Prod.fst := by
  obtain ⟨fuel, hreturns⟩ := hcompletes
  obtain ⟨st, c₁, hinit, hrest⟩ := returns_bind.1 (hreturns fuel le_rfl)
  obtain ⟨rfl, J, hwalks, hJ⟩ := h.exists_walk htable hshape hfinds hinit
  obtain ⟨⟨s, out⟩, c₂, hloop, hpure⟩ := returns_bind.1 hrest
  obtain ⟨rows, hemits, -⟩ := emits_of_forEachRow
    (I := fun st => ∃ ahead, J st ahead (liveRows pages))
    (by
      rintro st o st' c ⟨ahead, hJ⟩ hnext
      obtain ⟨rfl, rest, -, hJ'⟩ := hwalks.returns _ _ _ _ _ _ _ h hJ hnext
      exact ⟨rfl, rest, hJ'⟩)
    (fun acc row b c hret => (returns_pure.1 hret).2.symm) ⟨_, hJ⟩ hloop
  obtain ⟨-, -, rfl, rfl⟩ := (forEachRow_collect hemits).1 hloop
  obtain ⟨rfl, rfl⟩ := returns_pure.1 hpure
  exact ⟨rows, hwalks.scanRows_of_emits h hJ hemits, rfl⟩

end Child

end OneBase
