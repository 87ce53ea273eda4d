import OneBase.Execution.IndexedRuns
import OneBase.Execution.UpdatedRows

set_option relaxedAutoImplicit false
set_option autoImplicit false

/-!
# The statement UPDATE

`UpdateExecutor::Next` counts a row, and moves its entries in the indexes, also where the page has
refused the new tuple. Heap, indexes and count are in step afterwards if the pages have room for all
the new tuples, none of these is empty, and the keys in the tuples are those that are stored.

## Main definitions

* `OneBase.Replays` — a child whose rows may be replaced while it goes on.
* `OneBase.Replaces` — the rows that a statement replaces, with their new tuples.
* `OneBase.UpdateInStep` — heap, indexes and count are in step.
* `OneBase.UpdateFits` — the condition.
* `OneBase.UpdateOverruns` — an update that is not refused takes bytes that are not free.

## Main results

* `OneBase.HeapTable.updateLoop` — the loop.
* `OneBase.updateInStep_iff` — the statement.
-/

namespace OneBase

open Exec TableHeap Memory

/-! ## Children under updates -/

/-- From a state with `J todo rows` on, the child returns the rows `todo` of a table that holds
`rows`, also if each is replaced as soon as it has been returned. -/
def Replays {σ : Type} (next : σ → Exec (Option Row × σ)) (tableInfo : TableInfo)
    (J : σ → List Row → List (RID × List UInt8) → Prop) : Prop :=
  ∀ c p st todo o st' c', HeapTable c tableInfo p → J st todo (liveRows p) →
    Returns (next st) c (o, st') c' → c' = c ∧ o = todo.head? ∧
      ∀ row ∈ todo.head?, J st' todo.tail (liveRows p) ∧
        ∀ b, J st' todo.tail (setRow row.2 b (liveRows p))

/-- A walk replays the updates: each row is behind it before it is replaced. -/
lemma Walks.replays {σ : Type} {next : σ → Exec (Option Row × σ)} {tableInfo : TableInfo}
    {read : RID × List UInt8 → Cpp (Option Tuple)}
    {J : σ → List (RID × List UInt8) → List (RID × List UInt8) → Prop}
    (h : Walks next tableInfo read J) : Replays next tableInfo fun st todo rows =>
      ∃ ahead, J st ahead rows ∧ scanRows read ahead = pure todo := by
  rintro c p st todo o st' c' htable ⟨ahead, hJ, htodo⟩ hret
  obtain ⟨rfl, rest, hscan, hJ'⟩ := h.returns c p st ahead o st' c' htable hJ hret
  obtain ⟨rest', hscan', htail⟩ := exists_scans htodo
  obtain ⟨rfl, rfl⟩ := hscan.unique hscan'
  refine ⟨rfl, rfl, fun row hrow => ⟨⟨rest, hJ', htail⟩, fun b => ⟨rest, ?_, htail⟩⟩⟩
  rw [Option.mem_def.1 hrow] at hscan
  obtain ⟨skipped, r, rfl, -, -, hrid⟩ := Scans.some_iff.1 hscan
  exact h.replaced _ _ _ _ _ hJ' (hrid ▸ h.notMem_rest hJ)

/-! ## The loop -/

section Loop

variable {σ : Type} {next : σ → Exec (Option Row × σ)}
  {J : σ → List Row → List (RID × List UInt8) → Prop} {ctx ctx' : ExecutorContext}
  {tableInfo : TableInfo} {pages : Pages} {oids : List ℕ} {updateExprs : List Expression}
  {childSchema : Schema} {rs : List Replacement} {st st' : σ} {count count' : ℤ} {n : ℕ}

/-- What the loop makes of the indexes. -/
def MovesEntries (schema : Schema) (oids : List ℕ) (rs : List Replacement) (c c' : Catalog) :
    Prop :=
  ∀ oid ∈ oids, ∀ i, c.getIndex oid = some i → ∃ i', c'.getIndex oid = some i' ∧
    i' = { i with intRidMap := i'.intRidMap } ∧
    ∀ attr, i.supportsPointLookup = true → i.getLookupAttr = pure attr →
      moveEntries schema attr i rs = pure i'

/-- Without updates no entry moves. -/
lemma movesEntries_nil (schema : Schema) (oids : List ℕ) (c : Catalog) :
    MovesEntries schema oids [] c c :=
  fun _ _ i hi => ⟨i, hi, rfl, fun _ _ _ => rfl⟩

/-- One more row before the others. -/
lemma MovesEntries.cons {schema : Schema} {r : Replacement} {c₀ c c' : Catalog}
    (hfirst : c₀.Maintained oids (updateChange schema r) c)
    (h : MovesEntries schema oids rs c c') : MovesEntries schema oids (r :: rs) c₀ c' := by
  intro oid hoid i hi
  obtain ⟨i₀, j, hi₀, hchanged, hj⟩ := hfirst.changed oid hoid
  obtain rfl : i₀ = i := Option.some.inj (hi₀.symm.trans hi)
  have hj' := IndexInfo.changed_eq hchanged (onlyEntries_updateChange schema r)
  obtain ⟨i', hi', heq, hmoved⟩ := h oid hoid j hj
  refine ⟨i', hi', ?_, fun attr hlookup hattr => ?_⟩
  · rw [heq, hj']
  · have hlookup' : j.supportsPointLookup = true := by
      rw [hj']
      exact hlookup
    have hattr' : j.getLookupAttr = pure attr := by
      rw [hj']
      exact hattr
    unfold IndexInfo.changed at hchanged
    rw [if_pos hlookup, hattr, pure_bind] at hchanged
    exact Cpp.bind_eq_pure.2 ⟨j, hchanged, hmoved attr hlookup' hattr'⟩

/-- The loop replaces the rows that the child returns, as far as the pages do not refuse, and counts
them all. -/
lemma HeapTable.updateLoop (h : HeapTable ctx tableInfo pages) (hnodup : oids.Nodup)
    (hreplays : Replays next tableInfo J)
    (hJ : J st (rs.map fun r => (r.scanned, r.rid)) (liveRows pages))
    (hstored : ∀ r ∈ rs, (r.rid, r.old) ∈ liveRows pages)
    (hevaluated : ∀ r ∈ rs, evaluateRow updateExprs childSchema r.scanned = pure r.updated)
    (hrids : (rs.map Replacement.rid).Nodup) (horderly : Orderly (freeSpace ctx.bpm) rs)
    (hret : Returns (forEachRow next (updateRow updateExprs childSchema tableInfo oids) n st count)
      ctx (st', count') ctx') :
    ∃ pages', HeapTable ctx' tableInfo pages' ∧ count' = count + rs.length ∧
      (count < 2 ^ 31 → count' < 2 ^ 31) ∧
      liveRows pages' = replaceRows (accepted (freeSpace ctx.bpm) rs) (liveRows pages) ∧
      MovesEntries tableInfo.schema oids rs ctx.catalog ctx'.catalog ∧
      InPlace ctx.bpm pages ctx'.bpm pages' ∧
      ∀ oid, ctx'.catalog.getTable oid = ctx.catalog.getTable oid := by
  induction rs generalizing n st ctx pages count with
  | nil =>
    cases n with
    | zero => exact absurd hret not_returns_undefined
    | succ n =>
      obtain ⟨⟨o, st₁⟩, c, hnext, hrest⟩ := returns_bind.1 hret
      obtain ⟨rfl, rfl, -⟩ := hreplays ctx pages st _ o st₁ c h hJ hnext
      obtain ⟨heq, rfl⟩ := returns_pure.1 hrest
      obtain ⟨-, rfl⟩ := Prod.mk.inj heq
      exact ⟨pages, h, by simp, id, rfl, movesEntries_nil _ _ _, .refl h.ready pages,
        fun _ => rfl⟩
  | cons r rs ih =>
    cases n with
    | zero => exact absurd hret not_returns_undefined
    | succ n =>
      rw [List.map_cons, List.nodup_cons] at hrids
      obtain ⟨⟨o, st₁⟩, c, hnext, hrest⟩ := returns_bind.1 hret
      obtain ⟨rfl, rfl, hlater⟩ := hreplays ctx pages st _ o st₁ c h hJ hnext
      obtain ⟨hkept, hreplaced⟩ := hlater _ rfl
      obtain ⟨count₁, c₁, hbody, hloop⟩ := returns_bind.1 hrest
      rw [Orderly] at horderly
      have hfree : ¬ r.IsRefused (freeSpace c.bpm) →
          r.bytes.length ≤ freeSpace c.bpm r.rid.pageId := by
        intro haccepted
        rw [if_neg haccepted] at horderly
        exact horderly.1
      obtain ⟨rfl, hsmall, pages₁, hupdated⟩ := h.updateRow_returns hnodup
        (hstored r List.mem_cons_self) (hevaluated r List.mem_cons_self) hfree hbody
      have hothers : ∀ x ∈ rs, (x.rid, x.old) ∈ setRow r.rid r.bytes (liveRows pages) := by
        intro x hx
        refine mem_setRow_iff.2 (.inl ⟨hstored x (List.mem_cons_of_mem r hx), ?_⟩)
        intro heq
        exact hrids.1 (heq ▸ List.mem_map_of_mem hx)
      have hJ₁ : J st₁ (rs.map fun r => (r.scanned, r.rid)) (liveRows pages₁) := by
        rw [hupdated.rows]
        split_ifs
        · exact hkept
        · exact hreplaced r.bytes
      have hstored₁ : ∀ x ∈ rs, (x.rid, x.old) ∈ liveRows pages₁ := by
        intro x hx
        rw [hupdated.rows]
        split_ifs
        · exact hstored x (List.mem_cons_of_mem r hx)
        · exact hothers x hx
      have horderly₁ : Orderly (freeSpace c₁.bpm) rs := by
        rw [hupdated.free]
        split_ifs with hrefused
        · rwa [if_pos hrefused] at horderly
        · rw [if_neg hrefused] at horderly
          exact horderly.2
      obtain ⟨pages', htable, hcount, hlt, hrows, hmoved, hplace, htables⟩ := ih hupdated.table hJ₁
        hstored₁ (fun x hx => hevaluated x (List.mem_cons_of_mem r hx)) hrids.2 horderly₁ hloop
      refine ⟨pages', htable, ?_, fun _ => hlt hsmall, ?_, hmoved.cons hupdated.catalog,
        hupdated.inPlace.trans hplace, fun oid => (htables oid).trans ?_⟩
      · rw [hcount, List.length_cons, Nat.cast_succ]
        omega
      · rw [hrows, accepted, hupdated.free, hupdated.rows]
        split_ifs <;> rfl
      · rw [hupdated.catalog.others]
        rfl

end Loop

/-! ## The statement -/

/-- The rows that the statement replaces, with their new tuples: those that the child returns before
the statement begins. -/
structure Replaces (std : StandardLibrary) (ctx : ExecutorContext) (child : PlanNode)
    (updateExprs : List Expression) (rows : List (RID × List UInt8)) (rs : List Replacement) :
    Prop where
  scanned : Completes std child ctx (rs.map Replacement.scanned) ctx
  stored : ∀ r ∈ rs, (r.rid, r.old) ∈ rows
  evaluated : ∀ r ∈ rs, evaluateRow updateExprs child.getOutputSchema r.scanned = pure r.updated

/-- The rows of a heap: those that an iteration visits, as `GetTuple` returns them. -/
def HeapRows (bpm : PageStore TablePage) (heap : TableHeap) (rows : List (RID × List UInt8)) :
    Prop :=
  ∀ frames ≥ 1, Terminates frames (fun fuel => iterate fuel heap) bpm (rows.map Prod.fst) bpm ∧
    ∀ r ∈ rows, (TableHeap.getTuple r.1).run (PageStore.handler frames) bpm =
      some (.ok (rawTuple r), bpm)

/-- The count that is returned is the number of the row ids whose tuple was replaced. -/
def CountsReplaced (rs : List Replacement) (rows : List (RID × List UInt8)) (result : List Tuple) :
    Prop :=
  ∃ tuple k, result = [tuple] ∧ tuple.values = [Value.ofInt k] ∧
    k.toInt = (rs.filter fun r => (r.rid, r.bytes) ∈ rows).length

/-- After the statement, the count is the number of the rows whose tuple was replaced, and the
lookup indexes of the table file the rows of the heap. -/
def UpdateInStep (std : StandardLibrary) (ctx : ExecutorContext) (tableInfo : TableInfo)
    (oids : List ℕ) (rows : List (RID × List UInt8)) (child : PlanNode)
    (updateExprs : List Expression) (result : List Tuple) (ctx' : ExecutorContext) : Prop :=
  ∃ rs rows', Replaces std ctx child updateExprs rows rs ∧
    HeapRows ctx'.bpm tableInfo.table rows' ∧ CountsReplaced rs rows' result ∧
    ctx'.catalog.FilesRows tableInfo.schema oids rows'

/-- The pages have room for the new tuples, none of these is empty, and the keys that are read off
the tuples are those that are stored. -/
structure Fits (ctx : ExecutorContext) (schema : Schema) (oids : List ℕ) (rs : List Replacement) :
    Prop where
  room : HaveRoom (freeSpace ctx.bpm) rs
  nonempty : ∀ r ∈ rs, r.bytes ≠ []
  keys : ∀ oid ∈ oids, ∀ i attr, ctx.catalog.getIndex oid = some i →
    i.supportsPointLookup = true → i.getLookupAttr = pure attr →
    ∀ r ∈ rs, r.KeysAreStored schema attr

/-- The new tuples of the statement fit. -/
def UpdateFits (std : StandardLibrary) (ctx : ExecutorContext) (tableInfo : TableInfo)
    (oids : List ℕ) (rows : List (RID × List UInt8)) (child : PlanNode)
    (updateExprs : List Expression) : Prop :=
  ∃ rs, Replaces std ctx child updateExprs rows rs ∧ Fits ctx tableInfo.schema oids rs

/-- An `UpdateTuple` of the statement is not refused, and takes bytes that are not free. -/
def UpdateOverruns (std : StandardLibrary) (ctx : ExecutorContext)
    (rows : List (RID × List UInt8)) (child : PlanNode) (updateExprs : List Expression) : Prop :=
  ∃ rs, Replaces std ctx child updateExprs rows rs ∧ ¬ Orderly (freeSpace ctx.bpm) rs

section Statement

variable {std : StandardLibrary} {ctx ctx' c : ExecutorContext} {tableInfo : TableInfo}
  {pages : Pages} {oids : List ℕ} {rs : List Replacement} {rows : List (RID × List UInt8)}
  {predicate : Expression} {scanSchema out : Schema} {oid fuel n : ℕ} {child : PlanNode}
  {updateExprs : List Expression} {result : List Tuple} {i : IndexInfo} {schema : Schema}
  {attr : ℕ}

/-- A scan says in the tuple where the row lies. -/
lemma scanRows_rids {read : RID × List UInt8 → Cpp (Option Tuple)} {todo : List Row}
    (hread : ∀ r tuple, read r = pure (some tuple) → tuple.rid = r.1)
    (h : scanRows read rows = pure todo) :
    (todo.map fun row => (row.1, row.1.rid)) = todo ∧
      (todo.map Prod.snd).Sublist (rows.map Prod.fst) := by
  induction rows generalizing todo with
  | nil =>
    cases h
    exact ⟨rfl, List.Sublist.refl _⟩
  | cons r rows ih =>
    obtain ⟨o, ho, hrest⟩ := Cpp.bind_eq_pure.1 h
    obtain ⟨rest, hrest', heq⟩ := Cpp.bind_eq_pure.1 hrest
    obtain ⟨hsame, hsub⟩ := ih hrest'
    cases o with
    | none =>
      cases heq
      exact ⟨hsame, hsub.cons r.1⟩
    | some tuple =>
      cases heq
      refine ⟨?_, hsub.cons_cons r.1⟩
      show ((tuple, tuple.rid) :: rest.map fun row => (row.1, row.1.rid)) = (tuple, r.1) :: rest
      rw [hsame, hread r tuple ho]

/-- The tuple of a row of a scan says where the row lies. -/
lemma PlanNode.rid_reading (child : PlanNode) (r : RID × List UInt8) (tuple : Tuple)
    (h : child.reading tableInfo r = pure (some tuple)) : tuple.rid = r.1 := by
  cases child with
  | seqScan out oid predicate =>
    obtain ⟨keep, -, hread⟩ := Cpp.bind_eq_pure.1 h
    cases keep with
    | false => cases hread
    | true =>
      obtain ⟨values, -, hmake⟩ := Cpp.bind_eq_pure.1 hread
      obtain ⟨made, -, hfin⟩ := Cpp.bind_eq_pure.1 hmake
      cases hfin
      rfl
  | _ =>
    cases h
    rfl

/-- The child of the statement starts as a scan that will return the rows to replace. -/
lemma HeapTable.exists_replays (h : HeapTable ctx tableInfo pages)
    (htable : ctx.catalog.getTable oid = some tableInfo)
    (hshape : child.IsScan scanSchema oid predicate)
    (hfinds : child.FindsRows ctx.catalog (liveRows pages))
    (hreplaces : Replaces std ctx child updateExprs (liveRows pages) rs)
    {st : (createExecutor std fuel child).State}
    (hinit : Returns ((createExecutor std fuel child).init (createExecutor std fuel child).fresh)
      ctx st c) :
    c = ctx ∧ (rs.map Replacement.rid).Nodup ∧
      ∃ J, Replays (createExecutor std fuel child).next tableInfo J ∧
        J st (rs.map fun r => (r.scanned, r.rid)) (liveRows pages) := by
  obtain ⟨todo, htodo, hscanned⟩ := h.scanRows_of_completes htable hshape hfinds hreplaces.scanned
  obtain ⟨rfl, J, hwalks, hJ⟩ := h.exists_walk htable hshape hfinds hinit
  obtain ⟨hsame, hsub⟩ := scanRows_rids child.rid_reading htodo
  have hrows : (rs.map fun r => (r.scanned, r.rid)) = todo := by
    rw [← hsame]
    have hmap := congrArg (List.map fun tuple : Tuple => (tuple, tuple.rid)) hscanned
    rwa [List.map_map, List.map_map] at hmap
  have hsecond : rs.map Replacement.rid = todo.map Prod.snd := by
    rw [← hrows, List.map_map]
    rfl
  refine ⟨rfl, ?_, _, hwalks.replays, _, hJ, hrows ▸ htodo⟩
  rw [hsecond]
  exact (hwalks.nodup _ _ _ hJ).sublist hsub

/-- The rows of the heap of a table. -/
lemma HeapTable.heapRows (h : HeapTable ctx tableInfo pages) :
    HeapRows ctx.bpm tableInfo.table (liveRows pages) :=
  fun _ hframes => ⟨h.holds.terminates_iterate h.ready hframes,
    fun _ hr => h.holds.getTuple h.ready hframes hr⟩

/-- A heap has the rows that its iteration lists. -/
lemma HeapTable.mem_of_heapRows (h : HeapTable ctx tableInfo pages)
    (hrows : HeapRows ctx.bpm tableInfo.table rows) (r : RID × List UInt8) :
    r ∈ rows ↔ r ∈ liveRows pages := by
  obtain ⟨⟨fuel₀, hvisits⟩, hget⟩ := hrows 1 le_rfl
  have hone : (1 : ℕ∞) ≤ 1 := le_rfl
  obtain ⟨fuel₁, hvisits'⟩ := h.holds.terminates_iterate h.ready hone
  have hrun := hvisits (max fuel₀ fuel₁) (le_max_left _ _)
  rw [hvisits' (max fuel₀ fuel₁) (le_max_right _ _)] at hrun
  have hfst : (liveRows pages).map Prod.fst = rows.map Prod.fst :=
    (Prod.mk.inj (Option.some.inj hrun)).1
  have hsub : ∀ x ∈ rows, x ∈ liveRows pages := by
    intro x hx
    have hmem : x.1 ∈ (liveRows pages).map Prod.fst := hfst ▸ List.mem_map_of_mem hx
    obtain ⟨⟨rid, b⟩, hb, rfl⟩ := List.mem_map.1 hmem
    have hraw := (hget x hx).symm.trans (h.holds.getTuple h.ready le_rfl hb)
    have hbytes : x.2 = b := by
      cases hraw
      rfl
    rwa [← hbytes] at hb
  refine ⟨hsub r, fun hr => ?_⟩
  have hmem : r.1 ∈ rows.map Prod.fst := hfst ▸ List.mem_map_of_mem hr
  obtain ⟨x, hx, heq⟩ := List.mem_map.1 hmem
  rwa [List.inj_on_of_nodup_map (nodup_liveRows h.holds.nodup) (hsub x hx) hr heq] at hx

/-- The count of all the rows is right iff all of them were replaced. -/
lemma countsReplaced_iff {tuple : Tuple} (hcount : countTuple rs.length = pure tuple)
    (hsmall : rs.length < 2 ^ 31) :
    CountsReplaced rs rows [tuple] ↔ ∀ r ∈ rs, (r.rid, r.bytes) ∈ rows := by
  obtain ⟨tuple', htuple', hvalues⟩ := countTuple_eq rs.length
  cases hcount.symm.trans htuple'
  have hint : (BitVec.ofInt 32 rs.length).toInt = rs.length := by
    rw [BitVec.toInt_ofInt]
    exact Int.bmod_eq_of_le (by omega) (by omega)
  have hall : (∀ r ∈ rs, (r.rid, r.bytes) ∈ rows) ↔
      (rs.filter fun r => (r.rid, r.bytes) ∈ rows).length = rs.length := by
    rw [List.length_filter_eq_length_iff]
    simp
  rw [hall]
  constructor
  · rintro ⟨tuple', k, hresult, hvalues', hk⟩
    obtain rfl : tuple = tuple' := List.singleton_inj.1 hresult
    have hvalue := List.singleton_inj.1 (hvalues.symm.trans hvalues')
    have hbits : BitVec.ofInt 32 rs.length = k := by
      simpa [Value.ofInt] using hvalue
    rw [← hbits, hint] at hk
    exact_mod_cast hk.symm
  · intro heq
    refine ⟨tuple, BitVec.ofInt 32 rs.length, rfl, hvalues, ?_⟩
    rw [heq, hint]

/-- The indexes file the rows afterwards, if every row was replaced, iff the keys that are read off
the tuples are those that are stored. -/
lemma MovesEntries.filesRows_iff {c' : Catalog}
    (hmoved : MovesEntries tableInfo.schema oids rs ctx.catalog c')
    (hindexes : TableIndexes ctx.catalog tableInfo oids)
    (hfiles : ctx.catalog.FilesRows tableInfo.schema oids rows)
    (hrows : (rows.map Prod.fst).Nodup) (hstored : ∀ r ∈ rs, (r.rid, r.old) ∈ rows)
    (hnodup : (rs.map Replacement.rid).Nodup) (hne : ∀ r ∈ rs, r.bytes ≠ []) :
    c'.FilesRows tableInfo.schema oids (replaceRows rs rows) ↔
      ∀ oid ∈ oids, ∀ i attr, ctx.catalog.getIndex oid = some i → i.supportsPointLookup = true →
        i.getLookupAttr = pure attr → ∀ r ∈ rs, r.KeysAreStored tableInfo.schema attr := by
  constructor
  · intro h oid hoid i attr hi hlookup hattr
    obtain ⟨i', hi', heq, hmove⟩ := hmoved oid hoid i hi
    have hfiled := h oid hoid i' attr hi' (by rw [heq]; exact hlookup) (by rw [heq]; exact hattr)
    exact ((hfiles oid hoid i attr hi hlookup hattr).moveEntries_iff hrows hstored hnodup hne
      (hmove attr hlookup hattr)).1 hfiled
  · intro h oid hoid i' attr hi' hlookup hattr
    obtain ⟨i, hi, -⟩ := hindexes.filed oid hoid
    obtain ⟨j, hj, heq, hmove⟩ := hmoved oid hoid i hi
    obtain rfl : i' = j := Option.some.inj (hi'.symm.trans hj)
    rw [heq] at hlookup hattr
    exact ((hfiles oid hoid i attr hi hlookup hattr).moveEntries_iff hrows hstored hnodup hne
      (hmove attr hlookup hattr)).2 (h oid hoid i attr hi hlookup hattr)

/-- Indexes do not see the order of the rows. -/
lemma Catalog.FilesRows.congr {catalog : Catalog} {rows' : List (RID × List UInt8)}
    (h : catalog.FilesRows schema oids rows) (hmem : ∀ r, r ∈ rows' ↔ r ∈ rows) :
    catalog.FilesRows schema oids rows' := by
  intro oid hoid i attr hi hlookup hattr
  obtain ⟨hcompact, hnodup, hiff⟩ := h oid hoid i attr hi hlookup hattr
  refine ⟨hcompact, hnodup, fun key rid => ?_⟩
  rw [hiff]
  simp only [hmem]

/-- The child of the statement, sequential or optimized, finds rows of the table. -/
lemma Catalog.FilesRows.findsRows (hfiles : ctx.catalog.FilesRows tableInfo.schema oids rows)
    (htable : ctx.catalog.getTable oid = some tableInfo)
    (hindexes : TableIndexes ctx.catalog tableInfo oids)
    (hchild : child = .seqScan scanSchema oid predicate ∨
      optimizeSeqScanToIndexScan (some ctx.catalog) (.seqScan scanSchema oid predicate) =
        pure child) :
    child.IsScan scanSchema oid predicate ∧ child.FindsRows ctx.catalog rows := by
  rcases hchild with rfl | hopt
  · exact ⟨.inl rfl, trivial⟩
  · refine ⟨isScan_of_optimize hopt, hindexes.findsRows htable hopt
      fun indexOid hmem i attr hi hlookup hattr key => ?_⟩
    have hfiled := hfiles indexOid hmem i attr hi hlookup hattr
    refine ⟨hfiled.nodup key, fun rid hrid => ?_⟩
    obtain ⟨b, hb, -⟩ := (hfiled.mem_iff key rid).1 hrid
    exact List.mem_map_of_mem hb

/-- A statement whose updates take only free bytes is in step iff the new tuples fit. -/
lemma HeapTable.inStep_iff_of_orderly (h : HeapTable ctx tableInfo pages)
    (htable : ctx.catalog.getTable oid = some tableInfo)
    (hindexes : TableIndexes ctx.catalog tableInfo oids)
    (hfiles : ctx.catalog.FilesRows tableInfo.schema oids (liveRows pages))
    (hchild : child = .seqScan scanSchema oid predicate ∨
      optimizeSeqScanToIndexScan (some ctx.catalog) (.seqScan scanSchema oid predicate) =
        pure child)
    (hret : Returns (executePlan std fuel (.update out child oid updateExprs)) ctx result ctx')
    (hreplaces : Replaces std ctx child updateExprs (liveRows pages) rs)
    (horderly : Orderly (freeSpace ctx.bpm) rs) :
    (∃ rows', HeapRows ctx'.bpm tableInfo.table rows' ∧ CountsReplaced rs rows' result ∧
      ctx'.catalog.FilesRows tableInfo.schema oids rows') ↔ Fits ctx tableInfo.schema oids rs := by
  obtain ⟨-, st, c, info, listed, st', count, tuple, hinit, hinfo, hlisted, hloop, hcount, rfl⟩ :=
    returns_execute_modification.1 hret
  obtain ⟨hshape, hfinds⟩ := hfiles.findsRows htable hindexes hchild
  obtain ⟨rfl, hrids, J, hreplays, hJ⟩ := h.exists_replays htable hshape hfinds hreplaces hinit
  obtain rfl : tableInfo = info := Option.some.inj (htable.symm.trans hinfo)
  cases hindexes.listed.symm.trans hlisted
  have hevaluated := hreplaces.evaluated
  rw [← outputSchema_createExecutor std fuel child] at hevaluated
  obtain ⟨pages', htable', rfl, hsmall, hrows', hmoved, -⟩ := h.updateLoop hindexes.nodup hreplays hJ
    hreplaces.stored hevaluated hrids horderly hloop
  have hlt := hsmall (by decide)
  rw [zero_add] at hcount hlt
  have hnodup := nodup_liveRows h.holds.nodup
  have hcounts : CountsReplaced rs (liveRows pages') [tuple] ↔
      accepted (freeSpace c.bpm) rs = rs ∧ ∀ r ∈ rs, r.bytes ≠ [] := by
    rw [countsReplaced_iff hcount (by omega), hrows']
    exact forall_mem_replaceRows_iff hnodup hreplaces.stored hrids
  constructor
  · rintro ⟨rows', hheap, hreplaced, hfiled⟩
    have hmem := htable'.mem_of_heapRows hheap
    have hreplaced' : CountsReplaced rs (liveRows pages') [tuple] := by
      obtain ⟨tuple', k, hresult, hvalues, hk⟩ := hreplaced
      refine ⟨tuple', k, hresult, hvalues, ?_⟩
      rw [hk]
      simp only [hmem]
    obtain ⟨haccepted, hne⟩ := hcounts.1 hreplaced'
    refine ⟨haveRoom_iff.2 ⟨horderly, haccepted⟩, hne, ?_⟩
    rw [haccepted] at hrows'
    have hfiled' := hfiled.congr fun r => (hmem r).symm
    rw [hrows'] at hfiled'
    exact (hmoved.filesRows_iff hindexes hfiles hnodup hreplaces.stored hrids hne).1 hfiled'
  · rintro ⟨hroom, hne, hkeys⟩
    obtain ⟨-, haccepted⟩ := haveRoom_iff.1 hroom
    refine ⟨liveRows pages', htable'.heapRows, hcounts.2 ⟨haccepted, hne⟩, ?_⟩
    rw [hrows', haccepted]
    exact (hmoved.filesRows_iff hindexes hfiles hnodup hreplaces.stored hrids hne).2 hkeys

/-- **Updates.** On a table whose lookup indexes file its rows, a statement that returns leaves
heap, indexes and count in step if its new tuples fit, and otherwise not, unless one of them takes
bytes that are not free. -/
theorem updateInStep_iff (h : HeapTable ctx tableInfo pages)
    (htable : ctx.catalog.getTable oid = some tableInfo)
    (hindexes : TableIndexes ctx.catalog tableInfo oids)
    (hfiles : ctx.catalog.FilesRows tableInfo.schema oids (liveRows pages))
    (hchild : child = .seqScan scanSchema oid predicate ∨
      optimizeSeqScanToIndexScan (some ctx.catalog) (.seqScan scanSchema oid predicate) =
        pure child)
    (hret : Returns (executePlan std fuel (.update out child oid updateExprs)) ctx result ctx') :
    (UpdateFits std ctx tableInfo oids (liveRows pages) child updateExprs →
      UpdateInStep std ctx tableInfo oids (liveRows pages) child updateExprs result ctx') ∧
    (UpdateInStep std ctx tableInfo oids (liveRows pages) child updateExprs result ctx' →
      UpdateFits std ctx tableInfo oids (liveRows pages) child updateExprs ∨
        UpdateOverruns std ctx (liveRows pages) child updateExprs) := by
  constructor
  · rintro ⟨rs, hreplaces, hfits⟩
    have horderly := (haveRoom_iff.1 hfits.room).1
    obtain ⟨rows', hheap, hcount, hfiled⟩ := (h.inStep_iff_of_orderly htable hindexes hfiles hchild
      hret hreplaces horderly).2 hfits
    exact ⟨rs, rows', hreplaces, hheap, hcount, hfiled⟩
  · rintro ⟨rs, rows', hreplaces, hheap, hcount, hfiled⟩
    by_cases horderly : Orderly (freeSpace ctx.bpm) rs
    · exact .inl ⟨rs, hreplaces, (h.inStep_iff_of_orderly htable hindexes hfiles hchild hret
        hreplaces horderly).1 ⟨rows', hheap, hcount, hfiled⟩⟩
    · exact .inr ⟨rs, hreplaces, horderly⟩

end Statement

/-! ## A table of notes -/

/-- A table with a column `id INTEGER` and a column `note VARCHAR`. -/
def notesTable : TableInfo where
  schema := Schema.new [Column.new "id" .integer, Column.new "note" .varchar]
  name := "t"
  table := ⟨0⟩
  oid := 1

/-- The row `(7, 'a')`. -/
def notesRow : RID × List UInt8 := (⟨0, 0⟩, [7, 0, 0, 0, 1, 0, 0, 0, 97])

/-- The index on `id`. -/
def notesIndex : IndexInfo where
  keySchema := Schema.new [Column.new "id" .integer]
  name := "i"
  tableName := "t"
  oid := 1
  keyAttrs := [0]
  supportsPointLookup := true
  intRidMap := fun key => if key = 7 then some [notesRow.1] else none

/-- The database of the table. -/
def notesContext : ExecutorContext where
  catalog :=
    { nextTableOid := 2
      nextIndexOid := 2
      tables := [(1, notesTable)]
      tableNames := [("t", 1)]
      indexes := [(1, notesIndex)]
      indexNames := [("t", [("i", 1)])] }
  bpm := storeOf [[notesRow.2]]

/-- The page of the table. -/
def notesPages : Pages := [(0, [some notesRow.2])]

/-- `SELECT * FROM t`. -/
def notesScan : PlanNode := .seqScan notesTable.schema 1 .null

/-- `UPDATE t SET id = 8, note = 'bb..'` with a note of `n` bytes. -/
def notesUpdates (n : ℕ) : List Expression :=
  [.constantValue (Value.ofInt 8), .constantValue { payload := .varchar (List.replicate n 98) }]

/-- The row, as the scan returns it. -/
def notesScanned : Tuple where
  rid := notesRow.1
  data := notesRow.2
  values := [Value.ofInt 7, { payload := .varchar [97] }]

/-- The row, with its new tuple. -/
def notesReplacement (n : ℕ) : Replacement where
  old := notesRow.2
  scanned := notesScanned
  updated :=
    { data := [8, 0, 0, 0] ++ (leBytes 4 n ++ List.replicate n 98)
      values := [Value.ofInt 8, { payload := .varchar (List.replicate n 98) }] }

section Notes

variable {n : ℕ}

/-- The sample is a table on one page. -/
lemma heapTable_notes : HeapTable notesContext notesTable notesPages where
  ready := ready_storeOf _
  frames := le_top
  holds := by
    have hrows : [[notesRow.2]][0]? = some [notesRow.2] := rfl
    exact holds_storeOf hrows (by decide)

/-- It has one row. -/
lemma liveRows_notes : liveRows notesPages = [notesRow] := rfl

/-- It has one index. -/
lemma tableIndexes_notes : TableIndexes notesContext.catalog notesTable [1] where
  listed := rfl
  nodup := List.nodup_singleton 1
  filed := by
    intro oid hoid
    obtain rfl := List.mem_singleton.1 hoid
    exact ⟨_, rfl, rfl, 0, by decide, rfl⟩

/-- The index files the row. -/
lemma filesRows_notes :
    notesContext.catalog.FilesRows notesTable.schema [1] (liveRows notesPages) := by
  intro oid hoid i attr hi _ hattr
  obtain rfl := List.mem_singleton.1 hoid
  obtain rfl := Option.some.inj hi
  obtain rfl : 0 = attr := by
    cases hattr
    rfl
  have hrids : ∀ key, notesIndex.rids key = if key = 7 then [notesRow.1] else [] := by
    intro key
    show (if key = 7 then some [notesRow.1] else none).getD [] = _
    split_ifs <;> rfl
  have hkey : (rawTuple notesRow).keyOf notesTable.schema 0 = pure 7 := rfl
  refine ⟨fun key => ?_, fun key => ?_, fun key rid => ?_⟩
  · show (if key = 7 then some [notesRow.1] else none) ≠ some []
    split_ifs <;> simp
  · rw [hrids]
    split_ifs <;> simp
  · rw [hrids, liveRows_notes]
    constructor
    · intro hrid
      split_ifs at hrid with h
      · rw [List.mem_singleton] at hrid
        rw [hrid, h]
        exact ⟨notesRow.2, List.mem_singleton_self _, hkey⟩
      · cases hrid
    · rintro ⟨b, hb, hk⟩
      obtain ⟨rfl, rfl⟩ := Prod.mk.inj (List.mem_singleton.1 hb)
      have h : key = 7 := by
        cases hk.symm.trans hkey
        rfl
      rw [if_pos h]
      exact List.mem_singleton_self _

/-- The new row has the note of `n` characters. -/
lemma evaluated_notes (hn : n + 4 < 2 ^ 32) :
    evaluateRow (notesUpdates n) notesScan.getOutputSchema (notesReplacement n).scanned =
      pure (notesReplacement n).updated := by
  have hvalues : (notesUpdates n).mapM
      (fun expr => expr.evaluate (notesReplacement n).scanned notesScan.getOutputSchema) =
        pure (notesReplacement n).updated.values := rfl
  unfold evaluateRow
  rw [hvalues, pure_bind]
  have hbytes : (notesReplacement n).updated.values.flatMap Value.encoding =
      (notesReplacement n).updated.data := by
    have hnote : (⟨.varchar (List.replicate n 98), false⟩ : Value).encoding =
        leBytes 4 n ++ List.replicate n 98 := by
      show leBytes 4 (List.replicate n 98).length ++ List.replicate n 98 = _
      rw [List.length_replicate]
    show (Value.ofInt 8).encoding ++ (Value.encoding _ ++ []) = _
    rw [hnote, List.append_nil]
    rfl
  rw [ofValues_eq, hbytes]
  · rfl
  · intro v hv
    rcases List.mem_cons.1 hv with rfl | hv
    · decide
    · obtain rfl := List.mem_singleton.1 hv
      refine ⟨by simp [Value.getTypeId, Payload.typeId], ?_⟩
      show 4 + (List.replicate n 98).length < 2 ^ 32
      rw [List.length_replicate]
      omega

/-- The scan reads the row. -/
lemma scanRow_notes : scanRow .null notesTable.schema notesRow = pure (some notesScanned) := by
  rfl

/-- The new row takes eight bytes besides the note. -/
lemma length_bytes_notes (hn : n + 8 < 2 ^ 32) : (notesReplacement n).bytes.length = n + 8 := by
  have hdata : (notesReplacement n).updated.data.length = n + 8 := by
    show ([8, 0, 0, 0] ++ (leBytes 4 n ++ List.replicate n 98)).length = n + 8
    rw [List.length_append, List.length_append, length_leBytes, List.length_replicate]
    simp only [List.length_cons, List.length_nil]
    omega
  unfold Replacement.bytes bytesOf Tuple.getLength
  rw [hdata, Nat.mod_eq_of_lt hn, ← hdata, List.take_length, hdata]

/-- The free bytes of the page. -/
lemma freeSpace_notes : freeSpace notesContext.bpm 0 = 4067 := by
  have hroom : roomOf [notesRow.2] + 16 ≤ pageSize := by decide
  have hcontent : notesContext.bpm.content 0 = some (TablePage.ofRows [notesRow.2]) :=
    content_storeOf [[notesRow.2]] 0
  rw [freeSpace_eq hcontent, (TablePage.ofRows_spec hroom).2.2]
  rfl

/-- The update is refused if the note does not fit on the page. -/
lemma isRefused_notes_iff (hn : n + 8 < 2 ^ 32) :
    (notesReplacement n).IsRefused (freeSpace notesContext.bpm) ↔ 4068 < n := by
  have hspace : freeSpace notesContext.bpm (notesReplacement n).rid.pageId = 4067 := freeSpace_notes
  have hold : (notesReplacement n).old.length = 9 := rfl
  unfold Replacement.IsRefused Refuses
  rw [hspace, hold, length_bytes_notes hn]
  omega

/-- The update replaces the only row. -/
lemma replaces_notes (hn : n + 8 < 2 ^ 32) : Replaces default notesContext notesScan
    (notesUpdates n) (liveRows notesPages) [notesReplacement n] where
  scanned := by
    refine (heapTable_notes.completes_seqScan rfl).2 ⟨rfl, [(notesScanned, notesRow.1)], ?_, rfl⟩
    rw [liveRows_notes, scanRows, scanRow_notes]
    rfl
  stored := by
    intro r hr
    obtain rfl := List.mem_singleton.1 hr
    exact List.mem_singleton_self _
  evaluated := by
    intro r hr
    obtain rfl := List.mem_singleton.1 hr
    exact evaluated_notes (by omega)

/-- The statement returns, unless it takes bytes that are not free. -/
lemma exists_notesUpdate (hn : n + 8 < 2 ^ 32) (hfree : n ≤ 4059 ∨ 4068 < n) :
    ∃ result ctx', Returns (executePlan default 4 (.update (Schema.new []) notesScan 1
      (notesUpdates n))) notesContext result ctx' := by
  have hspace : freeSpace notesContext.bpm (notesReplacement n).rid.pageId = 4067 := freeSpace_notes
  have hfree' : ¬ (notesReplacement n).IsRefused (freeSpace notesContext.bpm) →
      (notesReplacement n).bytes.length ≤
        freeSpace notesContext.bpm (notesReplacement n).rid.pageId := by
    intro haccepted
    rw [isRefused_notes_iff hn] at haccepted
    rw [hspace, length_bytes_notes hn]
    omega
  have hstored : ((notesReplacement n).rid, (notesReplacement n).old) ∈ liveRows notesPages :=
    List.mem_singleton_self _
  have hchange : ∀ oid ∈ [1], ∃ i i', notesContext.catalog.getIndex oid = some i ∧
      i.changed (updateChange notesTable.schema (notesReplacement n)) = pure i' := by
    intro oid hoid
    obtain rfl := List.mem_singleton.1 hoid
    exact ⟨notesIndex, _, rfl, rfl⟩
  have hcount : (0 : ℤ) + 1 < 2 ^ 31 := by decide
  obtain ⟨c, hbody⟩ := heapTable_notes.exists_updateRow (List.nodup_singleton 1) hstored
    (evaluated_notes (by omega)) hfree' hchange hcount
  have hscan : Scans (scanRow .null notesTable.schema) [notesRow] (some (notesScanned, notesRow.1))
      [] := .row scanRow_notes
  have hnext : Returns (seqScanNext 4 .null 4 (scanAt notesTable [notesRow])) notesContext
      (some (notesScanned, notesRow.1), scanAt notesTable []) notesContext :=
    heapTable_notes.returns_seqScanNext (by decide) hscan (by decide) (List.nil_append _).symm
  have hend : Returns (seqScanNext 4 .null 4 (scanAt notesTable [])) c
      (none, scanAt notesTable []) c := returns_seqScanNext_nil.2 ⟨rfl, rfl, rfl⟩
  obtain ⟨tuple, htuple, -⟩ := countTuple_eq 1
  refine ⟨[tuple], c, returns_execute_modification.2 ⟨by decide, scanAt notesTable [notesRow],
    notesContext, notesTable, [1], scanAt notesTable [], 1, tuple, ?_, rfl, rfl, ?_, htuple, rfl⟩⟩
  · exact heapTable_notes.returns_seqScanInit rfl (by decide) _
  · refine returns_bind.2 ⟨_, notesContext, hnext, returns_bind.2 ⟨1, c, hbody, ?_⟩⟩
    exact returns_bind.2 ⟨_, c, hend, returns_pure.2 ⟨rfl, rfl⟩⟩

/-- `UPDATE t SET id = 8, note = 'b'` keeps the index in step. -/
theorem updateInStep_note : ∃ result ctx', Returns (executePlan default 4
      (.update (Schema.new []) notesScan 1 (notesUpdates 1))) notesContext result ctx' ∧
    UpdateInStep default notesContext notesTable [1] (liveRows notesPages) notesScan
      (notesUpdates 1) result ctx' := by
  have hn : 1 + 8 < 2 ^ 32 := by decide
  obtain ⟨result, ctx', hret⟩ := exists_notesUpdate hn (.inl (by decide))
  refine ⟨result, ctx', hret, (updateInStep_iff heapTable_notes rfl tableIndexes_notes
    filesRows_notes (.inl rfl) hret).1 ⟨_, replaces_notes hn, ?_, ?_, ?_⟩⟩
  · have hspace : freeSpace notesContext.bpm (notesReplacement 1).rid.pageId = 4067 :=
      freeSpace_notes
    have hnil : ∀ free, HaveRoom free [] := fun free p => Nat.zero_le _
    refine haveRoom_cons.2 ⟨?_, hnil _⟩
    rw [hspace, length_bytes_notes hn]
    decide
  · intro r hr hnil
    obtain rfl := List.mem_singleton.1 hr
    have hlen := length_bytes_notes hn
    rw [hnil] at hlen
    cases hlen
  · intro oid hoid i attr hi _ hattr r hr
    obtain rfl := List.mem_singleton.1 hoid
    obtain rfl := Option.some.inj hi
    obtain rfl := List.mem_singleton.1 hr
    obtain rfl : 0 = attr := by
      cases hattr
      rfl
    refine ⟨fun k hk => ?_, fun k hk => ?_⟩
    · cases hk
      rfl
    · cases hk
      rfl

/-- A note that the page refuses. -/
lemma not_inStep_notes (hn : n + 8 < 2 ^ 32) (hlarge : 4068 < n) {result : List Tuple}
    {ctx' : ExecutorContext} (hret : Returns (executePlan default 4
      (.update (Schema.new []) notesScan 1 (notesUpdates n))) notesContext result ctx') :
    ¬ UpdateInStep default notesContext notesTable [1] (liveRows notesPages) notesScan
      (notesUpdates n) result ctx' := by
  have hrefused := (isRefused_notes_iff hn).2 hlarge
  rintro ⟨rs, rows', hreplaces, hafter⟩
  have hscanned : rs.map Replacement.scanned = [notesScanned] := by
    obtain ⟨-, rows, hrows, hscanned⟩ :=
      (heapTable_notes.completes_seqScan rfl).1 hreplaces.scanned
    obtain ⟨-, rows', hrows', hscanned'⟩ :=
      (heapTable_notes.completes_seqScan rfl).1 (replaces_notes hn).scanned
    cases hrows.symm.trans hrows'
    exact hscanned.trans hscanned'.symm
  obtain ⟨⟨old, scanned, updated⟩, rfl, hr⟩ := List.map_eq_singleton_iff.1 hscanned
  obtain rfl : scanned = notesScanned := hr
  have hold := List.mem_singleton.1 (hreplaces.stored _ (List.mem_singleton_self _))
  obtain rfl : old = notesRow.2 := (Prod.mk.inj hold).2
  have hevaluated := hreplaces.evaluated _ (List.mem_singleton_self _)
  cases hevaluated.symm.trans (evaluated_notes (by omega))
  have horderly : Orderly (freeSpace notesContext.bpm) [notesReplacement n] := by
    rw [Orderly, if_pos hrefused]
    trivial
  have hfits := (heapTable_notes.inStep_iff_of_orderly rfl tableIndexes_notes filesRows_notes
    (.inl rfl) hret hreplaces horderly).1 ⟨rows', hafter⟩
  exact absurd (haveRoom_cons.1 hfits.room).1 (not_le.2 hrefused.lt)

/-- The page refuses `UPDATE t SET id = 8, note = 'bb..'` with a note of 5000 bytes, but the
statement counts the row and files it under 8. -/
theorem not_updateInStep_note : HeapTable notesContext notesTable notesPages ∧
    TableIndexes notesContext.catalog notesTable [1] ∧
    notesContext.catalog.FilesRows notesTable.schema [1] (liveRows notesPages) ∧
    ∃ result ctx', Returns (executePlan default 4
        (.update (Schema.new []) notesScan 1 (notesUpdates 5000))) notesContext result ctx' ∧
      ¬ UpdateInStep default notesContext notesTable [1] (liveRows notesPages) notesScan
        (notesUpdates 5000) result ctx' := by
  obtain ⟨n, hn⟩ : ∃ n, n = 5000 := ⟨_, rfl⟩
  rw [← hn]
  obtain ⟨result, ctx', hret⟩ := exists_notesUpdate (n := n) (by omega) (.inr (by omega))
  exact ⟨heapTable_notes, tableIndexes_notes, filesRows_notes, result, ctx', hret,
    not_inStep_notes (by omega) (by omega) hret⟩

end Notes

end OneBase
