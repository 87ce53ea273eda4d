import OneBase.Execution.HashJoin
import OneBase.Execution.IndexScan
import OneBase.Execution.NestedLoopJoin
import OneBase.Execution.PlanOutcomes
import OneBase.Execution.Restart

set_option relaxedAutoImplicit false
set_option autoImplicit false

/-!
# What a query denotes

The executors of a plan call each other once for each row. What they return together is defined
here without calls: the rows of an operator in terms of those of its children. A limit does not
look at the rows behind the last one that it returns, so a plan denotes its first rows even if a
later one throws.

## Main definitions

* `OneBase.DenotesRows` — these are the first rows of the plan, or all of them.
* `OneBase.ExecutorContext.Scannable` — the tables are heaps.

## Main results

* `OneBase.denotes_of_hasShown` — rows that the executors return are denoted.
* `OneBase.DenotesRows.shows` — rows that are denoted are returned.
* `OneBase.completes_iff_denotes` — what the engine returns is what the plan denotes.
-/

namespace OneBase

open Exec TableHeap

/-! ## The first rows of an executor -/

/-- In the context `ctx`, calls of `next` return these rows, one after the other. -/
inductive Gives {σ : Type} (next : σ → Exec (Option Row × σ)) (ctx : ExecutorContext) :
    σ → List Row → σ → Prop
  | nil (st : σ) : Gives next ctx st [] st
  | cons {st st' st'' : σ} {row : Row} {rows : List Row}
      (h : Returns (next st) ctx (some row, st') ctx) (hrest : Gives next ctx st' rows st'') :
      Gives next ctx st (row :: rows) st''

/-- From every state it is in, `Init` prepares the executor to return these rows, and, if `done`,
no more of them. -/
def Executor.Shows (ex : Executor) (ctx : ExecutorContext) (rows : List Row) (done : Bool) : Prop :=
  ∀ st, ∃ st' mid, Returns (ex.init st) ctx st' ctx ∧ Gives ex.next ctx st' rows mid ∧
    (done = true → ∃ last, Returns (ex.next mid) ctx (none, last) ctx)

/-- Once, `Init` and calls of `Next` have returned these rows, and, if `done`, then none. -/
def Executor.HasShown (ex : Executor) (ctx : ExecutorContext) (rows : List Row) (done : Bool) :
    Prop :=
  ∃ st st' mid, Returns (ex.init st) ctx st' ctx ∧ Gives ex.next ctx st' rows mid ∧
    (done = true → ∃ last, Returns (ex.next mid) ctx (none, last) ctx)

section Gives

variable {σ : Type} {next : σ → Exec (Option Row × σ)} {ctx ctx' : ExecutorContext}
  {st st' mid last : σ} {rows all : List Row} {ex : Executor} {done : Bool}

/-- All rows are the first rows, and then none. -/
lemma emits_iff_gives : Emits next ctx st rows last ↔
    ∃ mid, Gives next ctx st rows mid ∧ Returns (next mid) ctx (none, last) ctx := by
  constructor
  · intro h
    induction h with
    | done hnext => exact ⟨_, .nil _, hnext⟩
    | row hnext _ ih =>
      obtain ⟨mid, hgives, hend⟩ := ih
      exact ⟨mid, .cons hnext hgives, hend⟩
  · rintro ⟨mid, hgives, hend⟩
    induction hgives with
    | nil st => exact .done hend
    | cons hnext _ ih => exact .row hnext (ih hend)

/-- The first of all rows are returned first. -/
lemma Emits.gives (h : Emits next ctx st all last) (hrows : rows <+: all) :
    ∃ mid, Gives next ctx st rows mid ∧
      (rows = all → ∃ last, Returns (next mid) ctx (none, last) ctx) := by
  induction h generalizing rows with
  | @done st st' hnext =>
    obtain rfl := List.prefix_nil.1 hrows
    exact ⟨st, .nil st, fun _ => ⟨st', hnext⟩⟩
  | @row st st' st'' row all hnext _ ih =>
    cases rows with
    | nil => exact ⟨st, .nil st, nofun⟩
    | cons r rows =>
      obtain ⟨rfl, hpre⟩ := List.cons_prefix_cons.1 hrows
      obtain ⟨mid, hgives, hend⟩ := ih hpre
      exact ⟨mid, .cons hnext hgives, fun heq => hend (List.cons.inj heq).2⟩

/-- Rows that are returned are the first of all rows. -/
lemma Emits.prefix_of_gives (h : Emits next ctx st all last) (hgives : Gives next ctx st rows mid) :
    rows <+: all ∧
      (∀ last' ctx', Returns (next mid) ctx (none, last') ctx' → rows = all) := by
  induction hgives generalizing all with
  | nil st =>
    refine ⟨List.nil_prefix, fun last' ctx' hend => ?_⟩
    cases h with
    | done => rfl
    | row hnext => cases (hnext.unique hend).1
  | @cons st st' st'' row rows hnext _ ih =>
    cases h with
    | done hend => cases (hend.unique hnext).1
    | row hrow hrest =>
      obtain ⟨heq, -⟩ := hrow.unique hnext
      cases heq
      obtain ⟨hpre, hall⟩ := ih hrest
      refine ⟨List.cons_prefix_cons.2 ⟨rfl, hpre⟩, fun last' ctx' hend => ?_⟩
      rw [hall last' ctx' hend]

/-- To show all rows is to yield them. -/
lemma Executor.shows_true_iff : ex.Shows ctx rows true ↔ ex.Yields ctx rows := by
  constructor
  · intro h st
    obtain ⟨st', mid, hinit, hgives, hend⟩ := h st
    obtain ⟨last, hlast⟩ := hend rfl
    exact ⟨st', last, hinit, emits_iff_gives.2 ⟨mid, hgives, hlast⟩⟩
  · intro h st
    obtain ⟨st', last, hinit, hemits⟩ := h st
    obtain ⟨mid, hgives, hlast⟩ := emits_iff_gives.1 hemits
    exact ⟨st', mid, hinit, hgives, fun _ => ⟨last, hlast⟩⟩

/-- An executor that yields rows shows the first of them. -/
lemma Executor.Yields.shows (h : ex.Yields ctx all) (hrows : rows <+: all)
    (hdone : done = true → rows = all) : ex.Shows ctx rows done := by
  intro st
  obtain ⟨st', last, hinit, hemits⟩ := h st
  obtain ⟨mid, hgives, hend⟩ := hemits.gives hrows
  exact ⟨st', mid, hinit, hgives, fun hd => hend (hdone hd)⟩

/-- An executor that starts over and only reads yields the rows that it has returned once. -/
lemma Executor.HasShown.yields (h : ex.HasShown ctx rows true) (hstart : ex.StartsOver) :
    ex.Yields ctx rows := by
  obtain ⟨R, hinitR, hnextR⟩ := hstart
  obtain ⟨s, s', mid, hinit, hgives, hend⟩ := h
  obtain ⟨last, hlast⟩ := hend rfl
  have hemits := emits_iff_gives.2 ⟨mid, hgives, hlast⟩
  -- A call from a related state has the same outcome.
  have hcall : ∀ {u v o u'}, R u v → Returns (ex.next u) ctx (o, u') ctx →
      ∃ v', Returns (ex.next v) ctx (o, v') ctx ∧ R u' v' := by
    intro u v o u' huv hret
    have hsame := hnextR u v huv ctx
    unfold Returns at hret
    rw [hret] at hsame
    generalize hr : runIn (ex.next v) ctx = r at hsame
    cases hsame with
    | @ok a b hab =>
      obtain ⟨o', v'⟩ := b
      obtain ⟨ho, hv⟩ := hab
      obtain rfl : o = o' := ho
      exact ⟨v', hr, hv⟩
  intro t
  have hsame := hinitR s t ctx
  unfold Returns at hinit
  rw [hinit] at hsame
  generalize hr : runIn (ex.init t) ctx = r at hsame
  cases hsame with
  | @ok a b hab =>
    suffices h : ∃ last, Emits ex.next ctx b rows last by
      obtain ⟨last, hlast⟩ := h
      exact ⟨b, last, hr, hlast⟩
    clear hinit hr hgives
    induction hemits generalizing b with
    | done hnext =>
      obtain ⟨v', hv, -⟩ := hcall hab hnext
      exact ⟨v', .done hv⟩
    | row hnext _ ih =>
      obtain ⟨v', hv, hrel⟩ := hcall hab hnext
      obtain ⟨last, hlast⟩ := ih hlast hrel
      exact ⟨last, .row hv hlast⟩

/-- A loop over the rows of an executor that leaves the context alone was over all of them, once it
has returned. -/
lemma Executor.LeavesAlone.exists_emits {β : Type} {body : β → Row → Exec β} {acc b : β} {fuel : ℕ}
    {s s₁ s₂ : ex.State} (hread : ex.LeavesAlone)
    (hbody : ∀ acc row, Exec.LeavesAlone (body acc row)) (hinit : Returns (ex.init s) ctx s₁ ctx)
    (hloop : Returns (forEachRow ex.next body fuel s₁ acc) ctx (s₂, b) ctx') :
    ∃ rows, ex.HasShown ctx rows true ∧ Emits ex.next ctx s₁ rows s₂ := by
  obtain ⟨rows, hemits, -⟩ := emits_of_forEachRow (I := fun _ => True)
    (fun st o st' c _ hret => ⟨hread.next _ _ _ _ hret, trivial⟩)
    (fun acc row b c hret => hbody acc row _ _ _ hret) trivial hloop
  obtain ⟨mid, hgives, hend⟩ := emits_iff_gives.1 hemits
  exact ⟨rows, ⟨s, s₁, mid, hinit, hgives, fun _ => ⟨s₂, hend⟩⟩, hemits⟩

end Gives

/-! ## The rows of a plan -/

/-- These rows are the first of the tuples that a class computes in `Init`, or all of them. -/
structure FirstOf (tuples : List Tuple) (rows : List Row) (done : Bool) : Prop where
  isPrefix : rows <+: placeless tuples
  all : done = true → rows = placeless tuples

/-- The tuples of a nested-loop join. -/
def nestedLoopTuples (predicate : Expression) (leftSchema rightSchema : Schema)
    (left right : List Row) : Cpp (List Tuple) :=
  left.foldlM (fun acc l =>
    right.foldlM (joinPair predicate leftSchema rightSchema l.1) acc) []

/-- The tuples of a hash join. -/
def hashJoinTuples (leftKeyExpr rightKeyExpr : Expression) (leftSchema rightSchema : Schema)
    (left right : List Row) : Cpp (List Tuple) := do
  let table ← right.foldlM (buildRow rightKeyExpr rightSchema) fun _ => []
  left.foldlM (probeRow leftKeyExpr leftSchema rightSchema table) []

/-- An index scan makes this row of a row id. -/
def Looks (ctx : ExecutorContext) (oid : ℕ) (rid : RID) (row : Row) : Prop :=
  (ctx.catalog.getTable oid).isSome = true ∧ row.2 = rid ∧
    (TableHeap.getTuple rid).run (PageStore.handler ctx.poolSize) ctx.bpm =
      some (.ok row.1, ctx.bpm)

/-- These are the first rows of the plan; if `done`, then they are all of them. -/
inductive DenotesRows (std : StandardLibrary) (ctx : ExecutorContext) :
    PlanNode → List Row → Bool → Prop
  /-- A scan reads the rows of the heap one after the other. -/
  | seqScan {out : Schema} {oid : ℕ} {predicate : Expression} {tableInfo : TableInfo}
      {pages : Pages} {seen rest : List (RID × List UInt8)} {rows : List Row} {done : Bool}
      (htable : ctx.catalog.getTable oid = some tableInfo)
      (hheap : HeapTable ctx tableInfo pages) (hlive : liveRows pages = seen ++ rest)
      (hrows : scanRows (scanRow predicate tableInfo.schema) seen = pure rows)
      (hdone : done = true → rest = []) : DenotesRows std ctx (.seqScan out oid predicate) rows done
  /-- An index scan reads the rows that the index has under the key. -/
  | indexScan {out : Schema} {oid indexOid : ℕ} {lookupKey predicate : Expression} {key : ℤ}
      {i : IndexInfo} {seen rest : List RID} {rows : List Row} {done : Bool}
      (hkey : (lookupKey.evaluateNull >>= Value.getAsInteger) = pure key)
      (hindex : ctx.catalog.getIndex indexOid = some i) (hrids : i.rids key = seen ++ rest)
      (hrows : List.Forall₂ (Looks ctx oid) seen rows) (hdone : done = true → rest = []) :
      DenotesRows std ctx (.indexScan out oid indexOid lookupKey predicate) rows done
  /-- The right child is started only if there is a row on the left. -/
  | nestedLoopJoin {out : Schema} {left right : PlanNode} {predicate : Expression}
      {L R rows : List Row} {tuples : List Tuple} {done : Bool}
      (hleft : DenotesRows std ctx left L true)
      (hright : L ≠ [] → DenotesRows std ctx right R true)
      (htuples : nestedLoopTuples predicate left.getOutputSchema right.getOutputSchema L R =
        pure tuples)
      (hrows : FirstOf tuples rows done) :
      DenotesRows std ctx (.nestedLoopJoin out left right predicate) rows done
  | hashJoin {out : Schema} {left right : PlanNode} {leftKeyExpr rightKeyExpr : Expression}
      {L R rows : List Row} {tuples : List Tuple} {done : Bool}
      (hleft : DenotesRows std ctx left L true)
      (hright : DenotesRows std ctx right R true)
      (htuples : hashJoinTuples leftKeyExpr rightKeyExpr left.getOutputSchema
        right.getOutputSchema L R = pure tuples)
      (hrows : FirstOf tuples rows done) :
      DenotesRows std ctx (.hashJoin out left right leftKeyExpr rightKeyExpr) rows done
  | aggregation {out : Schema} {child : PlanNode} {groupBys aggregates : List Expression}
      {aggTypes : List AggregationType} {C rows : List Row} {tuples : List Tuple} {done : Bool}
      (hchild : DenotesRows std ctx child C true)
      (htuples : aggregateTuples std groupBys aggregates aggTypes child.getOutputSchema
        (C.map Prod.fst) = pure tuples)
      (hrows : FirstOf tuples rows done) :
      DenotesRows std ctx (.aggregation out child groupBys aggregates aggTypes) rows done
  | sort {out : Schema} {child : PlanNode} {orderBys : List (Bool × Expression)}
      {C rows : List Row} {tuples : List Tuple} {done : Bool}
      (hchild : DenotesRows std ctx child C true)
      (htuples : std.sort (compareRows child.getOutputSchema orderBys) (C.map Prod.fst) =
        pure tuples)
      (hrows : FirstOf tuples rows done) : DenotesRows std ctx (.sort out child orderBys) rows done
  /-- What is behind the last row of a limit does not matter. -/
  | limit {out : Schema} {child : PlanNode} {n : ℕ} {rows : List Row} {done childDone : Bool}
      (hchild : DenotesRows std ctx child rows childDone) (hle : rows.length ≤ n)
      (hdone : done = true → childDone = true ∨ rows.length = n) :
      DenotesRows std ctx (.limit out child n) rows done
  | projection {out : Schema} {child : PlanNode} {expressions : List Expression}
      {C rows : List Row} {done : Bool} (hchild : DenotesRows std ctx child C done)
      (hrows : List.Forall₂ (fun row o => evaluateRow expressions child.getOutputSchema row.1 =
        pure o.1 ∧ o.2 = row.2) C rows) :
      DenotesRows std ctx (.projection out child expressions) rows done

/-- Every table of the catalog is a heap. -/
def ExecutorContext.Scannable (ctx : ExecutorContext) : Prop :=
  ∀ oid tableInfo, ctx.catalog.getTable oid = some tableInfo →
    ∃ pages, HeapTable ctx tableInfo pages

/-! ## What is returned is denoted -/

section Scans

variable {ctx ctx' : ExecutorContext} {tableInfo : TableInfo} {pages : Pages}
  {predicate : Expression} {before rows rest seen : List (RID × List UInt8)} {out : List Row}
  {fuel : ℕ} {mid : SeqScanState} {outputSchema : Schema} {oid indexOid : ℕ}
  {lookupKey : Expression} {done : Bool}

/-- A scan that has returned rows has read the first rows of the heap. -/
lemma HeapTable.scanRows_of_gives (h : HeapTable ctx tableInfo pages)
    (hrows : liveRows pages = before ++ rows)
    (hgives : Gives (seqScanNext fuel predicate fuel) ctx (scanAt tableInfo rows) out mid) :
    ∃ seen rest, rows = seen ++ rest ∧
      scanRows (scanRow predicate tableInfo.schema) seen = pure out := by
  generalize hs : scanAt tableInfo rows = s at hgives
  induction hgives generalizing before rows with
  | nil => exact ⟨[], rows, rfl, rfl⟩
  | @cons st st' st'' row out hnext _ ih =>
    subst hs
    obtain ⟨ahead, hscan, hst, -⟩ := h.scans_of_returns hrows hnext
    obtain ⟨skipped, r, rfl, hskipped, hread⟩ := Scans.some_iff.1 hscan
    have hassoc : before ++ (skipped ++ r :: ahead) = (before ++ (skipped ++ [r])) ++ ahead := by
      simp
    rw [hassoc] at hrows
    obtain ⟨seen, rest, rfl, hseen⟩ := ih hrows hst.symm
    refine ⟨skipped ++ r :: seen, rest, by simp, ?_⟩
    exact (Scans.some_iff.2 ⟨skipped, r, rfl, hskipped, hread⟩).scanRows_eq hseen

/-- A call of `Next` does not depend on what lies behind the row that it returns. -/
lemma Scans.append {read : RID × List UInt8 → Cpp (Option Tuple)} {row : Row}
    (h : Scans read rows (some row) seen) (rest : List (RID × List UInt8)) :
    Scans read (rows ++ rest) (some row) (seen ++ rest) := by
  obtain ⟨skipped, r, rfl, hskipped, hread⟩ := Scans.some_iff.1 h
  exact Scans.some_iff.2 ⟨skipped, r, by simp, hskipped, hread⟩

/-- The first rows of a scan, with enough fuel. -/
lemma HeapTable.gives_seqScan (h : HeapTable ctx tableInfo pages) (hfuel : pages.length < fuel)
    (hn : (liveRows pages).length < fuel) (hrows : liveRows pages = before ++ (seen ++ rest))
    (hout : scanRows (scanRow predicate tableInfo.schema) seen = pure out) :
    ∃ mid, Gives (seqScanNext fuel predicate fuel) ctx (scanAt tableInfo (seen ++ rest)) out
      mid := by
  induction out generalizing before seen with
  | nil => exact ⟨_, .nil _⟩
  | cons row out ih =>
    have hlen := congrArg List.length hrows
    rw [List.length_append] at hlen
    have hlt : (seen ++ rest).length < fuel := by omega
    obtain ⟨ahead, hscan, htail⟩ := exists_scans hout
    have hnext := h.returns_seqScanNext hfuel (hscan.append rest) hlt hrows
    obtain ⟨skipped, rfl⟩ := hscan.suffix
    have hassoc :
        before ++ (skipped ++ ahead ++ rest) = (before ++ skipped) ++ (ahead ++ rest) := by
      simp
    rw [hassoc] at hrows
    obtain ⟨mid, hgives⟩ := ih hrows htail
    exact ⟨mid, .cons hnext hgives⟩

/-- The rows of a sequential scan that has returned some. -/
lemma HeapTable.denotes_seqScan (h : HeapTable ctx tableInfo pages) {std : StandardLibrary}
    (htable : ctx.catalog.getTable oid = some tableInfo) {s s' : SeqScanState}
    (hinit : Returns ((seqScanExecutor fuel outputSchema oid predicate).init s) ctx s' ctx)
    (hgives : Gives (seqScanNext fuel predicate fuel) ctx s' out mid)
    (hdone : done = true → ∃ last, Returns (seqScanNext fuel predicate fuel mid) ctx (none, last)
      ctx) : DenotesRows std ctx (.seqScan outputSchema oid predicate) out done := by
  obtain ⟨rfl, -⟩ := h.eq_of_seqScanInit htable hinit
  cases done with
  | false =>
    obtain ⟨seen, rest, hsplit, hout⟩ := h.scanRows_of_gives (List.nil_append _).symm hgives
    exact .seqScan htable h hsplit hout nofun
  | true =>
    obtain ⟨last, hlast⟩ := hdone rfl
    have hemits := emits_iff_gives.2 ⟨mid, hgives, hlast⟩
    have hout := h.scanRows_of_emits (List.nil_append _).symm hemits
    exact .seqScan htable h (List.append_nil _).symm hout fun _ => rfl

/-- The rows of a sequential scan, with enough fuel. -/
lemma HeapTable.shows_seqScan (h : HeapTable ctx tableInfo pages)
    (htable : ctx.catalog.getTable oid = some tableInfo) (hfuel : pages.length < fuel)
    (hn : (liveRows pages).length < fuel) (hlive : liveRows pages = seen ++ rest)
    (hout : scanRows (scanRow predicate tableInfo.schema) seen = pure out)
    (hdone : done = true → rest = []) :
    (seqScanExecutor fuel outputSchema oid predicate).Shows ctx out done := by
  cases done with
  | true =>
    obtain rfl := hdone rfl
    rw [List.append_nil] at hlive
    rw [← hlive] at hout
    exact Executor.shows_true_iff.2 (h.yields_seqScan htable hfuel hn hout)
  | false =>
    intro st
    obtain ⟨mid, hgives⟩ :=
      h.gives_seqScan hfuel hn ((List.nil_append _).trans hlive.symm).symm hout
    refine ⟨_, mid, h.returns_seqScanInit htable hfuel st, ?_, nofun⟩
    rw [hlive]
    exact hgives

/-- A call of `Next` of an index scan. -/
lemma returns_indexScanNext {s s' : IndexScanState} {o : Option Row} :
    Returns ((indexScanExecutor outputSchema oid indexOid lookupKey).next s) ctx (o, s') ctx ↔
      match s.matchingRids[s.cursor]? with
      | none => o = none ∧ s' = s
      | some rid => s.tableInfo.isSome = true ∧ s' = { s with cursor := s.cursor + 1 } ∧
        ∃ tuple, o = some (tuple, rid) ∧
          (TableHeap.getTuple rid).run (PageStore.handler ctx.poolSize) ctx.bpm =
            some (.ok tuple, ctx.bpm) := by
  unfold indexScanExecutor
  dsimp only
  cases hrid : s.matchingRids[s.cursor]? with
  | none =>
    simp only [returns_pure, Prod.mk.injEq, and_true]
    constructor
    · rintro ⟨rfl, rfl⟩
      exact ⟨rfl, rfl⟩
    · rintro ⟨rfl, rfl⟩
      exact ⟨rfl, rfl⟩
  | some rid =>
    constructor
    · intro hret
      obtain ⟨info, c, hderef, hret⟩ := returns_bind.1 hret
      obtain ⟨hinfo, rfl⟩ := returns_deref.1 hderef
      obtain ⟨tuple, c, hget, hret⟩ := returns_bind.1 hret
      obtain ⟨bpm, hrun, rfl⟩ := returns_ofThrowing.1 hget
      obtain ⟨heq, hctx⟩ := returns_pure.1 hret
      cases heq
      have hbpm : bpm = ctx.bpm := congrArg ExecutorContext.bpm hctx
      rw [hbpm] at hrun
      exact ⟨by rw [hinfo]; rfl, rfl, tuple, rfl, hrun⟩
    · rintro ⟨hinfo, rfl, tuple, rfl, hrun⟩
      obtain ⟨info, hinfo⟩ := Option.isSome_iff_exists.1 hinfo
      refine returns_bind.2 ⟨info, ctx, returns_deref.2 ⟨hinfo, rfl⟩, ?_⟩
      exact returns_bind.2
        ⟨tuple, ctx, returns_ofThrowing.2 ⟨_, hrun, rfl⟩, returns_pure.2 ⟨rfl, rfl⟩⟩

/-- `Init` of an index scan. -/
lemma returns_indexScanInit_iff {s s' : IndexScanState} :
    Returns ((indexScanExecutor outputSchema oid indexOid lookupKey).init s) ctx s' ctx' ↔
      ∃ key i, (lookupKey.evaluateNull >>= Value.getAsInteger) = pure key ∧
        ctx.catalog.getIndex indexOid = some i ∧ ctx' = ctx ∧
        s' = { tableInfo := ctx.catalog.getTable oid, matchingRids := i.rids key } := by
  constructor
  · intro hret
    obtain ⟨catalog, c₁, hcatalog, hret⟩ := returns_bind.1 hret
    obtain ⟨rfl, rfl⟩ := returns_getCatalog.1 hcatalog
    obtain ⟨key, c₂, hraw, hret⟩ := returns_bind.1 hret
    obtain ⟨hkey, rfl⟩ := returns_ofCpp.1 hraw
    obtain ⟨i, c₃, hderef, hret⟩ := returns_bind.1 hret
    obtain ⟨hi, rfl⟩ := returns_deref.1 hderef
    obtain ⟨rfl, rfl⟩ := returns_pure.1 hret
    exact ⟨key, i, hkey, hi, rfl, rfl⟩
  · rintro ⟨key, i, hkey, hi, rfl, rfl⟩
    refine returns_bind.2 ⟨_, ctx', returns_getCatalog.2 ⟨rfl, rfl⟩, ?_⟩
    refine returns_bind.2 ⟨key, ctx', returns_ofCpp.2 ⟨hkey, rfl⟩, ?_⟩
    exact returns_bind.2 ⟨i, ctx', returns_deref.2 ⟨hi, rfl⟩, returns_pure.2 ⟨rfl, rfl⟩⟩

/-- The members of an index scan that has these row ids ahead. -/
def lookupAt (ctx : ExecutorContext) (oid : ℕ) (before ahead : List RID) : IndexScanState :=
  { tableInfo := ctx.catalog.getTable oid, matchingRids := before ++ ahead
    cursor := before.length }

/-- An index scan looks at the first row id that is ahead. -/
lemma lookupAt_getElem? (before ahead : List RID) :
    (lookupAt ctx oid before ahead).matchingRids[(lookupAt ctx oid before ahead).cursor]? =
      ahead.head? := by
  simp [lookupAt, List.getElem?_append_right, List.head?_eq_getElem?]

/-- An index scan returns a row for each of the row ids. -/
lemma gives_indexScan_iff {before ahead : List RID} {m : IndexScanState} :
    Gives (indexScanExecutor outputSchema oid indexOid lookupKey).next ctx
        (lookupAt ctx oid before ahead) out m ↔
      ∃ seen rest, ahead = seen ++ rest ∧ List.Forall₂ (Looks ctx oid) seen out ∧
        m = lookupAt ctx oid (before ++ seen) rest := by
  have hstep : ∀ (before : List RID) (rid : RID) (ahead : List RID),
      { lookupAt ctx oid before (rid :: ahead) with
        cursor := (lookupAt ctx oid before (rid :: ahead)).cursor + 1 } =
        lookupAt ctx oid (before ++ [rid]) ahead := by
    intro before rid ahead
    simp [lookupAt]
  constructor
  · intro h
    generalize hs : lookupAt ctx oid before ahead = s at h
    induction h generalizing before ahead with
    | nil =>
      subst hs
      exact ⟨[], ahead, rfl, .nil, by rw [List.append_nil]⟩
    | @cons st st' st'' row rows hnext _ ih =>
      subst hs
      have hret := returns_indexScanNext.1 hnext
      rw [lookupAt_getElem?] at hret
      cases ahead with
      | nil => cases hret.1
      | cons rid ahead =>
        obtain ⟨hinfo, rfl, tuple, hrow, hrun⟩ := hret
        cases hrow
        obtain ⟨seen, rest, rfl, hrows, rfl⟩ := ih (hstep before rid ahead).symm
        refine ⟨rid :: seen, rest, rfl, .cons ⟨hinfo, rfl, hrun⟩ hrows, ?_⟩
        rw [List.append_assoc, List.singleton_append]
  · rintro ⟨seen, rest, rfl, hrows, rfl⟩
    induction hrows generalizing before with
    | nil =>
      rw [List.append_nil]
      exact .nil _
    | @cons rid row seen rows hlook _ ih =>
      obtain ⟨hinfo, hrid, hrun⟩ := hlook
      have hrest := @ih (before ++ [rid])
      rw [List.append_assoc, List.singleton_append, ← hstep] at hrest
      refine .cons (returns_indexScanNext.2 ?_) hrest
      rw [lookupAt_getElem?]
      refine ⟨hinfo, rfl, row.1, ?_, hrun⟩
      rw [← hrid]

/-- An index scan ends when there are no row ids ahead. -/
lemma returns_indexScan_end {before ahead : List RID} :
    (∃ last, Returns ((indexScanExecutor outputSchema oid indexOid lookupKey).next
      (lookupAt ctx oid before ahead)) ctx (none, last) ctx) ↔ ahead = [] := by
  constructor
  · rintro ⟨last, hlast⟩
    have hret := returns_indexScanNext.1 hlast
    rw [lookupAt_getElem?] at hret
    cases ahead with
    | nil => rfl
    | cons rid ahead =>
      obtain ⟨-, -, tuple, htuple, -⟩ := hret
      cases htuple
  · rintro rfl
    refine ⟨lookupAt ctx oid before [], returns_indexScanNext.2 ?_⟩
    rw [lookupAt_getElem?]
    exact ⟨rfl, rfl⟩

end Scans

section Classes

variable {std : StandardLibrary} {ctx ctx' : ExecutorContext} {fuel : ℕ}
  {left right child : Executor} {L R C rows : List Row} {tuples : List Tuple} {done : Bool}
  {out : Schema} {predicate leftKeyExpr rightKeyExpr : Expression}

/-- A class that computes its rows in `Init` has returned the first of them. -/
lemma firstOf_of_gives {σ : Type} {st mid : Materialized σ} (hcursor : st.cursor = 0)
    (hgives : Gives nextResult ctx st rows mid)
    (hdone : done = true → ∃ last, Returns (nextResult mid) ctx (none, last) ctx) :
    FirstOf st.resultTuples rows done := by
  obtain ⟨children, tuples, cursor⟩ := st
  obtain rfl : cursor = 0 := hcursor
  obtain ⟨st', hemits⟩ := emits_nextResult ctx children [] tuples
  obtain ⟨hpre, hall⟩ := hemits.prefix_of_gives hgives
  refine ⟨hpre, fun hd => ?_⟩
  obtain ⟨last, hlast⟩ := hdone hd
  exact hall last ctx hlast

/-- `Init` of a nested-loop join that has returned. The right child has been started if there was
a row on the left. -/
lemma exists_rows_of_nestedLoopInit (hleft : left.LeavesAlone) (hright : right.StartsOver)
    (hright' : right.LeavesAlone)
    {st st' : (nestedLoopJoinExecutor fuel out left right predicate).State}
    (hinit : Returns ((nestedLoopJoinExecutor fuel out left right predicate).init st) ctx st'
      ctx) :
    st'.cursor = 0 ∧ ∃ L R, left.HasShown ctx L true ∧ (L ≠ [] → right.HasShown ctx R true) ∧
      nestedLoopTuples predicate left.outputSchema right.outputSchema L R =
        pure st'.resultTuples := by
  obtain ⟨ls, c, hls, hret⟩ := returns_bind.1 hinit
  obtain rfl := hleft.init _ _ _ _ hls
  obtain ⟨⟨ls', rs', tuples⟩, c', hloop, hpure⟩ := returns_bind.1 hret
  have hinner : ∀ acc row, Exec.LeavesAlone
      (innerLoop fuel predicate left.outputSchema right acc row) :=
    fun acc row => (hright'.init _).bind fun r =>
      leavesAlone_forEachRow hright'.next (fun _ _ => leavesAlone_ofCpp _) _ _ _
  obtain ⟨L, hL, hemits⟩ := hleft.exists_emits hinner hls hloop
  obtain ⟨-, -, rfl, hfold⟩ := (forEachRow_emits hemits
    fun acc row b c' _ hb => hinner acc row _ _ _ hb).1 hloop
  obtain ⟨rfl, -⟩ := returns_pure.1 hpure
  refine ⟨rfl, L, ?_⟩
  cases L with
  | nil =>
    obtain ⟨heq, -⟩ := returns_pure.1 hfold
    cases heq
    exact ⟨[], hL, fun hne => absurd rfl hne, rfl⟩
  | cons l L =>
    -- The first round of the outer loop runs over the rows of the right child.
    obtain ⟨acc, c₁, hfirst, -⟩ := returns_bind.1 hfold
    obtain ⟨rs, c₂, hrs, hright₁⟩ := returns_bind.1 hfirst
    obtain rfl := hright'.init _ _ _ _ hrs
    obtain ⟨R, hR, -⟩ := hright'.exists_emits (fun _ _ => leavesAlone_ofCpp _) hrs hright₁
    exact ⟨R, hL, fun _ => hR, returns_outerLoop (hR.yields hright) hfold⟩

/-- The rows of a nested-loop join, of whose right child nothing is asked if there is no row on the
left. -/
lemma Executor.Yields.nestedLoopJoin_of_ne_nil (hleft : left.Yields ctx L)
    (hright : L ≠ [] → right.Yields ctx R) (hL : L.length < fuel) (hR : R.length < fuel)
    (htuples : nestedLoopTuples predicate left.outputSchema right.outputSchema L R =
      pure tuples) :
    (nestedLoopJoinExecutor fuel out left right predicate).Yields ctx (placeless tuples) := by
  by_cases hne : L = []
  · subst hne
    cases htuples
    intro st
    obtain ⟨ls, ls', hlinit, hlemits⟩ := hleft st.children.1
    obtain ⟨st', hst'⟩ := emits_nextResult ctx (ls', st.children.2) [] []
    refine ⟨_, st', returns_bind.2 ⟨ls, ctx, hlinit, ?_⟩, hst'⟩
    refine returns_bind.2 ⟨(ls', st.children.2, []), ctx, ?_, returns_pure.2 ⟨rfl, rfl⟩⟩
    exact (forEachRow_emits hlemits fun acc row b c hmem _ => absurd hmem List.not_mem_nil).2
      ⟨hL, rfl, rfl, returns_pure.2 ⟨rfl, rfl⟩⟩
  · exact hleft.nestedLoopJoin (hright hne) hL hR htuples

/-- `Init` of a hash join that has returned. -/
lemma exists_rows_of_hashJoinInit (hleft : left.LeavesAlone) (hright : right.LeavesAlone)
    {st st' : (hashJoinExecutor fuel out left right leftKeyExpr rightKeyExpr).State}
    (hinit : Returns ((hashJoinExecutor fuel out left right leftKeyExpr rightKeyExpr).init st) ctx
      st' ctx) :
    st'.cursor = 0 ∧ ∃ L R, left.HasShown ctx L true ∧ right.HasShown ctx R true ∧
      hashJoinTuples leftKeyExpr rightKeyExpr left.outputSchema right.outputSchema L R =
        pure st'.resultTuples := by
  obtain ⟨ls, c, hls, hret⟩ := returns_bind.1 hinit
  obtain rfl := hleft.init _ _ _ _ hls
  obtain ⟨rs, c, hrs, hret⟩ := returns_bind.1 hret
  obtain rfl := hright.init _ _ _ _ hrs
  obtain ⟨⟨rs', table⟩, c, hbuild, hret⟩ := returns_bind.1 hret
  obtain ⟨R, hR, hremits⟩ := hright.exists_emits (fun _ _ => leavesAlone_ofCpp _) hrs hbuild
  obtain ⟨-, -, rfl, htable⟩ := (forEachRow_ofCpp hremits).1 hbuild
  obtain ⟨⟨ls', tuples⟩, c, hprobe, hret⟩ := returns_bind.1 hret
  obtain ⟨L, hL, hlemits⟩ := hleft.exists_emits (fun _ _ => leavesAlone_ofCpp _) hls hprobe
  obtain ⟨-, -, rfl, htuples⟩ := (forEachRow_ofCpp hlemits).1 hprobe
  obtain ⟨rfl, -⟩ := returns_pure.1 hret
  exact ⟨rfl, L, R, hL, hR, Cpp.bind_eq_pure.2 ⟨table, htable, htuples⟩⟩

/-- The rows of a hash join. -/
lemma Executor.Yields.hashJoin (hleft : left.Yields ctx L) (hright : right.Yields ctx R)
    (hL : L.length < fuel) (hR : R.length < fuel)
    (htuples : hashJoinTuples leftKeyExpr rightKeyExpr left.outputSchema right.outputSchema L R =
      pure tuples) :
    (hashJoinExecutor fuel out left right leftKeyExpr rightKeyExpr).Yields ctx
      (placeless tuples) := by
  obtain ⟨table, htable, hprobe⟩ := Cpp.bind_eq_pure.1 htuples
  intro st
  obtain ⟨ls, ls', hlinit, hlemits⟩ := hleft st.children.1
  obtain ⟨rs, rs', hrinit, hremits⟩ := hright st.children.2
  obtain ⟨st', hst'⟩ := emits_nextResult ctx (ls', rs') [] tuples
  refine ⟨_, st', ?_, hst'⟩
  refine returns_bind.2 ⟨ls, ctx, hlinit, returns_bind.2 ⟨rs, ctx, hrinit, ?_⟩⟩
  refine returns_bind.2 ⟨(rs', table), ctx, ?_, ?_⟩
  · exact (forEachRow_ofCpp hremits).2 ⟨hR, rfl, rfl, htable⟩
  · refine returns_bind.2 ⟨(ls', tuples), ctx, ?_, returns_pure.2 ⟨rfl, rfl⟩⟩
    exact (forEachRow_ofCpp hlemits).2 ⟨hL, rfl, rfl, hprobe⟩

/-- What a limit has returned, its child has returned. -/
lemma exists_gives_of_limit {n : ℕ} {s mid : child.State × ℕ}
    (hgives : Gives (limitExecutor out child n).next ctx s rows mid) :
    Gives child.next ctx s.1 rows mid.1 ∧ mid.2 = s.2 + rows.length ∧
      (s.2 ≤ n → mid.2 ≤ n) := by
  induction hgives with
  | nil st => exact ⟨.nil _, rfl, id⟩
  | @cons st st' st'' row rows hnext _ ih =>
    obtain ⟨hrest, hcount, hle⟩ := ih
    unfold limitExecutor at hnext
    dsimp only at hnext
    split_ifs at hnext with hlimit
    · cases (returns_pure.1 hnext).1
    · obtain ⟨⟨o, c⟩, c', hchild, hret⟩ := returns_bind.1 hnext
      cases o with
      | none => cases (returns_pure.1 hret).1
      | some r =>
        obtain ⟨heq, rfl⟩ := returns_pure.1 hret
        cases heq
        refine ⟨.cons hchild hrest, ?_, fun _ => hle ?_⟩
        · rw [hcount, List.length_cons]
          omega
        · omega

/-- A limit ends when it has counted enough rows, or with its child. -/
lemma exists_end_of_limit {n : ℕ} {s last : child.State × ℕ}
    (hlast : Returns ((limitExecutor out child n).next s) ctx (none, last) ctx) :
    n ≤ s.2 ∨ ∃ last, Returns (child.next s.1) ctx (none, last) ctx := by
  unfold limitExecutor at hlast
  dsimp only at hlast
  split_ifs at hlast with hlimit
  · exact .inl hlimit
  · obtain ⟨⟨o, c⟩, c', hchild, hret⟩ := returns_bind.1 hlast
    cases o with
    | none =>
      obtain ⟨-, rfl⟩ := returns_pure.1 hret
      exact .inr ⟨c, hchild⟩
    | some r => cases (returns_pure.1 hret).1

/-- The first rows of a limit. -/
lemma Executor.Shows.limit {n : ℕ} {childDone : Bool} (h : child.Shows ctx rows childDone)
    (hle : rows.length ≤ n) (hdone : done = true → childDone = true ∨ rows.length = n) :
    (limitExecutor out child n).Shows ctx rows done := by
  intro st
  obtain ⟨s, mid, hinit, hgives, hend⟩ := h st.1
  have hlimit : ∀ count, count + rows.length ≤ n →
      Gives (limitExecutor out child n).next ctx (s, count) rows (mid, count + rows.length) := by
    clear hinit hend hle hdone h
    induction hgives with
    | nil st => exact fun count _ => .nil _
    | @cons st st' st'' row rows hnext _ ih =>
      intro count hcount
      rw [List.length_cons] at hcount ⊢
      have hrest := ih (count + 1) (by omega)
      rw [Nat.add_right_comm] at hrest
      refine .cons ?_ hrest
      unfold limitExecutor
      dsimp only
      rw [if_neg (by omega)]
      exact returns_bind.2 ⟨_, ctx, hnext, returns_pure.2 ⟨rfl, rfl⟩⟩
  have hrows := hlimit 0 (by omega)
  rw [Nat.zero_add] at hrows
  refine ⟨(s, 0), (mid, rows.length), ?_, hrows, fun hd => ?_⟩
  · exact returns_bind.2 ⟨s, ctx, hinit, returns_pure.2 ⟨rfl, rfl⟩⟩
  · by_cases hfull : n ≤ rows.length
    · exact ⟨_, returns_limitNext_end hfull⟩
    · obtain ⟨last, hlast⟩ := hend ((hdone hd).resolve_right fun heq => hfull heq.ge)
      refine ⟨(last, rows.length), ?_⟩
      unfold limitExecutor
      dsimp only
      rw [if_neg hfull]
      exact returns_bind.2 ⟨_, ctx, hlast, returns_pure.2 ⟨rfl, rfl⟩⟩

variable {expressions : List Expression}

/-- What a projection has returned, it has made of the rows of its child. -/
lemma exists_gives_of_projection {s mid : child.State} {outRows : List Row}
    (hgives : Gives (projectionExecutor out child expressions).next ctx s outRows mid) :
    ∃ rows, Gives child.next ctx s rows mid ∧
      List.Forall₂ (fun row o => evaluateRow expressions child.outputSchema row.1 = pure o.1 ∧
        o.2 = row.2) rows outRows := by
  induction hgives with
  | nil st => exact ⟨[], .nil _, .nil⟩
  | @cons st st' st'' row rows hnext _ ih =>
    obtain ⟨rest, hrest, hrows⟩ := ih
    obtain ⟨⟨o, c⟩, c', hchild, hret⟩ := returns_bind.1 hnext
    cases o with
    | none => cases (returns_pure.1 hret).1
    | some r =>
      obtain ⟨tuple, c₁, hrow, hret⟩ := returns_bind.1 hret
      obtain ⟨htuple, rfl⟩ := returns_ofCpp.1 hrow
      obtain ⟨heq, rfl⟩ := returns_pure.1 hret
      cases heq
      exact ⟨r :: rest, .cons hchild hrest, .cons ⟨htuple, rfl⟩ hrows⟩

/-- A projection ends with its child. -/
lemma returns_projection_end {s last : child.State} :
    Returns ((projectionExecutor out child expressions).next s) ctx (none, last) ctx ↔
      Returns (child.next s) ctx (none, last) ctx := by
  constructor
  · intro hret
    obtain ⟨⟨o, c⟩, c', hchild, hret⟩ := returns_bind.1 hret
    cases o with
    | none =>
      obtain ⟨heq, rfl⟩ := returns_pure.1 hret
      cases heq
      exact hchild
    | some r =>
      obtain ⟨tuple, c₁, -, hret⟩ := returns_bind.1 hret
      cases (returns_pure.1 hret).1
  · exact fun hlast => returns_bind.2 ⟨_, ctx, hlast, returns_pure.2 ⟨rfl, rfl⟩⟩

/-- The first rows of a projection. -/
lemma Executor.Shows.projection {outRows : List Row} (h : child.Shows ctx rows done)
    (hrows : List.Forall₂ (fun row o => evaluateRow expressions child.outputSchema row.1 =
      pure o.1 ∧ o.2 = row.2) rows outRows) :
    (projectionExecutor out child expressions).Shows ctx outRows done := by
  intro st
  obtain ⟨s, mid, hinit, hgives, hend⟩ := h st
  refine ⟨s, mid, hinit, ?_, fun hd => ?_⟩
  · clear hinit hend h
    induction hgives generalizing outRows with
    | nil st =>
      cases hrows
      exact .nil _
    | @cons st st' st'' row rows hnext _ ih =>
      obtain ⟨o, outRows', ⟨htuple, hrid⟩, hrest, rfl⟩ := List.forall₂_cons_left_iff.1 hrows
      obtain ⟨tuple, rid⟩ := o
      obtain rfl : rid = row.2 := hrid
      refine .cons ?_ (ih hrest)
      refine returns_bind.2 ⟨_, ctx, hnext, ?_⟩
      exact returns_bind.2 ⟨tuple, ctx, returns_ofCpp.2 ⟨htuple, rfl⟩, returns_pure.2 ⟨rfl, rfl⟩⟩
  · obtain ⟨last, hlast⟩ := hend hd
    exact ⟨last, returns_projection_end.2 hlast⟩

end Classes

section Plans

variable {std : StandardLibrary} {ctx ctx' : ExecutorContext} {plan : PlanNode} {rows : List Row}
  {done : Bool} {fuel : ℕ}

/-- **What is returned is denoted.** If the executors of a query have returned rows, with any fuel,
then the plan denotes them.

**Proof sketch.** Induction on the plan. A class that loops over a child has got all its rows, and
by the induction hypothesis these are denoted. -/
theorem denotes_of_hasShown (hplan : plan.isQuery = true) (hctx : ctx.Scannable)
    (h : (createExecutor std fuel plan).HasShown ctx rows done) :
    DenotesRows std ctx plan rows done := by
  induction plan generalizing rows done with
  | seqScan out oid predicate =>
    obtain ⟨st, st', mid, hinit, hgives, hend⟩ := h
    obtain ⟨catalog, c, hcatalog, hret⟩ := returns_bind.1 hinit
    obtain ⟨rfl, rfl⟩ := returns_getCatalog.1 hcatalog
    obtain ⟨tableInfo, c, hderef, -⟩ := returns_bind.1 hret
    obtain ⟨htable, -⟩ := returns_deref.1 hderef
    obtain ⟨pages, hheap⟩ := hctx oid tableInfo htable
    exact hheap.denotes_seqScan htable hinit hgives hend
  | indexScan out oid indexOid lookupKey predicate =>
    obtain ⟨st, st', mid, hinit, hgives, hend⟩ := h
    obtain ⟨key, i, hkey, hindex, -, rfl⟩ := returns_indexScanInit_iff.1 hinit
    obtain ⟨seen, rest, hrids, hrows, rfl⟩ := gives_indexScan_iff.1
      (show Gives _ ctx (lookupAt ctx oid [] (i.rids key)) rows mid from hgives)
    exact .indexScan hkey hindex hrids hrows fun hd => returns_indexScan_end.1 (hend hd)
  | nestedLoopJoin out left right predicate ihl ihr =>
    obtain ⟨hl, hr⟩ := (Bool.and_eq_true _ _).mp hplan
    obtain ⟨st, st', mid, hinit, hgives, hend⟩ := h
    obtain ⟨hcursor, L, R, hL, hR, htuples⟩ := exists_rows_of_nestedLoopInit
      (leavesAlone_query std fuel hl) (startsOver_createExecutor std fuel hr)
      (leavesAlone_query std fuel hr) hinit
    rw [outputSchema_createExecutor, outputSchema_createExecutor] at htuples
    exact .nestedLoopJoin (ihl hl hL) (fun hne => ihr hr (hR hne)) htuples
      (firstOf_of_gives hcursor hgives hend)
  | hashJoin out left right leftKey rightKey ihl ihr =>
    obtain ⟨hl, hr⟩ := (Bool.and_eq_true _ _).mp hplan
    obtain ⟨st, st', mid, hinit, hgives, hend⟩ := h
    obtain ⟨hcursor, L, R, hL, hR, htuples⟩ := exists_rows_of_hashJoinInit
      (leavesAlone_query std fuel hl) (leavesAlone_query std fuel hr) hinit
    rw [outputSchema_createExecutor, outputSchema_createExecutor] at htuples
    exact .hashJoin (ihl hl hL) (ihr hr hR) htuples (firstOf_of_gives hcursor hgives hend)
  | aggregation out child groupBys aggregates aggTypes ih =>
    have hquery : child.isQuery = true := hplan
    have hread := leavesAlone_query std fuel hquery
    obtain ⟨st, st', mid, hinit, hgives, hend⟩ := h
    obtain ⟨s, c, hchild, hret⟩ := returns_bind.1 hinit
    obtain rfl := hread.init _ _ _ _ hchild
    obtain ⟨⟨s', aht⟩, c', hloop, -⟩ := returns_bind.1 hret
    obtain ⟨C, hC, -⟩ := hread.exists_emits (fun _ _ => leavesAlone_ofCpp _) hchild hloop
    obtain ⟨hcursor, aht, hfold, htuples⟩ :=
      (hC.yields (startsOver_createExecutor std fuel hquery)).returns_aggregationInit st hinit
    rw [outputSchema_createExecutor] at hfold
    refine .aggregation (ih hplan hC) (Cpp.bind_eq_pure.2 ⟨aht, ?_, htuples⟩)
      (firstOf_of_gives hcursor hgives hend)
    rw [foldlM_aggregateRow_placeless, hfold]
  | sort out child orderBys ih =>
    have hquery : child.isQuery = true := hplan
    have hread := leavesAlone_query std fuel hquery
    obtain ⟨st, st', mid, hinit, hgives, hend⟩ := h
    obtain ⟨s, c, hchild, hret⟩ := returns_bind.1 hinit
    obtain rfl := hread.init _ _ _ _ hchild
    obtain ⟨⟨s', aht⟩, c', hloop, -⟩ := returns_bind.1 hret
    obtain ⟨C, hC, -⟩ := hread.exists_emits (fun _ _ => leavesAlone_pure _) hchild hloop
    obtain ⟨-, -, hcursor, htuples⟩ :=
      (hC.yields (startsOver_createExecutor std fuel hquery)).returns_sortInit st hinit
    rw [outputSchema_createExecutor] at htuples
    exact .sort (ih hplan hC) htuples (firstOf_of_gives hcursor hgives hend)
  | limit out child n ih =>
    have hquery : child.isQuery = true := hplan
    have hread := leavesAlone_query std fuel hquery
    obtain ⟨st, st', mid, hinit, hgives, hend⟩ := h
    obtain ⟨s, c, hchild, hret⟩ := returns_bind.1 hinit
    rw [hread.init _ _ _ _ hchild] at hchild
    obtain ⟨rfl, -⟩ := returns_pure.1 hret
    obtain ⟨hrows, hcount, hle⟩ := exists_gives_of_limit hgives
    rw [Nat.zero_add] at hcount
    have hlength : rows.length ≤ n := hcount ▸ hle (Nat.zero_le _)
    by_cases hfull : done = true ∧ rows.length < n
    · -- The limit has ended before it was reached.
      obtain ⟨last, hlast⟩ := hend hfull.1
      have hchildEnd := (exists_end_of_limit hlast).resolve_left (by omega)
      have hall : DenotesRows std ctx child rows true :=
        ih hquery ⟨_, s, mid.1, hchild, hrows, fun _ => hchildEnd⟩
      exact .limit hall hlength fun _ => .inl rfl
    · have hfirst : DenotesRows std ctx child rows false :=
        ih hquery ⟨_, s, mid.1, hchild, hrows, nofun⟩
      refine .limit hfirst hlength fun hd => .inr ?_
      exact le_antisymm hlength (not_lt.1 fun hlt => hfull ⟨hd, hlt⟩)
  | projection out child expressions ih =>
    obtain ⟨st, st', mid, hinit, hgives, hend⟩ := h
    obtain ⟨C, hC, hrows⟩ := exists_gives_of_projection hgives
    rw [outputSchema_createExecutor] at hrows
    refine .projection (ih hplan ⟨st, st', mid, hinit, hC, fun hd => ?_⟩) hrows
    obtain ⟨last, hlast⟩ := hend hd
    exact ⟨last, returns_projection_end.1 hlast⟩
  | null | insert | delete | update | utility => cases hplan

/-- **What is denoted is returned.** From some amount of fuel on, the executors return the rows that
the plan denotes. -/
theorem DenotesRows.shows (h : DenotesRows std ctx plan rows done) :
    ∃ fuel₀, ∀ fuel ≥ fuel₀, (createExecutor std fuel plan).Shows ctx rows done := by
  induction h with
  | @seqScan out oid predicate tableInfo pages seen rest rows done htable hheap hlive hrows hdone =>
    refine ⟨pages.length + (liveRows pages).length + 1, fun fuel hfuel => ?_⟩
    exact hheap.shows_seqScan htable (by omega) (by omega) hlive hrows hdone
  | @indexScan out oid indexOid lookupKey predicate key i seen rest rows done hkey hindex hrids
      hrows hdone =>
    refine ⟨0, fun fuel _ st => ?_⟩
    have hgives : Gives (indexScanExecutor out oid indexOid lookupKey).next ctx
        (lookupAt ctx oid [] (seen ++ rest)) rows (lookupAt ctx oid ([] ++ seen) rest) :=
      gives_indexScan_iff.2 ⟨seen, rest, rfl, hrows, rfl⟩
    refine ⟨_, _, returns_indexScanInit_iff.2 ⟨key, i, hkey, hindex, rfl, ?_⟩, hgives, fun hd => ?_⟩
    · rw [hrids]
      rfl
    · exact returns_indexScan_end.2 (hdone hd)
  | @nestedLoopJoin out left right predicate L R rows tuples done _ _ htuples hrows ihl ihr =>
    obtain ⟨fuelL, hL⟩ := ihl
    obtain ⟨fuelR, hR⟩ : ∃ fuelR, ∀ fuel ≥ fuelR, L ≠ [] →
        (createExecutor std fuel right).Yields ctx R := by
      by_cases hne : L = []
      · exact ⟨0, fun _ _ hcontra => absurd hne hcontra⟩
      · obtain ⟨fuelR, hR⟩ := ihr hne
        exact ⟨fuelR, fun fuel hfuel _ => Executor.shows_true_iff.1 (hR fuel hfuel)⟩
    refine ⟨fuelL + fuelR + L.length + R.length + 1, fun fuel hfuel => ?_⟩
    rw [← outputSchema_createExecutor std fuel left,
      ← outputSchema_createExecutor std fuel right] at htuples
    have hyields : (createExecutor std fuel (.nestedLoopJoin out left right predicate)).Yields ctx
        (placeless tuples) :=
      (Executor.shows_true_iff.1 (hL fuel (by omega))).nestedLoopJoin_of_ne_nil
        (hR fuel (by omega))
        (by omega) (by omega) htuples
    exact hyields.shows hrows.isPrefix hrows.all
  | @hashJoin out left right leftKey rightKey L R rows tuples done _ _ htuples hrows ihl ihr =>
    obtain ⟨fuelL, hL⟩ := ihl
    obtain ⟨fuelR, hR⟩ := ihr
    refine ⟨fuelL + fuelR + L.length + R.length + 1, fun fuel hfuel => ?_⟩
    rw [← outputSchema_createExecutor std fuel left,
      ← outputSchema_createExecutor std fuel right] at htuples
    have hyields : (createExecutor std fuel (.hashJoin out left right leftKey rightKey)).Yields ctx
        (placeless tuples) :=
      (Executor.shows_true_iff.1 (hL fuel (by omega))).hashJoin
        (Executor.shows_true_iff.1 (hR fuel (by omega))) (by omega) (by omega) htuples
    exact hyields.shows hrows.isPrefix hrows.all
  | @aggregation out child groupBys aggregates aggTypes C rows tuples done _ htuples hrows ih =>
    obtain ⟨fuelC, hC⟩ := ih
    refine ⟨fuelC + C.length + 1, fun fuel hfuel => ?_⟩
    obtain ⟨aht, hfold, hmapM⟩ := Cpp.bind_eq_pure.1 htuples
    rw [foldlM_aggregateRow_placeless, ← outputSchema_createExecutor std fuel child] at hfold
    have hyields : (createExecutor std fuel (.aggregation out child groupBys aggregates
        aggTypes)).Yields ctx (placeless tuples) :=
      (Executor.shows_true_iff.1 (hC fuel (by omega))).aggregation (by omega) hfold hmapM
    exact hyields.shows hrows.isPrefix hrows.all
  | @sort out child orderBys C rows tuples done _ htuples hrows ih =>
    obtain ⟨fuelC, hC⟩ := ih
    refine ⟨fuelC + C.length + 1, fun fuel hfuel => ?_⟩
    rw [← outputSchema_createExecutor std fuel child] at htuples
    have hyields : (createExecutor std fuel (.sort out child orderBys)).Yields ctx
        (placeless tuples) :=
      (Executor.shows_true_iff.1 (hC fuel (by omega))).sort (by omega) htuples
    exact hyields.shows hrows.isPrefix hrows.all
  | limit _ hle hdone ih =>
    obtain ⟨fuel₀, hchild⟩ := ih
    exact ⟨fuel₀, fun fuel hfuel => (hchild fuel hfuel).limit hle hdone⟩
  | projection _ hrows ih =>
    obtain ⟨fuel₀, hchild⟩ := ih
    refine ⟨fuel₀, fun fuel hfuel => (hchild fuel hfuel).projection ?_⟩
    rw [outputSchema_createExecutor]
    exact hrows

/-- The engine returns all rows that a plan denotes. -/
lemma DenotesRows.completes (h : DenotesRows std ctx plan rows true) :
    Completes std plan ctx (rows.map Prod.fst) ctx := by
  obtain ⟨fuel₀, hshows⟩ := h.shows
  refine ⟨fuel₀ + rows.length + 1, fun fuel hfuel => ?_⟩
  have hyields := Executor.shows_true_iff.1 (hshows fuel (by omega))
  exact (returns_execute hyields).2 ⟨by omega, rfl, rfl⟩

/-- What the engine returns, with whatever fuel, is denoted. -/
lemma exists_denotes_of_returns (hplan : plan.isQuery = true) (hctx : ctx.Scannable)
    {result : List Tuple} (hret : Returns (executePlan std fuel plan) ctx result ctx') :
    ctx' = ctx ∧ ∃ rows, DenotesRows std ctx plan rows true ∧ result = rows.map Prod.fst := by
  have hread := leavesAlone_query std fuel hplan
  obtain ⟨st, c, hinit, hrest⟩ := returns_bind.1 hret
  obtain rfl := hread.init _ _ _ _ hinit
  obtain ⟨⟨s, b⟩, c', hloop, hpure⟩ := returns_bind.1 hrest
  obtain ⟨rows, hrows, hemits⟩ := hread.exists_emits (fun _ _ => leavesAlone_pure _) hinit hloop
  obtain ⟨-, -, rfl, rfl⟩ := (forEachRow_collect hemits).1 hloop
  obtain ⟨rfl, rfl⟩ := returns_pure.1 hpure
  exact ⟨rfl, rows, denotes_of_hasShown hplan hctx hrows, rfl⟩

/-- What the engine returns with enough fuel is what is denoted. -/
lemma completes_iff_exists_denotes (hplan : plan.isQuery = true) (hctx : ctx.Scannable)
    {result : List Tuple} : Completes std plan ctx result ctx' ↔
      ctx' = ctx ∧ ∃ rows, DenotesRows std ctx plan rows true ∧ result = rows.map Prod.fst := by
  constructor
  · rintro ⟨fuel₀, hreturns⟩
    exact exists_denotes_of_returns hplan hctx (hreturns fuel₀ le_rfl)
  · rintro ⟨rfl, rows, hrows, rfl⟩
    exact hrows.completes

/-- The rows that a query denotes are determined. -/
lemma DenotesRows.unique {rows' : List Row} (h : DenotesRows std ctx plan rows true)
    (h' : DenotesRows std ctx plan rows' true) : rows = rows' := by
  obtain ⟨fuel₁, h₁⟩ := h.shows
  obtain ⟨fuel₂, h₂⟩ := h'.shows
  obtain ⟨s, last, hinit, hemits⟩ :=
    Executor.shows_true_iff.1 (h₁ (fuel₁ + fuel₂) (by omega)) (createExecutor _ _ plan).fresh
  obtain ⟨s', last', hinit', hemits'⟩ :=
    Executor.shows_true_iff.1 (h₂ (fuel₁ + fuel₂) (by omega)) (createExecutor _ _ plan).fresh
  obtain ⟨rfl, -⟩ := hinit.unique hinit'
  obtain ⟨mid, hgives, hend⟩ := emits_iff_gives.1 hemits'
  exact ((hemits.prefix_of_gives hgives).2 _ _ hend).symm

/-- **Execution and meaning.** On a database whose tables are heaps, the engine returns rows for a
query, with whatever fuel, iff the plan denotes these rows, and then it returns them with all fuel
from some bound on; the context is as before. There is one such list of rows. -/
theorem completes_iff_denotes (hplan : plan.isQuery = true) (hctx : ctx.Scannable)
    {result : List Tuple} :
    ((∃ fuel, Returns (executePlan std fuel plan) ctx result ctx') ↔
      Completes std plan ctx result ctx') ∧
    (Completes std plan ctx result ctx' ↔
      ctx' = ctx ∧ ∃ rows, DenotesRows std ctx plan rows true ∧ result = rows.map Prod.fst) ∧
    ∀ rows rows', DenotesRows std ctx plan rows true → DenotesRows std ctx plan rows' true →
      rows = rows' := by
  refine ⟨⟨?_, ?_⟩, completes_iff_exists_denotes hplan hctx, fun rows rows' => DenotesRows.unique⟩
  · rintro ⟨fuel, hret⟩
    exact (completes_iff_exists_denotes hplan hctx).2 (exists_denotes_of_returns hplan hctx hret)
  · rintro ⟨fuel₀, hreturns⟩
    exact ⟨fuel₀, hreturns fuel₀ le_rfl⟩

/-- A query whose execution returns denotes something. -/
lemma exists_denotes_of_isOk (hplan : plan.isQuery = true) (hctx : ctx.Scannable)
    (hok : (runIn (executePlan std fuel plan) ctx).map (fun r => r.1.isOk) = some true) :
    ∃ rows, DenotesRows std ctx plan rows true := by
  obtain ⟨result, ctx', hret⟩ := exists_returns hok
  obtain ⟨-, rows, hrows, -⟩ := exists_denotes_of_returns hplan hctx hret
  exact ⟨rows, hrows⟩

end Plans

/-- The small databases are heaps. -/
lemma scannable_smallContext {columns : List String} {rows : List (List (BitVec 32))}
    {attr : Option ℕ} (hroom : roomOf (rows.map rowBytes) + 16 ≤ pageSize)
    (hwidth : ∀ row ∈ rows, row.length = columns.length) :
    (smallContext columns rows attr).Scannable := by
  intro oid tableInfo htable
  obtain ⟨before, after, htables, -⟩ := List.lookup_eq_some_iff.1 htable
  have hmem : (oid, tableInfo) ∈ [(1, smallTable columns)] := by
    change [(1, smallTable columns)] = _ at htables
    rw [htables]
    exact List.mem_append_right _ List.mem_cons_self
  obtain ⟨rfl, rfl⟩ := Prod.mk.inj (List.mem_singleton.1 hmem)
  exact ⟨_, (integerTable_smallContext hroom hwidth).toHeapTable⟩

/-- The two rows of a join of a table of two rows with the first of them. -/
theorem completes_iff_denotes_limitedJoin :
    ∃ rows, DenotesRows default (smallContext ["x"] [[1], [2]] none) limitedJoin rows true ∧
      rows.length = 2 := by
  have hlength : (runIn (executePlan default 5 limitedJoin)
      (smallContext ["x"] [[1], [2]] none)).map (fun r => r.1.toOption.map List.length) =
        some (some 2) := by
    decide +kernel
  have hok : (runIn (executePlan default 5 limitedJoin)
      (smallContext ["x"] [[1], [2]] none)).map (fun r => r.1.isOk) = some true := by
    decide +kernel
  obtain ⟨result, ctx', hret⟩ := exists_returns hok
  have hscannable : (smallContext ["x"] [[1], [2]] none).Scannable :=
    scannable_smallContext (by decide) (by decide)
  obtain ⟨hsome, hdenotes, -⟩ :=
    @completes_iff_denotes default _ ctx' limitedJoin rfl hscannable result
  obtain ⟨-, rows, hrows, rfl⟩ := hdenotes.1 (hsome.1 ⟨5, hret⟩)
  refine ⟨rows, hrows, ?_⟩
  unfold Returns at hret
  rw [hret] at hlength
  simpa [Except.toOption] using hlength

end OneBase
