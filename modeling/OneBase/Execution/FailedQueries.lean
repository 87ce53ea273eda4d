import OneBase.Execution.ExecutorFactory
import OneBase.Optimizer.Optimizer

set_option relaxedAutoImplicit false
set_option autoImplicit false

/-!
# Queries that fail

A query may throw in the middle of a scan, and then its executors are destroyed where they stand.
They hold no pins between two calls, so that the context is as it was before, whether the query has
returned or has thrown. The same holds of the `SHOW` statements.

## Main definitions

* `OneBase.Exec.LeavesAlone` — the context is as before, also after an exception.
* `OneBase.PlanNode.reads` — the plans of queries and of `SHOW` statements.

## Main results

* `OneBase.leavesAlone_createExecutor` — the executors of such a plan.
* `OneBase.leavesAlone_executePlan` — its execution.
* `OneBase.reads_optimize` — the optimizer makes such a plan of such a plan.
-/

namespace OneBase

open Effect Exec

/-! ## Reading the heap -/

section Heap

variable {α : Type} {frames : ℕ∞} {t : PageStore TablePage} {p : PageId}
  {r : α × PageStore TablePage}

/-- If a program goes on after `FetchPage`, then it holds a pin of the page. -/
lemma run_fetchPage_bind {k : Option PageId → Program (PoolCall TablePage) α}
    (h : (Program.op (.fetchPage p) >>= k).run (PageStore.handler frames) t = some r) :
    (k (some p)).run (PageStore.handler frames) (t.pin p) = some r := by
  rw [Program.run_bind, Program.run_op] at h
  unfold PageStore.handler at h
  simp only [Option.bind_eq_some_iff] at h
  obtain ⟨x, hx, hk⟩ := h
  split_ifs at hx
  obtain rfl := Option.some.inj hx
  exact hk

/-- Reading a page leaves the pages as they are. -/
lemma run_read_bind {k : TablePage → Program (PoolCall TablePage) α}
    (h : (PageClient.read p >>= k).run (PageStore.handler frames) t = some r) :
    ∃ d, (k d).run (PageStore.handler frames) t = some r := by
  unfold PageClient.read at h
  rw [Program.run_bind, Program.run_op] at h
  unfold PageStore.handler at h
  simp only [Option.bind_eq_some_iff] at h
  obtain ⟨x, hx, hk⟩ := h
  split_ifs at hx
  obtain ⟨d, -, rfl⟩ := Option.map_eq_some_iff.1 hx
  exact ⟨d, hk⟩

/-- The pin of `FetchPage` is the one that `UnpinPage` ends. -/
lemma run_unpin_bind {k : Unit → Program (PoolCall TablePage) α}
    (h : (PageClient.unpin p false >>= k).run (PageStore.handler frames) (t.pin p) = some r) :
    (k ()).run (PageStore.handler frames) t = some r := by
  have hunpin : PageStore.handler frames _ (.unpinPage p false) (t.pin p) = some (true, t) := by
    have hpin : (p, false) ∈ (t.pin p).pins := Multiset.mem_cons_self _ _
    show ite _ _ _ = _
    rw [if_pos hpin, PageStore.unpin_pin]
  unfold PageClient.unpin at h
  rw [Program.run_bind, Program.run_bind, Program.run_op, hunpin] at h
  exact h

/-- `GetTuple` gives back its pin and changes nothing. -/
lemma run_getTuple_eq {rid : RID} {r : Except Exception Tuple × PageStore TablePage}
    (h : (TableHeap.getTuple rid).run (PageStore.handler frames) t = some r) : r.2 = t := by
  unfold TableHeap.getTuple at h
  obtain ⟨d, hd⟩ := run_read_bind (run_fetchPage_bind h)
  rw [Program.run_bind, Program.run_ofOption, Option.bind_eq_some_iff] at hd
  obtain ⟨x, hx, hrest⟩ := hd
  obtain ⟨buffer, -, rfl⟩ := Option.map_eq_some_iff.1 hx
  have hpure := run_unpin_bind hrest
  rw [Program.run_pure] at hpure
  rw [← Option.some.inj hpure]

/-- The walk along the heap gives back its pins and changes nothing. -/
lemma run_seek_eq {fuel slot : ℕ} {pageId : PageId} {r : RID × PageStore TablePage}
    (h : (TableHeap.seek fuel pageId slot).run (PageStore.handler frames) t = some r) :
    r.2 = t := by
  induction fuel generalizing pageId slot with
  | zero => cases h
  | succ fuel ih =>
    unfold TableHeap.seek at h
    split_ifs at h with hend
    · rw [← Option.some.inj h]
    · obtain ⟨d, hd⟩ := run_read_bind (run_fetchPage_bind h)
      cases hslot : d.nextSlot slot with
      | some s =>
        rw [hslot] at hd
        have hpure := run_unpin_bind hd
        rw [Program.run_pure] at hpure
        rw [← Option.some.inj hpure]
      | none =>
        rw [hslot] at hd
        exact ih (run_unpin_bind hd)

end Heap

/-! ## Computations -/

namespace Exec

variable {α β : Type} {x : Exec α} {f : α → Exec β}

/-- Whatever the outcome, the context is as before. -/
def LeavesAlone (x : Exec α) : Prop := ∀ ctx r ctx', runIn x ctx = some (r, ctx') → ctx' = ctx

/-- Returning a result leaves the context alone. -/
lemma leavesAlone_pure (a : α) : LeavesAlone (pure a : Exec α) := by
  intro ctx r ctx' h
  exact (Prod.mk.inj (Option.some.inj h)).2.symm

/-- Throwing leaves the context alone. -/
lemma leavesAlone_throw (e : Exception) : LeavesAlone (throw e : Exec α) := by
  intro ctx r ctx' h
  exact (Prod.mk.inj (Option.some.inj h)).2.symm

/-- Undefined behaviour comes to no other context. -/
lemma leavesAlone_undefined : LeavesAlone (undefined : Exec α) := by
  intro ctx r ctx' h
  cases h

/-- A computation without the context leaves it alone. -/
lemma leavesAlone_ofCpp (x : Cpp α) : LeavesAlone (ofCpp x) := by
  intro ctx r ctx' h
  obtain ⟨r₁, -, heq⟩ := Option.map_eq_some_iff.1 h
  exact (Prod.mk.inj heq).2.symm

/-- Using a pointer leaves the context alone. -/
lemma leavesAlone_deref (o : Option α) : LeavesAlone (deref o) := by
  cases o with
  | none => exact leavesAlone_undefined
  | some a => exact leavesAlone_pure a

/-- Reading the catalog leaves the context alone. -/
lemma leavesAlone_getCatalog : LeavesAlone getCatalog := by
  intro ctx r ctx' h
  exact (Prod.mk.inj (Option.some.inj h)).2.symm

/-- The rule of the sequence: the first part may throw, and then the second one is not run. -/
lemma LeavesAlone.bind_of_returns (hx : LeavesAlone x)
    (hf : ∀ ctx a, Returns x ctx a ctx → LeavesAlone (f a)) : LeavesAlone (x >>= f) := by
  intro ctx r ctx' h
  rw [runIn_bind] at h
  obtain ⟨⟨r₁, ctx₁⟩, hrun, hrest⟩ := Option.bind_eq_some_iff.1 h
  obtain rfl := hx ctx r₁ ctx₁ hrun
  cases r₁ with
  | ok a => exact hf ctx₁ a hrun ctx₁ r ctx' hrest
  | error e => exact (Prod.mk.inj (Option.some.inj hrest)).2.symm

/-- The rule of the sequence, for a second part that leaves the context alone after any result. -/
lemma LeavesAlone.bind (hx : LeavesAlone x) (hf : ∀ a, LeavesAlone (f a)) :
    LeavesAlone (x >>= f) := hx.bind_of_returns fun _ a _ => hf a

/-- A program that changes no page. -/
lemma leavesAlone_ofProgram {program : Program (PoolCall TablePage) α}
    (h : ∀ frames t r, program.run (PageStore.handler frames) t = some r → r.2 = t) :
    LeavesAlone (ofProgram program) := by
  intro ctx r ctx' hrun
  obtain ⟨r₁, hprogram, heq⟩ := Option.map_eq_some_iff.1 hrun
  have hbpm : r₁.2 = ctx.bpm := h _ _ _ hprogram
  rw [← (Prod.mk.inj heq).2, hbpm]

/-- A program that changes no page and may throw. -/
lemma leavesAlone_ofThrowing {program : Program (PoolCall TablePage) (Except Exception α)}
    (h : ∀ frames t r, program.run (PageStore.handler frames) t = some r → r.2 = t) :
    LeavesAlone (ofThrowing program) := by
  refine (leavesAlone_ofProgram h).bind fun r => ?_
  cases r with
  | ok a => exact leavesAlone_pure a
  | error e => exact leavesAlone_throw e

/-- A loop over rows that a child makes and a body uses without touching the context. -/
lemma leavesAlone_forEachRow {σ : Type} {next : σ → Exec (Option Row × σ)}
    {body : β → Row → Exec β} (hnext : ∀ st, LeavesAlone (next st))
    (hbody : ∀ acc row, LeavesAlone (body acc row)) (fuel : ℕ) (st : σ) (acc : β) :
    LeavesAlone (forEachRow next body fuel st acc) := by
  induction fuel generalizing st acc with
  | zero => exact leavesAlone_undefined
  | succ fuel ih =>
    rw [forEachRow]
    refine (hnext st).bind fun r => ?_
    obtain ⟨o, s⟩ := r
    cases o with
    | none => exact leavesAlone_pure _
    | some row => exact (hbody acc row).bind fun b => ih s b

end Exec

/-- An executor whose calls leave the context alone. -/
structure Executor.LeavesAlone (ex : Executor) : Prop where
  init : ∀ st, Exec.LeavesAlone (ex.init st)
  next : ∀ st, Exec.LeavesAlone (ex.next st)

section Classes

variable (std : StandardLibrary) (fuel : ℕ) {child left right : Executor} (outputSchema : Schema)

/-- Returning the next of the rows computed in `Init` leaves the context alone. -/
lemma leavesAlone_nextResult {σ : Type} (st : Materialized σ) :
    Exec.LeavesAlone (nextResult st) := by
  unfold nextResult
  cases st.resultTuples[st.cursor]? with
  | none => exact leavesAlone_pure _
  | some tuple => exact leavesAlone_pure _

/-- A call of a sequential scan leaves the context alone.

**Proof sketch.** Induction on the fuel. A round reads a row, whose pin it gives back, moves on, and
evaluates the predicate. -/
lemma leavesAlone_seqScanNext (predicate : Expression) (n : ℕ) (st : SeqScanState) :
    Exec.LeavesAlone (seqScanNext fuel predicate n st) := by
  induction n generalizing st with
  | zero => exact leavesAlone_undefined
  | succ n ih =>
    rw [seqScanNext]
    split_ifs with hend
    · exact leavesAlone_pure _
    · refine (leavesAlone_deref _).bind fun info => ?_
      refine (leavesAlone_ofThrowing fun _ _ _ h => run_getTuple_eq h).bind fun tuple => ?_
      refine (leavesAlone_ofProgram fun _ _ _ h => run_seek_eq h).bind fun iter => ?_
      refine (leavesAlone_ofCpp _).bind fun accepted => ?_
      cases accepted with
      | true =>
        exact (leavesAlone_ofCpp _).bind fun _ =>
          (leavesAlone_ofCpp _).bind fun _ => leavesAlone_pure _
      | false => exact ih _

/-- A sequential scan leaves the context alone. -/
lemma leavesAlone_seqScanExecutor (tableOid : ℕ) (predicate : Expression) :
    (seqScanExecutor fuel outputSchema tableOid predicate).LeavesAlone where
  init _ := leavesAlone_getCatalog.bind fun _ => (leavesAlone_deref _).bind fun _ =>
    (leavesAlone_ofProgram fun _ _ _ h => run_seek_eq h).bind fun _ => leavesAlone_pure _
  next st := leavesAlone_seqScanNext fuel predicate fuel st

/-- An index scan leaves the context alone. -/
lemma leavesAlone_indexScanExecutor (tableOid indexOid : ℕ) (lookupKey : Expression) :
    (indexScanExecutor outputSchema tableOid indexOid lookupKey).LeavesAlone where
  init _ := leavesAlone_getCatalog.bind fun _ => (leavesAlone_ofCpp _).bind fun _ =>
    (leavesAlone_deref _).bind fun _ => leavesAlone_pure _
  next st := by
    unfold indexScanExecutor
    dsimp only
    cases st.matchingRids[st.cursor]? with
    | none => exact leavesAlone_pure _
    | some rid =>
      refine (leavesAlone_deref _).bind fun _ => ?_
      exact (leavesAlone_ofThrowing fun _ _ _ h => run_getTuple_eq h).bind fun _ =>
        leavesAlone_pure _

/-- A nested-loop join leaves the context alone if its children do. -/
lemma leavesAlone_nestedLoopJoinExecutor (hleft : left.LeavesAlone) (hright : right.LeavesAlone)
    (predicate : Expression) :
    (nestedLoopJoinExecutor fuel outputSchema left right predicate).LeavesAlone where
  init st := by
    refine (hleft.init _).bind fun l => ?_
    refine (leavesAlone_forEachRow hleft.next (fun acc row => ?_) _ _ _).bind fun r =>
      leavesAlone_pure _
    exact (hright.init _).bind fun r =>
      leavesAlone_forEachRow hright.next (fun _ _ => leavesAlone_ofCpp _) _ _ _
  next st := leavesAlone_nextResult st

/-- A hash join leaves the context alone if its children do. -/
lemma leavesAlone_hashJoinExecutor (hleft : left.LeavesAlone) (hright : right.LeavesAlone)
    (leftKeyExpr rightKeyExpr : Expression) :
    (hashJoinExecutor fuel outputSchema left right leftKeyExpr rightKeyExpr).LeavesAlone where
  init st := by
    refine (hleft.init _).bind fun l => (hright.init _).bind fun r => ?_
    refine (leavesAlone_forEachRow hright.next (fun _ _ => leavesAlone_ofCpp _) _ _ _).bind
      fun table => ?_
    exact (leavesAlone_forEachRow hleft.next (fun _ _ => leavesAlone_ofCpp _) _ _ _).bind
      fun _ => leavesAlone_pure _
  next st := leavesAlone_nextResult st

/-- An aggregation leaves the context alone if its child does. -/
lemma leavesAlone_aggregationExecutor (hchild : child.LeavesAlone)
    (groupBys aggregates : List Expression) (aggTypes : List AggregationType) :
    (aggregationExecutor std fuel outputSchema child groupBys aggregates
      aggTypes).LeavesAlone where
  init st := by
    refine (hchild.init _).bind fun c => ?_
    refine (leavesAlone_forEachRow hchild.next (fun _ _ => leavesAlone_ofCpp _) _ _ _).bind
      fun aht => ?_
    exact (leavesAlone_ofCpp _).bind fun _ => leavesAlone_pure _
  next st := leavesAlone_nextResult st

/-- A sort leaves the context alone if its child does. -/
lemma leavesAlone_sortExecutor (hchild : child.LeavesAlone)
    (orderBys : List (Bool × Expression)) :
    (sortExecutor std fuel outputSchema child orderBys).LeavesAlone where
  init st := by
    refine (hchild.init _).bind fun c => ?_
    refine (leavesAlone_forEachRow hchild.next (fun _ _ => leavesAlone_pure _) _ _ _).bind
      fun tuples => ?_
    exact (leavesAlone_ofCpp _).bind fun _ => leavesAlone_pure _
  next st := leavesAlone_nextResult st

/-- A limit leaves the context alone if its child does. -/
lemma leavesAlone_limitExecutor (hchild : child.LeavesAlone) (limit : ℕ) :
    (limitExecutor outputSchema child limit).LeavesAlone where
  init st := (hchild.init _).bind fun _ => leavesAlone_pure _
  next st := by
    dsimp only [limitExecutor]
    split_ifs with hlimit
    · exact leavesAlone_pure _
    · refine (hchild.next _).bind fun r => ?_
      obtain ⟨o, s⟩ := r
      cases o with
      | none => exact leavesAlone_pure _
      | some row => exact leavesAlone_pure _

/-- A projection leaves the context alone if its child does. -/
lemma leavesAlone_projectionExecutor (hchild : child.LeavesAlone)
    (expressions : List Expression) :
    (projectionExecutor outputSchema child expressions).LeavesAlone where
  init st := hchild.init st
  next st := by
    refine (hchild.next st).bind fun r => ?_
    obtain ⟨o, s⟩ := r
    cases o with
    | none => exact leavesAlone_pure _
    | some row => exact (leavesAlone_ofCpp _).bind fun _ => leavesAlone_pure _

end Classes

/-! ## Plans -/

/-- The utilities of the `SHOW` statements. -/
def UtilityType.shows : UtilityType → Bool
  | .showTables | .showIndexes | .showSchema => true
  | .createIndex | .dropIndex => false

/-- A query or a `SHOW` statement; a child may be missing. -/
def PlanNode.reads : PlanNode → Bool
  | .null | .seqScan .. | .indexScan .. => true
  | .nestedLoopJoin _ left right _ | .hashJoin _ left right _ _ => left.reads && right.reads
  | .aggregation _ child _ _ _ | .sort _ child _ | .limit _ child _ | .projection _ child _ =>
    child.reads
  | .utility _ utilityType _ _ _ _ _ => utilityType.shows
  | .insert .. | .delete .. | .update .. => false

section Plans

variable {std : StandardLibrary} {fuel : ℕ} {plan plan' : PlanNode} {catalog : Option Catalog}

/-- The rows of a `SHOW` statement are made of the catalog, which stays as it is. -/
lemma leavesAlone_utilityRows {utilityType : UtilityType} (h : utilityType.shows = true)
    (tableName indexName : String) (keyAttrs : List ℕ) (objectNames : List String)
    (missingOk : Bool) :
    Exec.LeavesAlone (utilityRows std fuel utilityType tableName indexName keyAttrs objectNames
      missingOk) := by
  unfold utilityRows
  cases utilityType with
  | showTables | showIndexes =>
    exact leavesAlone_getCatalog.bind fun _ => (leavesAlone_ofCpp _).bind fun _ =>
      leavesAlone_ofCpp _
  | showSchema =>
    refine leavesAlone_getCatalog.bind fun _ => (leavesAlone_ofCpp _).bind fun o => ?_
    cases o with
    | none => exact leavesAlone_throw _
    | some tableInfo => exact leavesAlone_ofCpp _
  | createIndex | dropIndex => cases h

/-- **Queries leave the database alone**, also where they throw.

**Proof sketch.** Induction on the plan: each class only passes on what its children do, and reads
pages whose pins it gives back in the same call. -/
lemma leavesAlone_createExecutor (h : plan.reads = true) :
    (createExecutor std fuel plan).LeavesAlone := by
  induction plan with
  | null => exact ⟨fun _ => leavesAlone_undefined, fun _ => leavesAlone_undefined⟩
  | seqScan _ tableOid predicate => exact leavesAlone_seqScanExecutor fuel _ tableOid predicate
  | indexScan _ tableOid indexOid lookupKey _ =>
    exact leavesAlone_indexScanExecutor _ tableOid indexOid lookupKey
  | nestedLoopJoin _ left right predicate ihl ihr =>
    obtain ⟨hl, hr⟩ := (Bool.and_eq_true _ _).mp h
    exact leavesAlone_nestedLoopJoinExecutor fuel _ (ihl hl) (ihr hr) predicate
  | hashJoin _ left right leftKeyExpr rightKeyExpr ihl ihr =>
    obtain ⟨hl, hr⟩ := (Bool.and_eq_true _ _).mp h
    exact leavesAlone_hashJoinExecutor fuel _ (ihl hl) (ihr hr) leftKeyExpr rightKeyExpr
  | aggregation _ child groupBys aggregates aggTypes ih =>
    exact leavesAlone_aggregationExecutor std fuel _ (ih h) groupBys aggregates aggTypes
  | sort _ child orderBys ih => exact leavesAlone_sortExecutor std fuel _ (ih h) orderBys
  | limit _ child n ih => exact leavesAlone_limitExecutor _ (ih h) n
  | projection _ child expressions ih =>
    exact leavesAlone_projectionExecutor _ (ih h) expressions
  | utility out utilityType tableName indexName keyAttrs objectNames missingOk =>
    exact
      { init := fun _ => (leavesAlone_utilityRows h _ _ _ _ _).bind fun _ => leavesAlone_pure _
        next := leavesAlone_nextResult }
  | insert | delete | update => cases h

/-- The execution of a query or of a `SHOW` statement leaves the context alone. -/
lemma leavesAlone_executePlan (h : plan.reads = true) :
    Exec.LeavesAlone (executePlan std fuel plan) := by
  have hex := @leavesAlone_createExecutor std fuel plan h
  refine (hex.init _).bind fun st => ?_
  exact (leavesAlone_forEachRow hex.next (fun _ _ => leavesAlone_pure _) _ _ _).bind fun _ =>
    leavesAlone_pure _

/-- A scan is replaced by a scan. -/
lemma reads_optimizeSeqScanToIndexScan (h : plan.reads = true)
    (hopt : optimizeSeqScanToIndexScan catalog plan = pure plan') : plan'.reads = true := by
  unfold optimizeSeqScanToIndexScan at hopt
  split at hopt
  · split at hopt
    · obtain ⟨indexes, -, hopt⟩ := Cpp.bind_eq_pure.1 hopt
      obtain ⟨found, -, hopt⟩ := Cpp.bind_eq_pure.1 hopt
      cases found with
      | none =>
        cases hopt
        exact h
      | some indexOid =>
        cases hopt
        rfl
    · cases hopt
      exact h
  · cases hopt
    exact h

/-- The rules on one node. -/
lemma reads_applyRules (happly : applyRules catalog plan = pure plan') (h : plan.reads = true) :
    plan'.reads = true := by
  obtain ⟨scan, hscan, hjoin⟩ := Cpp.bind_eq_pure.1 happly
  cases hjoin
  have hreads := reads_optimizeSeqScanToIndexScan h hscan
  unfold optimizeNLJToHashJoin
  split
  · split <;> exact hreads
  · exact hreads

/-- The optimizer makes a plan that only reads of a plan that only reads. -/
lemma reads_optimize (h : plan.reads = true) (hopt : optimize catalog plan = pure plan') :
    plan'.reads = true := by
  induction plan generalizing plan' with
  | null => cases hopt
  | seqScan | indexScan => exact reads_applyRules hopt rfl
  | utility => exact reads_applyRules hopt h
  | nestedLoopJoin out left right predicate ihl ihr =>
    obtain ⟨hl, hr⟩ := (Bool.and_eq_true _ _).mp h
    obtain ⟨left', hleft, hopt⟩ := Cpp.bind_eq_pure.1 hopt
    obtain ⟨right', hright, hopt⟩ := Cpp.bind_eq_pure.1 hopt
    refine reads_applyRules hopt ?_
    exact (Bool.and_eq_true _ _).mpr ⟨ihl hl hleft, ihr hr hright⟩
  | hashJoin out left right _ _ ihl ihr =>
    obtain ⟨hl, hr⟩ := (Bool.and_eq_true _ _).mp h
    obtain ⟨left', hleft, hopt⟩ := Cpp.bind_eq_pure.1 hopt
    obtain ⟨right', hright, hopt⟩ := Cpp.bind_eq_pure.1 hopt
    refine reads_applyRules hopt ?_
    exact (Bool.and_eq_true _ _).mpr ⟨ihl hl hleft, ihr hr hright⟩
  | aggregation out child _ _ _ ih | sort out child _ ih | limit out child _ ih
  | projection out child _ ih =>
    obtain ⟨child', hchild, hopt⟩ := Cpp.bind_eq_pure.1 hopt
    refine reads_applyRules hopt ?_
    change child'.reads = true
    exact ih h hchild
  | insert | delete | update => cases h

end Plans

end OneBase
