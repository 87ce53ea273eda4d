import OneBase.Execution.FailedQueries
import OneBase.Execution.SmallTables

set_option relaxedAutoImplicit false
set_option autoImplicit false

/-!
# Starting an executor over

`NestedLoopJoinExecutor::Init` calls `Init` of its right child once for each row of its left one,
after any number of calls of `Next`. An executor of a query starts over: what `Init` leaves of the
members does not show in what `Next` returns, whatever the members were before.

## Main definitions

* `OneBase.Exec.Similar` — two computations with the same outcome, but for their results.
* `OneBase.Executor.StartsOver` — `Init` makes the executor forget its members.
* `OneBase.PlanNode.isQuery` — the plans that only read.
* `OneBase.Executor.calls`, `OneBase.Executor.drain` — any calls, and `Init` with all rows after it.

## Main results

* `OneBase.startsOver_createExecutor` — by induction on the plan.
* `OneBase.drain_calls` — after any calls, the executor returns what a fresh one returns.
-/

namespace OneBase

open Effect

/-! ## Computations with the same outcome -/

namespace Exec

variable {α β γ δ : Type} {R : α → β → Prop} {S : γ → δ → Prop}

/-- Both outcomes are undefined, or both computations return related results and leave the same
context, or both throw the same exception there. -/
inductive SameOutcome (R : α → β → Prop) :
    Option (Except Exception α × ExecutorContext) →
      Option (Except Exception β × ExecutorContext) → Prop
  | undefined : SameOutcome R none none
  | ok {a : α} {b : β} (h : R a b) (ctx : ExecutorContext) :
      SameOutcome R (some (.ok a, ctx)) (some (.ok b, ctx))
  | error (e : Exception) (ctx : ExecutorContext) :
      SameOutcome R (some (.error e, ctx)) (some (.error e, ctx))

/-- In every context the computations have the same outcome, up to `R`. -/
def Similar (R : α → β → Prop) (x : Exec α) (y : Exec β) : Prop :=
  ∀ ctx, SameOutcome R (runIn x ctx) (runIn y ctx)

/-- A computation is similar to itself. -/
lemma similar_self {R : α → α → Prop} (hR : ∀ a, R a a) (x : Exec α) : Similar R x x := by
  intro ctx
  rcases runIn x ctx with - | ⟨e | a, c⟩
  · exact .undefined
  · exact .error e c
  · exact .ok (hR a) c

/-- Related results are similar outcomes. -/
lemma similar_pure {a : α} {b : β} (h : R a b) : Similar R (pure a) (pure b) := fun ctx => .ok h ctx

/-- Undefined behaviour is similar to itself. -/
lemma similar_undefined : Similar R undefined undefined := fun _ => .undefined

/-- The relation of the results may be weakened. -/
lemma Similar.mono {R' : α → β → Prop} {x : Exec α} {y : Exec β} (h : Similar R x y)
    (hR : ∀ a b, R a b → R' a b) : Similar R' x y := by
  intro ctx
  have hctx := h ctx
  generalize runIn x ctx = r, runIn y ctx = r' at hctx ⊢
  cases hctx with
  | undefined => exact .undefined
  | ok hab c => exact .ok (hR _ _ hab) c
  | error e c => exact .error e c

/-- Sequences of similar computations are similar. -/
lemma Similar.bind {x : Exec α} {y : Exec β} {f : α → Exec γ} {g : β → Exec δ}
    (h : Similar R x y) (hfg : ∀ a b, R a b → Similar S (f a) (g b)) :
    Similar S (x >>= f) (y >>= g) := by
  intro ctx
  have hctx := h ctx
  rw [runIn_bind, runIn_bind]
  generalize runIn x ctx = r, runIn y ctx = r' at hctx ⊢
  cases hctx with
  | undefined => exact .undefined
  | ok hab c => exact hfg _ _ hab c
  | error e c => exact .error e c

/-- Computations with equal results run alike. -/
lemma Similar.runIn_eq {x y : Exec α} (h : Similar Eq x y) (ctx : ExecutorContext) :
    runIn x ctx = runIn y ctx := by
  have hctx := h ctx
  generalize runIn x ctx = r, runIn y ctx = r' at hctx ⊢
  cases hctx with
  | undefined => rfl
  | ok hab c => rw [hab]
  | error e c => rfl

end Exec

open Exec

/-- What `Next` returns is the same row, if any, and related members. -/
def SameRow {σ τ : Type} (R : σ → τ → Prop) (r : Option Row × σ) (r' : Option Row × τ) : Prop :=
  r.1 = r'.1 ∧ R r.2 r'.2

/-- The loops over the rows of similar children, with similar bodies, are similar. -/
lemma similar_forEachRow {σ τ β γ : Type} {R : σ → τ → Prop} {S : β → γ → Prop}
    {next : σ → Exec (Option Row × σ)} {next' : τ → Exec (Option Row × τ)}
    {body : β → Row → Exec β} {body' : γ → Row → Exec γ}
    (hnext : ∀ st st', R st st' → Similar (SameRow R) (next st) (next' st'))
    (hbody : ∀ acc acc' row, S acc acc' → Similar S (body acc row) (body' acc' row))
    {st : σ} {st' : τ} {acc : β} {acc' : γ} (fuel : ℕ) (hst : R st st') (hacc : S acc acc') :
    Similar (fun r r' => R r.1 r'.1 ∧ S r.2 r'.2) (forEachRow next body fuel st acc)
      (forEachRow next' body' fuel st' acc') := by
  induction fuel generalizing st st' acc acc' with
  | zero => exact similar_undefined
  | succ fuel ih =>
    unfold forEachRow
    refine (hnext st st' hst).bind ?_
    rintro ⟨o, s⟩ ⟨o', s'⟩ ⟨ho, hs⟩
    obtain rfl : o = o' := ho
    cases o with
    | none => exact similar_pure ⟨hs, hacc⟩
    | some row => exact (hbody acc acc' row hacc).bind fun b b' hb => ih hs hb

/-! ## The executors -/

/-- `Init` makes the executor forget its members: what it leaves of them does not show in what
`Next` returns. `R` relates members that `Next` does not tell apart. -/
def Executor.StartsOver (ex : Executor) : Prop :=
  ∃ R : ex.State → ex.State → Prop,
    (∀ st st', Similar R (ex.init st) (ex.init st')) ∧
      ∀ st st', R st st' → Similar (SameRow R) (ex.next st) (ex.next st')

/-- A plan of scans, joins, aggregations, sorts, limits and projections. -/
def PlanNode.isQuery : PlanNode → Bool
  | .seqScan .. | .indexScan .. => true
  | .nestedLoopJoin _ left right _ | .hashJoin _ left right _ _ => left.isQuery && right.isQuery
  | .aggregation _ child _ _ _ | .sort _ child _ | .limit _ child _ | .projection _ child _ =>
    child.isQuery
  | .null | .insert .. | .delete .. | .update .. | .utility .. => false

section Classes

variable (std : StandardLibrary) (fuel : ℕ) {child left right : Executor} (outputSchema : Schema)

/-- The members of a class that computes its rows in `Init`, but for its children. -/
def SameOutput {σ : Type} (st st' : Materialized σ) : Prop :=
  st.resultTuples = st'.resultTuples ∧ st.cursor = st'.cursor

/-- `Next` of two classes with the same rows and cursors returns the same row. -/
lemma similar_nextResult {σ : Type} {st st' : Materialized σ} (h : SameOutput st st') :
    Similar (SameRow SameOutput) (nextResult st) (nextResult st') := by
  obtain ⟨hrows, hcursor⟩ := h
  unfold nextResult
  rw [← hrows, ← hcursor]
  cases st.resultTuples[st.cursor]? with
  | none => exact similar_pure ⟨rfl, hrows, hcursor⟩
  | some tuple => exact similar_pure ⟨rfl, rfl, rfl⟩

/-- An executor whose `Init` does not look at the members. -/
lemma startsOver_of_init {ex : Executor} (h : ∀ st st', ex.init st = ex.init st') :
    ex.StartsOver := by
  refine ⟨Eq, fun st st' => ?_, fun st st' hst => ?_⟩
  · rw [h st st']
    exact similar_self (fun _ => rfl) _
  · subst hst
    exact similar_self (fun _ => ⟨rfl, rfl⟩) _

/-- A sequential scan starts over: `Init` goes back to the first row of the heap. -/
lemma startsOver_seqScanExecutor (tableOid : ℕ) (predicate : Expression) :
    (seqScanExecutor fuel outputSchema tableOid predicate).StartsOver :=
  startsOver_of_init fun _ _ => rfl

/-- An index scan starts over: `Init` looks up the rows again. -/
lemma startsOver_indexScanExecutor (tableOid indexOid : ℕ) (lookupKey : Expression) :
    (indexScanExecutor outputSchema tableOid indexOid lookupKey).StartsOver :=
  startsOver_of_init fun _ _ => rfl

/-- Bodies that do not touch the context, with equal accumulators. -/
lemma similar_ofCpp {β : Type} {f : β → Row → Cpp β} (acc acc' : β) (row : Row) (h : acc = acc') :
    Similar Eq (ofCpp (f acc row)) (ofCpp (f acc' row)) := by
  subst h
  exact similar_self (fun _ => rfl) _

/-- A nested-loop join starts over if its children do.

**Proof sketch.** The outer loops see the same rows. In each round the inner loops start from
different members of the right child, which `Init` makes it forget, so that they add the same rows
to the result. -/
lemma startsOver_nestedLoopJoinExecutor (hleft : left.StartsOver) (hright : right.StartsOver)
    (predicate : Expression) :
    (nestedLoopJoinExecutor fuel outputSchema left right predicate).StartsOver := by
  obtain ⟨L, hinitL, hnextL⟩ := hleft
  obtain ⟨R, hinitR, hnextR⟩ := hright
  refine ⟨SameOutput, fun st st' => ?_, fun st st' hst => similar_nextResult hst⟩
  refine (hinitL _ _).bind fun l l' hl => ?_
  -- The inner loops start from different members of the right child.
  have hinner : ∀ acc acc' row, acc.2 = acc'.2 →
      Similar (fun a b => a.2 = b.2)
        (innerLoop fuel predicate left.outputSchema right acc row)
        (innerLoop fuel predicate left.outputSchema right acc' row) := by
    intro acc acc' row hacc
    refine (hinitR _ _).bind fun r r' hr => ?_
    exact (similar_forEachRow hnextR similar_ofCpp fuel hr hacc).mono fun a b hab => hab.2
  have hstart : (st.children.2, ([] : List Tuple)).2 = (st'.children.2, ([] : List Tuple)).2 := rfl
  refine (similar_forEachRow hnextL hinner fuel hl hstart).bind ?_
  rintro ⟨a, r, rows⟩ ⟨a', r', rows'⟩ ⟨-, hrows⟩
  exact similar_pure ⟨hrows, rfl⟩

/-- A hash join starts over if its children do: the table and then the rows are made of the same
rows of the children. -/
lemma startsOver_hashJoinExecutor (hleft : left.StartsOver) (hright : right.StartsOver)
    (leftKeyExpr rightKeyExpr : Expression) :
    (hashJoinExecutor fuel outputSchema left right leftKeyExpr rightKeyExpr).StartsOver := by
  obtain ⟨L, hinitL, hnextL⟩ := hleft
  obtain ⟨R, hinitR, hnextR⟩ := hright
  refine ⟨SameOutput, fun st st' => ?_, fun st st' hst => similar_nextResult hst⟩
  refine (hinitL _ _).bind fun l l' hl => (hinitR _ _).bind fun r r' hr => ?_
  refine (similar_forEachRow hnextR similar_ofCpp fuel hr rfl).bind ?_
  rintro ⟨a, table⟩ ⟨a', table'⟩ ⟨-, htable⟩
  obtain rfl : table = table' := htable
  refine (similar_forEachRow hnextL similar_ofCpp fuel hl rfl).bind ?_
  rintro ⟨b, rows⟩ ⟨b', rows'⟩ ⟨-, hrows⟩
  exact similar_pure ⟨hrows, rfl⟩

/-- An aggregation starts over if its child does. -/
lemma startsOver_aggregationExecutor (hchild : child.StartsOver)
    (groupBys aggregates : List Expression) (aggTypes : List AggregationType) :
    (aggregationExecutor std fuel outputSchema child groupBys aggregates aggTypes).StartsOver := by
  obtain ⟨R, hinit, hnext⟩ := hchild
  refine ⟨SameOutput, fun st st' => ?_, fun st st' hst => similar_nextResult hst⟩
  refine (hinit _ _).bind fun c c' hc => ?_
  refine (similar_forEachRow hnext similar_ofCpp fuel hc rfl).bind ?_
  rintro ⟨a, aht⟩ ⟨a', aht'⟩ ⟨-, haht⟩
  obtain rfl : aht = aht' := haht
  refine (similar_self (fun _ => rfl) _).bind fun rows rows' hrows => ?_
  exact similar_pure ⟨hrows, rfl⟩

/-- A sort starts over if its child does. -/
lemma startsOver_sortExecutor (hchild : child.StartsOver) (orderBys : List (Bool × Expression)) :
    (sortExecutor std fuel outputSchema child orderBys).StartsOver := by
  obtain ⟨R, hinit, hnext⟩ := hchild
  refine ⟨SameOutput, fun st st' => ?_, fun st st' hst => similar_nextResult hst⟩
  refine (hinit _ _).bind fun c c' hc => ?_
  have hbody : ∀ (acc acc' : List Tuple) (row : Row), acc = acc' →
      Similar Eq (pure (acc ++ [row.1])) (pure (acc' ++ [row.1])) :=
    fun acc acc' row hacc => similar_pure (congrArg (· ++ [row.1]) hacc)
  refine (similar_forEachRow hnext hbody fuel hc rfl).bind ?_
  rintro ⟨a, tuples⟩ ⟨a', tuples'⟩ ⟨-, htuples⟩
  obtain rfl : tuples = tuples' := htuples
  refine (similar_self (fun _ => rfl) _).bind fun rows rows' hrows => ?_
  exact similar_pure ⟨hrows, rfl⟩

/-- A limit starts over if its child does: `Init` sets the count to zero. -/
lemma startsOver_limitExecutor (hchild : child.StartsOver) (limit : ℕ) :
    (limitExecutor outputSchema child limit).StartsOver := by
  obtain ⟨R, hinit, hnext⟩ := hchild
  refine ⟨fun st st' => R st.1 st'.1 ∧ st.2 = st'.2, fun st st' => ?_, ?_⟩
  · exact (hinit _ _).bind fun c c' hc => similar_pure ⟨hc, rfl⟩
  · rintro ⟨c, count⟩ ⟨c', count'⟩ ⟨hc, hcount⟩
    obtain rfl : count = count' := hcount
    unfold limitExecutor
    dsimp only
    split_ifs with hlimit
    · exact similar_pure ⟨rfl, hc, rfl⟩
    · refine (hnext c c' hc).bind ?_
      rintro ⟨o, d⟩ ⟨o', d'⟩ ⟨ho, hd⟩
      obtain rfl : o = o' := ho
      cases o with
      | none => exact similar_pure ⟨rfl, hd, rfl⟩
      | some row => exact similar_pure ⟨rfl, hd, rfl⟩

/-- A projection starts over if its child does. -/
lemma startsOver_projectionExecutor (hchild : child.StartsOver) (expressions : List Expression) :
    (projectionExecutor outputSchema child expressions).StartsOver := by
  obtain ⟨R, hinit, hnext⟩ := hchild
  refine ⟨R, hinit, fun st st' hst => (hnext _ _ hst).bind ?_⟩
  rintro ⟨o, d⟩ ⟨o', d'⟩ ⟨ho, hd⟩
  obtain rfl : o = o' := ho
  cases o with
  | none => exact similar_pure ⟨rfl, hd⟩
  | some row =>
    refine (similar_self (fun _ => rfl) _).bind fun tuple tuple' htuple => ?_
    subst htuple
    exact similar_pure ⟨rfl, hd⟩

end Classes

section Plans

variable (std : StandardLibrary) (fuel : ℕ) {plan : PlanNode}

/-- The executor of a query starts over. -/
lemma startsOver_createExecutor (h : plan.isQuery = true) :
    (createExecutor std fuel plan).StartsOver := by
  induction plan with
  | seqScan out tableOid predicate => exact startsOver_seqScanExecutor fuel out tableOid predicate
  | indexScan out tableOid indexOid lookupKey predicate =>
    exact startsOver_indexScanExecutor out tableOid indexOid lookupKey
  | nestedLoopJoin out left right predicate ihl ihr =>
    obtain ⟨hl, hr⟩ := (Bool.and_eq_true _ _).mp h
    exact startsOver_nestedLoopJoinExecutor fuel out (ihl hl) (ihr hr) predicate
  | hashJoin out left right leftKey rightKey ihl ihr =>
    obtain ⟨hl, hr⟩ := (Bool.and_eq_true _ _).mp h
    exact startsOver_hashJoinExecutor fuel out (ihl hl) (ihr hr) leftKey rightKey
  | aggregation out child groupBys aggregates aggTypes ih =>
    exact startsOver_aggregationExecutor std fuel out (ih h) groupBys aggregates aggTypes
  | sort out child orderBys ih => exact startsOver_sortExecutor std fuel out (ih h) orderBys
  | limit out child limit ih => exact startsOver_limitExecutor out (ih h) limit
  | projection out child expressions ih =>
    exact startsOver_projectionExecutor out (ih h) expressions
  | null | insert | delete | update | utility => cases h

/-- A query only reads. -/
lemma reads_of_isQuery (h : plan.isQuery = true) : plan.reads = true := by
  induction plan with
  | seqScan | indexScan => rfl
  | nestedLoopJoin _ left right _ ihl ihr | hashJoin _ left right _ _ ihl ihr =>
    obtain ⟨hl, hr⟩ := (Bool.and_eq_true _ _).mp h
    exact (Bool.and_eq_true _ _).mpr ⟨ihl hl, ihr hr⟩
  | aggregation _ child _ _ _ ih | sort _ child _ ih | limit _ child _ ih
  | projection _ child _ ih => exact ih h
  | null | insert | delete | update | utility => cases h

/-- The executor of a query leaves the context alone. -/
lemma leavesAlone_query (h : plan.isQuery = true) : (createExecutor std fuel plan).LeavesAlone :=
  leavesAlone_createExecutor (reads_of_isQuery h)

end Plans

/-! ## Calls of an executor -/

/-- A call of an executor. -/
inductive ExecutorCall
  | init
  | next
  deriving DecidableEq, Repr

namespace Executor

variable {ex : Executor} {ctx ctx' : ExecutorContext} {st : ex.State}

/-- The members after a call. -/
def call (ex : Executor) (st : ex.State) : ExecutorCall → Exec ex.State
  | .init => ex.init st
  | .next => do
    let (_, st) ← ex.next st
    pure st

/-- The members of a fresh executor after these calls. -/
def calls (ex : Executor) (history : List ExecutorCall) : Exec ex.State :=
  history.foldlM ex.call ex.fresh

/-- `Init`, and the rows that `Next` returns from then on. -/
def drain (ex : Executor) (fuel : ℕ) (st : ex.State) : Exec (List Row) := do
  let st ← ex.init st
  let (_, rows) ← forEachRow ex.next (fun rows row => pure (rows ++ [row])) fuel st []
  pure rows

/-- An executor that starts over returns the same rows, whatever its members were. -/
lemma StartsOver.drain (h : ex.StartsOver) (fuel : ℕ) (st st' : ex.State) :
    Similar Eq (ex.drain fuel st) (ex.drain fuel st') := by
  obtain ⟨R, hinit, hnext⟩ := h
  have hbody : ∀ (rows rows' : List Row) (row : Row), rows = rows' →
      Similar Eq (pure (rows ++ [row])) (pure (rows' ++ [row])) :=
    fun rows rows' row hrows => similar_pure (congrArg (· ++ [row]) hrows)
  refine (hinit st st').bind fun s s' hs => ?_
  refine (similar_forEachRow hnext hbody fuel hs rfl).bind ?_
  rintro ⟨a, rows⟩ ⟨b, rows'⟩ ⟨-, hrows⟩
  exact similar_pure hrows

/-- If every call leaves the context alone, so do any calls one after the other. -/
lemma LeavesAlone.calls (h : ex.LeavesAlone) (history : List ExecutorCall) :
    Exec.LeavesAlone (ex.calls history) := by
  have hcall : ∀ st c, Exec.LeavesAlone (ex.call st c) := by
    intro st c
    cases c with
    | init => exact h.init st
    | next => exact (h.next st).bind fun _ => leavesAlone_pure _
  show Exec.LeavesAlone (history.foldlM ex.call ex.fresh)
  generalize ex.fresh = s
  induction history generalizing s with
  | nil => exact leavesAlone_pure s
  | cons c history ih =>
    rw [List.foldlM_cons]
    exact (hcall s c).bind ih

end Executor

/-- After any calls that returned, `Init` starts the executor of a query over: the context is
still the same, and the executor returns the rows that a fresh one returns there. -/
theorem drain_calls (std : StandardLibrary) (fuel n : ℕ) {plan : PlanNode}
    (hplan : plan.isQuery = true) {history : List ExecutorCall} {ctx ctx' : ExecutorContext}
    {st : (createExecutor std fuel plan).State}
    (hcalls : Returns ((createExecutor std fuel plan).calls (.init :: history)) ctx st ctx') :
    ctx' = ctx ∧ runIn ((createExecutor std fuel plan).drain n st) ctx' =
      runIn ((createExecutor std fuel plan).drain n (createExecutor std fuel plan).fresh) ctx := by
  obtain rfl : ctx' = ctx := (leavesAlone_query std fuel hplan).calls _ _ _ _ hcalls
  exact ⟨rfl, ((startsOver_createExecutor std fuel hplan).drain n st _).runIn_eq _⟩

/-- A join of a table with itself, of whose right side only the first row counts. -/
def limitedJoin : PlanNode :=
  .nestedLoopJoin (smallTable ["x"]).schema (.seqScan (smallTable ["x"]).schema 1 .null)
    (.limit (smallTable ["x"]).schema (.seqScan (smallTable ["x"]).schema 1 .null) 1) .null

/-- Its executor, after five calls on a table of two rows. -/
theorem drain_calls_limitedJoin :
    ∃ st, Returns ((createExecutor default 4 limitedJoin).calls [.init, .next, .next, .init, .next])
        (smallContext ["x"] [[1], [2]] none) st (smallContext ["x"] [[1], [2]] none) ∧
      runIn ((createExecutor default 4 limitedJoin).drain 5 st)
          (smallContext ["x"] [[1], [2]] none) =
        runIn ((createExecutor default 4 limitedJoin).drain 5
          (createExecutor default 4 limitedJoin).fresh) (smallContext ["x"] [[1], [2]] none) := by
  have hok : (runIn ((createExecutor default 4 limitedJoin).calls
      [.init, .next, .next, .init, .next]) (smallContext ["x"] [[1], [2]] none)).map
        (fun r => r.1.isOk) = some true := by
    decide +kernel
  obtain ⟨st, ctx', hcalls⟩ := exists_returns hok
  obtain ⟨rfl, hdrain⟩ := drain_calls default 4 5 (by decide) hcalls
  exact ⟨st, hcalls, hdrain⟩

end OneBase
