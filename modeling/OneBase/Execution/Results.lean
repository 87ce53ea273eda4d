import OneBase.Execution.ExecutorFactory

set_option relaxedAutoImplicit false
set_option autoImplicit false

/-!
# The rows of the executors

Rules that give the rows of an executor from those of its child.

## Main definitions

* `OneBase.placeless` — rows that no heap holds.
* `OneBase.rowsExecutor` — an executor with given rows.

## Main results

* `OneBase.emits_nextResult`, `OneBase.returns_execute_nextResult` — classes that compute their
  rows in `Init`.
* `OneBase.Executor.Yields.sort`, `limit`, `projection` — the operators above a scan or a join.
-/

namespace OneBase

open Exec

section Results

variable {σ : Type} {ctx ctx' : ExecutorContext} {st : Materialized σ} {fuel : ℕ}
  {rows : List Tuple}

/-- The rows of a join or of a sort, which have no place in a heap. -/
def placeless (tuples : List Tuple) : List Row := tuples.map fun tuple => (tuple, default)

/-- The tuples of the rows. -/
@[simp] lemma placeless_fst (tuples : List Tuple) : (placeless tuples).map Prod.fst = tuples := by
  simp [placeless, Function.comp_def]

/-- There are as many rows as tuples. -/
@[simp] lemma length_placeless (tuples : List Tuple) : (placeless tuples).length = tuples.length :=
  List.length_map ..

/-- `Next` returns the computed rows from the cursor on. -/
lemma emits_nextResult (ctx : ExecutorContext) (children : σ) (before tuples : List Tuple) :
    ∃ st', Emits nextResult ctx
      { children := children, resultTuples := before ++ tuples, cursor := before.length }
      (placeless tuples) st' := by
  induction tuples generalizing before with
  | nil =>
    have hdone : Returns (nextResult (⟨children, before ++ [], before.length⟩ : Materialized σ))
        ctx (none, ⟨children, before ++ [], before.length⟩) ctx := by
      rw [nextResult, List.append_nil, List.getElem?_eq_none le_rfl]
      exact returns_pure.2 ⟨rfl, rfl⟩
    exact ⟨_, .done hdone⟩
  | cons tuple tuples ih =>
    obtain ⟨st', hst'⟩ := ih (before ++ [tuple])
    rw [List.append_assoc, List.singleton_append, List.length_append, List.length_singleton]
      at hst'
    refine ⟨st', .row ?_ hst'⟩
    rw [nextResult, List.getElem?_append_right le_rfl, Nat.sub_self, List.getElem?_cons_zero]
    exact returns_pure.2 ⟨rfl, rfl⟩

/-- What the engine returns for a class that computes its rows in `Init`. -/
lemma returns_execute_nextResult {fresh : Materialized σ}
    {init : Materialized σ → Exec (Materialized σ)} {outputSchema : Schema}
    (hcursor : ∀ st c, Returns (init fresh) ctx st c → st.cursor = 0) :
    Returns (execute fuel ⟨Materialized σ, fresh, init, nextResult, outputSchema⟩) ctx rows ctx' ↔
      ∃ st, Returns (init fresh) ctx st ctx' ∧ st.resultTuples.length < fuel ∧
        rows = st.resultTuples := by
  have hemits : ∀ (st : Materialized σ) c, Returns (init fresh) ctx st c →
      ∃ st', Emits nextResult c st (placeless st.resultTuples) st' := by
    rintro ⟨children, tuples, cursor⟩ c hinit
    obtain rfl : cursor = 0 := hcursor _ _ hinit
    exact emits_nextResult c children [] tuples
  have hexec := @returns_execute_iff ⟨Materialized σ, fresh, init, nextResult, outputSchema⟩
    ctx ctx' rows fuel _ hemits
  simpa using hexec

end Results

/-! ## Given rows -/

/-- An executor with these rows. -/
def rowsExecutor (outputSchema : Schema) (tuples : List Tuple) : Executor where
  State := Materialized Unit
  fresh := { children := () }
  init _ := pure { children := (), resultTuples := tuples }
  next := nextResult
  outputSchema := outputSchema

/-- The executor of some tuples returns them. -/
lemma yields_rowsExecutor (outputSchema : Schema) (tuples : List Tuple) (ctx : ExecutorContext) :
    (rowsExecutor outputSchema tuples).Yields ctx (placeless tuples) := by
  intro st
  obtain ⟨st', hst'⟩ := emits_nextResult ctx () [] tuples
  exact ⟨_, st', returns_pure.2 ⟨rfl, rfl⟩, hst'⟩

/-- A row of one integer. -/
def intRow (i : BitVec 32) : Tuple :=
  { data := Memory.leBytes 4 i.toNat, values := [Value.ofInt i] }

/-! ## Operators above a child -/

section Operators

variable {std : StandardLibrary} {ctx ctx' : ExecutorContext} {child : Executor} {rows out : List Row}
  {outputSchema : Schema} {fuel : ℕ} {sorted : List Tuple} {orderBys : List (Bool × Expression)}

/-- `Init` of a sort whose child has these rows. -/
lemma Executor.Yields.returns_sortInit (h : child.Yields ctx rows)
    (st : Materialized child.State) {st' : Materialized child.State} :
    Returns ((sortExecutor std fuel outputSchema child orderBys).init st) ctx st' ctx' →
      rows.length < fuel ∧ ctx' = ctx ∧ st'.cursor = 0 ∧
        std.sort (compareRows child.outputSchema orderBys) (rows.map Prod.fst) =
          pure st'.resultTuples := by
  intro hret
  obtain ⟨s, s', hinit, hemits⟩ := h st.children
  obtain ⟨s₁, c₁, hinit₁, hret₁⟩ := returns_bind.1 hret
  obtain ⟨rfl, rfl⟩ := hinit₁.unique hinit
  obtain ⟨⟨s₂, tuples⟩, c₂, hloop, hret₂⟩ := returns_bind.1 hret₁
  obtain ⟨hlen, rfl, rfl, rfl⟩ := (forEachRow_collect hemits).1 hloop
  obtain ⟨l, c₃, hsort, hret₃⟩ := returns_bind.1 hret₂
  obtain ⟨hl, rfl⟩ := returns_ofCpp.1 hsort
  obtain ⟨rfl, rfl⟩ := returns_pure.1 hret₃
  exact ⟨hlen, rfl, rfl, hl⟩

/-- The rows of a sort. -/
lemma Executor.Yields.sort (h : child.Yields ctx rows) (hfuel : rows.length < fuel)
    (hsort : std.sort (compareRows child.outputSchema orderBys) (rows.map Prod.fst) =
      pure sorted) :
    (sortExecutor std fuel outputSchema child orderBys).Yields ctx (placeless sorted) := by
  intro st
  obtain ⟨s, s', hinit, hemits⟩ := h st.children
  obtain ⟨st', hst'⟩ := emits_nextResult ctx s' [] sorted
  refine ⟨_, st', ?_, hst'⟩
  refine returns_bind.2 ⟨s, ctx, hinit, ?_⟩
  refine returns_bind.2 ⟨(s', rows.map Prod.fst), ctx, ?_, ?_⟩
  · exact (forEachRow_collect hemits).2 ⟨hfuel, rfl, rfl, rfl⟩
  · exact returns_bind.2 ⟨sorted, ctx, returns_ofCpp.2 ⟨hsort, rfl⟩, returns_pure.2 ⟨rfl, rfl⟩⟩

/-- A limit that has counted enough rows returns none. -/
lemma returns_limitNext_end {s : child.State} {limit count : ℕ} (hend : limit ≤ count) :
    Returns ((limitExecutor outputSchema child limit).next (s, count)) ctx (none, (s, count))
      ctx := by
  dsimp only [limitExecutor]
  rw [if_pos hend]
  exact returns_pure.2 ⟨rfl, rfl⟩

/-- A limit passes on rows until it has counted enough of them. -/
lemma emits_limit {s s' : child.State} (h : Emits child.next ctx s rows s') (limit count : ℕ)
    (hcount : count ≤ limit) :
    ∃ st', Emits (limitExecutor outputSchema child limit).next ctx (s, count)
      (rows.take (limit - count)) st' := by
  induction h generalizing count with
  | @done s s' hnext =>
    rw [List.take_nil]
    by_cases hend : limit ≤ count
    · exact ⟨_, .done (returns_limitNext_end hend)⟩
    · refine ⟨(s', count), .done ?_⟩
      dsimp only [limitExecutor]
      rw [if_neg hend]
      exact returns_bind.2 ⟨_, ctx, hnext, returns_pure.2 ⟨rfl, rfl⟩⟩
  | @row s s₁ s₂ row rows hnext _ ih =>
    by_cases hend : limit ≤ count
    · rw [Nat.sub_eq_zero_of_le hend, List.take_zero]
      exact ⟨_, .done (returns_limitNext_end hend)⟩
    · obtain ⟨st', hst'⟩ := ih (count + 1) (by omega)
      have htake : limit - count = (limit - (count + 1)) + 1 := by omega
      rw [htake, List.take_succ_cons]
      refine ⟨st', .row ?_ hst'⟩
      dsimp only [limitExecutor]
      rw [if_neg hend]
      exact returns_bind.2 ⟨_, ctx, hnext, returns_pure.2 ⟨rfl, rfl⟩⟩

/-- The rows of a limit. -/
lemma Executor.Yields.limit (h : child.Yields ctx rows) (limit : ℕ) :
    (limitExecutor outputSchema child limit).Yields ctx (rows.take limit) := by
  intro st
  obtain ⟨s, s', hinit, hemits⟩ := h st.1
  obtain ⟨st', hst'⟩ := emits_limit hemits limit 0 (Nat.zero_le _)
  refine ⟨(s, 0), st', ?_, hst'⟩
  exact returns_bind.2 ⟨s, ctx, hinit, returns_pure.2 ⟨rfl, rfl⟩⟩

/-- The rows of a projection. -/
lemma Executor.Yields.projection {expressions : List Expression} (h : child.Yields ctx rows)
    (hout : List.Forall₂ (fun row o => evaluateRow expressions child.outputSchema row.1 =
      pure o.1 ∧ o.2 = row.2) rows out) :
    (projectionExecutor outputSchema child expressions).Yields ctx out := by
  intro st
  obtain ⟨s, s', hinit, hemits⟩ := h st
  refine ⟨s, s', hinit, ?_⟩
  clear hinit h
  induction hemits generalizing out with
  | done hnext =>
    cases hout
    exact .done (returns_bind.2 ⟨_, ctx, hnext, returns_pure.2 ⟨rfl, rfl⟩⟩)
  | @row s s₁ s₂ row rows hnext _ ih =>
    obtain ⟨o, out', ⟨htuple, hrid⟩, hrest, rfl⟩ := List.forall₂_cons_left_iff.1 hout
    obtain ⟨tuple, rid⟩ := o
    obtain rfl : rid = row.2 := hrid
    refine .row ?_ (ih hrest)
    refine returns_bind.2 ⟨_, ctx, hnext, ?_⟩
    exact returns_bind.2 ⟨tuple, ctx, returns_ofCpp.2 ⟨htuple, rfl⟩, returns_pure.2 ⟨rfl, rfl⟩⟩

end Operators

end OneBase
