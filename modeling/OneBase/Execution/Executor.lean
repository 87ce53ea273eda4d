import OneBase.Execution.ExecutorContext

set_option relaxedAutoImplicit false
set_option autoImplicit false

/-!
# Executors

`execution/executors/abstract_executor.h` and `execution_engine.cpp`. An executor is an object
with a state that `Init` and `Next` change; `Init` is called again to start over. The loops
`while (child_executor_->Next(..))` take fuel.

## Main definitions

* `OneBase.Executor` — the interface.
* `OneBase.forEachRow` — the loop over the rows of a child.
* `OneBase.execute` — `ExecutionEngine::Execute`.
* `OneBase.Executor.Yields` — an executor that leaves the context alone, and its rows.

## Main results

* `OneBase.forEachRow_emits` — the loop over given rows is a fold.
* `OneBase.returns_execute_iff`, `OneBase.returns_execute` — what the engine returns.
-/

namespace OneBase

open Exec

/-- A row on its way through the executors. -/
abbrev Row := Tuple × RID

/-- `AbstractExecutor`: the members of the object, as constructed, `Init`, `Next` and
`GetOutputSchema`. -/
structure Executor where
  State : Type
  fresh : State
  init : State → Exec State
  next : State → Exec (Option Row × State)
  outputSchema : Schema

/-- `while (next(&tuple, &rid)) { .. }`, where the body changes `acc`. -/
def forEachRow {σ β : Type} (next : σ → Exec (Option Row × σ)) (body : β → Row → Exec β) :
    ℕ → σ → β → Exec (σ × β)
  | 0, _, _ => undefined
  | fuel + 1, st, acc => do
    match ← next st with
    | (none, st) => pure (st, acc)
    | (some row, st) =>
      let acc ← body acc row
      forEachRow next body fuel st acc

/-- `ExecutionEngine::Execute`. -/
def execute (fuel : ℕ) (executor : Executor) : Exec (List Tuple) := do
  let st ← executor.init executor.fresh
  let (_, resultSet) ← forEachRow executor.next (fun acc row => pure (acc ++ [row.1])) fuel st []
  pure resultSet

/-! ## Children that leave the context alone -/

/-- In the context `ctx`, the calls of `next` from the state `st` on return the rows, and then
there are no more. -/
inductive Emits {σ : Type} (next : σ → Exec (Option Row × σ)) (ctx : ExecutorContext) :
    σ → List Row → σ → Prop
  | done {st st' : σ} (h : Returns (next st) ctx (none, st') ctx) : Emits next ctx st [] st'
  | row {st st' st'' : σ} {row : Row} {rows : List Row}
      (h : Returns (next st) ctx (some row, st') ctx) (hrest : Emits next ctx st' rows st'') :
      Emits next ctx st (row :: rows) st''

/-- From every state it is in, `Init` prepares the executor to return these rows. -/
def Executor.Yields (ex : Executor) (ctx : ExecutorContext) (rows : List Row) : Prop :=
  ∀ st, ∃ st' st'', Returns (ex.init st) ctx st' ctx ∧ Emits ex.next ctx st' rows st''

section Loops

variable {σ β : Type} {next : σ → Exec (Option Row × σ)} {body : β → Row → Exec β}
  {ctx ctx' : ExecutorContext} {st st' s : σ} {rows : List Row} {acc b : β} {fuel : ℕ}

/-- The rule of the loop: an invariant that a call of `next` and the body preserve. -/
lemma forEachRow_rule {I Q : σ → β → ExecutorContext → Prop}
    (hrow : ∀ st acc c row st' c' acc' c'', I st acc c → Returns (next st) c (some row, st') c' →
      Returns (body acc row) c' acc' c'' → I st' acc' c'')
    (hdone : ∀ st acc c st' c', I st acc c → Returns (next st) c (none, st') c' → Q st' acc c')
    (hstart : I st acc ctx) (h : Returns (forEachRow next body fuel st acc) ctx (s, b) ctx') :
    Q s b ctx' := by
  induction fuel generalizing st acc ctx with
  | zero => exact absurd h not_returns_undefined
  | succ fuel ih =>
    rw [forEachRow, returns_bind] at h
    obtain ⟨⟨o, st₁⟩, c, hnext, hrest⟩ := h
    cases o with
    | none =>
      obtain ⟨heq, rfl⟩ := returns_pure.1 hrest
      obtain ⟨rfl, rfl⟩ := Prod.mk.inj heq
      exact hdone _ _ _ _ _ hstart hnext
    | some row =>
      obtain ⟨acc', c', hbody, hloop⟩ := returns_bind.1 hrest
      exact ih (hrow _ _ _ _ _ _ _ _ hstart hnext hbody) hloop

/-- If the loop returns, then `next` has returned rows, one after the other. `I` holds of the
states that it goes through. -/
lemma emits_of_forEachRow {I : σ → Prop}
    (hnext : ∀ st o st' c, I st → Returns (next st) ctx (o, st') c → c = ctx ∧ I st')
    (hbody : ∀ acc row b c, Returns (body acc row) ctx b c → c = ctx) (hstart : I st)
    (h : Returns (forEachRow next body fuel st acc) ctx (s, b) ctx') :
    ∃ rows, Emits next ctx st rows s ∧ I s := by
  induction fuel generalizing st acc with
  | zero => exact absurd h not_returns_undefined
  | succ fuel ih =>
    rw [forEachRow, returns_bind] at h
    obtain ⟨⟨o, st₁⟩, c, hret, hrest⟩ := h
    obtain ⟨rfl, hst₁⟩ := hnext _ _ _ _ hstart hret
    cases o with
    | none =>
      obtain ⟨heq, rfl⟩ := returns_pure.1 hrest
      obtain ⟨rfl, rfl⟩ := Prod.mk.inj heq
      exact ⟨[], .done hret, hst₁⟩
    | some row =>
      obtain ⟨acc', c', hacc, hloop⟩ := returns_bind.1 hrest
      obtain rfl := hbody _ _ _ _ hacc
      obtain ⟨rows, hrows, hs⟩ := ih hst₁ hloop
      exact ⟨row :: rows, .row hret hrows, hs⟩

/-- The loop over given rows is a fold, if its body leaves the context alone. -/
lemma forEachRow_emits (h : Emits next ctx st rows st')
    (hbody : ∀ acc row b c, row ∈ rows → Returns (body acc row) ctx b c → c = ctx) :
    Returns (forEachRow next body fuel st acc) ctx (s, b) ctx' ↔
      rows.length < fuel ∧ s = st' ∧ ctx' = ctx ∧ Returns (rows.foldlM body acc) ctx b ctx := by
  induction h generalizing fuel acc with
  | done hnext =>
    cases fuel with
    | zero =>
      simp only [forEachRow, Nat.not_lt_zero, false_and, iff_false]
      exact not_returns_undefined
    | succ fuel =>
      rw [forEachRow, returns_bind]
      constructor
      · rintro ⟨r, c, hr, hrest⟩
        obtain ⟨rfl, rfl⟩ := hr.unique hnext
        obtain ⟨heq, rfl⟩ := returns_pure.1 hrest
        obtain ⟨rfl, rfl⟩ := Prod.mk.inj heq
        exact ⟨by simp, rfl, rfl, returns_pure.2 ⟨rfl, rfl⟩⟩
      · rintro ⟨-, rfl, rfl, hfold⟩
        obtain ⟨rfl, -⟩ := returns_pure.1 hfold
        exact ⟨_, _, hnext, returns_pure.2 ⟨rfl, rfl⟩⟩
  | @row st st₁ st₂ r rows hnext hrest ih =>
    have hbody' : ∀ acc row b c, row ∈ rows → Returns (body acc row) ctx b c → c = ctx :=
      fun acc row b c hmem => hbody acc row b c (List.mem_cons_of_mem _ hmem)
    cases fuel with
    | zero =>
      simp only [forEachRow, Nat.not_lt_zero, false_and, iff_false]
      exact not_returns_undefined
    | succ fuel =>
      rw [forEachRow, returns_bind, List.foldlM_cons, List.length_cons,
        Nat.add_lt_add_iff_right]
      constructor
      · rintro ⟨x, c, hx, hloop⟩
        obtain ⟨rfl, rfl⟩ := hx.unique hnext
        change Returns (body acc r >>= forEachRow next body fuel st₁) _ _ _ at hloop
        obtain ⟨acc', c', hacc, htail⟩ := returns_bind.1 hloop
        obtain rfl := hbody _ _ _ _ List.mem_cons_self hacc
        obtain ⟨hlen, rfl, rfl, hfold⟩ := (ih hbody').1 htail
        exact ⟨hlen, rfl, rfl, returns_bind.2 ⟨acc', _, hacc, hfold⟩⟩
      · rintro ⟨hlen, rfl, rfl, hfold⟩
        obtain ⟨acc', c', hacc, htail⟩ := returns_bind.1 hfold
        obtain rfl := hbody _ _ _ _ List.mem_cons_self hacc
        exact ⟨_, _, hnext, returns_bind.2 ⟨acc', _, hacc, (ih hbody').2 ⟨hlen, rfl, rfl, htail⟩⟩⟩

/-- A fold whose steps do not touch the context. -/
lemma returns_foldlM_ofCpp {f : β → Row → Cpp β} :
    Returns (rows.foldlM (fun acc row => ofCpp (f acc row)) acc) ctx b ctx' ↔
      rows.foldlM f acc = pure b ∧ ctx = ctx' := by
  induction rows generalizing acc with
  | nil =>
    rw [List.foldlM_nil, List.foldlM_nil, returns_pure]
    constructor
    · rintro ⟨rfl, rfl⟩
      exact ⟨rfl, rfl⟩
    · rintro ⟨hb, rfl⟩
      cases hb
      exact ⟨rfl, rfl⟩
  | cons row rows ih =>
    rw [List.foldlM_cons, List.foldlM_cons, returns_bind, Cpp.bind_eq_pure]
    constructor
    · rintro ⟨a, c, hstep, hfold⟩
      obtain ⟨ha, rfl⟩ := returns_ofCpp.1 hstep
      obtain ⟨hrest, rfl⟩ := ih.1 hfold
      exact ⟨⟨a, ha, hrest⟩, rfl⟩
    · rintro ⟨⟨a, ha, hrest⟩, rfl⟩
      exact ⟨a, ctx, returns_ofCpp.2 ⟨ha, rfl⟩, ih.2 ⟨hrest, rfl⟩⟩

/-- The loop over given rows, whose body does not touch the context. -/
lemma forEachRow_ofCpp {f : β → Row → Cpp β} (h : Emits next ctx st rows st') :
    Returns (forEachRow next (fun acc row => ofCpp (f acc row)) fuel st acc) ctx (s, b) ctx' ↔
      rows.length < fuel ∧ s = st' ∧ ctx' = ctx ∧ rows.foldlM f acc = pure b := by
  rw [forEachRow_emits h fun acc row b c _ hret => (returns_ofCpp.1 hret).2.symm,
    returns_foldlM_ofCpp]
  simp

end Loops

section Engine

variable {ex : Executor} {ctx ctx' : ExecutorContext} {rows : List Row}
  {acc result b : List Tuple} {fuel : ℕ}

/-- Collecting rows. -/
lemma foldlM_append_row (rows : List Row) (acc : List Tuple) :
    rows.foldlM (fun acc row => (pure (acc ++ [row.1]) : Exec (List Tuple))) acc =
      pure (acc ++ rows.map Prod.fst) := by
  induction rows generalizing acc with
  | nil => simp
  | cons row rows ih => simp [ih]

/-- The loop that collects the rows. -/
lemma forEachRow_collect {σ : Type} {next : σ → Exec (Option Row × σ)} {st st' s : σ}
    (h : Emits next ctx st rows st') :
    Returns (forEachRow next (fun acc row => pure (acc ++ [row.1])) fuel st acc) ctx (s, b) ctx' ↔
      rows.length < fuel ∧ s = st' ∧ ctx' = ctx ∧ b = acc ++ rows.map Prod.fst := by
  rw [forEachRow_emits h fun acc row b c _ hret => (returns_pure.1 hret).2.symm,
    foldlM_append_row, returns_pure]
  simp [eq_comm]

/-- What the engine returns for an executor whose `Next` only returns rows. -/
lemma returns_execute_iff {rowsOf : ex.State → List Row}
    (h : ∀ st c, Returns (ex.init ex.fresh) ctx st c → ∃ st', Emits ex.next c st (rowsOf st) st') :
    Returns (execute fuel ex) ctx result ctx' ↔
      ∃ st, Returns (ex.init ex.fresh) ctx st ctx' ∧ (rowsOf st).length < fuel ∧
        result = (rowsOf st).map Prod.fst := by
  unfold execute
  rw [returns_bind]
  constructor
  · rintro ⟨st, c, hinit, hrest⟩
    obtain ⟨st', hemits⟩ := h st c hinit
    obtain ⟨⟨s, b⟩, c', hloop, hpure⟩ := returns_bind.1 hrest
    obtain ⟨hlen, -, rfl, rfl⟩ := (forEachRow_collect hemits).1 hloop
    obtain ⟨rfl, rfl⟩ := returns_pure.1 hpure
    exact ⟨st, hinit, hlen, by simp⟩
  · rintro ⟨st, hinit, hlen, rfl⟩
    obtain ⟨st', hemits⟩ := h st ctx' hinit
    refine ⟨st, ctx', hinit, returns_bind.2 ⟨(st', _), ctx', ?_, returns_pure.2 ⟨rfl, rfl⟩⟩⟩
    exact (forEachRow_collect hemits).2 ⟨hlen, rfl, rfl, by simp⟩

/-- The engine returns the rows of an executor that leaves the context alone. -/
lemma returns_execute (h : ex.Yields ctx rows) :
    Returns (execute fuel ex) ctx result ctx' ↔
      rows.length < fuel ∧ result = rows.map Prod.fst ∧ ctx' = ctx := by
  obtain ⟨st', st'', hinit, hemits⟩ := h ex.fresh
  have hrows : ∀ st c, Returns (ex.init ex.fresh) ctx st c → ∃ st', Emits ex.next c st rows st' := by
    intro st c hst
    obtain ⟨rfl, rfl⟩ := hst.unique hinit
    exact ⟨st'', hemits⟩
  rw [returns_execute_iff hrows]
  constructor
  · rintro ⟨st, hst, hlen, rfl⟩
    exact ⟨hlen, rfl, (hst.unique hinit).2⟩
  · rintro ⟨hlen, rfl, rfl⟩
    exact ⟨st', hinit, hlen, rfl⟩

end Engine

end OneBase
