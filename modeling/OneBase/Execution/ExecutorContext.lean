import OneBase.Catalog.Catalog

set_option relaxedAutoImplicit false
set_option autoImplicit false

/-!
# The context of the executors

`execution/executor_context.h`: the catalog and the buffer pool, which every executor shares. The
executors run in a monad that keeps both, also when an exception is thrown.

## Main definitions

* `OneBase.ExecutorContext` — the catalog and the pages.
* `OneBase.Exec` — computations on them that may throw or have no defined behaviour.
* `OneBase.Exec.Returns` — a computation returns a result and leaves a context.

## Main results

* `OneBase.Exec.returns_bind` — a sequence returns iff its parts do.
-/

namespace OneBase

open Effect

/-- `ExecutorContext`: the catalog, and the pages behind the buffer pool with its `pool_size_`. -/
structure ExecutorContext where
  catalog : Catalog := {}
  bpm : PageStore TablePage := {}
  poolSize : ℕ∞ := ⊤

/-- A computation of the executors; `none` is undefined behaviour, or that fuel ran out. -/
abbrev Exec (α : Type) := ExceptT Exception (StateT ExecutorContext Option) α

namespace Exec

variable {α β : Type}

/-- The outcome in a context. -/
def runIn (x : Exec α) (ctx : ExecutorContext) : Option (Except Exception α × ExecutorContext) :=
  (ExceptT.run x).run ctx

/-- Undefined behaviour, or no fuel left. -/
def undefined : Exec α := ExceptT.mk fun _ => none

/-- A computation that does not touch the context. -/
def ofCpp (x : Cpp α) : Exec α := ExceptT.mk fun ctx => x.run.map fun r => (r, ctx)

/-- A program on the buffer pool. -/
def ofProgram (p : Program (PoolCall TablePage) α) : Exec α :=
  ExceptT.mk fun ctx => (p.run (PageStore.handler ctx.poolSize) ctx.bpm).map fun r =>
    (.ok r.1, { ctx with bpm := r.2 })

/-- A program on the buffer pool that may throw. -/
def ofThrowing (p : Program (PoolCall TablePage) (Except Exception α)) : Exec α := do
  match ← ofProgram p with
  | .ok a => pure a
  | .error e => throw e

/-- `GetCatalog`. -/
def getCatalog : Exec Catalog := do
  let ctx ← (get : Exec ExecutorContext)
  pure ctx.catalog

/-- A change of the catalog. -/
def modifyCatalog (f : Catalog → Catalog) : Exec Unit :=
  modify fun ctx => { ctx with catalog := f ctx.catalog }

/-- What a pointer points to; a `nullptr` may not be dereferenced. -/
def deref (x : Option α) : Exec α :=
  match x with
  | some a => pure a
  | none => undefined

/-- In `ctx` the computation returns `a` and leaves `ctx'`. -/
def Returns (x : Exec α) (ctx : ExecutorContext) (a : α) (ctx' : ExecutorContext) : Prop :=
  runIn x ctx = some (.ok a, ctx')

section Rules

variable {x : Exec α} {f : α → Exec β} {ctx ctx' : ExecutorContext} {a a' : α} {b : β}

/-- A sequence runs its second part on what the first one returns, and stops if that throws. -/
lemma runIn_bind (x : Exec α) (f : α → Exec β) (ctx : ExecutorContext) :
    runIn (x >>= f) ctx = (runIn x ctx).bind fun r =>
      match r.1 with
      | .ok a => runIn (f a) r.2
      | .error e => some (.error e, r.2) := by
  unfold runIn
  rw [ExceptT.run_bind, StateT.run_bind]
  cases h : (ExceptT.run x).run ctx with
  | none => rfl
  | some r =>
    obtain ⟨r, ctx'⟩ := r
    cases r <;> rfl

/-- A sequence returns iff its parts do. -/
lemma returns_bind : Returns (x >>= f) ctx b ctx' ↔
    ∃ a ctx₁, Returns x ctx a ctx₁ ∧ Returns (f a) ctx₁ b ctx' := by
  unfold Returns
  rw [runIn_bind]
  constructor
  · intro h
    obtain ⟨⟨r, ctx₁⟩, hr, hrest⟩ := Option.bind_eq_some_iff.1 h
    cases r with
    | error e =>
      have hcontra := congrArg (Option.map Prod.fst) hrest
      cases hcontra
    | ok a => exact ⟨a, ctx₁, hr, hrest⟩
  · rintro ⟨a, ctx₁, hx, hf⟩
    rw [hx]
    exact hf

/-- A computation whose outcome is a result returns. -/
lemma exists_returns (h : (runIn x ctx).map (fun r => r.1.isOk) = some true) :
    ∃ a ctx', Returns x ctx a ctx' := by
  obtain ⟨⟨r, ctx'⟩, hr, hok⟩ := Option.map_eq_some_iff.1 h
  cases r with
  | error e => cases hok
  | ok a => exact ⟨a, ctx', hr⟩

/-- A computation without effect returns its result. -/
@[simp] lemma returns_pure : Returns (pure a : Exec α) ctx a' ctx' ↔ a = a' ∧ ctx = ctx' := by
  show some ((Except.ok a : Except Exception α), ctx) = some (.ok a', ctx') ↔ _
  rw [Option.some.injEq, Prod.mk.injEq, Except.ok.injEq]

/-- Undefined behaviour does not return. -/
lemma not_returns_undefined : ¬ Returns (undefined : Exec α) ctx a ctx' := by
  intro h
  cases h

/-- A computation that throws does not return. -/
lemma not_returns_throw (e : Exception) : ¬ Returns (throw e : Exec α) ctx a ctx' := by
  intro h
  have hcontra := congrArg (Option.map Prod.fst) h
  cases hcontra

/-- A computation without the context returns its result and leaves the context. -/
@[simp] lemma returns_ofCpp {x : Cpp α} :
    Returns (ofCpp x) ctx a ctx' ↔ x = pure a ∧ ctx = ctx' := by
  show Option.map (fun r => (r, ctx)) x.run = some (.ok a, ctx') ↔ _
  rw [Option.map_eq_some_iff]
  constructor
  · rintro ⟨r, hr, heq⟩
    obtain ⟨rfl, rfl⟩ := Prod.mk.inj heq
    exact ⟨hr, rfl⟩
  · rintro ⟨rfl, rfl⟩
    exact ⟨_, rfl, rfl⟩

/-- A program on the buffer pool returns its result and leaves what it makes of the pages. -/
@[simp] lemma returns_ofProgram {p : Program (PoolCall TablePage) α} :
    Returns (ofProgram p) ctx a ctx' ↔ ∃ bpm,
      p.run (PageStore.handler ctx.poolSize) ctx.bpm = some (a, bpm) ∧
        ctx' = { ctx with bpm := bpm } := by
  show Option.map _ (p.run (PageStore.handler ctx.poolSize) ctx.bpm) =
    some ((Except.ok a : Except Exception α), ctx') ↔ _
  rw [Option.map_eq_some_iff]
  constructor
  · rintro ⟨⟨r, bpm⟩, hr, heq⟩
    obtain ⟨hok, rfl⟩ := Prod.mk.inj heq
    obtain rfl := Except.ok.inj hok
    exact ⟨bpm, hr, rfl⟩
  · rintro ⟨bpm, hr, rfl⟩
    exact ⟨(a, bpm), hr, rfl⟩

/-- A program that may throw returns if it does not. -/
@[simp] lemma returns_ofThrowing {p : Program (PoolCall TablePage) (Except Exception α)} :
    Returns (ofThrowing p) ctx a ctx' ↔ ∃ bpm,
      p.run (PageStore.handler ctx.poolSize) ctx.bpm = some (.ok a, bpm) ∧
        ctx' = { ctx with bpm := bpm } := by
  unfold ofThrowing
  rw [returns_bind]
  constructor
  · rintro ⟨r, ctx₁, hr, hrest⟩
    obtain ⟨bpm, hrun, rfl⟩ := returns_ofProgram.1 hr
    cases r with
    | error e => exact absurd hrest (not_returns_throw e)
    | ok a' =>
      obtain ⟨rfl, rfl⟩ := returns_pure.1 hrest
      exact ⟨bpm, hrun, rfl⟩
  · rintro ⟨bpm, hrun, rfl⟩
    exact ⟨Except.ok a, _, returns_ofProgram.2 ⟨bpm, hrun, rfl⟩, returns_pure.2 ⟨rfl, rfl⟩⟩

/-- Reading the catalog. -/
@[simp] lemma returns_getCatalog {c : Catalog} :
    Returns getCatalog ctx c ctx' ↔ ctx.catalog = c ∧ ctx = ctx' := by
  show some ((Except.ok ctx.catalog : Except Exception Catalog), ctx) = some (.ok c, ctx') ↔ _
  rw [Option.some.injEq, Prod.mk.injEq, Except.ok.injEq]

/-- Changing the catalog. -/
@[simp] lemma returns_modifyCatalog {f : Catalog → Catalog} :
    Returns (modifyCatalog f) ctx () ctx' ↔ ctx' = { ctx with catalog := f ctx.catalog } := by
  show some ((Except.ok () : Except Exception Unit), { ctx with catalog := f ctx.catalog }) =
    some (.ok (), ctx') ↔ _
  rw [Option.some.injEq, Prod.mk.injEq]
  simp [eq_comm]

/-- Using a pointer returns if it is not null. -/
@[simp] lemma returns_deref {o : Option α} :
    Returns (deref o) ctx a ctx' ↔ o = some a ∧ ctx = ctx' := by
  cases o with
  | none => simpa [deref] using not_returns_undefined
  | some b => simp [deref]

/-- What a computation returns is determined. -/
lemma Returns.unique {ctx₁ ctx₂ : ExecutorContext} (h : Returns x ctx a ctx₁)
    (h' : Returns x ctx a' ctx₂) : a = a' ∧ ctx₁ = ctx₂ := by
  have heq := h.symm.trans h'
  obtain ⟨hok, rfl⟩ := Prod.mk.inj (Option.some.inj heq)
  exact ⟨Except.ok.inj hok, rfl⟩

end Rules

end Exec

end OneBase
