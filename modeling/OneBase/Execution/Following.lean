import OneBase.Execution.SeqScan

set_option relaxedAutoImplicit false
set_option autoImplicit false

/-!
# Runs that follow a pure computation

A loop of an executor changes the database, and may stop at any row with an exception or without
defined behaviour. What it does with the rows is said by a pure computation that stops where the
loop stops, and by what holds of the database if it returns.

## Main definitions

* `OneBase.Exec.Follows` — a run that stops where the pure computation does.
* `OneBase.nextRow` — the next row that a scan returns.

## Main results

* `OneBase.Exec.Follows.bind` — sequences.
* `OneBase.HeapTable.follows_seqScanNext` — a scan.
-/

namespace OneBase

open TableHeap

namespace Exec

variable {α β γ δ : Type} {x : Exec α} {f : α → Exec γ} {o : Cpp β} {g : β → Cpp δ}
  {ctx ctx' : ExecutorContext} {a : α} {Q : β → α → ExecutorContext → Prop}
  {R : δ → γ → ExecutorContext → Prop}

/-- In `ctx` the computation does what the pure one does: it has no defined behaviour, or throws, or
it returns, and then `Q` holds. -/
def Follows (x : Exec α) (ctx : ExecutorContext) (o : Cpp β)
    (Q : β → α → ExecutorContext → Prop) : Prop :=
  match o with
  | none => runIn x ctx = none
  | some (.error e) => ∃ ctx', runIn x ctx = some (.error e, ctx')
  | some (.ok b) => ∃ a ctx', Returns x ctx a ctx' ∧ Q b a ctx'

/-- A computation that returns follows the result that it is expected to have. -/
lemma follows_of_returns {b : β} (h : Returns x ctx a ctx') (hQ : Q b a ctx') :
    Follows x ctx (pure b) Q :=
  ⟨a, ctx', h, hQ⟩

/-- What is known of the outcome may be weakened, with what the computation returns. -/
lemma Follows.mono {Q' : β → α → ExecutorContext → Prop} (h : Follows x ctx o Q)
    (himp : ∀ b a ctx', Returns x ctx a ctx' → Q b a ctx' → Q' b a ctx') : Follows x ctx o Q' := by
  match o with
  | none => exact h
  | some (.error e) => exact h
  | some (.ok b) =>
    obtain ⟨a, ctx', hret, hQ⟩ := h
    exact ⟨a, ctx', hret, himp b a ctx' hret hQ⟩

/-- A sequence follows a sequence. -/
lemma Follows.bind (h : Follows x ctx o Q)
    (hf : ∀ b a ctx', o = pure b → Q b a ctx' → Follows (f a) ctx' (g b) R) :
    Follows (x >>= f) ctx (o >>= g) R := by
  match o with
  | none =>
    have hrun : runIn x ctx = none := h
    show runIn (x >>= f) ctx = none
    rw [runIn_bind, hrun]
    rfl
  | some (.error e) =>
    obtain ⟨ctx', hrun⟩ := h
    refine ⟨ctx', ?_⟩
    rw [runIn_bind, hrun]
    rfl
  | some (.ok b) =>
    obtain ⟨a, ctx', hret, hQ⟩ := h
    have hrest := hf b a ctx' rfl hQ
    have hbind : runIn (x >>= f) ctx = runIn (f a) ctx' := by
      rw [runIn_bind, show runIn x ctx = some (.ok a, ctx') from hret]
      rfl
    show Follows (x >>= f) ctx ((pure b : Cpp β) >>= g) R
    rw [pure_bind]
    generalize g b = o' at hrest
    match o' with
    | none => exact hbind.trans hrest
    | some (.error e) =>
      obtain ⟨c, hrun⟩ := hrest
      exact ⟨c, hbind.trans hrun⟩
    | some (.ok d) =>
      obtain ⟨y, c, hret', hR⟩ := hrest
      exact ⟨y, c, hbind.trans hret', hR⟩

/-- A first part that returns is left out. -/
lemma Follows.of_returns {o : Cpp δ} (h : Returns x ctx a ctx') (hf : Follows (f a) ctx' o R) :
    Follows (x >>= f) ctx o R := by
  have hpure : Follows x ctx (pure () : Cpp Unit) fun _ y c => y = a ∧ c = ctx' :=
    follows_of_returns h ⟨rfl, rfl⟩
  have hbind := hpure.bind (g := fun _ => o) (f := f) (R := R) fun _ y c _ hy => by
    rw [hy.1, hy.2]
    exact hf
  rwa [pure_bind] at hbind

/-- A computation without the context follows itself. -/
lemma follows_ofCpp (o : Cpp α) (ctx : ExecutorContext) :
    Follows (ofCpp o) ctx o fun b a ctx' => a = b ∧ ctx' = ctx := by
  match o with
  | none => rfl
  | some (.error e) => exact ⟨ctx, rfl⟩
  | some (.ok b) => exact ⟨b, ctx, rfl, rfl, rfl⟩

/-- A pure first part is followed by itself. -/
lemma Follows.ofCpp_bind {o : Cpp α} {g : α → Cpp δ}
    (hf : ∀ a, o = pure a → Follows (f a) ctx (g a) R) :
    Follows (ofCpp o >>= f) ctx (o >>= g) R := by
  refine (follows_ofCpp o ctx).bind ?_
  rintro a _ _ ha ⟨rfl, rfl⟩
  exact hf _ ha

end Exec

open Exec

/-- The next row that a scan returns, and the rows that are then ahead of it. -/
def nextRow (read : RID × List UInt8 → Cpp (Option Tuple)) :
    List (RID × List UInt8) → Cpp (Option Row × List (RID × List UInt8))
  | [] => pure (none, [])
  | r :: rows => do
    match ← read r with
    | some tuple => pure (some (tuple, r.1), rows)
    | none => nextRow read rows

section Scans

variable {ctx : ExecutorContext} {tableInfo : TableInfo} {pages : Pages} {predicate : Expression}
  {before rows : List (RID × List UInt8)} {fuel n : ℕ}

/-- A scan follows the reading of its rows. -/
lemma HeapTable.follows_seqScanNext (h : HeapTable ctx tableInfo pages) (hfuel : pages.length < fuel)
    (hn : rows.length < n) (hrows : liveRows pages = before ++ rows) :
    Follows (seqScanNext fuel predicate n (scanAt tableInfo rows)) ctx
      (nextRow (scanRow predicate tableInfo.schema) rows)
      fun found st ctx' => st = (found.1, scanAt tableInfo found.2) ∧ ctx' = ctx := by
  induction rows generalizing before n with
  | nil =>
    obtain ⟨n, rfl⟩ := Nat.exists_eq_add_of_lt hn
    exact follows_of_returns (returns_seqScanNext_nil.2 ⟨rfl, rfl, rfl⟩) ⟨rfl, rfl⟩
  | cons r rows ih =>
    rw [List.length_cons] at hn
    obtain ⟨n, rfl⟩ : ∃ m, n = m + 1 := ⟨n - 1, by omega⟩
    obtain ⟨rid, b⟩ := r
    have hmem : (rid, b) ∈ liveRows pages := by
      rw [hrows]
      simp
    have hne : (scanAt tableInfo ((rid, b) :: rows)).iter ≠ endIterator := (h.length_le hmem).1
    have hget := h.holds.getTuple h.ready h.frames hmem
    have hincrement := (h.holds.increment h.ready h.frames hrows fuel).1 hfuel
    rw [seqScanNext, if_neg hne]
    refine Follows.of_returns (returns_deref.2 ⟨rfl, rfl⟩) ?_
    refine Follows.of_returns (returns_ofThrowing.2 ⟨ctx.bpm, hget, rfl⟩) ?_
    refine Follows.of_returns (returns_ofProgram.2 ⟨ctx.bpm, hincrement, rfl⟩) ?_
    rw [nextRow, scanRow, bind_assoc]
    refine Follows.ofCpp_bind fun keep hkeep => ?_
    cases keep with
    | false =>
      have hrows' : liveRows pages = (before ++ [(rid, b)]) ++ rows := by
        rw [hrows]
        simp
      exact ih (by omega) hrows'
    | true =>
      rw [if_pos rfl, if_pos rfl, bind_assoc]
      refine Follows.ofCpp_bind fun values hvalues => ?_
      rw [bind_assoc]
      refine Follows.ofCpp_bind fun tuple htuple => ?_
      exact follows_of_returns (returns_pure.2 ⟨rfl, rfl⟩) ⟨rfl, rfl⟩

/-- The rows that are then ahead are fewer. -/
lemma nextRow_spec {read : RID × List UInt8 → Cpp (Option Tuple)} {row : Row}
    {rest : List (RID × List UInt8)} (h : nextRow read rows = pure (some row, rest)) :
    ∃ seen, rows = seen ++ rest ∧ rest.length < rows.length := by
  induction rows with
  | nil => cases h
  | cons r rows ih =>
    obtain ⟨o, -, h⟩ := Cpp.bind_eq_pure.1 h
    cases o with
    | some tuple =>
      cases h
      exact ⟨[r], rfl, Nat.lt_succ_self _⟩
    | none =>
      obtain ⟨seen, rfl, hlt⟩ := ih h
      exact ⟨r :: seen, rfl, Nat.lt_succ_of_lt hlt⟩

end Scans

end OneBase
