import Mathlib.Logic.Basic
import Mathlib.Tactic.Common

set_option relaxedAutoImplicit false
set_option autoImplicit false

/-!
# Programs over an interface, and simulation of their handlers

A program that reaches its environment only through the operations of an interface `E` is a
tree of calls. A handler gives the operations a meaning on a state; the same program runs on
every handler, so a client proved correct on an abstract environment is correct on every
concrete environment that simulates it.

## Main definitions

* `Effect.Program` — a tree of calls; `fail` is undefined behaviour.
* `Effect.Program.run` — running a program on a handler.
* `Effect.Program.wp` — the total-correctness precondition of a program.
* `Effect.Handler.Simulates` — one handler can match every step another one completes.
* `Effect.Program.Meets` — some call of a run returns a bad result.
* `Effect.Program.Trusts` — a program that has no defined behaviour after a bad result.
* `Effect.Program.HingesOn` — the exact condition under which a run meets no bad result.

## Main results

* `Effect.Program.wp_bind`, `Effect.Program.wp_mono` — the rules of the calculus.
* `Effect.Program.run_of_simulates` — simulation of handlers lifts to whole programs.
* `Effect.Program.HingesOn.seq` — the conditions of the parts of a program add up.
* `Effect.Program.Trusts.run_eq_none` — a trusting program and a bad result.
-/

namespace Effect

/-- A program over the interface `E`: it returns, has no defined behaviour, or calls an
operation and continues with its result. -/
inductive Program (E : Type → Type) (α : Type) : Type 1
  | ret (a : α) : Program E α
  | fail : Program E α
  | call {β : Type} (e : E β) (k : β → Program E α) : Program E α

/-- A meaning for the operations of `E` on the state `σ`; `none` is undefined behaviour. -/
abbrev Handler (E : Type → Type) (σ : Type) : Type 1 := (β : Type) → E β → σ → Option (β × σ)

namespace Program

variable {E : Type → Type} {α β σ σ' : Type}

/-- Sequencing: continue every returning branch of `p` with `f`. -/
def bind (p : Program E α) (f : α → Program E β) : Program E β :=
  match p with
  | ret a => f a
  | fail => fail
  | call e k => call e fun b => (k b).bind f

instance : Monad (Program E) where
  pure := ret
  bind := bind

/-- The program that makes one call and returns its result. -/
def op (e : E α) : Program E α := call e ret

/-- Return the value of `o`, with undefined behaviour on `none`. -/
def ofOption : Option α → Program E α
  | some a => ret a
  | none => fail

/-- Run a program on a handler from the state `s`. -/
def run (h : Handler E σ) : Program E α → σ → Option (α × σ)
  | ret a, s => some (a, s)
  | fail, _ => none
  | call e k, s => (h _ e s).bind fun r => run h (k r.1) r.2

/-- A program that returns. -/
@[simp] lemma run_pure (h : Handler E σ) (a : α) (s : σ) :
    run h (pure a : Program E α) s = some (a, s) := rfl

/-- A program without defined behaviour. -/
@[simp] lemma run_fail (h : Handler E σ) (s : σ) :
    run h (fail : Program E α) s = none := rfl

/-- A single call. -/
@[simp] lemma run_op (h : Handler E σ) (e : E α) (s : σ) : run h (op e) s = h _ e s := by
  rw [op, run]
  cases h _ e s <;> rfl

/-- A value that may be missing. -/
@[simp] lemma run_ofOption (h : Handler E σ) (o : Option α) (s : σ) :
    run h (ofOption o) s = o.map fun a => (a, s) := by
  cases o <;> rfl

/-- Running a sequence is running its parts in turn. -/
@[simp] lemma run_bind (h : Handler E σ) (p : Program E α) (f : α → Program E β) (s : σ) :
    run h (p >>= f) s = (run h p s).bind fun r => run h (f r.1) r.2 := by
  change run h (p.bind f) s = _
  induction p generalizing s with
  | ret a => rfl
  | fail => rfl
  | call e k ih =>
    simp only [bind, run]
    cases h _ e s with
    | none => rfl
    | some r => exact ih r.1 r.2

/-- Sequencing is associative. -/
lemma bind_assoc {γ : Type} (p : Program E α) (f : α → Program E β) (g : β → Program E γ) :
    p >>= f >>= g = p >>= fun a => f a >>= g := by
  change (p.bind f).bind g = p.bind fun a => (f a).bind g
  induction p with
  | ret a => rfl
  | fail => rfl
  | call e k ih =>
    simp only [bind, call.injEq, heq_eq_eq, true_and]
    funext b
    exact ih b

/-- A program whose result one unit of fuel more does not change: no more fuel does. -/
lemma run_of_le {h : Handler E σ} {program : ℕ → Program E α}
    (hsucc : ∀ fuel s r, run h (program fuel) s = some r → run h (program (fuel + 1)) s = some r)
    {s : σ} {r : α × σ} {m n : ℕ} (hmn : m ≤ n) (hrun : run h (program m) s = some r) :
    run h (program n) s = some r := by
  induction hmn with
  | refl => exact hrun
  | step _ ih => exact hsucc _ s r ih

/-- A program that returns does the same on a handler that gives more calls a meaning. -/
lemma run_of_extends {h h' : Handler E σ}
    (hext : ∀ (γ : Type) (e : E γ) (s : σ) (r : γ × σ), h γ e s = some r → h' γ e s = some r)
    {p : Program E α} {s : σ} {r : α × σ} (hrun : run h p s = some r) : run h' p s = some r := by
  induction p generalizing s with
  | ret a => exact hrun
  | fail => exact hrun
  | call e k ih =>
    obtain ⟨x, hx, hrest⟩ := Option.bind_eq_some_iff.1 hrun
    exact Option.bind_eq_some_iff.2 ⟨x, hext _ e s x hx, ih x.1 hrest⟩

/-! ## Total correctness -/

/-- From `s`, the program `p` returns, and result and final state satisfy `Q`. -/
def wp (h : Handler E σ) (p : Program E α) (Q : α → σ → Prop) (s : σ) : Prop :=
  ∃ a s', run h p s = some (a, s') ∧ Q a s'

/-- The precondition of returning a result. -/
@[simp] lemma wp_pure (h : Handler E σ) (a : α) (Q : α → σ → Prop) (s : σ) :
    wp h (pure a) Q s ↔ Q a s := by
  simp [wp]

/-- The precondition of a call. -/
@[simp] lemma wp_op (h : Handler E σ) (e : E α) (Q : α → σ → Prop) (s : σ) :
    wp h (op e) Q s ↔ ∃ a s', h _ e s = some (a, s') ∧ Q a s' := by
  simp [wp]

/-- The precondition of using a value that may be missing. -/
@[simp] lemma wp_ofOption (h : Handler E σ) (o : Option α) (Q : α → σ → Prop) (s : σ) :
    wp h (ofOption o) Q s ↔ ∃ a, o = some a ∧ Q a s := by
  cases o <;> simp [wp]

/-- The sequencing rule. -/
lemma wp_bind (h : Handler E σ) (p : Program E α) (f : α → Program E β) (Q : β → σ → Prop)
    (s : σ) : wp h (p >>= f) Q s ↔ wp h p (fun a s' => wp h (f a) Q s') s := by
  simp only [wp, run_bind]
  cases run h p s with
  | none => simp
  | some r =>
    constructor
    · intro hrun
      exact ⟨r.1, r.2, rfl, hrun⟩
    · rintro ⟨a, s', hr, hrun⟩
      obtain rfl : r = (a, s') := by simpa using hr
      exact hrun

/-- The rule of consequence. -/
lemma wp_mono {h : Handler E σ} {p : Program E α} {Q Q' : α → σ → Prop} {s : σ}
    (hp : wp h p Q s) (hQ : ∀ a s', Q a s' → Q' a s') : wp h p Q' s := by
  obtain ⟨a, s', hrun, hq⟩ := hp
  exact ⟨a, s', hrun, hQ a s' hq⟩

/-- Sequencing with an intermediate assertion. -/
lemma wp_seq {h : Handler E σ} {p : Program E α} {f : α → Program E β} {R : α → σ → Prop}
    {Q : β → σ → Prop} {s : σ} (hp : wp h p R s) (hf : ∀ a s', R a s' → wp h (f a) Q s') :
    wp h (p >>= f) Q s :=
  (wp_bind h p f Q s).2 (wp_mono hp hf)

end Program

/-! ## Simulation -/

/-- `h₂` matches, up to the relation `R` on states, every operation that `h₁` completes. -/
def Handler.Simulates {E : Type → Type} {σ₁ σ₂ : Type} (h₁ : Handler E σ₁) (h₂ : Handler E σ₂)
    (R : σ₁ → σ₂ → Prop) : Prop :=
  ∀ (β : Type) (e : E β) (s₁ : σ₁) (s₂ : σ₂) (b : β) (s₁' : σ₁), R s₁ s₂ →
    h₁ β e s₁ = some (b, s₁') → ∃ s₂', h₂ β e s₂ = some (b, s₂') ∧ R s₁' s₂'

/-- A simulation of handlers is a simulation of all programs: what a program returns on the
simulated handler it also returns on the simulating one. -/
theorem Program.run_of_simulates {E : Type → Type} {α σ₁ σ₂ : Type} {h₁ : Handler E σ₁}
    {h₂ : Handler E σ₂} {R : σ₁ → σ₂ → Prop} (hR : Handler.Simulates h₁ h₂ R)
    (p : Program E α) {s₁ s₁' : σ₁} {s₂ : σ₂} {a : α} (hs : R s₁ s₂)
    (hrun : p.run h₁ s₁ = some (a, s₁')) : ∃ s₂', p.run h₂ s₂ = some (a, s₂') ∧ R s₁' s₂' := by
  induction p generalizing s₁ s₂ with
  | ret a' =>
    obtain ⟨rfl, rfl⟩ : a' = a ∧ s₁ = s₁' := by simpa [run] using hrun
    exact ⟨s₂, rfl, hs⟩
  | fail => simp [run] at hrun
  | call e k ih =>
    simp only [run, Option.bind_eq_some_iff] at hrun
    obtain ⟨⟨b, t₁⟩, he, hk⟩ := hrun
    obtain ⟨t₂, he₂, ht⟩ := hR _ e s₁ s₂ b t₁ hs he
    obtain ⟨s₂', hk₂, hs'⟩ := ih b ht hk
    exact ⟨s₂', by simp [run, he₂, hk₂], hs'⟩

namespace Program

variable {E : Type → Type} {α β σ σ₁ σ₂ : Type}

/-! ## The calls of a program -/

/-- Whatever the calls return, the program makes calls of the kind `C` only. -/
def Calls (C : (β : Type) → E β → Prop) : Program E α → Prop
  | ret _ => True
  | fail => True
  | call e k => C _ e ∧ ∀ b, (k b).Calls C

section Calls

variable {C : (β : Type) → E β → Prop}

/-- Returning calls nothing. -/
@[simp] lemma calls_pure (a : α) : (pure a : Program E α).Calls C := trivial

/-- A program without defined behaviour calls nothing. -/
@[simp] lemma calls_fail : (fail : Program E α).Calls C := trivial

/-- A single call is of its kind. -/
@[simp] lemma calls_op (e : E α) : (op e).Calls C ↔ C α e :=
  and_iff_left fun _ => trivial

/-- Using a value that may be missing calls nothing. -/
@[simp] lemma calls_ofOption (o : Option α) : (ofOption o : Program E α).Calls C := by
  cases o <;> trivial

/-- A sequence calls what its parts call. -/
lemma Calls.bind {p : Program E α} {f : α → Program E β} (hp : p.Calls C)
    (hf : ∀ a, (f a).Calls C) : (p >>= f).Calls C := by
  change (p.bind f).Calls C
  induction p with
  | ret a => exact hf a
  | fail => trivial
  | call e k ih => exact ⟨hp.1, fun b => ih b (hp.2 b)⟩

/-- Two handlers that agree on the calls of a program agree on the program. -/
lemma Calls.run_congr {h h' : Handler E σ} (hagree : ∀ (β : Type) (e : E β), C β e → h β e = h' β e)
    {p : Program E α} (hp : p.Calls C) (s : σ) : run h p s = run h' p s := by
  induction p generalizing s with
  | ret a => rfl
  | fail => rfl
  | call e k ih =>
    simp only [run, hagree _ e hp.1]
    congr 1
    funext r
    exact ih r.1 (hp.2 r.1) r.2

/-- What the calls of a program keep, the program keeps. -/
lemma Calls.keeps {h : Handler E σ} {I : σ → Prop}
    (hkeeps : ∀ (β : Type) (e : E β) s b s', C β e → I s → h β e s = some (b, s') → I s')
    {p : Program E α} (hp : p.Calls C) {s s' : σ} {a : α} (hI : I s)
    (hrun : run h p s = some (a, s')) : I s' := by
  induction p generalizing s with
  | ret b =>
    obtain ⟨-, rfl⟩ : b = a ∧ s = s' := by simpa [run] using hrun
    exact hI
  | fail => cases hrun
  | call e k ih =>
    obtain ⟨⟨b, t⟩, he, hk⟩ := Option.bind_eq_some_iff.1 hrun
    exact ih b (hp.2 b) (hkeeps _ e s b t hp.1 hI he) hk

end Calls

/-! ## Bad results -/

section Bad

variable (h : Handler E σ) (bad : (β : Type) → E β → β → Prop)

/-- Some call of the run from `s` returns a bad result. -/
def Meets : Program E α → σ → Prop
  | ret _, _ => False
  | fail, _ => False
  | call e k, s => ∃ b s', h _ e s = some (b, s') ∧ (bad _ e b ∨ (k b).Meets s')

/-- Nothing checks the results: after a bad one the program has no defined behaviour. -/
def Trusts : Program E α → Prop
  | ret _ => True
  | fail => True
  | call e k => ∀ b, (bad _ e b → k b = fail) ∧ (k b).Trusts

/-- From `s`, the program returns without a bad result on the way, and result and final state
satisfy `Q`. -/
structure Clean (p : Program E α) (Q : α → σ → Prop) (s : σ) : Prop where
  wp : wp h p Q s
  not_meets : ¬ p.Meets h bad s

/-- From `s`, the program is clean if `ok`, and meets a bad result if not. -/
structure HingesOn (ok : Prop) (p : Program E α) (Q : α → σ → Prop) (s : σ) : Prop where
  clean : ok → p.Clean h bad Q s
  meets : ¬ ok → p.Meets h bad s

end Bad

section Rules

variable {h : Handler E σ} {bad : (β : Type) → E β → β → Prop} {ok ok' ok₁ ok₂ : Prop}
  {p : Program E α} {f : α → Program E β} {Q Q' : α → σ → Prop} {R : β → σ → Prop} {s : σ}

/-- Returning meets no bad result. -/
@[simp] lemma not_meets_pure (a : α) (s : σ) : ¬ (pure a : Program E α).Meets h bad s := id

/-- A program without defined behaviour meets no bad result. -/
@[simp] lemma not_meets_fail (s : σ) : ¬ (fail : Program E α).Meets h bad s := id

/-- A single call meets a bad result if it returns one. -/
@[simp] lemma meets_op (e : E α) (s : σ) :
    (op e).Meets h bad s ↔ ∃ a s', h _ e s = some (a, s') ∧ bad _ e a := by
  simp [op, Meets]

/-- A sequence meets a bad result in one of its parts. -/
lemma meets_bind : (p >>= f).Meets h bad s ↔
    p.Meets h bad s ∨ ∃ a s', run h p s = some (a, s') ∧ (f a).Meets h bad s' := by
  change (p.bind f).Meets h bad s ↔ _
  induction p generalizing s with
  | ret a => simp [bind, Meets, run]
  | fail => simp [bind, Meets, run]
  | call e k ih =>
    simp only [bind, Meets, run]
    cases h _ e s with
    | none => simp
    | some r =>
      obtain ⟨b, t⟩ := r
      simp only [Option.some.injEq, Prod.mk.injEq, Option.bind_some]
      constructor
      · rintro ⟨_, _, ⟨rfl, rfl⟩, hb | hk⟩
        · exact .inl ⟨b, t, ⟨rfl, rfl⟩, .inl hb⟩
        · exact (ih b).1 hk |>.imp (fun hk => ⟨b, t, ⟨rfl, rfl⟩, .inr hk⟩) id
      · rintro (⟨_, _, ⟨rfl, rfl⟩, hb | hk⟩ | hf)
        · exact ⟨b, t, ⟨rfl, rfl⟩, .inl hb⟩
        · exact ⟨b, t, ⟨rfl, rfl⟩, .inr ((ih b).2 (.inl hk))⟩
        · exact ⟨b, t, ⟨rfl, rfl⟩, .inr ((ih b).2 (.inr hf))⟩

/-- Calls that never return a bad result. -/
lemma Calls.not_meets {C : (β : Type) → E β → Prop}
    (hgood : ∀ (β : Type) (e : E β) b, C β e → ¬ bad β e b) (hp : p.Calls C) :
    ¬ p.Meets h bad s := by
  induction p generalizing s with
  | ret a => exact id
  | fail => exact id
  | call e k ih =>
    rintro ⟨b, s', -, hb | hk⟩
    · exact hgood _ e b hp.1 hb
    · exact ih b (hp.2 b) hk

namespace Clean

/-- The postcondition of a clean run may be weakened. -/
lemma mono (hp : p.Clean h bad Q s) (hQ : ∀ a s', Q a s' → Q' a s') : p.Clean h bad Q' s :=
  ⟨wp_mono hp.wp hQ, hp.not_meets⟩

/-- Returning is clean. -/
lemma ret {a : α} (ha : Q a s) : (pure a : Program E α).Clean h bad Q s :=
  ⟨(wp_pure ..).2 ha, not_meets_pure a s⟩

/-- Sequencing with an intermediate assertion. -/
lemma seq (hp : p.Clean h bad Q s) (hf : ∀ a s', Q a s' → (f a).Clean h bad R s') :
    (p >>= f).Clean h bad R s := by
  refine ⟨wp_seq hp.wp fun a s' ha => (hf a s' ha).wp, fun hmeets => ?_⟩
  rcases meets_bind.1 hmeets with hmeets | ⟨a, s', hrun, hmeets⟩
  · exact hp.not_meets hmeets
  · obtain ⟨a', t, hrun', ha⟩ := hp.wp
    obtain ⟨rfl, rfl⟩ := Prod.mk.inj (Option.some.inj (hrun.symm.trans hrun'))
    exact (hf a s' ha).not_meets hmeets

end Clean

namespace HingesOn

/-- The condition may be restated. -/
lemma congr (hp : HingesOn h bad ok p Q s) (hok : ok' ↔ ok) : HingesOn h bad ok' p Q s :=
  ⟨fun h => hp.clean (hok.1 h), fun h => hp.meets fun h' => h (hok.2 h')⟩

/-- The postcondition may be weakened. -/
lemma mono (hp : HingesOn h bad ok p Q s) (hQ : ∀ a s', Q a s' → Q' a s') :
    HingesOn h bad ok p Q' s :=
  ⟨fun h => (hp.clean h).mono hQ, hp.meets⟩

/-- A clean run meets no bad result, under any condition that holds. -/
lemma of_clean (hok : ok) (hp : p.Clean h bad Q s) : HingesOn h bad ok p Q s :=
  ⟨fun _ => hp, fun h => absurd hok h⟩

/-- The conditions of two parts of a program add up. -/
lemma seq (hp : HingesOn h bad ok₁ p Q s) (hf : ∀ a s', Q a s' → HingesOn h bad ok₂ (f a) R s') :
    HingesOn h bad (ok₁ ∧ ok₂) (p >>= f) R s := by
  constructor
  · rintro ⟨h₁, h₂⟩
    exact (hp.clean h₁).seq fun a s' ha => (hf a s' ha).clean h₂
  · intro hnot
    by_cases h₁ : ok₁
    · obtain ⟨a, s', hrun, ha⟩ := (hp.clean h₁).wp
      exact meets_bind.2 (.inr ⟨a, s', hrun, (hf a s' ha).meets fun h₂ => hnot ⟨h₁, h₂⟩⟩)
    · exact meets_bind.2 (.inl (hp.meets h₁))

/-- A part that is clean in any case adds nothing. -/
lemma step (hp : p.Clean h bad Q s) (hf : ∀ a s', Q a s' → HingesOn h bad ok (f a) R s') :
    HingesOn h bad ok (p >>= f) R s :=
  ((of_clean trivial hp).seq hf).congr (true_and ok).symm.to_iff

/-- A value that is there adds nothing. -/
lemma of_some {γ : Type} {o : Option γ} {g : γ → Program E β} {c : γ} (ho : o = some c)
    (hg : HingesOn h bad ok (g c) R s) : HingesOn h bad ok (ofOption o >>= g) R s := by
  rw [ho]
  exact hg

end HingesOn

/-! ## Programs that trust -/

/-- Returning trusts no result. -/
@[simp] lemma trusts_pure (a : α) : (pure a : Program E α).Trusts bad := trivial

/-- A program without defined behaviour trusts no result. -/
@[simp] lemma trusts_fail : (fail : Program E α).Trusts bad := trivial

/-- Using a value that may be missing trusts no result. -/
@[simp] lemma trusts_ofOption (o : Option α) : (ofOption o : Program E α).Trusts bad := by
  cases o <;> trivial

/-- A sequence of programs that check nothing checks nothing. -/
lemma Trusts.bind (hp : p.Trusts bad) (hf : ∀ a, (f a).Trusts bad) : (p >>= f).Trusts bad := by
  change (p.bind f).Trusts bad
  induction p with
  | ret a => exact hf a
  | fail => trivial
  | call e k ih =>
    intro b
    refine ⟨fun hb => ?_, ih b (hp b).2⟩
    change (k b).bind f = fail
    rw [(hp b).1 hb]
    rfl

/-- A program whose calls never return a bad result has nothing to check. -/
lemma Calls.trusts {C : (β : Type) → E β → Prop}
    (hgood : ∀ (β : Type) (e : E β) b, C β e → ¬ bad β e b) (hp : p.Calls C) : p.Trusts bad := by
  induction p with
  | ret a => trivial
  | fail => trivial
  | call e k ih => exact fun b => ⟨fun hb => absurd hb (hgood _ e b hp.1), ih b (hp.2 b)⟩

/-- A trusting program that meets a bad result has no defined behaviour. -/
theorem Trusts.run_eq_none (hp : p.Trusts bad) (hmeets : p.Meets h bad s) : run h p s = none := by
  induction p generalizing s with
  | ret a => exact hmeets.elim
  | fail => exact hmeets.elim
  | call e k ih =>
    obtain ⟨b, s', he, hbad⟩ := hmeets
    simp only [run, he, Option.bind_some]
    by_cases hb : bad _ e b
    · rw [(hp b).1 hb]
      rfl
    · exact ih b (hp b).2 (hbad.resolve_left hb)

end Rules

section Simulation

variable {h₁ : Handler E σ₁} {h₂ : Handler E σ₂} {R : σ₁ → σ₂ → Prop}
  {bad : (β : Type) → E β → β → Prop} {p : Program E α} {s₁ s₁' : σ₁} {s₂ : σ₂} {a : α}

/-- A bad result is met on the simulating handler too. -/
lemma Meets.of_simulates (hR : Handler.Simulates h₁ h₂ R) (hs : R s₁ s₂)
    (hmeets : p.Meets h₁ bad s₁) : p.Meets h₂ bad s₂ := by
  induction p generalizing s₁ s₂ with
  | ret a => exact hmeets
  | fail => exact hmeets
  | call e k ih =>
    obtain ⟨b, t₁, he, hbad⟩ := hmeets
    obtain ⟨t₂, he₂, ht⟩ := hR _ e s₁ s₂ b t₁ hs he
    exact ⟨b, t₂, he₂, hbad.imp_right (ih b ht)⟩

/-- A program that returns meets no other bad results there. -/
lemma Meets.of_simulating (hR : Handler.Simulates h₁ h₂ R) (hs : R s₁ s₂)
    (hrun : p.run h₁ s₁ = some (a, s₁')) (hmeets : p.Meets h₂ bad s₂) : p.Meets h₁ bad s₁ := by
  induction p generalizing s₁ s₂ with
  | ret a => exact hmeets
  | fail => exact hmeets
  | call e k ih =>
    obtain ⟨⟨b, t₁⟩, he, hk⟩ := Option.bind_eq_some_iff.1 hrun
    obtain ⟨t₂, he₂, ht⟩ := hR _ e s₁ s₂ b t₁ hs he
    obtain ⟨b', t₂', he', hbad⟩ := hmeets
    obtain ⟨rfl, rfl⟩ := Prod.mk.inj (Option.some.inj (he₂.symm.trans he'))
    exact ⟨b, t₁, he, hbad.imp_right (ih b ht hk)⟩

/-- A handler that matches the calls without bad results matches the programs without them. -/
lemma run_of_not_meets {h h' : Handler E σ₁}
    (hmatch : ∀ (β : Type) (e : E β) s b s', h β e s = some (b, s') → ¬ bad β e b →
      h' β e s = some (b, s'))
    (hrun : p.run h s₁ = some (a, s₁')) (hmeets : ¬ p.Meets h bad s₁) :
    p.run h' s₁ = some (a, s₁') := by
  induction p generalizing s₁ with
  | ret b => exact hrun
  | fail => exact hrun
  | call e k ih =>
    obtain ⟨⟨b, t⟩, he, hk⟩ := Option.bind_eq_some_iff.1 hrun
    have hnot : ¬ (bad _ e b ∨ (k b).Meets h bad t) := fun hor => hmeets ⟨b, t, he, hor⟩
    rw [not_or] at hnot
    simp only [run, hmatch _ e s₁ b t he hnot.1, Option.bind_some]
    exact ih b hk hnot.2

end Simulation

end Program

end Effect
