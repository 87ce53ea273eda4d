import Mathlib.Data.Nat.Notation
import Mathlib.Logic.Function.Basic
import Mathlib.Tactic.Common

set_option relaxedAutoImplicit false
set_option autoImplicit false

/-!
# Arrays with checked slots

An array without a length, as a function from slots to entries, in which only the slots that fit
may be read or written: an access to any other slot is undefined.

## Main definitions

* `Slots.get`, `Slots.set` — the accesses.
* `Slots.copyTo`, `Slots.shiftLeft`, `Slots.shiftRight` — the copying loops.

## Main results

* `Slots.copyTo_eq`, `Slots.shiftLeft_eq`, `Slots.shiftRight_eq` — the arrays they leave.
-/

namespace Slots

variable {α : Type} {fits : ℕ → Bool}

/-- `a[i]`. -/
def get (fits : ℕ → Bool) (a : ℕ → α) (i : ℕ) : Option α :=
  if fits i then some (a i) else none

/-- `a[i] = x`. -/
def set (fits : ℕ → Bool) (a : ℕ → α) (i : ℕ) (x : α) : Option (ℕ → α) :=
  if fits i then some (Function.update a i x) else none

/-- `for (i = 0; i < n; i++) dst[d + i] = src[s + i]`. -/
def copyTo (fits : ℕ → Bool) (src : ℕ → α) (s : ℕ) (dst : ℕ → α) (d : ℕ) : ℕ → Option (ℕ → α)
  | 0 => some dst
  | n + 1 => do
    let dst ← copyTo fits src s dst d n
    set fits dst (d + n) (← get fits src (s + n))

/-- `for (i = lo; i < lo + n; i++) a[i] = a[i + 1]`. -/
def shiftLeft (fits : ℕ → Bool) (a : ℕ → α) (lo : ℕ) : ℕ → Option (ℕ → α)
  | 0 => some a
  | n + 1 => do
    let a ← shiftLeft fits a lo n
    set fits a (lo + n) (← get fits a (lo + n + 1))

/-- `for (i = lo + n; i > lo; i--) a[i] = a[i - 1]`. -/
def shiftRight (fits : ℕ → Bool) (a : ℕ → α) (lo : ℕ) : ℕ → Option (ℕ → α)
  | 0 => some a
  | n + 1 => do
    let a ← set fits a (lo + n + 1) (← get fits a (lo + n))
    shiftRight fits a lo n

/-- A slot that fits is read. -/
lemma get_eq {a : ℕ → α} {i : ℕ} (h : fits i = true) : get fits a i = some (a i) := if_pos h

/-- A slot that fits is written. -/
lemma set_eq {a : ℕ → α} {i : ℕ} (h : fits i = true) (x : α) :
    set fits a i x = some (Function.update a i x) := if_pos h

/-- A slot that does not fit cannot be written. -/
lemma set_eq_none {a : ℕ → α} {i : ℕ} (h : fits i = false) (x : α) : set fits a i x = none := by
  simp [set, h]

/-- What `copyTo` leaves. -/
lemma copyTo_eq (fits : ℕ → Bool) (src dst : ℕ → α) (s d n : ℕ)
    (hsrc : ∀ i < n, fits (s + i) = true) (hdst : ∀ i < n, fits (d + i) = true) :
    ∃ a, copyTo fits src s dst d n = some a ∧ (∀ i < n, a (d + i) = src (s + i)) ∧
      ∀ j, (j < d ∨ d + n ≤ j) → a j = dst j := by
  induction n with
  | zero => exact ⟨dst, rfl, by simp, fun _ _ => rfl⟩
  | succ n ih =>
    obtain ⟨a, ha, hin, hout⟩ := ih (fun i hi => hsrc i (by omega)) (fun i hi => hdst i (by omega))
    refine ⟨Function.update a (d + n) (src (s + n)), ?_, ?_, ?_⟩
    · simp [copyTo, ha, get_eq (hsrc n (by omega)), set_eq (hdst n (by omega))]
    · intro i hi
      rcases Nat.lt_succ_iff_lt_or_eq.1 hi with hlt | rfl
      · rw [Function.update_of_ne (by omega), hin i hlt]
      · rw [Function.update_self]
    · intro j hj
      rw [Function.update_of_ne (by omega), hout j (by omega)]

/-- What `shiftLeft` leaves. -/
lemma shiftLeft_eq (fits : ℕ → Bool) (a : ℕ → α) (lo n : ℕ)
    (hfits : ∀ i, lo ≤ i → i < lo + n + 1 → fits i = true) :
    ∃ b, shiftLeft fits a lo n = some b ∧ (∀ i, lo ≤ i → i < lo + n → b i = a (i + 1)) ∧
      ∀ j, (j < lo ∨ lo + n ≤ j) → b j = a j := by
  induction n with
  | zero => exact ⟨a, rfl, by omega, fun _ _ => rfl⟩
  | succ n ih =>
    obtain ⟨b, hb, hin, hout⟩ := ih fun i hlo hi => hfits i hlo (by omega)
    refine ⟨Function.update b (lo + n) (b (lo + n + 1)), ?_, ?_, ?_⟩
    · simp [shiftLeft, hb, get_eq (hfits (lo + n + 1) (by omega) (by omega)),
        set_eq (hfits (lo + n) (by omega) (by omega))]
    · intro i hlo hi
      rcases (by omega : i < lo + n ∨ i = lo + n) with hlt | rfl
      · rw [Function.update_of_ne (by omega), hin i hlo hlt]
      · rw [Function.update_self, hout _ (by omega)]
    · intro j hj
      rw [Function.update_of_ne (by omega), hout j (by omega)]

/-- What `shiftRight` leaves. -/
lemma shiftRight_eq (fits : ℕ → Bool) (a : ℕ → α) (lo n : ℕ)
    (hfits : ∀ i, lo ≤ i → i < lo + n + 1 → fits i = true) :
    ∃ b, shiftRight fits a lo n = some b ∧ (∀ i, lo ≤ i → i < lo + n → b (i + 1) = a i) ∧
      ∀ j, (j ≤ lo ∨ lo + n < j) → b j = a j := by
  induction n generalizing a with
  | zero => exact ⟨a, rfl, by omega, fun _ _ => rfl⟩
  | succ n ih =>
    obtain ⟨b, hb, hin, hout⟩ := ih (Function.update a (lo + n + 1) (a (lo + n)))
      fun i hlo hi => hfits i hlo (by omega)
    refine ⟨b, ?_, ?_, ?_⟩
    · simp [shiftRight, hb, get_eq (hfits (lo + n) (by omega) (by omega)),
        set_eq (hfits (lo + n + 1) (by omega) (by omega))]
    · intro i hlo hi
      rcases (by omega : i < lo + n ∨ i = lo + n) with hlt | rfl
      · rw [hin i hlo hlt, Function.update_of_ne (by omega)]
      · rw [hout _ (by omega), Function.update_self]
    · intro j hj
      rw [hout j (by omega), Function.update_of_ne (by omega)]

end Slots
