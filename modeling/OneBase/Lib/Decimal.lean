import Mathlib.Data.Int.Notation
import Mathlib.Data.Nat.Notation
import Mathlib.Data.List.Basic
import Mathlib.Tactic.Common

set_option relaxedAutoImplicit false
set_option autoImplicit false

/-!
# Decimal numerals

Numbers as the bytes of their decimal numerals, as `std::to_string` writes them.

## Main definitions

* `Decimal.natBytes`, `Decimal.intBytes` — the numerals of a natural number and of an integer.

## Main results

* `Decimal.natBytes_inj`, `Decimal.intBytes_inj` — numerals determine their number.
* `Decimal.mem_natBytes` — a numeral consists of digits.
-/

namespace Decimal

/-- The byte of an ASCII character. -/
def byte (c : Char) : UInt8 := UInt8.ofNat c.toNat

/-- The numeral of a natural number. -/
def natBytes (n : ℕ) : List UInt8 := (Nat.toDigits 10 n).map byte

/-- The numeral of an integer, with a minus sign in front of the negative ones. -/
def intBytes (i : ℤ) : List UInt8 :=
  if i < 0 then 45 :: natBytes i.natAbs else natBytes i.natAbs

/-- A digit as a byte. -/
lemma toNat_byte {c : Char} (h : c.isDigit = true) :
    (byte c).toNat = c.toNat ∧ 48 ≤ c.toNat ∧ c.toNat ≤ 57 := by
  have hrange := Char.isDigit_iff_toNat.1 h
  have hlo : 48 ≤ c.toNat := hrange.1
  have hhi : c.toNat ≤ 57 := hrange.2
  refine ⟨?_, hlo, hhi⟩
  rw [byte, UInt8.toNat_ofNat', Nat.mod_eq_of_lt (by omega)]

/-- A numeral consists of digits. -/
lemma mem_natBytes {n : ℕ} {b : UInt8} (h : b ∈ natBytes n) : 48 ≤ b.toNat ∧ b.toNat ≤ 57 := by
  obtain ⟨c, hc, rfl⟩ := List.mem_map.1 h
  obtain ⟨heq, hlo, hhi⟩ := toNat_byte (Nat.isDigit_of_mem_toDigits (by decide) (by decide) hc)
  omega

/-- Digits are determined by their bytes. -/
lemma map_byte_inj {l m : List Char} (hl : ∀ c ∈ l, c.isDigit = true)
    (hm : ∀ c ∈ m, c.isDigit = true) (h : l.map byte = m.map byte) : l = m := by
  induction l generalizing m with
  | nil => exact (List.map_eq_nil_iff.1 h.symm).symm
  | cons c l ih =>
    cases m with
    | nil => simp at h
    | cons d m =>
      obtain ⟨hhead, htail⟩ := List.cons.inj h
      have hc := (toNat_byte (hl c List.mem_cons_self)).1
      have hd := (toNat_byte (hm d List.mem_cons_self)).1
      rw [hhead, hd] at hc
      rw [Char.toNat_inj.1 hc.symm, ih (fun x hx => hl x (List.mem_cons_of_mem _ hx))
        (fun x hx => hm x (List.mem_cons_of_mem _ hx)) htail]

/-- Numerals determine their number. -/
lemma natBytes_inj {m n : ℕ} (h : natBytes m = natBytes n) : m = n := by
  have hdigits : ∀ k, ∀ c ∈ Nat.toDigits 10 k, c.isDigit = true := fun k c hc =>
    Nat.isDigit_of_mem_toDigits (by decide) (by decide) hc
  have heq := congrArg (Nat.ofDigitChars 10 · 0) (map_byte_inj (hdigits m) (hdigits n) h)
  simpa only [Nat.ofDigitChars_ten_toDigits] using heq

/-- A numeral of a natural number does not begin with a minus sign. -/
lemma natBytes_ne_minus {n : ℕ} {l : List UInt8} : natBytes n ≠ 45 :: l := by
  intro h
  have hmem : (45 : UInt8) ∈ natBytes n := by
    rw [h]
    exact List.mem_cons_self
  have hlo : 48 ≤ (45 : UInt8).toNat := (mem_natBytes hmem).1
  exact absurd hlo (by decide)

/-- Numerals determine their number. -/
lemma intBytes_inj {i j : ℤ} (h : intBytes i = intBytes j) : i = j := by
  unfold intBytes at h
  split_ifs at h with hi hj hj
  · have := natBytes_inj (List.cons.inj h).2
    omega
  · exact absurd h.symm natBytes_ne_minus
  · exact absurd h natBytes_ne_minus
  · have := natBytes_inj h
    omega

end Decimal
