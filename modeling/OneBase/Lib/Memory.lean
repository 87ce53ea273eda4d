import Mathlib.Algebra.Order.Ring.Nat
import Mathlib.Data.List.Basic
import Mathlib.Data.Nat.Notation
import Mathlib.Tactic.Common

set_option relaxedAutoImplicit false
set_option autoImplicit false

/-!
# Byte memory

Memory is a function from addresses to bytes. Blocks of bytes are copied in and out, and numbers
of `n` bytes are stored in little-endian order.

## Main definitions

* `Memory.leBytes`, `Memory.leValue` — little-endian numbers as lists of bytes.
* `Memory.readBytes`, `Memory.writeBytes` — blocks of bytes in memory.
* `Memory.readLE`, `Memory.writeLE` — little-endian numbers in memory.
* `Memory.readInt32`, `Memory.writeInt32` — 32-bit signed numbers in memory.

## Main results

* `Memory.leValue_leBytes`, `Memory.readBytes_writeBytes`, `Memory.readLE_writeLE` — reading back
  what was written.
* `Memory.readBytes_congr`, `Memory.readLE_congr` — reads depend only on the range they read.
-/

namespace Memory

/-- The low `n` bytes of `v`, the lowest first. -/
def leBytes : ℕ → ℕ → List UInt8
  | 0, _ => []
  | n + 1, v => UInt8.ofNat v :: leBytes n (v / 256)

/-- The number whose bytes are `l`, the lowest first. -/
def leValue : List UInt8 → ℕ
  | [] => 0
  | b :: l => b.toNat + 256 * leValue l

/-- The `n` bytes from `a` on. -/
def readBytes (d : ℕ → UInt8) (a n : ℕ) : List UInt8 := (List.range n).map fun i => d (a + i)

/-- Copy the bytes `l` to `a`. -/
def writeBytes (d : ℕ → UInt8) (a : ℕ) (l : List UInt8) : ℕ → UInt8 := fun i =>
  if a ≤ i then (l[i - a]?).getD (d i) else d i

/-- The number stored in the `n` bytes from `a` on. -/
def readLE (n : ℕ) (d : ℕ → UInt8) (a : ℕ) : ℕ := leValue (readBytes d a n)

/-- Store `v`, truncated to `n` bytes, from `a` on. -/
def writeLE (n : ℕ) (d : ℕ → UInt8) (a v : ℕ) : ℕ → UInt8 := writeBytes d a (leBytes n v)

/-- The 32-bit two's complement number at `a`. -/
def readInt32 (d : ℕ → UInt8) (a : ℕ) : ℤ := (BitVec.ofNat 32 (readLE 4 d a)).toInt

/-- Store the low 32 bits of `v` at `a`. -/
def writeInt32 (d : ℕ → UInt8) (a : ℕ) (v : ℤ) : ℕ → UInt8 :=
  writeLE 4 d a (BitVec.ofInt 32 v).toNat

variable {d d' : ℕ → UInt8} {a b n m v i : ℕ} {l : List UInt8}

/-! ## Numbers as bytes -/

/-- A number has as many bytes as it is written with. -/
@[simp] lemma length_leBytes (n v : ℕ) : (leBytes n v).length = n := by
  induction n generalizing v with
  | zero => rfl
  | succ n ih => simp [leBytes, ih]

/-- The bytes of a number determine it, up to truncation. -/
lemma leValue_leBytes (n v : ℕ) : leValue (leBytes n v) = v % 256 ^ n := by
  induction n generalizing v with
  | zero => simp [leBytes, leValue, Nat.mod_one]
  | succ n ih =>
    have hbyte : (UInt8.ofNat v).toNat = v % 256 := by simp
    rw [leBytes, leValue, ih, hbyte, pow_succ, Nat.mul_comm (256 ^ n), Nat.mod_mul]

/-- The bytes of a number bound it. -/
lemma leValue_lt (l : List UInt8) : leValue l < 256 ^ l.length := by
  induction l with
  | nil => simp [leValue]
  | cons b l ih =>
    have hbyte := b.toNat_lt
    rw [leValue, List.length_cons, pow_succ]
    omega

/-- Bytes are those of their number. -/
lemma leBytes_leValue (l : List UInt8) : leBytes l.length (leValue l) = l := by
  induction l with
  | nil => rfl
  | cons b l ih =>
    have hlow : UInt8.ofNat (b.toNat + 256 * leValue l) = b := by
      apply UInt8.toNat_inj.1
      have hlt := b.toNat_lt
      rw [UInt8.toNat_ofNat']
      omega
    have hhigh : (b.toNat + 256 * leValue l) / 256 = leValue l := by
      have hlt := b.toNat_lt
      omega
    rw [List.length_cons, leValue, leBytes, hlow, hhigh, ih]

/-! ## Blocks of bytes -/

/-- As many bytes are read as were asked for. -/
@[simp] lemma length_readBytes (d : ℕ → UInt8) (a n : ℕ) : (readBytes d a n).length = n := by
  simp [readBytes]

/-- What is read depends on the bytes in the range only. -/
lemma readBytes_congr (h : ∀ i, a ≤ i → i < a + n → d i = d' i) :
    readBytes d a n = readBytes d' a n := by
  refine List.map_congr_left fun i hi => ?_
  have hlt := List.mem_range.1 hi
  exact h (a + i) (by omega) (by omega)

/-- A write leaves the bytes outside of its range alone. -/
lemma writeBytes_of_outside (h : i < a ∨ a + l.length ≤ i) : writeBytes d a l i = d i := by
  rw [writeBytes]
  split_ifs with hi
  · rw [List.getElem?_eq_none (by omega), Option.getD_none]
  · rfl

/-- Reading back a block returns it. -/
lemma readBytes_writeBytes (d : ℕ → UInt8) (a : ℕ) (l : List UInt8) :
    readBytes (writeBytes d a l) a l.length = l := by
  refine List.ext_getElem (by simp) fun i hi hl => ?_
  simp [readBytes, writeBytes, List.getElem?_eq_getElem hl]

/-- A write to one range leaves what is read from another. -/
lemma readBytes_writeBytes_of_disjoint (h : a + n ≤ b ∨ b + l.length ≤ a) :
    readBytes (writeBytes d b l) a n = readBytes d a n :=
  readBytes_congr fun i _ _ => writeBytes_of_outside (by omega)

/-! ## Numbers in memory -/

/-- A number that is read is bounded by its bytes. -/
lemma readLE_lt (n : ℕ) (d : ℕ → UInt8) (a : ℕ) : readLE n d a < 256 ^ n := by
  have hlt := leValue_lt (readBytes d a n)
  rwa [length_readBytes] at hlt

/-- The number that is read depends on its bytes only. -/
lemma readLE_congr (h : ∀ i, a ≤ i → i < a + n → d i = d' i) :
    readLE n d a = readLE n d' a := by
  rw [readLE, readLE, readBytes_congr h]

/-- Writing a number leaves the bytes outside of its range alone. -/
lemma writeLE_of_outside (h : i < a ∨ a + n ≤ i) : writeLE n d a v i = d i :=
  writeBytes_of_outside (by rwa [length_leBytes])

/-- Reading back a number returns it, truncated. -/
lemma readLE_writeLE (n : ℕ) (d : ℕ → UInt8) (a v : ℕ) :
    readLE n (writeLE n d a v) a = v % 256 ^ n := by
  have hback := readBytes_writeBytes d a (leBytes n v)
  rw [length_leBytes] at hback
  rw [readLE, writeLE, hback, leValue_leBytes]

/-- Reading back a 32-bit signed number returns it. -/
lemma readInt32_writeInt32 (d : ℕ → UInt8) (a : ℕ) {v : ℤ} (hlo : -2 ^ 31 ≤ v) (hhi : v < 2 ^ 31) :
    readInt32 (writeInt32 d a v) a = v := by
  have hlt : (BitVec.ofInt 32 v).toNat < 256 ^ 4 := (BitVec.ofInt 32 v).isLt
  rw [readInt32, writeInt32, readLE_writeLE, Nat.mod_eq_of_lt hlt, BitVec.ofNat_toNat,
    BitVec.setWidth_eq, BitVec.toInt_ofInt]
  exact Int.bmod_eq_of_le (by omega) (by omega)

/-- Writing a number leaves the number that is read from another range. -/
lemma readLE_writeLE_of_disjoint (h : a + n ≤ b ∨ b + m ≤ a) :
    readLE n (writeLE m d b v) a = readLE n d a :=
  readLE_congr fun i _ _ => writeLE_of_outside (by omega)

/-- Writing bytes leaves the number that is read from another range. -/
lemma readLE_writeBytes_of_disjoint (h : a + n ≤ b ∨ b + l.length ≤ a) :
    readLE n (writeBytes d b l) a = readLE n d a :=
  readLE_congr fun i _ _ => writeBytes_of_outside (by omega)

/-- Writing a number leaves the bytes that are read from another range. -/
lemma readBytes_writeLE_of_disjoint (h : a + n ≤ b ∨ b + m ≤ a) :
    readBytes (writeLE m d b v) a n = readBytes d a n :=
  readBytes_congr fun i _ _ => writeLE_of_outside (by omega)

end Memory
