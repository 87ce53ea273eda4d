import OneBase.Lib.Decimal
import OneBase.Type.Value

set_option relaxedAutoImplicit false
set_option autoImplicit false

/-!
# Operations on values

The accessors, comparisons, arithmetic, logic and text of `type/value.cpp`. A failed assertion
throws, and the overflow of an `int32_t` is undefined. The operations read the payload of a null
value like any other.

## Main definitions

* `OneBase.Value.compareLessThan` and so on, `add`, `subtract`, `multiply`, `divide`, `modulo`,
  `logicalAnd`, `logicalOr`.
* `OneBase.Value.toBytes` — `ToString`.

## Main results

* `OneBase.Value.compareEquals_eq` — what equality returns when it returns.
* `OneBase.Value.toBytes_inj` — values of one type without fractions are equal if their texts are.
-/

namespace OneBase

open Decimal

/-- The bytes of a text. -/
def asciiBytes (s : String) : List UInt8 := s.toList.map byte

/-- The absolute value of a finite `float` with these bits, in hundredths, rounded to nearest with
ties to even. -/
def hundredths (f : BitVec 32) : ℕ :=
  let exponent := f.toNat / 2 ^ 23 % 2 ^ 8
  let fraction := f.toNat % 2 ^ 23
  let significand := if exponent = 0 then fraction else fraction + 2 ^ 23
  let scale := max exponent 1
  if 150 ≤ scale then 100 * significand * 2 ^ (scale - 150)
  else
    let den := 2 ^ (150 - scale)
    let q := 100 * significand / den
    let r := 100 * significand % den
    if den < 2 * r ∨ (2 * r = den ∧ q % 2 = 1) then q + 1 else q

/-- `fmt::format("{:.2f}", f)`. -/
def floatBytes (f : BitVec 32) : List UInt8 :=
  let sign := if 2 ^ 31 ≤ f.toNat then [45] else []
  if f.toNat / 2 ^ 23 % 2 ^ 8 = 255 then
    sign ++ asciiBytes (if f.toNat % 2 ^ 23 = 0 then "inf" else "nan")
  else
    let h := hundredths f
    sign ++ natBytes (h / 100) ++ [46] ++ natBytes (h % 100 / 10) ++ natBytes (h % 10)

namespace Value

/-- `Value(TypeId::BOOLEAN, b)`. -/
def ofBool (b : Bool) : Value := { payload := .boolean b }

/-- `Value(TypeId::INTEGER, i)`. -/
def ofInt (i : BitVec 32) : Value := { payload := .integer i }

/-- `Value(TypeId::FLOAT, f)`. -/
def ofFloat (f : Float32) : Value := { payload := .float f.toBits.toBitVec }

/-- `GetAsInteger`. -/
def getAsInteger (v : Value) : Cpp ℤ :=
  match v.payload with
  | .integer i => pure i.toInt
  | _ => throw (.logicError "Value is not an integer")

/-- `GetAsBoolean`. -/
def getAsBoolean (v : Value) : Cpp Bool :=
  match v.payload with
  | .boolean b => pure b
  | _ => throw (.logicError "Value is not a boolean")

/-- The `float` with these bits. -/
def toFloat (f : BitVec 32) : Float32 := Float32.ofBits ⟨f⟩

/-! ## Comparison -/

/-- The comparisons, each with its relation on integers, floats and strings, and on booleans if it
has one. -/
def compareWith (integer : ℤ → ℤ → Bool) (float : Float32 → Float32 → Bool)
    (varchar : List UInt8 → List UInt8 → Bool) (boolean : Option (Bool → Bool → Bool))
    (v o : Value) : Cpp Value :=
  if v.getTypeId ≠ o.getTypeId then throw (.logicError "Type mismatch in comparison")
  else
    match v.payload, o.payload, boolean with
    | .integer a, .integer b, _ => pure (ofBool (integer a.toInt b.toInt))
    | .float a, .float b, _ => pure (ofBool (float (toFloat a) (toFloat b)))
    | .varchar a, .varchar b, _ => pure (ofBool (varchar a b))
    | .boolean a, .boolean b, some f => pure (ofBool (f a b))
    | _, _, _ => throw (.logicError "Unsupported type for comparison")

/-- `CompareLessThan`. -/
def compareLessThan : Value → Value → Cpp Value :=
  compareWith (fun a b => decide (a < b)) (fun a b => decide (a < b)) (fun a b => decide (a < b)) none

/-- `CompareGreaterThan`. -/
def compareGreaterThan : Value → Value → Cpp Value :=
  compareWith (fun a b => decide (b < a)) (fun a b => decide (b < a)) (fun a b => decide (b < a)) none

/-- `CompareLessThanOrEqual`. -/
def compareLessThanOrEqual : Value → Value → Cpp Value :=
  compareWith (fun a b => decide (a ≤ b)) (fun a b => decide (a ≤ b)) (fun a b => !decide (b < a)) none

/-- `CompareGreaterThanOrEqual`. -/
def compareGreaterThanOrEqual : Value → Value → Cpp Value :=
  compareWith (fun a b => decide (b ≤ a)) (fun a b => decide (b ≤ a)) (fun a b => !decide (a < b)) none

/-- `CompareEquals`. -/
def compareEquals : Value → Value → Cpp Value :=
  compareWith (fun a b => decide (a = b)) (fun a b => a == b) (fun a b => decide (a = b))
    (some fun a b => a == b)

/-- `CompareNotEquals`. -/
def compareNotEquals : Value → Value → Cpp Value :=
  compareWith (fun a b => decide (a ≠ b)) (fun a b => a != b) (fun a b => decide (a ≠ b))
    (some fun a b => a != b)

/-! ## Arithmetic -/

/-- The result of `int32_t` arithmetic, which must not overflow. -/
def intResult (i : ℤ) : Cpp Value :=
  if -2 ^ 31 ≤ i ∧ i < 2 ^ 31 then pure (ofInt (BitVec.ofInt 32 i)) else Cpp.undefined

/-- The arithmetic operations, each with its operation on integers and floats and the name under
which it refuses other types. -/
def arithmetic (integer : ℤ → ℤ → Cpp Value) (float : Option (Float32 → Float32 → Cpp Value))
    (operation : String) (v o : Value) : Cpp Value :=
  if v.getTypeId ≠ o.getTypeId then throw (.logicError "Type mismatch in arithmetic")
  else
    match v.payload, o.payload, float with
    | .integer a, .integer b, _ => integer a.toInt b.toInt
    | .float a, .float b, some f => f (toFloat a) (toFloat b)
    | _, _, _ => throw (.logicError ("Unsupported type for " ++ operation))

/-- `Add`. -/
def add : Value → Value → Cpp Value :=
  arithmetic (fun a b => intResult (a + b)) (some fun a b => pure (ofFloat (a + b))) "addition"

/-- `Subtract`. -/
def subtract : Value → Value → Cpp Value :=
  arithmetic (fun a b => intResult (a - b)) (some fun a b => pure (ofFloat (a - b))) "subtraction"

/-- `Multiply`. -/
def multiply : Value → Value → Cpp Value :=
  arithmetic (fun a b => intResult (a * b)) (some fun a b => pure (ofFloat (a * b)))
    "multiplication"

/-- `Divide`. -/
def divide : Value → Value → Cpp Value :=
  arithmetic
    (fun a b =>
      if b = 0 then throw (.logicError "Division by zero") else intResult (a.tdiv b))
    (some fun a b =>
      if b == 0 then throw (.logicError "Division by zero") else pure (ofFloat (a / b)))
    "division"

/-- `Modulo`. The remainder is undefined where the quotient overflows. -/
def modulo : Value → Value → Cpp Value :=
  arithmetic
    (fun a b =>
      if b = 0 then throw (.logicError "Modulo by zero")
      else if a = -2 ^ 31 ∧ b = -1 then Cpp.undefined
      else intResult (a.tmod b))
    none "modulo"

/-! ## Logic -/

/-- The logical operations. -/
def logicWith (f : Bool → Bool → Bool) (operation : String) (v o : Value) : Cpp Value :=
  match v.payload, o.payload with
  | .boolean a, .boolean b => pure (ofBool (f a b))
  | _, _ => throw (.logicError (operation ++ " requires boolean"))

/-- `LogicalAnd`. -/
def logicalAnd : Value → Value → Cpp Value := logicWith (fun a b => a && b) "AND"

/-- `LogicalOr`. -/
def logicalOr : Value → Value → Cpp Value := logicWith (fun a b => a || b) "OR"

/-! ## Text -/

/-- `ToString`. -/
def toBytes (v : Value) : List UInt8 :=
  if v.isNull then asciiBytes "NULL"
  else
    match v.payload with
    | .boolean b => asciiBytes (if b then "true" else "false")
    | .integer i => intBytes i.toInt
    | .float f => floatBytes f
    | .varchar s => s
    | .invalid => asciiBytes "<INVALID>"

/-! ## What the operations return -/

section Returns

variable {v o r : Value}

/-- A comparison that returns compares values of one type, and returns a boolean. -/
lemma compareWith_returns {integer : ℤ → ℤ → Bool} {float : Float32 → Float32 → Bool}
    {varchar : List UInt8 → List UInt8 → Bool} {boolean : Option (Bool → Bool → Bool)}
    (h : compareWith integer float varchar boolean v o = pure r) :
    v.getTypeId = o.getTypeId ∧ ∃ b, r = ofBool b := by
  unfold compareWith at h
  split at h
  · cases h
  rename_i htype
  refine ⟨not_not.1 htype, ?_⟩
  split at h <;> first | cases h; exact ⟨_, rfl⟩ | cases h

/-- The types whose texts and equality agree. -/
def IsKeyType (type : TypeId) : Prop := type = .integer ∨ type = .boolean ∨ type = .varchar

/-- Equality on the key types compares the payloads. -/
lemma compareEquals_eq (htype : v.getTypeId = o.getTypeId) (hkey : IsKeyType v.getTypeId) :
    compareEquals v o = pure (ofBool (decide (v.payload = o.payload))) := by
  unfold compareEquals compareWith
  rw [if_neg (not_not.2 htype)]
  obtain ⟨a, m⟩ := v
  obtain ⟨b, n⟩ := o
  simp only [getTypeId] at htype hkey
  cases a <;> cases b <;> simp only [Payload.typeId, reduceCtorEq] at htype hkey ⊢
  · simp [IsKeyType] at hkey
  · rename_i a b
    cases a <;> cases b <;> rfl
  · simp [BitVec.toInt_inj]
  · simp [IsKeyType] at hkey
  · simp

/-- Values of a key type are equal iff their texts are. -/
lemma toBytes_inj (htype : v.getTypeId = o.getTypeId) (hkey : IsKeyType v.getTypeId)
    (hv : v.isNull = false) (ho : o.isNull = false) :
    v.toBytes = o.toBytes ↔ v.payload = o.payload := by
  refine ⟨fun h => ?_, fun h => by simp only [toBytes, hv, ho, h]⟩
  obtain ⟨a, m⟩ := v
  obtain ⟨b, n⟩ := o
  simp only [getTypeId] at htype hkey hv ho
  subst hv ho
  simp only [toBytes, Bool.false_eq_true, if_false] at h
  cases a <;> cases b <;> simp only [Payload.typeId, reduceCtorEq] at htype hkey h ⊢
  · rename_i a b
    cases a <;> cases b <;> first | rfl | exact absurd h (by decide)
  · rw [BitVec.toInt_inj.1 (intBytes_inj h)]
  · simp [IsKeyType] at hkey
  · rw [h]

end Returns

end Value

end OneBase
