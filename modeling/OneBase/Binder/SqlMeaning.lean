import OneBase.Binder.Faults
import OneBase.Binder.Meaning
import OneBase.Execution.Arithmetic

set_option relaxedAutoImplicit false
set_option autoImplicit false

/-!
# What SQL means by an operator node

The grammar gives several constructs the same operator name: `a = b`, `a IS DISTINCT FROM b`,
`NULLIF(a, b)`, `a IN b` and `a = ANY (b)` all have the name `=` and differ in their kind. What a
tree means on a row of any types is said here on the parse tree, by the kinds.

## Main definitions

* `OneBase.SqlValue` — the values of SQL, with NULL.
* `OneBase.PlainOp.computes`, `OneBase.PlainOp.Overflows` — an operator on two values.
* `OneBase.AExprKind.denotes` — a node of a kind on two values.
* `OneBase.sqlMeaning` — a tree on a row.

## Main results

* `OneBase.PlainOp.yields_perform` — `PerformComparison` and `PerformComputation` against the
  operator.
-/

namespace OneBase

/-- A value of SQL. -/
inductive SqlValue
  | null
  | datum (p : Payload)
  deriving DecidableEq, Repr

/-! ## Operators -/

/-- A comparison of elements that `lt` orders. -/
def ComparisonType.orders {α : Type} [DecidableEq α] (lt : α → α → Bool) :
    ComparisonType → α → α → Bool
  | .equal, a, b => decide (a = b)
  | .notEqual, a, b => !decide (a = b)
  | .lessThan, a, b => lt a b
  | .lessThanOrEqual, a, b => !lt b a
  | .greaterThan, a, b => lt b a
  | .greaterThanOrEqual, a, b => !lt a b

/-- A comparison of floats, among which some are not ordered. -/
def ComparisonType.ordersFloats : ComparisonType → Float32 → Float32 → Bool
  | .equal, a, b => a == b
  | .notEqual, a, b => a != b
  | .lessThan, a, b => decide (a < b)
  | .lessThanOrEqual, a, b => decide (a ≤ b)
  | .greaterThan, a, b => decide (b < a)
  | .greaterThanOrEqual, a, b => decide (b ≤ a)

/-- Truth values are compared for equality only. -/
def ComparisonType.ordersBooleans : ComparisonType → Option (Bool → Bool → Bool)
  | .equal => some fun a b => a == b
  | .notEqual => some fun a b => a != b
  | _ => none

/-- A comparison of two values by the relations of their type. -/
def decideWith (integer : ℤ → ℤ → Bool) (float : Float32 → Float32 → Bool)
    (varchar : List UInt8 → List UInt8 → Bool) (boolean : Option (Bool → Bool → Bool)) :
    Payload → Payload → Option Bool
  | .integer a, .integer b => some (integer a.toInt b.toInt)
  | .float a, .float b => some (float (Value.toFloat a) (Value.toFloat b))
  | .varchar a, .varchar b => some (varchar a b)
  | .boolean a, .boolean b => boolean.map fun f => f a b
  | _, _ => none

/-- A comparison of two values of one type. -/
def ComparisonType.decides (compType : ComparisonType) : Payload → Payload → Option Bool :=
  decideWith (compType.orders fun a b => decide (a < b)) compType.ordersFloats
    (compType.orders fun a b => decide (a < b)) compType.ordersBooleans

/-- Arithmetic of floats. -/
def ArithmeticType.onFloats : ArithmeticType → Float32 → Float32 → Option Float32
  | .plus, a, b => some (a + b)
  | .minus, a, b => some (a - b)
  | .multiply, a, b => some (a * b)
  | .divide, a, b => if b == 0 then none else some (a / b)
  | .modulo, _, _ => none

/-- The exact integer, if it is an `int32_t`. -/
def exactPayload (z : ℤ) : Option Payload :=
  if -2 ^ 31 ≤ z ∧ z < 2 ^ 31 then some (.integer (BitVec.ofInt 32 z)) else none

namespace PlainOp

/-- What the operator computes from two values of the types it is for. -/
def computes : PlainOp → Payload → Payload → Option Payload
  | comparison compType, x, y => (compType.decides x y).map .boolean
  | arithmetic arithType, .integer a, .integer b =>
    (arithType.exact a.toInt b.toInt).bind exactPayload
  | arithmetic arithType, .float a, .float b =>
    (arithType.onFloats (Value.toFloat a) (Value.toFloat b)).map fun f =>
      .float f.toBits.toBitVec
  | _, _, _ => none

/-- The operation is one of integers and overflows. -/
def Overflows : PlainOp → Payload → Payload → Prop
  | arithmetic arithType, .integer a, .integer b => arithType.Overflows a.toInt b.toInt
  | _, _, _ => False

end PlainOp

/-- The computation returns the value, if there is one, and throws otherwise. -/
def Yields (value : Option Payload) (x : Cpp Value) : Prop :=
  match value with
  | some p => x = pure { payload := p }
  | none => ∃ e, x = throw e

/-- `compareWith` on values that are not null. -/
lemma yields_compareWith (integer : ℤ → ℤ → Bool) (float : Float32 → Float32 → Bool)
    (varchar : List UInt8 → List UInt8 → Bool) (boolean : Option (Bool → Bool → Bool))
    (x y : Payload) :
    Yields ((decideWith integer float varchar boolean x y).map .boolean)
      (Value.compareWith integer float varchar boolean { payload := x } { payload := y }) := by
  cases x <;> cases y <;> first | exact ⟨_, rfl⟩ | rfl | skip
  cases boolean with
  | none => exact ⟨_, rfl⟩
  | some f => rfl

/-- `PerformComparison` on values that are not null. -/
lemma ComparisonType.yields_perform (compType : ComparisonType) (x y : Payload) :
    Yields ((compType.decides x y).map .boolean)
      (compType.perform { payload := x } { payload := y }) := by
  have hle : ∀ a b : ℤ, decide (a ≤ b) = !decide (b < a) := by
    intro a b
    rw [← decide_not, decide_eq_decide, not_lt]
  unfold decides
  cases compType with
  | equal => exact yields_compareWith _ _ _ _ x y
  | notEqual =>
    unfold perform Value.compareNotEquals
    simp only [ne_eq, decide_not]
    exact yields_compareWith _ _ _ _ x y
  | lessThan => exact yields_compareWith _ _ _ _ x y
  | lessThanOrEqual =>
    unfold perform Value.compareLessThanOrEqual
    simp only [hle]
    exact yields_compareWith _ _ _ _ x y
  | greaterThan => exact yields_compareWith _ _ _ _ x y
  | greaterThanOrEqual =>
    unfold perform Value.compareGreaterThanOrEqual
    simp only [hle]
    exact yields_compareWith _ _ _ _ x y

/-- Without an overflow the exact value is computed. -/
lemma Computes.yields {noOverflow : Prop} {exact : Option ℤ} {x : Cpp Value}
    (h : Computes noOverflow exact x) (hno : noOverflow) : Yields (exact.bind exactPayload) x := by
  cases h with
  | @exact z _ hz =>
    have hrange : -2 ^ 31 ≤ z ∧ z < 2 ^ 31 := hz
    rw [Option.bind_some, exactPayload, if_pos hrange]
    rfl
  | refused _ msg => exact ⟨_, rfl⟩
  | overflow hover => exact absurd hno hover

/-- An operation on integers that overflows has no defined behaviour. -/
lemma Computes.eq_undefined {noOverflow : Prop} {exact : Option ℤ} {x : Cpp Value}
    (h : Computes noOverflow exact x) (hover : ¬ noOverflow) : x = Cpp.undefined := by
  cases h with
  | exact hno => exact absurd hno hover
  | refused hno => exact absurd hno hover
  | overflow => rfl

/-- `PerformComputation` on integers. -/
lemma ArithmeticType.computes_perform_ofInt (arithType : ArithmeticType) (a b : BitVec 32) :
    Computes (¬ arithType.Overflows a.toInt b.toInt) (arithType.exact a.toInt b.toInt)
      (arithType.perform (Value.ofInt a) (Value.ofInt b)) := by
  have hperform := arithType.computes_perform (isInt32_toInt a) (isInt32_toInt b)
  rwa [integer_toInt, integer_toInt] at hperform

/-- `PerformComputation` on values that are not null. -/
lemma ArithmeticType.yields_perform (arithType : ArithmeticType) {x y : Payload}
    (h : ¬ PlainOp.Overflows (.arithmetic arithType) x y) :
    Yields (PlainOp.computes (.arithmetic arithType) x y)
      (arithType.perform { payload := x } { payload := y }) := by
  cases x with
  | integer a =>
    cases y with
    | integer b => exact (arithType.computes_perform_ofInt a b).yields h
    | _ => cases arithType <;> exact ⟨_, rfl⟩
  | float a =>
    cases y with
    | float b =>
      cases arithType with
      | divide =>
        show Yields (Option.map _ (if Value.toFloat b == 0 then none else some _))
          (if Value.toFloat b == 0 then _ else _)
        split_ifs
        · exact ⟨_, rfl⟩
        · rfl
      | modulo => exact ⟨_, rfl⟩
      | plus | minus | multiply => rfl
    | _ => cases arithType <;> exact ⟨_, rfl⟩
  | _ => cases y <;> cases arithType <;> exact ⟨_, rfl⟩

namespace PlainOp

/-- An operator on two values, unless it overflows. -/
lemma yields_perform (op : PlainOp) {x y : Payload} (h : ¬ op.Overflows x y) :
    Yields (op.computes x y) (op.perform { payload := x } { payload := y }) := by
  cases op with
  | comparison compType => exact compType.yields_perform x y
  | arithmetic arithType => exact arithType.yields_perform h

/-- An operator that overflows. -/
lemma perform_of_overflows (op : PlainOp) {x y : Payload} (h : op.Overflows x y) :
    op.perform { payload := x } { payload := y } = Cpp.undefined := by
  match op, x, y, h with
  | arithmetic arithType, .integer a, .integer b, h =>
    exact (arithType.computes_perform_ofInt a b).eq_undefined (not_not.2 h)

/-- The binder refuses other operators. -/
lemma operatorExpression_of_named_eq_none {name : String} (h : named name = none)
    (left right : Expression) : ∃ e, operatorExpression name left right = throw e := by
  have hmem : name ∉ operatorNames := by
    intro hname
    have hall : ∀ n ∈ operatorNames, (named n).isSome = true := by decide
    have hsome := hall name hname
    rw [h] at hsome
    cases hsome
  have hstops := stopsAt_operatorExpression name left right
  rwa [refusedUnless, if_neg (by simpa using hmem)] at hstops

end PlainOp

/-! ## Nodes -/

/-- An operator on values of SQL. -/
def PlainOp.lift (op : PlainOp) : SqlValue → SqlValue → Option SqlValue
  | .datum x, .datum y => (op.computes x y).map .datum
  | _, _ => some .null

/-- `IS DISTINCT FROM`. -/
def distinctFrom : SqlValue → SqlValue → Option Bool
  | .null, .null => some false
  | .datum x, .datum y => (ComparisonType.equal.decides x y).map not
  | _, _ => some true

/-- `NULLIF`. -/
def nullIf : SqlValue → SqlValue → Option SqlValue
  | .datum x, .datum y =>
    (ComparisonType.equal.decides x y).map fun b => if b then .null else .datum x
  | x, _ => some x

/-- What an operator node of this kind and name means, given its operands. The operators `ANY` and
`ALL`, `IN` and `BETWEEN` take arrays and lists, and mean nothing on two values. -/
def AExprKind.denotes : AExprKind → List String → SqlValue → SqlValue → Option SqlValue
  | .op, [name], x, y => (PlainOp.named name).bind fun op => op.lift x y
  | .distinct, ["="], x, y => (distinctFrom x y).map fun b => .datum (.boolean b)
  | .notDistinct, ["="], x, y => (distinctFrom x y).map fun b => .datum (.boolean !b)
  | .nullif, ["="], x, y => nullIf x y
  | _, _, _, _ => none

/-- The truth of a value, if it has one: it may be unknown. -/
def SqlValue.truth : SqlValue → Option (Option Bool)
  | .null => some none
  | .datum (.boolean b) => some (some b)
  | .datum _ => none

/-- The value of this truth. -/
def SqlValue.ofTruth : Option Bool → SqlValue
  | none => .null
  | some b => .datum (.boolean b)

/-- `AND` and `OR`: an operand that decides the truth, or one that is unknown, or neither. -/
def LogicType.ofTruths : LogicType → List (Option Bool) → Option Bool
  | .and, ts => if some false ∈ ts then some false else if none ∈ ts then none else some true
  | .or, ts => if some true ∈ ts then some true else if none ∈ ts then none else some false

mutual

/-- The value that SQL assigns to an expression, where `column` says what the columns hold, by
qualifier and name. There is none for an error, and for constructs that the engine does not know:
functions, `NOT`, constants of other types and so on. -/
def sqlMeaning (stof : String → Cpp (BitVec 32)) (column : String → String → Option Payload) :
    Node → Option SqlValue
  | .columnRef [.string colName] => (column "" colName).map .datum
  | .columnRef [.string tableQualifier, .string colName] =>
    (column tableQualifier colName).map .datum
  | .aConst (.integer ival) => (exactPayload ival.toInt).map .datum
  | .aConst (.float str) => (stof str).result.map fun f => .datum (.float f)
  | .aConst (.string str) => some (.datum (.varchar (textBytes str)))
  | .aExpr kind name lexpr rexpr =>
    (sqlMeaning stof column lexpr).bind fun x =>
      (sqlMeaning stof column rexpr).bind fun y => kind.denotes name x y
  | .boolExpr .and args =>
    (sqlTruths stof column args).map fun ts => .ofTruth (LogicType.and.ofTruths ts)
  | .boolExpr .or args =>
    (sqlTruths stof column args).map fun ts => .ofTruth (LogicType.or.ofTruths ts)
  | _ => none

/-- The truths of the operands of `AND` and `OR`. -/
def sqlTruths (stof : String → Cpp (BitVec 32)) (column : String → String → Option Payload) :
    List Node → Option (List (Option Bool))
  | [] => some []
  | arg :: args =>
    ((sqlMeaning stof column arg).bind SqlValue.truth).bind fun t =>
      (sqlTruths stof column args).map (t :: ·)

end

end OneBase
