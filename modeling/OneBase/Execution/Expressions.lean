import OneBase.Storage.Table.Tuple
import OneBase.Type.Operations

set_option relaxedAutoImplicit false
set_option autoImplicit false

/-!
# Expressions

`execution/expressions/*.h`: the trees that the binder builds and the executors evaluate. An
`AbstractExpressionRef` may be a `nullptr`, and evaluating through it is undefined.

## Main definitions

* `OneBase.Expression` — the trees, with `evaluate`, `evaluateJoin` and `getReturnType`.
* `OneBase.Expression.holds` — whether a predicate accepts a row.

## Main results

* `OneBase.Expression.evaluate_congr` — evaluation only reads the columns of the row.
-/

namespace OneBase

/-- `ComparisonType`. -/
inductive ComparisonType
  | equal
  | notEqual
  | lessThan
  | lessThanOrEqual
  | greaterThan
  | greaterThanOrEqual
  deriving DecidableEq, Repr

/-- `ArithmeticType`. -/
inductive ArithmeticType
  | plus
  | minus
  | multiply
  | divide
  | modulo
  deriving DecidableEq, Repr

/-- `LogicType`. -/
inductive LogicType
  | and
  | or
  deriving DecidableEq, Repr

/-- `PerformComparison`. -/
def ComparisonType.perform : ComparisonType → Value → Value → Cpp Value
  | .equal => Value.compareEquals
  | .notEqual => Value.compareNotEquals
  | .lessThan => Value.compareLessThan
  | .lessThanOrEqual => Value.compareLessThanOrEqual
  | .greaterThan => Value.compareGreaterThan
  | .greaterThanOrEqual => Value.compareGreaterThanOrEqual

/-- `PerformComputation`. -/
def ArithmeticType.perform : ArithmeticType → Value → Value → Cpp Value
  | .plus => Value.add
  | .minus => Value.subtract
  | .multiply => Value.multiply
  | .divide => Value.divide
  | .modulo => Value.modulo

/-- `PerformLogic`. -/
def LogicType.perform : LogicType → Value → Value → Cpp Value
  | .and => Value.logicalAnd
  | .or => Value.logicalOr

/-- `AbstractExpressionRef`. -/
inductive Expression
  /-- The `nullptr`. -/
  | null
  | columnValue (tupleIdx colIdx : ℕ) (retType : TypeId)
  | constantValue (val : Value)
  | comparison (left right : Expression) (compType : ComparisonType)
  | arithmetic (left right : Expression) (arithType : ArithmeticType)
  | logic (left right : Expression) (logicType : LogicType)
  deriving DecidableEq, Repr, Inhabited

namespace Expression

/-- `GetReturnType`. The constructor of an arithmetic expression names its left operand twice, moved
into the children and asked for its type, and C++ leaves the order open. This is the order of GCC,
which asks first: the type is that of the left operand. In the other order it would be `INTEGER`. -/
def getReturnType : Expression → TypeId
  | null => .invalid
  | columnValue _ _ retType => retType
  | constantValue val => val.getTypeId
  | comparison _ _ _ => .boolean
  | arithmetic null _ _ => .integer
  | arithmetic left _ _ => left.getReturnType
  | logic _ _ _ => .boolean

/-- Evaluation of a tree whose column references are read by `column`. Both operands are
evaluated before the operation is performed. -/
def evaluateWith (column : ℕ → ℕ → Cpp Value) : Expression → Cpp Value
  | null => Cpp.undefined
  | columnValue tupleIdx colIdx _ => column tupleIdx colIdx
  | constantValue val => pure val
  | comparison left right compType => do
    let l ← left.evaluateWith column
    let r ← right.evaluateWith column
    compType.perform l r
  | arithmetic left right arithType => do
    let l ← left.evaluateWith column
    let r ← right.evaluateWith column
    arithType.perform l r
  | logic left right logicType => do
    let l ← left.evaluateWith column
    let r ← right.evaluateWith column
    logicType.perform l r

/-- `Evaluate`: a column reference reads its column of the one row, whatever its `tuple_idx_`. -/
def evaluate (e : Expression) (tuple : Tuple) (schema : Schema) : Cpp Value :=
  e.evaluateWith fun _ colIdx => tuple.getValueAt schema colIdx

/-- `Evaluate(nullptr, nullptr)`. -/
def evaluateNull (e : Expression) : Cpp Value := e.evaluateWith fun _ _ => Cpp.undefined

/-- `EvaluateJoin`. -/
def evaluateJoin (e : Expression) (leftTuple : Tuple) (leftSchema : Schema) (rightTuple : Tuple)
    (rightSchema : Schema) : Cpp Value :=
  e.evaluateWith fun tupleIdx colIdx =>
    if tupleIdx = 0 then leftTuple.getValueAt leftSchema colIdx
    else rightTuple.getValueAt rightSchema colIdx

/-- `!value.IsNull() && value.GetAsBoolean()`: whether a predicate with this value accepts. -/
def holds (v : Value) : Cpp Bool := if v.isNull then pure false else v.getAsBoolean

/-- The columns that the tree refers to, each with its `tuple_idx_`. -/
def columns : Expression → List (ℕ × ℕ)
  | null => []
  | columnValue tupleIdx colIdx _ => [(tupleIdx, colIdx)]
  | constantValue _ => []
  | comparison left right _ => left.columns ++ right.columns
  | arithmetic left right _ => left.columns ++ right.columns
  | logic left right _ => left.columns ++ right.columns

/-- Evaluation only reads the columns that the tree refers to. -/
lemma evaluateWith_congr {f g : ℕ → ℕ → Cpp Value} (e : Expression)
    (h : ∀ c ∈ e.columns, f c.1 c.2 = g c.1 c.2) : e.evaluateWith f = e.evaluateWith g := by
  have hoperands : ∀ left right : Expression,
      ((∀ c ∈ left.columns, f c.1 c.2 = g c.1 c.2) → left.evaluateWith f = left.evaluateWith g) →
      ((∀ c ∈ right.columns, f c.1 c.2 = g c.1 c.2) →
        right.evaluateWith f = right.evaluateWith g) →
      (∀ c ∈ left.columns ++ right.columns, f c.1 c.2 = g c.1 c.2) →
      left.evaluateWith f = left.evaluateWith g ∧ right.evaluateWith f = right.evaluateWith g := by
    intro left right hleft hright h
    exact ⟨hleft fun c hc => h c (List.mem_append_left _ hc),
      hright fun c hc => h c (List.mem_append_right _ hc)⟩
  induction e with
  | null => rfl
  | columnValue tupleIdx colIdx retType => exact h (tupleIdx, colIdx) List.mem_cons_self
  | constantValue val => rfl
  | comparison left right compType hleft hright =>
    obtain ⟨hl, hr⟩ := hoperands left right hleft hright h
    rw [evaluateWith, evaluateWith, hl, hr]
  | arithmetic left right arithType hleft hright =>
    obtain ⟨hl, hr⟩ := hoperands left right hleft hright h
    rw [evaluateWith, evaluateWith, hl, hr]
  | logic left right logicType hleft hright =>
    obtain ⟨hl, hr⟩ := hoperands left right hleft hright h
    rw [evaluateWith, evaluateWith, hl, hr]

/-- Evaluation only reads the columns of the row. -/
lemma evaluate_congr (e : Expression) {s t : Tuple} {schema schema' : Schema}
    (h : ∀ i, s.getValueAt schema i = t.getValueAt schema' i) :
    e.evaluate s schema = e.evaluate t schema' := by
  unfold evaluate
  congr 1
  funext _ colIdx
  exact h colIdx

end Expression

end OneBase
