import OneBase.Execution.Denotation
import OneBase.Execution.SortOrder

set_option relaxedAutoImplicit false
set_option autoImplicit false

/-!
# Types of expressions and plans

An expression says its type, `GetReturnType`, and a plan says those of its columns, its output
schema. Both are right for the values that are computed, if the columns that the expressions refer
to have the types that they say. The operands of an expression may be checked as well, and then its
evaluation does not throw because of a type.

## Main definitions

* `OneBase.Expression.inScope` — the columns of an expression have the types that it says.
* `OneBase.Expression.checks` — the operands have types that the operations take.
* `OneBase.PlanNode.wellTyped` — the output schemas say what the expressions say.
* `OneBase.EvaluationOutcome` — what the evaluation of an expression may end with.

## Main results

* `OneBase.Expression.evaluate_safe` — an expression has values of its type, and a checked one does
  not fail because of a type.
* `OneBase.hasTypes_of_returns` — the rows of a plan have the columns of its output schema.
-/

namespace OneBase

open Exec

/-! ## Expressions -/

/-- The value is of this type, and not null. -/
def Value.HasType (v : Value) (type : TypeId) : Prop := v.getTypeId = type ∧ v.isNull = false

/-- There is a value for each of these types. -/
def HasTypes (types : List TypeId) (values : List Value) : Prop :=
  List.Forall₂ (fun type v => Value.HasType v type) types values

/-- The types of the columns of a row. -/
def rowScope (types : List TypeId) (_ colIdx : ℕ) : Option TypeId := types[colIdx]?

/-- The types of the columns of two rows. -/
def joinScope (leftTypes rightTypes : List TypeId) (tupleIdx colIdx : ℕ) : Option TypeId :=
  if tupleIdx = 0 then leftTypes[colIdx]? else rightTypes[colIdx]?

/-- The columns of the scope are read with the types that it says. -/
def ReadsScope (scope : ℕ → ℕ → Option TypeId) (column : ℕ → ℕ → Cpp Value) : Prop :=
  ∀ tupleIdx colIdx type, scope tupleIdx colIdx = some type →
    ∃ v, column tupleIdx colIdx = pure v ∧ v.HasType type

/-- The columns that the expression refers to have the types that it says, and its constants are
not null. -/
def Expression.inScope (scope : ℕ → ℕ → Option TypeId) : Expression → Bool
  | null => true
  | columnValue tupleIdx colIdx retType => decide (scope tupleIdx colIdx = some retType)
  | constantValue val => !val.isNull
  | comparison left right _ | arithmetic left right _ | logic left right _ =>
    left.inScope scope && right.inScope scope

/-- The types whose values can be compared so. -/
def ComparisonType.takes : ComparisonType → TypeId → Bool
  | _, .invalid => false
  | .equal, .boolean | .notEqual, .boolean => true
  | _, .boolean => false
  | _, _ => true

/-- The types with this operation. -/
def ArithmeticType.takes : ArithmeticType → TypeId → Bool
  | _, .integer => true
  | .modulo, .float => false
  | _, .float => true
  | _, _ => false

/-- The expression is in scope, and its operands have types that the operations take. -/
def Expression.checks (scope : ℕ → ℕ → Option TypeId) : Expression → Bool
  | null => false
  | columnValue tupleIdx colIdx retType => decide (scope tupleIdx colIdx = some retType)
  | constantValue val => !val.isNull
  | comparison left right compType =>
    left.checks scope && right.checks scope &&
      decide (left.getReturnType = right.getReturnType) && compType.takes left.getReturnType
  | arithmetic left right arithType =>
    left.checks scope && right.checks scope &&
      decide (left.getReturnType = right.getReturnType) && arithType.takes left.getReturnType
  | logic left right _ =>
    left.checks scope && right.checks scope &&
      decide (left.getReturnType = .boolean ∧ right.getReturnType = .boolean)

/-- There is an arithmetic operation in the expression. -/
def Expression.hasArithmetic : Expression → Bool
  | null | columnValue _ _ _ | constantValue _ => false
  | comparison left right _ | logic left right _ => left.hasArithmetic || right.hasArithmetic
  | arithmetic _ _ _ => true

/-- What an evaluation may end with: a value of the type; and, with arithmetic, one of its two
exceptions or an overflow. -/
inductive EvaluationOutcome (type : TypeId) : Bool → Cpp Value → Prop
  | value {arithmetic : Bool} {v : Value} (h : v.HasType type) :
      EvaluationOutcome type arithmetic (pure v)
  | divisionByZero : EvaluationOutcome type true (throw (.logicError "Division by zero"))
  | moduloByZero : EvaluationOutcome type true (throw (.logicError "Modulo by zero"))
  | overflow : EvaluationOutcome type true Cpp.undefined

section Operations

variable {v w u : Value} {type : TypeId}

/-- The type of a truth value. -/
lemma hasType_ofBool (b : Bool) : (Value.ofBool b).HasType .boolean := ⟨rfl, rfl⟩

/-- The type of an integer. -/
lemma hasType_ofInt (i : BitVec 32) : (Value.ofInt i).HasType .integer := ⟨rfl, rfl⟩

/-- The type of a float. -/
lemma hasType_ofFloat (f : Float32) : (Value.ofFloat f).HasType .float := ⟨rfl, rfl⟩

/-- A comparison that returns is a boolean. -/
lemma hasType_of_compare {compType : ComparisonType} (h : compType.perform v w = pure u) :
    u.HasType .boolean := by
  have hbool : ∃ b, u = Value.ofBool b := by
    cases compType <;>
    · simp only [ComparisonType.perform, Value.compareEquals, Value.compareNotEquals,
        Value.compareLessThan, Value.compareLessThanOrEqual, Value.compareGreaterThan,
        Value.compareGreaterThanOrEqual] at h
      exact (Value.compareWith_returns h).2
  obtain ⟨b, rfl⟩ := hbool
  exact hasType_ofBool b

/-- A logical operation that returns is a boolean. -/
lemma hasType_of_logic {logicType : LogicType} (h : logicType.perform v w = pure u) :
    u.HasType .boolean := by
  have hbool : ∃ b, u = Value.ofBool b := by
    cases logicType <;>
    · simp only [LogicType.perform, Value.logicalAnd, Value.logicalOr, Value.logicWith] at h
      split at h
      · cases h
        exact ⟨_, rfl⟩
      · cases h
  obtain ⟨b, rfl⟩ := hbool
  exact hasType_ofBool b

/-- Comparisons of values of a type that they take return. -/
lemma exists_compare {compType : ComparisonType} (hv : v.getTypeId = type)
    (hw : w.getTypeId = type) (htakes : compType.takes type = true) :
    ∃ b, compType.perform v w = pure (Value.ofBool b) := by
  obtain ⟨a, m⟩ := v
  obtain ⟨b, n⟩ := w
  simp only [Value.getTypeId] at hv hw
  subst hv
  cases a <;> cases b <;> simp only [Payload.typeId, reduceCtorEq] at hw htakes <;>
    cases compType <;> simp only [ComparisonType.takes, Bool.false_eq_true] at htakes <;>
    exact ⟨_, rfl⟩

/-- Logical operations on booleans return. -/
lemma exists_logic {logicType : LogicType} (hv : v.getTypeId = .boolean)
    (hw : w.getTypeId = .boolean) : ∃ b, logicType.perform v w = pure (Value.ofBool b) := by
  obtain ⟨a, m⟩ := v
  obtain ⟨b, n⟩ := w
  simp only [Value.getTypeId] at hv hw
  cases a <;> cases b <;> simp only [Payload.typeId, reduceCtorEq] at hv hw
  cases logicType <;> exact ⟨_, rfl⟩

/-- Arithmetic on integers that does not overflow has an integer as its result. -/
lemma evaluationOutcome_intResult (i : ℤ) :
    EvaluationOutcome .integer true (Value.intResult i) := by
  unfold Value.intResult
  split_ifs
  · exact .value (hasType_ofInt _)
  · exact .overflow

/-- Arithmetic on values of a type that it takes ends so. -/
lemma evaluationOutcome_perform {arithType : ArithmeticType} (hv : v.getTypeId = type)
    (hw : w.getTypeId = type) (htakes : arithType.takes type = true) :
    EvaluationOutcome type true (arithType.perform v w) := by
  obtain ⟨a, m⟩ := v
  obtain ⟨b, n⟩ := w
  simp only [Value.getTypeId] at hv hw
  subst hv
  cases a <;> cases b <;> simp only [Payload.typeId, reduceCtorEq] at hw htakes ⊢
  · cases arithType <;> cases htakes
  · cases arithType <;> cases htakes
  · rename_i a b
    cases arithType with
    | plus | minus | multiply => exact evaluationOutcome_intResult _
    | divide =>
      change EvaluationOutcome _ _ (if b.toInt = 0 then _ else _)
      split_ifs
      · exact .divisionByZero
      · exact evaluationOutcome_intResult _
    | modulo =>
      change EvaluationOutcome _ _ (if b.toInt = 0 then _ else if _ then _ else _)
      split_ifs
      · exact .moduloByZero
      · exact .overflow
      · exact evaluationOutcome_intResult _
  · rename_i a b
    cases arithType with
    | plus | minus | multiply => exact .value (hasType_ofFloat _)
    | divide =>
      change EvaluationOutcome _ _ (if Value.toFloat b == 0 then _ else _)
      split_ifs
      · exact .divisionByZero
      · exact .value (hasType_ofFloat _)
    | modulo => cases htakes
  · cases arithType <;> cases htakes

/-- The values of an outcome are of its type. -/
lemma EvaluationOutcome.hasType {arithmetic : Bool} {r : Cpp Value}
    (h : EvaluationOutcome type arithmetic r) (hr : r = pure u) : u.HasType type := by
  cases h with
  | value hv =>
    cases hr
    exact hv
  | divisionByZero | moduloByZero | overflow => cases hr

/-- What comes after a value fails like the evaluation of the value, or by itself. -/
lemma EvaluationOutcome.bind {r : Cpp Value} {f : Value → Cpp Value} {type' : TypeId} {a b : Bool}
    (h : EvaluationOutcome type a r)
    (hf : ∀ v, v.HasType type → EvaluationOutcome type' b (f v)) :
    EvaluationOutcome type' (a || b) (r >>= f) := by
  cases h with
  | @value _ v hv =>
    have hnext := hf v hv
    rw [pure_bind]
    generalize f v = s at hnext
    cases hnext with
    | value hw => exact .value hw
    | divisionByZero =>
      rw [Bool.or_true]
      exact .divisionByZero
    | moduloByZero =>
      rw [Bool.or_true]
      exact .moduloByZero
    | overflow =>
      rw [Bool.or_true]
      exact .overflow
  | divisionByZero => exact .divisionByZero
  | moduloByZero => exact .moduloByZero
  | overflow => exact .overflow

/-- Arithmetic that returns has operands of one type that it takes. -/
lemma takes_of_arithmetic {arithType : ArithmeticType} (h : arithType.perform v w = pure u) :
    w.getTypeId = v.getTypeId ∧ arithType.takes v.getTypeId = true := by
  obtain ⟨a, m⟩ := v
  obtain ⟨b, n⟩ := w
  cases a <;> cases b <;> cases arithType <;> first | exact ⟨rfl, rfl⟩ | cases h

/-- Arithmetic that returns has a value of the type of its left operand. -/
lemma hasType_of_arithmetic {arithType : ArithmeticType} (h : arithType.perform v w = pure u) :
    u.HasType v.getTypeId := by
  obtain ⟨htype, htakes⟩ := takes_of_arithmetic h
  exact (evaluationOutcome_perform rfl htype htakes).hasType h

end Operations

section Evaluation

variable {types leftTypes rightTypes : List TypeId} {scope : ℕ → ℕ → Option TypeId}
  {column : ℕ → ℕ → Cpp Value} {e left right : Expression} {tuple leftTuple rightTuple : Tuple}
  {schema leftSchema rightSchema : Schema} {v : Value} {i : ℕ} {type : TypeId}

/-- An arithmetic expression is typed as its left operand. -/
lemma getReturnType_arithmetic {arithType : ArithmeticType} (hleft : left ≠ .null) :
    (Expression.arithmetic left right arithType).getReturnType = left.getReturnType := by
  cases left <;> first | rfl | exact absurd rfl hleft

/-- In related lists, each position on the left has one on the right. -/
lemma exists_getElem?_of_forall₂ {α β : Type} {R : α → β → Prop} {l : List α} {l' : List β} {a : α}
    (h : List.Forall₂ R l l') (ha : l[i]? = some a) : ∃ b, l'[i]? = some b ∧ R a b := by
  induction h generalizing i with
  | nil => cases ha
  | cons hb _ ih =>
    cases i with
    | zero =>
      cases ha
      exact ⟨_, rfl, hb⟩
    | succ i => exact ih ha

/-- A column of a typed row has the type of the column. -/
lemma HasTypes.getValueAt (h : HasTypes types tuple.values) (schema : Schema)
    (htype : types[i]? = some type) :
    ∃ v, tuple.getValueAt schema i = pure v ∧ v.HasType type := by
  obtain ⟨v, hv, hvtype⟩ := exists_getElem?_of_forall₂ h htype
  exact ⟨v, getValueAt_of_getElem? hv, hvtype⟩

/-- The columns of a typed row are read with their types. -/
lemma HasTypes.readsScope (h : HasTypes types tuple.values) (schema : Schema) :
    ReadsScope (rowScope types) fun _ colIdx => tuple.getValueAt schema colIdx := by
  intro tupleIdx colIdx type htype
  exact h.getValueAt schema htype

/-- So are those of a pair of typed rows. -/
lemma HasTypes.readsScope_join (hl : HasTypes leftTypes leftTuple.values)
    (hr : HasTypes rightTypes rightTuple.values) (leftSchema rightSchema : Schema) :
    ReadsScope (joinScope leftTypes rightTypes) fun tupleIdx colIdx =>
      if tupleIdx = 0 then leftTuple.getValueAt leftSchema colIdx
      else rightTuple.getValueAt rightSchema colIdx := by
  intro tupleIdx colIdx type htype
  unfold joinScope at htype
  by_cases hidx : tupleIdx = 0
  · simp only [hidx, if_true] at htype ⊢
    exact hl.getValueAt leftSchema htype
  · simp only [hidx, if_false] at htype ⊢
    exact hr.getValueAt rightSchema htype

/-- If an expression in scope evaluates to a value, then it is one of the type that the expression
says, and not null. -/
lemma Expression.hasType_of_evaluateWith (hcolumn : ReadsScope scope column)
    (hscope : e.inScope scope = true) (h : e.evaluateWith column = pure v) :
    v.HasType e.getReturnType := by
  induction e generalizing v with
  | null => cases h
  | columnValue tupleIdx colIdx retType =>
    obtain ⟨w, hw, htype⟩ := hcolumn _ _ _ (of_decide_eq_true hscope)
    rw [Expression.evaluateWith, hw] at h
    cases h
    exact htype
  | constantValue val =>
    cases h
    refine ⟨rfl, ?_⟩
    simpa [Expression.inScope] using hscope
  | comparison left right compType =>
    obtain ⟨l, -, hrest⟩ := Cpp.bind_eq_pure.1 h
    obtain ⟨r, -, hperform⟩ := Cpp.bind_eq_pure.1 hrest
    exact hasType_of_compare hperform
  | arithmetic left right arithType ihl =>
    obtain ⟨hleft, -⟩ := (Bool.and_eq_true _ _).mp hscope
    obtain ⟨l, hl, hrest⟩ := Cpp.bind_eq_pure.1 h
    obtain ⟨r, -, hperform⟩ := Cpp.bind_eq_pure.1 hrest
    have hne : left ≠ .null := by
      intro hnull
      rw [hnull] at hl
      cases hl
    rw [getReturnType_arithmetic hne, ← (ihl hleft hl).1]
    exact hasType_of_arithmetic hperform
  | logic left right logicType =>
    obtain ⟨l, -, hrest⟩ := Cpp.bind_eq_pure.1 h
    obtain ⟨r, -, hperform⟩ := Cpp.bind_eq_pure.1 hrest
    exact hasType_of_logic hperform

/-- The evaluation of a checked expression ends with a value of the type that the expression says,
or with an exception or overflow of its arithmetic. -/
lemma Expression.evaluateWith_safe (hcolumn : ReadsScope scope column)
    (hchecks : e.checks scope = true) :
    EvaluationOutcome e.getReturnType e.hasArithmetic (e.evaluateWith column) := by
  induction e with
  | null => cases hchecks
  | columnValue tupleIdx colIdx retType =>
    obtain ⟨w, hw, htype⟩ := hcolumn _ _ _ (of_decide_eq_true hchecks)
    rw [Expression.evaluateWith, hw]
    exact .value htype
  | constantValue val =>
    refine .value ⟨rfl, ?_⟩
    simpa [Expression.checks] using hchecks
  | comparison left right compType ihl ihr =>
    simp only [Expression.checks, Bool.and_eq_true, decide_eq_true_eq] at hchecks
    obtain ⟨⟨⟨hleft, hright⟩, htype⟩, htakes⟩ := hchecks
    rw [Expression.hasArithmetic, ← Bool.or_false right.hasArithmetic]
    refine (ihl hleft).bind fun l hl => (ihr hright).bind fun r hr => ?_
    obtain ⟨b, hb⟩ := exists_compare hl.1 (hr.1.trans htype.symm) htakes
    rw [hb]
    exact .value (hasType_ofBool b)
  | arithmetic left right arithType ihl ihr =>
    simp only [Expression.checks, Bool.and_eq_true, decide_eq_true_eq] at hchecks
    obtain ⟨⟨⟨hleft, hright⟩, htype⟩, htakes⟩ := hchecks
    have hne : left ≠ .null := by
      intro hnull
      rw [hnull] at hleft
      cases hleft
    have hall : (Expression.arithmetic left right arithType).hasArithmetic =
        (left.hasArithmetic || (right.hasArithmetic || true)) := by
      simp [Expression.hasArithmetic]
    rw [getReturnType_arithmetic hne, hall]
    refine (ihl hleft).bind fun l hl => (ihr hright).bind fun r hr => ?_
    exact evaluationOutcome_perform hl.1 (hr.1.trans htype.symm) htakes
  | logic left right logicType ihl ihr =>
    simp only [Expression.checks, Bool.and_eq_true, decide_eq_true_eq] at hchecks
    obtain ⟨⟨hleft, hright⟩, hltype, hrtype⟩ := hchecks
    rw [Expression.hasArithmetic, ← Bool.or_false right.hasArithmetic]
    refine (ihl hleft).bind fun l hl => (ihr hright).bind fun r hr => ?_
    obtain ⟨b, hb⟩ : ∃ b, logicType.perform l r = pure (Value.ofBool b) :=
      exists_logic (hl.1.trans hltype) (hr.1.trans hrtype)
    rw [hb]
    exact .value (hasType_ofBool b)

/-- A checked expression without arithmetic has a value. -/
lemma Expression.exists_evaluateWith (hcolumn : ReadsScope scope column)
    (hchecks : e.checks scope = true) (harith : e.hasArithmetic = false) :
    ∃ v, e.evaluateWith column = pure v ∧ v.HasType e.getReturnType := by
  have hsafe := Expression.evaluateWith_safe hcolumn hchecks
  rw [harith] at hsafe
  generalize e.evaluateWith _ = r at hsafe
  cases hsafe with
  | @value _ v hv => exact ⟨v, rfl, hv⟩

/-- A checked expression without arithmetic has a value of its type. -/
lemma Expression.exists_value (hrow : HasTypes types tuple.values) (schema : Schema)
    (hchecks : e.checks (rowScope types) = true) (harith : e.hasArithmetic = false) :
    ∃ v, e.evaluate tuple schema = pure v ∧ v.HasType e.getReturnType :=
  Expression.exists_evaluateWith (hrow.readsScope schema) hchecks harith

/-- **Type safety of expressions.** An expression whose columns have the types that it says has
values of the type that it says itself, on a row and on the two rows of a join. If its operands have
types that the operations take as well, then its evaluation ends with such a value or with an
exception or overflow of its arithmetic; without arithmetic, it ends with a value. -/
theorem Expression.evaluate_safe (e : Expression) (types leftTypes rightTypes : List TypeId) :
    (∀ tuple schema, HasTypes types tuple.values →
      (e.inScope (rowScope types) = true → ∀ v, e.evaluate tuple schema = pure v →
        v.HasType e.getReturnType) ∧
      (e.checks (rowScope types) = true →
        EvaluationOutcome e.getReturnType e.hasArithmetic (e.evaluate tuple schema))) ∧
    ∀ leftTuple leftSchema rightTuple rightSchema, HasTypes leftTypes leftTuple.values →
      HasTypes rightTypes rightTuple.values →
      (e.inScope (joinScope leftTypes rightTypes) = true →
        ∀ v, e.evaluateJoin leftTuple leftSchema rightTuple rightSchema = pure v →
          v.HasType e.getReturnType) ∧
      (e.checks (joinScope leftTypes rightTypes) = true →
        EvaluationOutcome e.getReturnType e.hasArithmetic
          (e.evaluateJoin leftTuple leftSchema rightTuple rightSchema)) := by
  constructor
  · intro tuple schema hrow
    have hreads := hrow.readsScope schema
    exact ⟨fun hscope v => Expression.hasType_of_evaluateWith hreads hscope,
      Expression.evaluateWith_safe hreads⟩
  · intro leftTuple leftSchema rightTuple rightSchema hl hr
    have hreads := hl.readsScope_join hr leftSchema rightSchema
    exact ⟨fun hscope v => Expression.hasType_of_evaluateWith hreads hscope,
      Expression.evaluateWith_safe hreads⟩

end Evaluation

/-- On the row `(7, 'a')`, the expression `x + 1 < 9` is a boolean, or overflows. -/
theorem Expression.evaluate_safe_row :
    EvaluationOutcome .boolean true
      ((Expression.comparison (.arithmetic (.columnValue 0 0 .integer)
        (.constantValue (Value.ofInt 1)) .plus) (.constantValue (Value.ofInt 9)) .lessThan).evaluate
          { values := [Value.ofInt 7, { payload := .varchar [97] }] } (Schema.new [])) := by
  have hrow : HasTypes [.integer, .varchar] [Value.ofInt 7, { payload := .varchar [97] }] :=
    .cons ⟨rfl, rfl⟩ (.cons ⟨rfl, rfl⟩ .nil)
  exact ((Expression.evaluate_safe (.comparison (.arithmetic (.columnValue 0 0 .integer)
    (.constantValue (Value.ofInt 1)) .plus) (.constantValue (Value.ofInt 9)) .lessThan)
      [.integer, .varchar] [] []).1 { values := [Value.ofInt 7, { payload := .varchar [97] }] } _
        hrow).2 (by decide)

/-! ## Plans -/

/-- The types of the columns. -/
def Schema.types (s : Schema) : List TypeId := s.columns.map Column.type

/-- The columns of a schema have the types that it was made of. -/
lemma types_new (columns : List Column) : (Schema.new columns).types = columns.map Column.type := by
  have hassign : ∀ (offset : ℕ) (cols : List Column),
      (Schema.assignOffsets offset cols).1.map Column.type = cols.map Column.type := by
    intro offset cols
    induction cols generalizing offset with
    | nil => rfl
    | cons col cols ih => simp [Schema.assignOffsets, ih]
  exact hassign 0 columns

/-- The type of an aggregate of the values of an expression. -/
def AggregationType.resultType (aggType : AggregationType) (e : Expression) : TypeId :=
  match aggType with
  | .countStarAggregate | .countAggregate => .integer
  | .sumAggregate | .minAggregate | .maxAggregate => e.getReturnType

/-- The types of aggregates. -/
def aggregateTypes (aggTypes : List AggregationType) (aggregates : List Expression) : List TypeId :=
  (aggTypes.zip aggregates).map fun p => p.1.resultType p.2

/-- A sort can order rows by the values of this expression: they are integers or strings, and are
computed without arithmetic. -/
def Expression.orders (scope : ℕ → ℕ → Option TypeId) (e : Expression) : Bool :=
  e.checks scope && !e.hasArithmetic &&
    decide (e.getReturnType = .integer ∨ e.getReturnType = .varchar)

/-- The output schemas say the types of the rows that are computed from rows with the types that the
schemas of the children say. -/
def PlanNode.wellTyped (catalog : Catalog) : PlanNode → Bool
  | .seqScan out oid _ =>
    (catalog.getTable oid).all fun info =>
      decide (out.types = info.schema.types ∧ info.schema.columns.length < 2 ^ 32)
  | .nestedLoopJoin out left right _ | .hashJoin out left right _ _ =>
    left.wellTyped catalog && right.wellTyped catalog &&
      decide (left.getOutputSchema.columns.length < 2 ^ 32 ∧
        right.getOutputSchema.columns.length < 2 ^ 32 ∧
        out.types = left.getOutputSchema.types ++ right.getOutputSchema.types)
  | .aggregation out child groupBys aggregates aggTypes =>
    child.wellTyped catalog &&
      (groupBys ++ aggregates).all (·.inScope (rowScope child.getOutputSchema.types)) &&
      decide (aggTypes.length = aggregates.length ∧ out.types =
        groupBys.map Expression.getReturnType ++ aggregateTypes aggTypes aggregates)
  | .sort out child orderBys =>
    child.wellTyped catalog && decide (out.types = child.getOutputSchema.types) &&
      orderBys.all (·.2.orders (rowScope child.getOutputSchema.types))
  | .limit out child _ =>
    child.wellTyped catalog && decide (out.types = child.getOutputSchema.types)
  | .projection out child expressions =>
    child.wellTyped catalog &&
      expressions.all (·.inScope (rowScope child.getOutputSchema.types)) &&
      decide (out.types = expressions.map Expression.getReturnType)
  -- The rows of an index scan have no values.
  | .null | .indexScan .. | .insert .. | .delete .. | .update .. | .utility .. => false

section Rows

variable {types leftTypes rightTypes : List TypeId} {tuple : Tuple} {schema : Schema}
  {values : List Value} {expressions : List Expression}

/-- A value that was read is of the type of its column. -/
lemma hasType_deserializeFrom {storage : List UInt8} {type : TypeId} {v : Value}
    (h : Value.deserializeFrom storage type = pure v) : v.HasType type := by
  refine ⟨?_, Value.isNull_deserializeFrom h⟩
  cases type with
  | boolean =>
    obtain ⟨bytes, -, h⟩ := Cpp.bind_eq_pure.1 h
    split at h <;> cases h <;> rfl
  | integer | float =>
    obtain ⟨bytes, -, h⟩ := Cpp.bind_eq_pure.1 h
    cases h
    rfl
  | varchar =>
    obtain ⟨bytes, -, h⟩ := Cpp.bind_eq_pure.1 h
    obtain ⟨s, -, h⟩ := Cpp.bind_eq_pure.1 h
    cases h
    rfl
  | invalid => cases h

/-- The columns of a row, if each of them has its type. -/
lemma hasTypes_columnValues (hcount : schema.columns.length < 2 ^ 32)
    (hcolumn : ∀ i column v, schema.columns[i]? = some column →
      tuple.getValueAt schema i = pure v → v.HasType column.type)
    (h : columnValues tuple schema = pure values) : HasTypes schema.types values := by
  have hforall := Cpp.mapM_eq_pure.1 h
  have hlen : values.length = schema.columns.length := by
    rw [← hforall.length_eq, List.length_range, Schema.getColumnCount, Nat.mod_eq_of_lt hcount]
  refine List.forall₂_iff_get.2 ⟨by rw [hlen, Schema.types, List.length_map], fun i hi hi' => ?_⟩
  have hget := (List.forall₂_iff_get.1 hforall).2 i (by rw [hforall.length_eq]; exact hi') hi'
  rw [List.get_eq_getElem, List.get_eq_getElem, List.getElem_range] at hget
  rw [List.get_eq_getElem, List.get_eq_getElem]
  simp only [Schema.types, List.getElem_map]
  exact hcolumn i _ _ (List.getElem?_eq_getElem (by omega)) hget

/-- The row that a scan makes of the bytes of a record. -/
lemma hasTypes_of_scanRow {predicate : Expression} {r : RID × List UInt8}
    (hcount : schema.columns.length < 2 ^ 32)
    (h : scanRow predicate schema r = pure (some tuple)) : HasTypes schema.types tuple.values := by
  obtain ⟨keep, -, h⟩ := Cpp.bind_eq_pure.1 h
  split_ifs at h
  · obtain ⟨values, hvalues, h⟩ := Cpp.bind_eq_pure.1 h
    obtain ⟨made, hmade, h⟩ := Cpp.bind_eq_pure.1 h
    have htuple : tuple.values = values := by
      rw [← values_of_ofValues hmade]
      cases h
      rfl
    rw [htuple]
    refine hasTypes_columnValues hcount (fun i column v hcolumn hv => ?_) hvalues
    unfold Tuple.getValueAt at hv
    simp only [rawTuple, List.getElem?_nil, Schema.getColumn, hcolumn] at hv
    exact hasType_deserializeFrom hv
  · cases h

/-- The rows of a scan have the types of the columns. -/
lemma hasTypes_of_scanRows {predicate : Expression} {rows : List (RID × List UInt8)}
    {out : List Row} (hcount : schema.columns.length < 2 ^ 32)
    (h : scanRows (scanRow predicate schema) rows = pure out) :
    ∀ row ∈ out, HasTypes schema.types row.1.values := by
  induction rows generalizing out with
  | nil =>
    cases h
    exact fun row hrow => by cases hrow
  | cons r rows ih =>
    obtain ⟨o, ho, hrest⟩ := Cpp.bind_eq_pure.1 h
    obtain ⟨out', hout', heq⟩ := Cpp.bind_eq_pure.1 hrest
    cases o with
    | none =>
      cases heq
      exact ih hout'
    | some tuple =>
      cases heq
      intro row hrow
      rcases List.mem_cons.1 hrow with rfl | hrow
      · exact hasTypes_of_scanRow hcount ho
      · exact ih hout' row hrow

/-- The values of expressions on a row. -/
lemma hasTypes_evaluate (hrow : HasTypes types tuple.values)
    (hscope : ∀ e ∈ expressions, e.inScope (rowScope types) = true)
    (h : (expressions.mapM fun e => e.evaluate tuple schema) = pure values) :
    HasTypes (expressions.map Expression.getReturnType) values := by
  have hforall := Cpp.mapM_eq_pure.1 h
  refine List.forall₂_map_left_iff.2 ?_
  clear h
  induction hforall with
  | nil => exact .nil
  | @cons e v expressions values hv _ ih =>
    refine .cons ?_ (ih fun e he => hscope e (List.mem_cons_of_mem _ he))
    exact Expression.hasType_of_evaluateWith (hrow.readsScope schema)
      (hscope e List.mem_cons_self) hv

/-- The row of a join. -/
lemma hasTypes_joinRow {leftTuple rightTuple : Tuple} {leftSchema rightSchema : Schema}
    (hlcount : leftSchema.columns.length < 2 ^ 32) (hrcount : rightSchema.columns.length < 2 ^ 32)
    (hl : HasTypes leftSchema.types leftTuple.values)
    (hr : HasTypes rightSchema.types rightTuple.values)
    (h : joinRow leftSchema rightSchema leftTuple rightTuple = pure tuple) :
    HasTypes (leftSchema.types ++ rightSchema.types) tuple.values := by
  have hcolumns : ∀ {t : Tuple} {s : Schema} {vs : List Value}, s.columns.length < 2 ^ 32 →
      HasTypes s.types t.values → columnValues t s = pure vs → HasTypes s.types vs := by
    intro t s vs hcount htypes hvs
    refine hasTypes_columnValues hcount (fun i column v hcolumn hv => ?_) hvs
    obtain ⟨w, hw, hwtype⟩ := htypes.getValueAt s
      (show s.types[i]? = some column.type by simp [Schema.types, hcolumn])
    rw [hw] at hv
    cases hv
    exact hwtype
  obtain ⟨ls, hls, h⟩ := Cpp.bind_eq_pure.1 h
  obtain ⟨rs, hrs, h⟩ := Cpp.bind_eq_pure.1 h
  rw [values_of_ofValues h]
  exact List.rel_append (hcolumns hlcount hl hls) (hcolumns hrcount hr hrs)

/-- In related lists, each element on the right has one on the left. -/
lemma exists_left_of_mem {α β : Type} {R : α → β → Prop} {l : List α} {l' : List β} {b : β}
    (h : List.Forall₂ R l l') (hb : b ∈ l') : ∃ a ∈ l, R a b := by
  induction h with
  | nil => exact absurd hb List.not_mem_nil
  | cons ha _ ih =>
    rcases List.mem_cons.1 hb with rfl | hb
    · exact ⟨_, List.mem_cons_self, ha⟩
    · obtain ⟨a, hmem, ha⟩ := ih hb
      exact ⟨a, List.mem_cons_of_mem _ hmem, ha⟩

/-- One more row of a type. -/
lemma forall_concat {tuples : List Tuple} (h : ∀ t ∈ tuples, HasTypes types t.values)
    (htuple : HasTypes types tuple.values) : ∀ t ∈ tuples ++ [tuple], HasTypes types t.values := by
  intro t ht
  rcases List.mem_append.1 ht with ht | ht
  · exact h t ht
  · rw [List.mem_singleton.1 ht]
    exact htuple

section Joins

variable {L R : List Row} {predicate leftKeyExpr rightKeyExpr : Expression} {tuples : List Tuple}
  {leftSchema rightSchema : Schema}

/-- The rows of a nested-loop join have the types of both sides.

**Proof sketch.** Every row of the result joins a pair of rows of the children: the loops keep this
of the rows that they have collected. -/
lemma hasTypes_nestedLoopTuples (hlcount : leftSchema.columns.length < 2 ^ 32)
    (hrcount : rightSchema.columns.length < 2 ^ 32)
    (hL : ∀ row ∈ L, HasTypes leftSchema.types row.1.values)
    (hR : L ≠ [] → ∀ row ∈ R, HasTypes rightSchema.types row.1.values)
    (h : nestedLoopTuples predicate leftSchema rightSchema L R = pure tuples) :
    ∀ t ∈ tuples, HasTypes (leftSchema.types ++ rightSchema.types) t.values := by
  refine Cpp.holds_foldlM (P := fun acc : List Tuple =>
    ∀ t ∈ acc, HasTypes (leftSchema.types ++ rightSchema.types) t.values) ?_ (by simp) h
  intro l hl acc acc' hacc hinner
  refine Cpp.holds_foldlM (P := fun acc : List Tuple =>
    ∀ t ∈ acc, HasTypes (leftSchema.types ++ rightSchema.types) t.values) ?_ hacc hinner
  intro r hr acc acc' hacc hpair
  obtain ⟨b, -, hpair⟩ := Cpp.bind_eq_pure.1 hpair
  split_ifs at hpair
  · obtain ⟨out, hout, hpair⟩ := Cpp.bind_eq_pure.1 hpair
    cases hpair
    exact forall_concat hacc
      (hasTypes_joinRow hlcount hrcount (hL l hl) (hR (List.ne_nil_of_mem hl) r hr) hout)
  · cases hpair
    exact hacc

/-- The rows of a hash join have the types of both sides. -/
lemma hasTypes_hashJoinTuples (hlcount : leftSchema.columns.length < 2 ^ 32)
    (hrcount : rightSchema.columns.length < 2 ^ 32)
    (hL : ∀ row ∈ L, HasTypes leftSchema.types row.1.values)
    (hR : ∀ row ∈ R, HasTypes rightSchema.types row.1.values)
    (h : hashJoinTuples leftKeyExpr rightKeyExpr leftSchema rightSchema L R = pure tuples) :
    ∀ t ∈ tuples, HasTypes (leftSchema.types ++ rightSchema.types) t.values := by
  obtain ⟨table, htable, hprobe⟩ := Cpp.bind_eq_pure.1 h
  have hrows : ∀ key, ∀ t ∈ table key, HasTypes rightSchema.types t.values := by
    refine Cpp.holds_foldlM (P := fun table : HashTable =>
      ∀ key, ∀ t ∈ table key, HasTypes rightSchema.types t.values) ?_ (by simp) htable
    intro r hr table table' hrows hbuild
    obtain ⟨key, -, hbuild⟩ := Cpp.bind_eq_pure.1 hbuild
    cases hbuild
    intro key' t ht
    by_cases hkey : key' = key
    · subst hkey
      rw [Function.update_self] at ht
      exact forall_concat (hrows key') (hR r hr) t ht
    · rw [Function.update_of_ne hkey] at ht
      exact hrows key' t ht
  refine Cpp.holds_foldlM (P := fun acc : List Tuple =>
    ∀ t ∈ acc, HasTypes (leftSchema.types ++ rightSchema.types) t.values) ?_ (by simp) hprobe
  intro l hl acc acc' hacc hinner
  obtain ⟨key, -, hinner⟩ := Cpp.bind_eq_pure.1 hinner
  refine Cpp.holds_foldlM (P := fun acc : List Tuple =>
    ∀ t ∈ acc, HasTypes (leftSchema.types ++ rightSchema.types) t.values) ?_ hacc hinner
  intro r hr acc acc' hacc hmatch
  obtain ⟨out, hout, hmatch⟩ := Cpp.bind_eq_pure.1 hmatch
  cases hmatch
  exact forall_concat hacc (hasTypes_joinRow hlcount hrcount (hL l hl) (hrows key r hr) hout)

end Joins

section Aggregation

variable {aggType : AggregationType} {aggTypes : List AggregationType} {e : Expression}
  {aggregates groupBys : List Expression} {current input v : Value}

/-- The state of an aggregate: it is of its type, or null before the first row. -/
def AggregationType.MayHold (aggType : AggregationType) (e : Expression) (v : Value) : Prop :=
  v.HasType (aggType.resultType e) ∨
    (v.isNull = true ∧ aggType ≠ .countStarAggregate ∧ aggType ≠ .countAggregate)

/-- A `MIN` or `MAX` that keeps its value has one. -/
lemma isNull_of_replaces {compare : Value → Value → Cpp Value} (hinput : input.isNull = false)
    (h : replaces compare input current = pure false) : current.isNull = false := by
  by_contra hnull
  rw [Bool.not_eq_false] at hnull
  unfold replaces at h
  rw [hinput, hnull] at h
  cases h

/-- After a row, an aggregate is of its type. -/
lemma hasType_updateAggregate (hcurrent : aggType.MayHold e current)
    (hinput : input.HasType e.getReturnType) (h : updateAggregate current input aggType = pure v) :
    v.HasType (aggType.resultType e) := by
  have hcount : ∀ {u}, current.HasType .integer → current.add (Value.ofInt 1) = pure u →
      u.HasType .integer := by
    intro u hcurrent hadd
    rw [← hcurrent.1]
    exact hasType_of_arithmetic (show ArithmeticType.plus.perform _ _ = pure u from hadd)
  -- The value that `MIN` and `MAX` leave.
  have hreplaced : ∀ {b : Bool} {u : Value}, (b = false → current.HasType e.getReturnType) →
      (if b = true then pure input else pure current : Cpp Value) = pure u →
      u.HasType e.getReturnType := by
    intro b u hb hu
    cases b with
    | true =>
      cases hu
      exact hinput
    | false =>
      cases hu
      exact hb rfl
  have htyped : current.isNull = false → current.HasType (aggType.resultType e) :=
    fun hnotNull => hcurrent.resolve_right fun hnull => by simp [hnotNull] at hnull
  cases aggType with
  | countStarAggregate => exact hcount (hcurrent.resolve_right (by simp)) h
  | countAggregate =>
    change (if input.isNull then pure current else _) = pure v at h
    rw [hinput.2] at h
    exact hcount (hcurrent.resolve_right (by simp)) h
  | sumAggregate =>
    change (if input.isNull then pure current else if current.isNull then _ else _) = pure v at h
    rw [hinput.2, if_neg Bool.false_ne_true] at h
    split_ifs at h with hnull
    · cases h
      exact hinput
    · have htype := htyped (Bool.eq_false_of_not_eq_true hnull)
      rw [← htype.1]
      exact hasType_of_arithmetic (show ArithmeticType.plus.perform _ _ = pure v from h)
  | minAggregate | maxAggregate =>
    obtain ⟨b, hb, h⟩ := Cpp.bind_eq_pure.1 h
    refine hreplaced (fun hfalse => htyped ?_) h
    rw [hfalse] at hb
    exact isNull_of_replaces hinput.2 hb

/-- The states of aggregates. -/
def MayHoldAll (aggTypes : List AggregationType) (aggregates : List Expression)
    (current : List Value) : Prop :=
  List.Forall₂ (fun p v => AggregationType.MayHold p.1 p.2 v) (aggTypes.zip aggregates) current

/-- The states of aggregates that have values of their types. -/
lemma mayHoldAll_of_hasTypes {current : List Value}
    (h : HasTypes (aggregateTypes aggTypes aggregates) current) :
    MayHoldAll aggTypes aggregates current := by
  have hforall := List.forall₂_map_left_iff.1 h
  exact hforall.imp fun p v hv => .inl hv

/-- Before the first row the states of the aggregates are nulls or zero. -/
lemma mayHoldAll_initialAggregates (hlen : aggTypes.length = aggregates.length) :
    MayHoldAll aggTypes aggregates (initialAggregates aggTypes) := by
  induction aggTypes generalizing aggregates with
  | nil => exact .nil
  | cons aggType aggTypes ih =>
    cases aggregates with
    | nil => cases hlen
    | cons e aggregates =>
      refine .cons ?_ (ih (Nat.succ.inj hlen))
      cases aggType with
      | countStarAggregate | countAggregate => exact .inl (hasType_ofInt 0)
      | sumAggregate | minAggregate | maxAggregate => exact .inr ⟨rfl, by simp⟩

/-- Without a row, the aggregates that can be written are of their types. -/
lemma hasTypes_initialAggregates (hlen : aggTypes.length = aggregates.length)
    (hvalid : ∀ v ∈ initialAggregates aggTypes, v.getTypeId ≠ .invalid) :
    HasTypes (aggregateTypes aggTypes aggregates) (initialAggregates aggTypes) := by
  induction aggTypes generalizing aggregates with
  | nil => exact .nil
  | cons aggType aggTypes ih =>
    cases aggregates with
    | nil => cases hlen
    | cons e aggregates =>
      have hrest := ih (Nat.succ.inj hlen) fun v hv => hvalid v (List.mem_cons_of_mem _ hv)
      cases aggType with
      | countStarAggregate | countAggregate => exact .cons (hasType_ofInt 0) hrest
      | sumAggregate | minAggregate | maxAggregate =>
        exact absurd rfl (hvalid default List.mem_cons_self)

/-- After a row, the aggregates are of their types. -/
lemma hasTypes_updateAggregates {current input values : List Value}
    (hlen : aggTypes.length = aggregates.length) (hcurrent : MayHoldAll aggTypes aggregates current)
    (hinput : HasTypes (aggregates.map Expression.getReturnType) input)
    (h : updateAggregates aggTypes current input = pure values) :
    HasTypes (aggregateTypes aggTypes aggregates) values := by
  induction aggTypes generalizing aggregates current input values with
  | nil =>
    cases hcurrent
    cases h
    exact .nil
  | cons aggType aggTypes ih =>
    cases aggregates with
    | nil => cases hlen
    | cons e aggregates =>
      cases hcurrent with
      | @cons _ v _ current hv hcurrent =>
        cases hinput with
        | @cons _ x _ input hx hinput =>
          obtain ⟨value, hvalue, h⟩ := Cpp.bind_eq_pure.1 h
          obtain ⟨rest, hrest, h⟩ := Cpp.bind_eq_pure.1 h
          cases h
          exact .cons (hasType_updateAggregate hv hx hvalue)
            (ih (Nat.succ.inj hlen) hcurrent hinput hrest)

/-- A group of a row of the aggregation. -/
def HoldsGroup (groupBys : List Expression) (aggTypes : List AggregationType)
    (aggregates : List Expression) (state : AggState) : Prop :=
  HasTypes (groupBys.map Expression.getReturnType) state.groupBys ∧
    HasTypes (aggregateTypes aggTypes aggregates) state.aggregates

/-- The groups after a row. -/
lemma holdsGroup_aggregateRow {aht aht' : List (List UInt8 × AggState)} {row : Row}
    (hlen : aggTypes.length = aggregates.length) (hrow : HasTypes types row.1.values)
    (hgroups : ∀ e ∈ groupBys, e.inScope (rowScope types) = true)
    (haggregates : ∀ e ∈ aggregates, e.inScope (rowScope types) = true)
    (haht : ∀ entry ∈ aht, HoldsGroup groupBys aggTypes aggregates entry.2)
    (h : aggregateRow groupBys aggregates aggTypes schema aht row = pure aht') :
    ∀ entry ∈ aht', HoldsGroup groupBys aggTypes aggregates entry.2 := by
  obtain ⟨groupValues, hgroup, h⟩ := Cpp.bind_eq_pure.1 h
  obtain ⟨aggValues, hagg, h⟩ := Cpp.bind_eq_pure.1 h
  have hinput := hasTypes_evaluate hrow haggregates hagg
  cases hlookup : aht.lookup (groupKey groupValues) with
  | some state =>
    simp only [hlookup] at h
    obtain ⟨values, hvalues, h⟩ := Cpp.bind_eq_pure.1 h
    cases h
    obtain ⟨before, after, heq, -⟩ := List.lookup_eq_some_iff.1 hlookup
    have hstate : HoldsGroup groupBys aggTypes aggregates state :=
      haht (groupKey groupValues, state) (by simp [heq])
    intro entry hentry
    obtain ⟨old, hold, rfl⟩ := List.mem_map.1 hentry
    split_ifs
    · exact ⟨hstate.1, hasTypes_updateAggregates hlen (mayHoldAll_of_hasTypes hstate.2) hinput
        hvalues⟩
    · exact haht old hold
  | none =>
    simp only [hlookup] at h
    obtain ⟨values, hvalues, h⟩ := Cpp.bind_eq_pure.1 h
    cases h
    intro entry hentry
    rcases List.mem_append.1 hentry with hentry | hentry
    · exact haht entry hentry
    · rw [List.mem_singleton.1 hentry]
      exact ⟨hasTypes_evaluate hrow hgroups hgroup, hasTypes_updateAggregates hlen
        (mayHoldAll_initialAggregates hlen) hinput hvalues⟩

/-- The rows of an aggregation. -/
lemma hasTypes_aggregateTuples {std : StandardLibrary} {rows : List Tuple} {tuples : List Tuple}
    (hlen : aggTypes.length = aggregates.length)
    (hrows : ∀ t ∈ rows, HasTypes types t.values)
    (hgroups : ∀ e ∈ groupBys, e.inScope (rowScope types) = true)
    (haggregates : ∀ e ∈ aggregates, e.inScope (rowScope types) = true)
    (h : aggregateTuples std groupBys aggregates aggTypes schema rows = pure tuples) :
    ∀ t ∈ tuples,
      HasTypes (groupBys.map Expression.getReturnType ++ aggregateTypes aggTypes aggregates)
        t.values := by
  obtain ⟨aht, haht, htuples⟩ := Cpp.bind_eq_pure.1 h
  have hgroup : ∀ entry ∈ aht, HoldsGroup groupBys aggTypes aggregates entry.2 := by
    refine Cpp.holds_foldlM (P := fun aht : List (List UInt8 × AggState) =>
      ∀ entry ∈ aht, HoldsGroup groupBys aggTypes aggregates entry.2) ?_ (by simp) haht
    intro row hrow aht aht' hentries hstep
    obtain ⟨t, ht, rfl⟩ := List.mem_map.1 hrow
    exact holdsGroup_aggregateRow hlen (hrows t ht) hgroups haggregates hentries hstep
  intro t ht
  obtain ⟨entry, hentry, hmade⟩ := exists_left_of_mem (Cpp.mapM_eq_pure.1 htuples) ht
  have hmem := (std.buckets_perm _).subset hentry
  rw [values_of_ofValues hmade]
  unfold finishedTable at hmem
  split_ifs at hmem with hempty
  · obtain ⟨-, rfl⟩ := hempty
    obtain rfl := List.mem_singleton.1 hmem
    -- The row could be written, so each of its aggregates is a count.
    refine List.rel_append .nil (hasTypes_initialAggregates hlen fun v hv hinvalid => ?_)
    exact ofValues_invalid (List.mem_append_right _ hv) hinvalid t hmade
  · exact List.rel_append (hgroup entry hmem).1 (hgroup entry hmem).2

end Aggregation

section Sorts

variable {orderBys : List (Bool × Expression)} {tuples sorted : List Tuple}

/-- The keys of a row, by which a sort can order it. -/
lemma exists_sortKeys (hrow : HasTypes types tuple.values)
    (horders : ∀ item ∈ orderBys, item.2.orders (rowScope types) = true) :
    ∃ keys, SortKeys schema orderBys tuple keys ∧
      keys.map Value.getTypeId = orderBys.map fun item => item.2.getReturnType := by
  induction orderBys with
  | nil => exact ⟨[], .nil, rfl⟩
  | cons item orderBys ih =>
    obtain ⟨keys, hkeys, htypes⟩ := ih fun i hi => horders i (List.mem_cons_of_mem _ hi)
    have hitem := horders item List.mem_cons_self
    simp only [Expression.orders, Bool.and_eq_true, Bool.not_eq_true', decide_eq_true_eq] at hitem
    obtain ⟨⟨hchecks, harith⟩, htype⟩ := hitem
    obtain ⟨v, hv, hvtype⟩ := Expression.exists_value hrow schema hchecks harith
    refine ⟨v :: keys, .cons ⟨hv, hvtype.2, by rwa [hvtype.1]⟩ hkeys, ?_⟩
    rw [List.map_cons, List.map_cons, hvtype.1, htypes]

/-- By such keys, the comparison of a sort is a strict weak order. -/
lemma strictWeakOrderOn_of_orders (hrows : ∀ t ∈ tuples, HasTypes types t.values)
    (horders : ∀ item ∈ orderBys, item.2.orders (rowScope types) = true) :
    StrictWeakOrderOn tuples (compareRows schema orderBys) := by
  have hkeys : ∀ t ∈ tuples, ∃ keys, SortKeys schema orderBys t keys ∧
      keys.map Value.getTypeId = orderBys.map fun item => item.2.getReturnType :=
    fun t ht => exists_sortKeys (hrows t ht) horders
  choose! keys hkeys htypes using hkeys
  have hsame : ∀ a ∈ tuples, ∀ b ∈ tuples, SameTypes (keys a) (keys b) :=
    fun a ha b hb => (htypes a ha).trans (htypes b hb).symm
  have hlt : ∀ a ∈ tuples, ∀ b ∈ tuples, ∃ r, compareRows schema orderBys a b = pure r ∧
      (r = true ↔ LexOrder.Precedes Value.Less (orderBys.map Prod.fst) (keys a) (keys b)) :=
    fun a ha b hb => compareRows_eq (hkeys a ha) (hkeys b hb) (hsame a ha b hb)
  refine strictWeakOrderOn_of_keys (fun k => LexOrder.precedes_irrefl Value.less_irrefl)
    (fun j k m => LexOrder.precedes_trans fun _ _ _ => Value.less_trans) ?_ hlt
  intro a ha b hb
  refine LexOrder.precedes_trichotomous ?_ ((hkeys a ha).comparable (hkeys b hb) (hsame a ha b hb))
  rw [List.length_map, (hkeys a ha).length_eq]

/-- The rows of a sort. -/
lemma hasTypes_sort {std : StandardLibrary} (hrows : ∀ t ∈ tuples, HasTypes types t.values)
    (horders : ∀ item ∈ orderBys, item.2.orders (rowScope types) = true)
    (h : std.sort (compareRows schema orderBys) tuples = pure sorted) :
    ∀ t ∈ sorted, HasTypes types t.values := by
  have hweak : StrictWeakOrderOn tuples (compareRows schema orderBys) :=
    strictWeakOrderOn_of_orders hrows horders
  obtain ⟨sorted', hsort, hperm, -⟩ := std.sort_spec _ _ hweak
  rw [h] at hsort
  cases hsort
  exact fun t ht => hrows t (hperm.subset ht)

end Sorts

end Rows

section Plans

variable {std : StandardLibrary} {ctx : ExecutorContext} {plan : PlanNode} {rows : List Row}
  {done : Bool} {types : List TypeId} {tuples : List Tuple}

/-- The first rows of typed tuples. -/
lemma FirstOf.hasTypes (h : FirstOf tuples rows done)
    (htuples : ∀ t ∈ tuples, HasTypes types t.values) :
    ∀ row ∈ rows, HasTypes types row.1.values := by
  intro row hrow
  obtain ⟨t, ht, rfl⟩ := List.mem_map.1 (h.isPrefix.subset hrow)
  exact htuples t ht

/-- The rows that a well-typed plan denotes are of its types.

**Proof sketch.** Induction on how the rows are denoted. A scan reads values of the types of the
table, and every other operator computes typed rows from typed rows. -/
lemma DenotesRows.hasTypes (h : DenotesRows std ctx plan rows done)
    (htyped : plan.wellTyped ctx.catalog = true) :
    ∀ row ∈ rows, HasTypes plan.getOutputSchema.types row.1.values := by
  induction h with
  | @seqScan out oid predicate tableInfo pages seen rest rows done htable hheap hlive hrows hdone =>
    rw [PlanNode.wellTyped, htable, Option.all_some, decide_eq_true_eq] at htyped
    rw [PlanNode.getOutputSchema, htyped.1]
    exact hasTypes_of_scanRows htyped.2 hrows
  | indexScan => cases htyped
  | nestedLoopJoin hleft hright htuples hrows ihl ihr =>
    simp only [PlanNode.wellTyped, Bool.and_eq_true, decide_eq_true_eq] at htyped
    obtain ⟨⟨hl, hr⟩, hlcount, hrcount, hout⟩ := htyped
    rw [PlanNode.getOutputSchema, hout]
    exact hrows.hasTypes (hasTypes_nestedLoopTuples hlcount hrcount (ihl hl)
      (fun hne => ihr hne hr) htuples)
  | hashJoin hleft hright htuples hrows ihl ihr =>
    simp only [PlanNode.wellTyped, Bool.and_eq_true, decide_eq_true_eq] at htyped
    obtain ⟨⟨hl, hr⟩, hlcount, hrcount, hout⟩ := htyped
    rw [PlanNode.getOutputSchema, hout]
    exact hrows.hasTypes (hasTypes_hashJoinTuples hlcount hrcount (ihl hl) (ihr hr) htuples)
  | aggregation hchild htuples hrows ih =>
    simp only [PlanNode.wellTyped, Bool.and_eq_true, decide_eq_true_eq, List.all_eq_true,
      List.forall_mem_append] at htyped
    obtain ⟨⟨hc, hgroups, haggregates⟩, hlen, hout⟩ := htyped
    rw [PlanNode.getOutputSchema, hout]
    refine hrows.hasTypes (hasTypes_aggregateTuples hlen ?_ hgroups haggregates htuples)
    exact List.forall_mem_map.2 (ih hc)
  | sort hchild htuples hrows ih =>
    simp only [PlanNode.wellTyped, Bool.and_eq_true, decide_eq_true_eq, List.all_eq_true] at htyped
    obtain ⟨⟨hc, hout⟩, horders⟩ := htyped
    rw [PlanNode.getOutputSchema, hout]
    exact hrows.hasTypes (hasTypes_sort (List.forall_mem_map.2 (ih hc)) horders htuples)
  | limit hchild hle hdone ih =>
    simp only [PlanNode.wellTyped, Bool.and_eq_true, decide_eq_true_eq] at htyped
    rw [PlanNode.getOutputSchema, htyped.2]
    exact ih htyped.1
  | projection hchild hrows ih =>
    simp only [PlanNode.wellTyped, Bool.and_eq_true, decide_eq_true_eq, List.all_eq_true] at htyped
    obtain ⟨⟨hc, hscope⟩, hout⟩ := htyped
    rw [PlanNode.getOutputSchema, hout]
    intro o ho
    obtain ⟨row, hrow, hmade, -⟩ := exists_left_of_mem hrows ho
    obtain ⟨values, hvalues, hmade⟩ := Cpp.bind_eq_pure.1 hmade
    rw [values_of_ofValues hmade]
    exact hasTypes_evaluate (ih hc row hrow) hscope hvalues

/-- A well-typed plan is a query. -/
lemma isQuery_of_wellTyped {catalog : Catalog} (htyped : plan.wellTyped catalog = true) :
    plan.isQuery = true := by
  induction plan with
  | seqScan => rfl
  | nestedLoopJoin out left right predicate ihl ihr | hashJoin out left right _ _ ihl ihr =>
    simp only [PlanNode.wellTyped, Bool.and_eq_true] at htyped
    exact (Bool.and_eq_true _ _).mpr ⟨ihl htyped.1.1, ihr htyped.1.2⟩
  | aggregation out child _ _ _ ih | sort out child _ ih | projection out child _ ih =>
    simp only [PlanNode.wellTyped, Bool.and_eq_true] at htyped
    exact ih htyped.1.1
  | limit out child _ ih =>
    simp only [PlanNode.wellTyped, Bool.and_eq_true] at htyped
    exact ih htyped.1
  | null | indexScan | insert | delete | update | utility => cases htyped

/-- **The types of rows.** The rows that the engine returns for a well-typed plan have a value for
each column of its output schema, of the type of the column and not null. -/
theorem hasTypes_of_returns (hctx : ctx.Scannable) (htyped : plan.wellTyped ctx.catalog = true)
    {fuel : ℕ} {result : List Tuple} {ctx' : ExecutorContext}
    (h : Returns (executePlan std fuel plan) ctx result ctx') :
    ∀ tuple ∈ result, HasTypes plan.getOutputSchema.types tuple.values := by
  obtain ⟨-, rows, hrows, rfl⟩ := exists_denotes_of_returns (isQuery_of_wellTyped htyped) hctx h
  exact List.forall_mem_map.2 (hrows.hasTypes htyped)

end Plans

/-- The rows of a table of two rows in descending order. -/
def descending : PlanNode :=
  .sort (smallTable ["x"]).schema (.seqScan (smallTable ["x"]).schema 1 .null)
    [(false, .columnValue 0 0 .integer)]

/-- They are integers. -/
theorem hasTypes_of_returns_descending :
    ∃ result ctx', Returns (executePlan insertingLibrary 5 descending)
        (smallContext ["x"] [[1], [2]] none) result ctx' ∧
      ∀ tuple ∈ result, HasTypes [.integer] tuple.values := by
  have hok : (runIn (executePlan insertingLibrary 5 descending)
      (smallContext ["x"] [[1], [2]] none)).map (fun r => r.1.isOk) = some true := by
    decide +kernel
  obtain ⟨result, ctx', hret⟩ := exists_returns hok
  exact ⟨result, ctx', hret,
    hasTypes_of_returns (scannable_smallContext (by decide) (by decide)) (by decide) hret⟩

end OneBase
