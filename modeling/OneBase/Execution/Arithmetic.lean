import OneBase.Execution.Aggregates
import OneBase.Execution.Results

set_option relaxedAutoImplicit false
set_option autoImplicit false

/-!
# Integer arithmetic

What the arithmetic trees over `INTEGER` columns and constants denote in the integers, and where
the `int32_t` operations of `type/value.cpp` compute it. They check the divisor and nothing else:
an operation whose result is no `int32_t` is undefined.

## Main definitions

* `OneBase.Expression.exactValue` — the value of a tree in the integers.
* `OneBase.Expression.NoOverflow` — every operation that is reached has an `int32_t` result.
* `OneBase.EvaluatesExactly`, `OneBase.SumsExactly` — a tree and a running `SUM` are exact.

## Main results

* `OneBase.exactArithmetic_iff` — arithmetic is exact iff nothing overflows.
-/

namespace OneBase

/-- The result of the operation; there is none for a divisor of zero. -/
def ArithmeticType.exact : ArithmeticType → ℤ → ℤ → Option ℤ
  | .plus, a, b => some (a + b)
  | .minus, a, b => some (a - b)
  | .multiply, a, b => some (a * b)
  | .divide, a, b => if b = 0 then none else some (a.tdiv b)
  | .modulo, a, b => if b = 0 then none else some (a.tmod b)

/-- The operation on two `int32_t`s overflows. A remainder does so where its quotient does. -/
def ArithmeticType.Overflows : ArithmeticType → ℤ → ℤ → Prop
  | .plus, a, b => ¬ IsInt32 (a + b)
  | .minus, a, b => ¬ IsInt32 (a - b)
  | .multiply, a, b => ¬ IsInt32 (a * b)
  | .divide, a, b => a = -2 ^ 31 ∧ b = -1
  | .modulo, a, b => a = -2 ^ 31 ∧ b = -1

namespace Expression

/-- Arithmetic over `INTEGER` columns and constants. -/
def IsIntegerArithmetic : Expression → Prop
  | columnValue _ _ retType => retType = .integer
  | constantValue val => ∃ i, val = Value.ofInt i
  | arithmetic left right _ => left.IsIntegerArithmetic ∧ right.IsIntegerArithmetic
  | _ => False

/-- The value in the integers, where the columns have these values; there is none if some divisor
is zero. -/
def exactValue (cells : ℕ → ℕ → ℤ) : Expression → Option ℤ
  | columnValue tupleIdx colIdx _ => some (cells tupleIdx colIdx)
  | constantValue val =>
    match val.payload with
    | .integer i => some i.toInt
    | _ => none
  | arithmetic left right arithType =>
    (left.exactValue cells).bind fun a => (right.exactValue cells).bind (arithType.exact a)
  | _ => none

/-- No operation overflows. The right operand of a node is reached if the left one has a value, and
the node itself if both have. -/
def NoOverflow (cells : ℕ → ℕ → ℤ) : Expression → Prop
  | arithmetic left right arithType =>
    left.NoOverflow cells ∧ ∀ a, left.exactValue cells = some a →
      right.NoOverflow cells ∧ ∀ b, right.exactValue cells = some b → ¬ arithType.Overflows a b
  | _ => True

end Expression

/-- The evaluation throws a `std::logic_error` or returns the exact value, an `int32_t`. -/
def EvaluatesExactly (x : Cpp Value) (exact : Option ℤ) : Prop :=
  (∃ msg, x = throw (.logicError msg)) ∨
    ∃ z, exact = some z ∧ IsInt32 z ∧ x = pure (Value.integer z)

/-- What an evaluation with this exact value does. -/
inductive Computes (noOverflow : Prop) : Option ℤ → Cpp Value → Prop
  | exact {z : ℤ} (h : noOverflow) (hz : IsInt32 z) :
    Computes noOverflow (some z) (pure (Value.integer z))
  | refused (h : noOverflow) (msg : String) : Computes noOverflow none (throw (.logicError msg))
  | overflow (h : ¬ noOverflow) (exact : Option ℤ) : Computes noOverflow exact Cpp.undefined

/-- An evaluation is exact iff nothing overflows. -/
lemma Computes.evaluatesExactly_iff {noOverflow : Prop} {exact : Option ℤ} {x : Cpp Value}
    (h : Computes noOverflow exact x) : EvaluatesExactly x exact ↔ noOverflow := by
  cases h with
  | exact h hz => exact iff_of_true (.inr ⟨_, rfl, hz, rfl⟩) h
  | refused h msg => exact iff_of_true (.inl ⟨msg, rfl⟩) h
  | overflow h =>
    refine iff_of_false ?_ h
    rintro (⟨msg, hthrow⟩ | ⟨z, -, -, hreturn⟩)
    · cases hthrow
    · cases hreturn

/-! ## One operation -/

section Operation

variable {a b : ℤ} {arithType : ArithmeticType}

/-- The quotient of two `int32_t`s is one, but for the negation of the least of them. -/
lemma isInt32_tdiv_iff (ha : IsInt32 a) (hb : b ≠ 0) :
    IsInt32 (a.tdiv b) ↔ ¬ (a = -2 ^ 31 ∧ b = -1) := by
  obtain ⟨hlow, hhigh⟩ := ha
  have habs := Int.natAbs_tdiv_le_natAbs a b
  constructor
  · rintro ⟨-, hlt⟩ ⟨rfl, rfl⟩
    exact absurd hlt (by decide)
  · intro hmin
    by_cases hleast : a = -2 ^ 31
    · -- only a divisor of absolute value one gives a quotient that is as large
      have hone : b ≠ -1 := fun h => hmin ⟨hleast, h⟩
      subst hleast
      rcases lt_or_gt_of_ne hb with hneg | hpos
      · have hhalf : (-2 ^ 31 : ℤ).natAbs / b.natAbs ≤ 2 ^ 31 / 2 :=
          Nat.div_le_div_left (by omega) (by norm_num)
        have hquot := Int.natAbs_tdiv (-2 ^ 31) b
        rw [show ∀ m n : ℕ, m.div n = m / n from fun _ _ => rfl] at hquot
        rw [← hquot] at hhalf
        exact ⟨by omega, by omega⟩
      · have hnonneg : 0 ≤ (2 ^ 31 : ℤ).tdiv b := Int.tdiv_nonneg (by decide) hpos.le
        rw [Int.neg_tdiv] at habs ⊢
        exact ⟨by omega, by omega⟩
    · exact ⟨by omega, by omega⟩

/-- A remainder is less than the divisor. -/
lemma isInt32_tmod (hb : IsInt32 b) (hzero : b ≠ 0) : IsInt32 (a.tmod b) := by
  have hlt := Nat.mod_lt a.natAbs (Int.natAbs_pos.2 hzero)
  rw [← Int.natAbs_tmod] at hlt
  obtain ⟨hlow, hhigh⟩ := hb
  exact ⟨by omega, by omega⟩

/-- The result of an `int32_t` operation. -/
lemma computes_intResult (z : ℤ) : Computes (IsInt32 z) (some z) (Value.intResult z) := by
  by_cases hz : IsInt32 z
  · rw [show Value.intResult z = pure (Value.integer z) from if_pos hz]
    exact .exact hz hz
  · rw [show Value.intResult z = Cpp.undefined from if_neg hz]
    exact .overflow hz _

/-- An operation of integers applies it to them. -/
lemma arithmetic_integer (ha : IsInt32 a) (hb : IsInt32 b) (integer : ℤ → ℤ → Cpp Value)
    (float : Option (Float32 → Float32 → Cpp Value)) (operation : String) :
    Value.arithmetic integer float operation (Value.integer a) (Value.integer b) =
      integer a b := by
  show integer (BitVec.ofInt 32 a).toInt (BitVec.ofInt 32 b).toInt = integer a b
  rw [toInt_integer ha, toInt_integer hb]

/-- `PerformComputation` on two integers. -/
lemma ArithmeticType.computes_perform (ha : IsInt32 a) (hb : IsInt32 b) :
    Computes (¬ arithType.Overflows a b) (arithType.exact a b)
      (arithType.perform (Value.integer a) (Value.integer b)) := by
  cases arithType with
  | plus =>
    have hperform : plus.perform (Value.integer a) (Value.integer b) = Value.intResult (a + b) := by
      rw [perform, Value.add, arithmetic_integer ha hb]
    rw [hperform, Overflows, not_not]
    exact computes_intResult (a + b)
  | minus =>
    have hperform : minus.perform (Value.integer a) (Value.integer b) = Value.intResult (a - b) := by
      rw [perform, Value.subtract, arithmetic_integer ha hb]
    rw [hperform, Overflows, not_not]
    exact computes_intResult (a - b)
  | multiply =>
    have hperform : multiply.perform (Value.integer a) (Value.integer b) =
        Value.intResult (a * b) := by
      rw [perform, Value.multiply, arithmetic_integer ha hb]
    rw [hperform, Overflows, not_not]
    exact computes_intResult (a * b)
  | divide =>
    have hperform : divide.perform (Value.integer a) (Value.integer b) =
        if b = 0 then throw (.logicError "Division by zero") else Value.intResult (a.tdiv b) := by
      rw [perform, Value.divide, arithmetic_integer ha hb]
    rw [hperform, exact]
    by_cases hzero : b = 0
    · rw [if_pos hzero, if_pos hzero]
      exact .refused (fun h => absurd (hzero.symm.trans h.2) (by norm_num)) _
    · rw [if_neg hzero, if_neg hzero, Overflows, ← isInt32_tdiv_iff ha hzero]
      exact computes_intResult (a.tdiv b)
  | modulo =>
    have hperform : modulo.perform (Value.integer a) (Value.integer b) =
        if b = 0 then throw (.logicError "Modulo by zero")
        else if a = -2 ^ 31 ∧ b = -1 then Cpp.undefined
        else Value.intResult (a.tmod b) := by
      rw [perform, Value.modulo, arithmetic_integer ha hb]
    rw [hperform, exact]
    by_cases hzero : b = 0
    · rw [if_pos hzero, if_pos hzero]
      exact .refused (fun h => absurd (hzero.symm.trans h.2) (by norm_num)) _
    rw [if_neg hzero, if_neg hzero]
    by_cases hover : a = -2 ^ 31 ∧ b = -1
    · rw [if_pos hover]
      exact .overflow (not_not.2 hover) _
    · have hrem : IsInt32 (a.tmod b) := isInt32_tmod hb hzero
      rw [if_neg hover, show Value.intResult (a.tmod b) = pure _ from if_pos hrem]
      exact .exact hover hrem

end Operation

/-! ## A tree -/

section Tree

variable {cells : ℕ → ℕ → BitVec 32} {column : ℕ → ℕ → Cpp Value} {e : Expression}

/-- The columns of a tree read as these integers. -/
def ReadsAs (column : ℕ → ℕ → Cpp Value) (cells : ℕ → ℕ → BitVec 32) (e : Expression) : Prop :=
  ∀ c ∈ e.columns, column c.1 c.2 = pure (Value.ofInt (cells c.1 c.2))

/-- An operand that has a value is followed by the rest of the node. -/
lemma Computes.bind {p : Prop} {q : ℤ → Prop} {exact : Option ℤ} {x : Cpp Value}
    (hx : Computes p exact x) {k : ℤ → Option ℤ} {f : Value → Cpp Value}
    (hf : ∀ a, IsInt32 a → Computes (q a) (k a) (f (Value.integer a))) :
    Computes (p ∧ ∀ a, exact = some a → q a) (exact.bind k) (x >>= f) := by
  cases hx with
  | @exact a hp ha =>
    have hrest : (p ∧ ∀ a', some a = some a' → q a') ↔ q a := by simp [hp]
    rw [hrest, Option.bind_some, pure_bind]
    exact hf a ha
  | refused hp msg => exact .refused ⟨hp, fun a ha => nomatch ha⟩ msg
  | overflow hp => exact .overflow (fun h => hp h.1) _

/-- The evaluation of a tree. -/
lemma Expression.computes_evaluateWith (he : e.IsIntegerArithmetic)
    (hcells : ReadsAs column cells e) :
    Computes (e.NoOverflow fun t i => (cells t i).toInt)
      (e.exactValue fun t i => (cells t i).toInt) (e.evaluateWith column) := by
  induction e with
  | columnValue tupleIdx colIdx retType =>
    have hread : column tupleIdx colIdx = pure (Value.ofInt (cells tupleIdx colIdx)) :=
      hcells (tupleIdx, colIdx) List.mem_cons_self
    rw [Expression.evaluateWith, hread, ← integer_toInt]
    exact .exact trivial (isInt32_toInt _)
  | constantValue val =>
    obtain ⟨i, rfl⟩ := he
    have hvalue : Computes True (some i.toInt) (pure (Value.integer i.toInt)) :=
      .exact trivial (isInt32_toInt i)
    rwa [integer_toInt] at hvalue
  | arithmetic left right arithType hleft hright =>
    replace hleft := hleft he.1 fun c hc => hcells c (List.mem_append_left _ hc)
    replace hright := hright he.2 fun c hc => hcells c (List.mem_append_right _ hc)
    exact hleft.bind fun a ha => hright.bind fun b hb => arithType.computes_perform ha hb
  | null => exact he.elim
  | comparison left right compType _ _ => exact he.elim
  | logic left right logicType _ _ => exact he.elim

end Tree

/-! ## A running sum -/

section Sum

variable {schema : Schema} {groupBys : List Expression} {expr : Expression} {rows done : List Row}
  {groups : Row → List Value} {input : Row → Value} {row : Row} {key : List UInt8}
  {aht : List (List UInt8 × AggState)} {xs : List Value} {x : Value} {b : BitVec 32}

/-- The inputs of the rows under this key. -/
def keyInputs (groups : Row → List Value) (input : Row → Value) (rows : List Row)
    (key : List UInt8) : List Value :=
  (rows.filter fun row => groupKey (groups row) = key).map input

/-- The values of the group-by expressions and of the one summand. -/
structure SummedRows (schema : Schema) (groupBys : List Expression) (expr : Expression)
    (rows : List Row) (groups : Row → List Value) (input : Row → Value) : Prop where
  evaluate_groups : ∀ row ∈ rows,
    (groupBys.mapM fun expr => expr.evaluate row.1 schema) = pure (groups row)
  evaluate_input : ∀ row ∈ rows, expr.evaluate row.1 schema = pure (input row)
  isInteger : ∀ row ∈ rows, (input row).IsInteger

/-- The hash table holds the sum of the inputs under each key. -/
def HoldsSums (groups : Row → List Value) (input : Row → Value) (rows : List Row)
    (aht : List (List UInt8 × AggState)) : Prop :=
  ∀ key, (aht.lookup key).map AggState.aggregates =
    if key ∈ rows.map (fun row => groupKey (groups row)) then
      some [AggregationType.sumAggregate.of (keyInputs groups input rows key)]
    else none

/-- No partial sum under any key leaves the `int32_t`s. -/
def SumsInRange (groups : Row → List Value) (input : Row → Value) (rows : List Row) : Prop :=
  ∀ key, AggregationType.sumAggregate.InRange (keyInputs groups input rows key)

/-- A row adds its input to those of its own key. -/
lemma keyInputs_append_self (done : List Row) (row : Row) :
    keyInputs groups input (done ++ [row]) (groupKey (groups row)) =
      keyInputs groups input done (groupKey (groups row)) ++ [input row] := by
  simp [keyInputs]

/-- A row adds no input to those of another key. -/
lemma keyInputs_append_other (done : List Row) (hne : groupKey (groups row) ≠ key) :
    keyInputs groups input (done ++ [row]) key = keyInputs groups input done key := by
  simp [keyInputs, hne]

/-- A key that no row has has no inputs. -/
lemma keyInputs_of_notMem (h : key ∉ rows.map fun row => groupKey (groups row)) :
    keyInputs groups input rows key = [] := by
  rw [keyInputs, List.filter_eq_nil_iff.2, List.map_nil]
  intro row hrow heq
  exact h (List.mem_map.2 ⟨row, hrow, of_decide_eq_true heq⟩)

/-- If the sums of all rows are in range, so are those of the first rows. -/
lemma SumsInRange.of_append {rest : List Row} (h : SumsInRange groups input (done ++ rest)) :
    SumsInRange groups input done := by
  intro key
  have hall := h key
  rw [keyInputs, List.filter_append, List.map_append] at hall
  exact hall.of_append

/-- One more summand keeps the partial sums in range if it keeps the whole sum there. -/
lemma inRange_sum_concat (h : AggregationType.sumAggregate.InRange xs)
    (hsum : IsInt32 ((integerInputs xs).sum + b.toInt)) :
    AggregationType.sumAggregate.InRange (xs ++ [Value.ofInt b]) := by
  intro n
  rw [integerInputs_ofInt]
  rcases le_or_gt n (integerInputs xs).length with hle | hgt
  · rw [List.take_append_of_le_length hle]
    exact h n
  · rw [List.take_of_length_le (by simp; omega), List.sum_append, List.sum_singleton]
    exact hsum

/-- A summand that takes the sum out of range is not added. -/
lemma updateAggregate_sum_undefined (hx : x.IsInteger)
    (h : AggregationType.sumAggregate.InRange xs)
    (hover : ¬ AggregationType.sumAggregate.InRange (xs ++ [x])) :
    updateAggregate (AggregationType.sumAggregate.of xs) x .sumAggregate = Cpp.undefined := by
  rcases hx with rfl | ⟨b, rfl⟩
  · exact absurd (by rwa [AggregationType.InRange, integerInputs_null]) hover
  have hsum : ¬ IsInt32 ((integerInputs xs).sum + b.toInt) :=
    fun hsum => hover (inRange_sum_concat h hsum)
  have hne : integerInputs xs ≠ [] := by
    intro hnil
    rw [hnil, List.sum_nil, zero_add] at hsum
    exact hsum (isInt32_toInt b)
  have hold := h (integerInputs xs).length
  rw [List.take_length] at hold
  rw [sum_of_ne_nil hne]
  show (Value.integer (integerInputs xs).sum).add (Value.ofInt b) = Cpp.undefined
  rw [← integer_toInt, Value.add, arithmetic_integer hold (isInt32_toInt b)]
  exact if_neg hsum

/-- Replacing the state of a key that is filed. -/
lemma lookup_replace (aht : List (List UInt8 × AggState)) (key : List UInt8) (state : AggState)
    (k : List UInt8) :
    (aht.map fun entry => if entry.1 = key then (key, state) else entry).lookup k =
      if k = key then (aht.lookup key).map fun _ => state else aht.lookup k := by
  induction aht with
  | nil => simp
  | cons entry aht ih =>
    obtain ⟨k', state'⟩ := entry
    rw [List.map_cons]
    by_cases hentry : k' = key
    · subst hentry
      by_cases hk : k = k'
      · subst hk
        simp
      · rw [if_neg hk] at ih ⊢
        simp [List.lookup_cons, ih, beq_eq_false_iff_ne.2 hk]
    · rw [if_neg hentry, List.lookup_cons, ih]
      by_cases hk : k = k'
      · subst hk
        simp [hentry]
      · have hkey : (key == k') = false := beq_eq_false_iff_ne.2 (Ne.symm hentry)
        simp [List.lookup_cons, beq_eq_false_iff_ne.2 hk, hkey]

/-- The body of the loop updates the sum under the key of the row and files it. -/
lemma HoldsSums.exists_file (hrows : SummedRows schema groupBys expr rows groups input)
    (hrow : row ∈ rows) (haht : HoldsSums groups input done aht) :
    ∃ file : Value → List (List UInt8 × AggState),
      aggregateRow groupBys [expr] [.sumAggregate] schema aht row =
        (updateAggregate (AggregationType.sumAggregate.of
          (keyInputs groups input done (groupKey (groups row)))) (input row) .sumAggregate >>=
            fun value => pure (file value)) ∧
      ∀ value key, ((file value).lookup key).map AggState.aggregates =
        if key = groupKey (groups row) then some [value]
        else (aht.lookup key).map AggState.aggregates := by
  have hinput : ([expr].mapM fun expr => expr.evaluate row.1 schema) = pure [input row] := by
    rw [List.mapM_cons, hrows.evaluate_input row hrow]
    rfl
  have hfiled := haht (groupKey (groups row))
  unfold aggregateRow
  rw [hrows.evaluate_groups row hrow, pure_bind, hinput, pure_bind]
  cases hlookup : aht.lookup (groupKey (groups row)) with
  | some state =>
    rw [hlookup, Option.map_some] at hfiled
    split at hfiled
    swap
    · cases hfiled
    have hstate := Option.some.inj hfiled
    refine ⟨fun value => aht.map fun entry =>
      if entry.1 = groupKey (groups row) then
        (groupKey (groups row), { state with aggregates := [value] })
      else entry, ?_, fun value key => ?_⟩
    · simp only [hstate, updateAggregates, bind_assoc, pure_bind]
    · rw [lookup_replace]
      split
      · rw [hlookup]
        rfl
      · rfl
  | none =>
    have hnew : keyInputs groups input done (groupKey (groups row)) = [] := by
      apply keyInputs_of_notMem
      intro hmem
      rw [hlookup, if_pos hmem] at hfiled
      cases hfiled
    refine ⟨fun value => aht ++ [(groupKey (groups row), ⟨groups row, [value]⟩)], ?_,
      fun value key => ?_⟩
    · rw [hnew]
      simp only [initialAggregates, List.map_cons, List.map_nil, updateAggregates, bind_assoc,
        pure_bind]
      rfl
    · rw [List.lookup_append, List.lookup_cons, List.lookup_nil]
      by_cases hkey : key = groupKey (groups row)
      · subst hkey
        rw [hlookup, if_pos rfl]
        simp
      · rw [if_neg hkey]
        simp [beq_eq_false_iff_ne.2 hkey]

/-- One more row keeps the sums in range if it does so for the sum under its key. -/
lemma SumsInRange.concat (h : SumsInRange groups input done)
    (hrow : AggregationType.sumAggregate.InRange
      (keyInputs groups input done (groupKey (groups row)) ++ [input row])) :
    SumsInRange groups input (done ++ [row]) := by
  intro key
  by_cases hkey : groupKey (groups row) = key
  · subst hkey
    rwa [keyInputs_append_self]
  · rw [keyInputs_append_other done hkey]
    exact h key

/-- The body of the loop, where the sum under the key of the row stays in range. -/
lemma HoldsSums.aggregateRow (hrows : SummedRows schema groupBys expr rows groups input)
    (hrow : row ∈ rows) (hrange : SumsInRange groups input (done ++ [row]))
    (haht : HoldsSums groups input done aht) :
    ∃ aht', OneBase.aggregateRow groupBys [expr] [.sumAggregate] schema aht row = pure aht' ∧
      HoldsSums groups input (done ++ [row]) aht' := by
  obtain ⟨file, hfile, hlookup⟩ := haht.exists_file hrows hrow
  have hself := hrange (groupKey (groups row))
  rw [keyInputs_append_self] at hself
  rw [updateAggregate_of (hrows.isInteger row hrow) hself, pure_bind] at hfile
  refine ⟨_, hfile, fun key => ?_⟩
  rw [hlookup]
  by_cases hkey : key = groupKey (groups row)
  · subst hkey
    rw [if_pos rfl, keyInputs_append_self, if_pos (by simp)]
  · have hmem : key ∈ (done ++ [row]).map (fun row => groupKey (groups row)) ↔
        key ∈ done.map fun row => groupKey (groups row) := by
      simp [hkey]
    rw [if_neg hkey, haht key, keyInputs_append_other done (Ne.symm hkey)]
    simp only [hmem]

/-- The body of the loop, where the sum under the key of the row leaves the range. -/
lemma HoldsSums.aggregateRow_undefined (hrows : SummedRows schema groupBys expr rows groups input)
    (hrow : row ∈ rows) (hdone : SumsInRange groups input done)
    (hover : ¬ SumsInRange groups input (done ++ [row])) (haht : HoldsSums groups input done aht) :
    OneBase.aggregateRow groupBys [expr] [.sumAggregate] schema aht row = Cpp.undefined := by
  obtain ⟨file, hfile, -⟩ := haht.exists_file hrows hrow
  rw [hfile, updateAggregate_sum_undefined (hrows.isInteger row hrow) (hdone _)
    fun hself => hover (hdone.concat hself)]
  rfl

/-- The loop over the rows that remain. -/
lemma HoldsSums.foldlM_aggregateRow (hrows : SummedRows schema groupBys expr rows groups input)
    {rest : List Row} (hsplit : done ++ rest = rows) (hdone : SumsInRange groups input done)
    (haht : HoldsSums groups input done aht) :
    (∃ aht', rest.foldlM (OneBase.aggregateRow groupBys [expr] [.sumAggregate] schema) aht =
        pure aht' ∧ HoldsSums groups input rows aht') ↔ SumsInRange groups input rows := by
  induction rest generalizing done aht with
  | nil =>
    rw [List.append_nil] at hsplit
    subst hsplit
    exact iff_of_true ⟨aht, rfl, haht⟩ hdone
  | cons row rest ih =>
    have hrow : row ∈ rows := hsplit ▸ List.mem_append_right done List.mem_cons_self
    rw [List.append_cons] at hsplit
    by_cases hrange : SumsInRange groups input (done ++ [row])
    · obtain ⟨aht', haggregate, haht'⟩ := haht.aggregateRow hrows hrow hrange
      rw [List.foldlM_cons, haggregate, pure_bind]
      exact ih hsplit hrange haht'
    · refine iff_of_false ?_ fun hall => hrange (SumsInRange.of_append (hsplit.symm ▸ hall))
      rintro ⟨aht', hloop, -⟩
      rw [List.foldlM_cons, haht.aggregateRow_undefined hrows hrow hdone hrange] at hloop
      cases hloop

/-- The loop of `AggregationExecutor::Init` returns, and its sums are exact. -/
def SumsExactly (schema : Schema) (groupBys : List Expression) (expr : Expression)
    (rows : List Row) (groups : Row → List Value) (input : Row → Value) : Prop :=
  ∃ aht, rows.foldlM (OneBase.aggregateRow groupBys [expr] [.sumAggregate] schema) [] = pure aht ∧
    HoldsSums groups input rows aht

end Sum

/-! ## Arithmetic -/

section Arithmetic

variable {e : Expression} {cells : ℕ → ℕ → BitVec 32} {tuple leftTuple rightTuple : Tuple}
  {schema leftSchema rightSchema : Schema} {groupBys : List Expression} {expr : Expression}
  {rows : List Row} {groups : Row → List Value} {input : Row → Value}

/-- **Integer arithmetic is exact iff nothing overflows.** A tree over a row, or over a pair of
rows, throws or returns its value in the integers iff no operation that it reaches overflows; and
the sums of an aggregation are those of its groups iff no partial sum overflows. -/
theorem exactArithmetic_iff (he : e.IsIntegerArithmetic)
    (htuple : ReadsAs (fun _ i => tuple.getValueAt schema i) (fun _ i => cells 0 i) e)
    (hpair : ReadsAs (fun t i => if t = 0 then leftTuple.getValueAt leftSchema i
      else rightTuple.getValueAt rightSchema i) cells e)
    (hrows : SummedRows schema groupBys expr rows groups input) :
    (EvaluatesExactly (e.evaluate tuple schema) (e.exactValue fun _ i => (cells 0 i).toInt) ↔
        e.NoOverflow fun _ i => (cells 0 i).toInt) ∧
      (EvaluatesExactly (e.evaluateJoin leftTuple leftSchema rightTuple rightSchema)
          (e.exactValue fun t i => (cells t i).toInt) ↔
        e.NoOverflow fun t i => (cells t i).toInt) ∧
      (SumsExactly schema groupBys expr rows groups input ↔ SumsInRange groups input rows) := by
  refine ⟨?_, ?_, ?_⟩
  · exact (Expression.computes_evaluateWith he htuple).evaluatesExactly_iff
  · exact (Expression.computes_evaluateWith he hpair).evaluatesExactly_iff
  · have hempty : SumsInRange groups input [] := by
      intro key n
      simp [keyInputs, IsInt32]
    have hstart : HoldsSums groups input [] [] := fun key => rfl
    exact hstart.foldlM_aggregateRow hrows (List.nil_append rows) hempty

/-- The sum of two columns of the rows `5` and `7`, and the sum of `1` and `2`. -/
theorem exactArithmetic_small :
    EvaluatesExactly ((Expression.arithmetic (.columnValue 0 0 .integer) (.columnValue 1 0 .integer)
        .plus).evaluate (intRow 5) (Schema.new [])) (some 10) ∧
      EvaluatesExactly ((Expression.arithmetic (.columnValue 0 0 .integer)
        (.columnValue 1 0 .integer) .plus).evaluateJoin (intRow 5) (Schema.new []) (intRow 7)
        (Schema.new [])) (some 12) ∧
      SumsExactly (Schema.new []) [] (.columnValue 0 0 .integer) (placeless [intRow 1, intRow 2])
        (fun _ => []) (fun row => row.1.values.headD default) := by
  have hread : ∀ c ∈ [(0, 0), (1, 0)], c = (0, 0) ∨ c = ((1, 0) : ℕ × ℕ) := by simp
  have hrows : SummedRows (Schema.new []) [] (.columnValue 0 0 .integer)
      (placeless [intRow 1, intRow 2]) (fun _ => []) (fun row => row.1.values.headD default) := by
    have hcase : ∀ row ∈ placeless [intRow 1, intRow 2], ∃ i, row = (intRow i, default) := by
      intro row hrow
      obtain ⟨tuple, htuple, rfl⟩ := List.mem_map.1 hrow
      have htuple : tuple = intRow 1 ∨ tuple = intRow 2 := by simpa using htuple
      exact htuple.elim (fun h => ⟨1, h ▸ rfl⟩) fun h => ⟨2, h ▸ rfl⟩
    refine ⟨fun row _ => rfl, fun row hrow => ?_, fun row hrow => ?_⟩
    · obtain ⟨i, rfl⟩ := hcase row hrow
      rfl
    · obtain ⟨i, rfl⟩ := hcase row hrow
      exact .inr ⟨i, rfl⟩
  obtain ⟨hrow, hpair, hsum⟩ := @exactArithmetic_iff
    (.arithmetic (.columnValue 0 0 .integer) (.columnValue 1 0 .integer) .plus)
    (fun t _ => if t = 0 then 5 else 7) (intRow 5) (intRow 5) (intRow 7) (Schema.new [])
    (Schema.new []) (Schema.new []) [] (.columnValue 0 0 .integer)
    (placeless [intRow 1, intRow 2]) (fun _ => []) (fun row => row.1.values.headD default)
    ⟨rfl, rfl⟩ (by
      intro c hc
      rcases hread c hc with rfl | rfl <;> rfl) (by
      intro c hc
      rcases hread c hc with rfl | rfl <;> rfl) hrows
  have hten : ¬ ¬ IsInt32 (5 + 5) := not_not.2 (by simp [IsInt32])
  have htwelve : ¬ ¬ IsInt32 (5 + 7) := not_not.2 (by simp [IsInt32])
  refine ⟨hrow.2 ⟨trivial, ?_⟩, hpair.2 ⟨trivial, ?_⟩, hsum.2 fun key => ?_⟩
  · rintro a ha
    obtain rfl : (5 : ℤ) = a := Option.some.inj ha
    refine ⟨trivial, fun b hb => ?_⟩
    obtain rfl : (5 : ℤ) = b := Option.some.inj hb
    exact hten
  · rintro a ha
    obtain rfl : (5 : ℤ) = a := Option.some.inj ha
    refine ⟨trivial, fun b hb => ?_⟩
    obtain rfl : (7 : ℤ) = b := Option.some.inj hb
    exact htwelve
  · by_cases hkey : groupKey [] = key
    · subst hkey
      have hinputs : integerInputs (keyInputs (fun _ => []) (fun row => row.1.values.headD default)
          (placeless [intRow 1, intRow 2]) (groupKey [])) = [1, 2] := by decide
      intro n
      rw [hinputs]
      rcases n with _ | _ | n <;> simp [IsInt32]
    · intro n
      simp [keyInputs, hkey, IsInt32]

/-- Incrementing the greatest `int32_t`. -/
theorem not_evaluatesExactly_increment :
    ¬ EvaluatesExactly ((Expression.arithmetic (.columnValue 0 0 .integer)
        (.constantValue (Value.ofInt 1)) .plus).evaluate (intRow 2147483647) (Schema.new []))
      (some 2147483648) := by
  have heval : (Expression.arithmetic (.columnValue 0 0 .integer)
      (.constantValue (Value.ofInt 1)) .plus).evaluate (intRow 2147483647) (Schema.new []) =
        Cpp.undefined := rfl
  rw [heval]
  rintro (⟨msg, h⟩ | ⟨z, -, -, h⟩)
  · cases h
  · cases h

end Arithmetic

end OneBase
