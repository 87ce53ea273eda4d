import OneBase.Execution.GroupKeys
import Mathlib.Order.MinMax

set_option relaxedAutoImplicit false
set_option autoImplicit false

/-!
# Aggregates

What `COUNT(*)`, `COUNT`, `SUM`, `MIN` and `MAX` are of the inputs of a group, and that the update
of `AggregationExecutor` goes from the aggregate of some inputs to that of one more.

## Main definitions

* `OneBase.AggregationType.of` — the aggregate of a list of inputs.
* `OneBase.aggregatesOf` — the aggregates of a group of rows.

## Main results

* `OneBase.updateAggregate_of`, `OneBase.updateAggregates_of` — one more row.
-/

namespace OneBase

/-- A value of an `INTEGER` expression. -/
def Value.IsInteger (v : Value) : Prop := v = .null .integer ∨ ∃ i, v = Value.ofInt i

/-- An `int32_t`. -/
def IsInt32 (i : ℤ) : Prop := -2 ^ 31 ≤ i ∧ i < 2 ^ 31

/-- The integer as a value. -/
def Value.integer (i : ℤ) : Value := Value.ofInt (BitVec.ofInt 32 i)

/-- The inputs that are not null. -/
def integerInputs (xs : List Value) : List ℤ :=
  xs.filterMap fun v =>
    match v.payload with
    | .integer i => if v.isNull then none else some i.toInt
    | _ => none

/-- The aggregate of the inputs of a group; without inputs, `SUM`, `MIN` and `MAX` are null. -/
def AggregationType.of (aggType : AggregationType) (xs : List Value) : Value :=
  match aggType with
  | .countStarAggregate => Value.integer xs.length
  | .countAggregate => Value.integer (integerInputs xs).length
  | .sumAggregate => if integerInputs xs = [] then default else Value.integer (integerInputs xs).sum
  | .minAggregate => (integerInputs xs).min?.elim default Value.integer
  | .maxAggregate => (integerInputs xs).max?.elim default Value.integer

/-- The counts and all partial sums are `int32_t`s. -/
def AggregationType.InRange (aggType : AggregationType) (xs : List Value) : Prop :=
  match aggType with
  | .countStarAggregate => IsInt32 xs.length
  | .countAggregate => IsInt32 (integerInputs xs).length
  | .sumAggregate => ∀ n, IsInt32 ((integerInputs xs).take n).sum
  | _ => True

/-- `COUNT` needs no input, the others one that is not null. -/
def AggregationType.HasInput (aggType : AggregationType) (xs : List Value) : Prop :=
  match aggType with
  | .countStarAggregate => True
  | .countAggregate => True
  | _ => integerInputs xs ≠ []

/-- The inputs of the aggregate at this position, from the rows of inputs. -/
def column (i : ℕ) (inputs : List (List Value)) : List Value :=
  inputs.map fun values => values.getD i default

/-- The aggregates of a group, given the inputs of each of its rows. -/
def aggregatesOf (aggTypes : List AggregationType) (inputs : List (List Value)) : List Value :=
  aggTypes.mapIdx fun i aggType => aggType.of (column i inputs)

/-! ## One more input -/

section Inputs

variable {xs : List Value} {x : Value} {aggType : AggregationType} {i j : ℤ}

/-- An integer in the range of an `int32_t` is the value of its bits. -/
lemma toInt_integer (h : IsInt32 i) : (BitVec.ofInt 32 i).toInt = i :=
  BitVec.toInt_ofInt_eq_self (by norm_num) h.1 h.2

/-- The value of 32 bits is in the range of an `int32_t`. -/
lemma isInt32_toInt (b : BitVec 32) : IsInt32 b.toInt := ⟨b.le_toInt, b.toInt_lt⟩

/-- No inputs, no integers. -/
@[simp] lemma integerInputs_nil : integerInputs [] = [] := rfl

/-- A null does not count. -/
lemma integerInputs_null (xs : List Value) :
    integerInputs (xs ++ [.null .integer]) = integerInputs xs := by
  simp [integerInputs, Value.null, Payload.zero]

/-- An integer counts. -/
lemma integerInputs_ofInt (xs : List Value) (b : BitVec 32) :
    integerInputs (xs ++ [Value.ofInt b]) = integerInputs xs ++ [b.toInt] := by
  simp [integerInputs, Value.ofInt]

/-- The integers among the inputs are in the range of an `int32_t`. -/
lemma isInt32_of_mem (h : i ∈ integerInputs xs) : IsInt32 i := by
  obtain ⟨v, -, hv⟩ := List.mem_filterMap.1 h
  obtain ⟨payload, isNull⟩ := v
  cases payload with
  | integer b =>
    cases isNull with
    | true => cases hv
    | false =>
      obtain rfl : b.toInt = i := Option.some.inj hv
      exact isInt32_toInt b
  | _ => cases hv

/-- Adding two integers whose sum is in range. -/
lemma add_integer (hi : IsInt32 i) (hj : IsInt32 j) (hsum : IsInt32 (i + j)) :
    (Value.integer i).add (Value.integer j) = pure (Value.integer (i + j)) := by
  show Value.intResult ((BitVec.ofInt 32 i).toInt + (BitVec.ofInt 32 j).toInt) = _
  rw [toInt_integer hi, toInt_integer hj]
  exact if_pos hsum

/-- The value of 32 bits, made of its integer. -/
lemma integer_toInt (b : BitVec 32) : Value.integer b.toInt = Value.ofInt b := by
  rw [Value.integer, BitVec.ofInt_toInt]

/-- The least element of a list with one more element. -/
lemma min?_concat {l : List ℤ} : (l ++ [i]).min? = some (l.min?.elim i (min · i)) := by
  cases l with
  | nil => rfl
  | cons a l =>
    rw [List.cons_append, List.min?_cons', List.min?_cons', List.foldl_append]
    rfl

/-- The greatest element of a list with one more element. -/
lemma max?_concat {l : List ℤ} : (l ++ [i]).max? = some (l.max?.elim i (max · i)) := by
  cases l with
  | nil => rfl
  | cons a l =>
    rw [List.cons_append, List.max?_cons', List.max?_cons', List.foldl_append]
    rfl

/-- A count goes up by one. -/
lemma add_one_integer {n : ℕ} (h : IsInt32 (n + 1 : ℕ)) :
    (Value.integer n).add (Value.ofInt 1) = pure (Value.integer (n + 1 : ℕ)) := by
  have hone : Value.ofInt 1 = Value.integer 1 := rfl
  rw [hone, add_integer ⟨by omega, by have := h.2; omega⟩ (by simp [IsInt32]) (by simpa using h)]
  rfl

/-- The sum of no integers is no value. -/
lemma sum_of_nil (h : integerInputs xs = []) : AggregationType.sumAggregate.of xs = default :=
  if_pos h

/-- The sum of integers. -/
lemma sum_of_ne_nil (h : integerInputs xs ≠ []) :
    AggregationType.sumAggregate.of xs = Value.integer (integerInputs xs).sum :=
  if_neg h

/-- `MIN` and `MAX` keep the better of the value so far and the new one. -/
lemma replaces_integer {compare : Value → Value → Cpp Value} (better : ℤ → ℤ → Bool)
    (hcompare : ∀ a b : BitVec 32, compare (Value.ofInt a) (Value.ofInt b) =
      pure (Value.ofBool (better a.toInt b.toInt)))
    (b : BitVec 32) (hi : IsInt32 i) :
    replaces compare (Value.ofInt b) (Value.integer i) = pure (better b.toInt i) := by
  have hless := hcompare b (BitVec.ofInt 32 i)
  rw [toInt_integer hi] at hless
  show (do let less ← compare (Value.ofInt b) (Value.integer i); less.getAsBoolean) = _
  rw [Value.integer, hless]
  rfl

/-- The update of an aggregate by one more input. -/
lemma updateAggregate_of (hx : x.IsInteger) (hrange : aggType.InRange (xs ++ [x])) :
    updateAggregate (aggType.of xs) x aggType = pure (aggType.of (xs ++ [x])) := by
  cases aggType with
  | countStarAggregate =>
    have hlen : (xs ++ [x]).length = xs.length + 1 := by simp
    rw [AggregationType.InRange, hlen] at hrange
    simp only [updateAggregate, AggregationType.of, hlen]
    exact add_one_integer hrange
  | countAggregate =>
    rcases hx with rfl | ⟨b, rfl⟩
    · simp only [updateAggregate, AggregationType.of, integerInputs_null]
      rfl
    · rw [AggregationType.InRange, integerInputs_ofInt, List.length_append] at hrange
      simp only [updateAggregate, AggregationType.of, integerInputs_ofInt, List.length_append]
      exact add_one_integer hrange
  | sumAggregate =>
    rcases hx with rfl | ⟨b, rfl⟩
    · simp only [updateAggregate, AggregationType.of, integerInputs_null]
      rfl
    · simp only [AggregationType.InRange, integerInputs_ofInt] at hrange
      by_cases hnil : integerInputs xs = []
      · rw [sum_of_nil hnil, sum_of_ne_nil (by simp [integerInputs_ofInt]), integerInputs_ofInt, hnil,
          List.nil_append, List.sum_singleton, integer_toInt]
        rfl
      · have hnew := hrange ((integerInputs xs).length + 1)
        have hold := hrange (integerInputs xs).length
        rw [List.take_of_length_le (by simp), List.sum_append, List.sum_singleton] at hnew
        rw [List.take_left' rfl] at hold
        rw [sum_of_ne_nil hnil, sum_of_ne_nil (by simp [integerInputs_ofInt]), integerInputs_ofInt,
          List.sum_append, List.sum_singleton, ← integer_toInt]
        exact add_integer hold (isInt32_toInt b) hnew
  | minAggregate =>
    rcases hx with rfl | ⟨b, rfl⟩
    · simp only [updateAggregate, AggregationType.of, integerInputs_null]
      rfl
    · simp only [updateAggregate, AggregationType.of, integerInputs_ofInt, min?_concat]
      cases hmin : (integerInputs xs).min? with
      | none =>
        rw [Option.elim_none, Option.elim_none, Option.elim_some, integer_toInt]
        rfl
      | some m =>
        have hm := isInt32_of_mem (List.min?_mem hmin)
        have hless : ∀ a b : BitVec 32, (Value.ofInt a).compareLessThan (Value.ofInt b) =
            pure (Value.ofBool (decide (a.toInt < b.toInt))) := fun _ _ => rfl
        simp only [Option.elim_some]
        rw [replaces_integer (fun i j => decide (i < j)) hless b hm, pure_bind]
        by_cases hlt : b.toInt < m
        · rw [if_pos (decide_eq_true hlt), min_eq_right hlt.le, integer_toInt]
        · rw [if_neg (by simpa using hlt), min_eq_left (not_lt.1 hlt)]
  | maxAggregate =>
    rcases hx with rfl | ⟨b, rfl⟩
    · simp only [updateAggregate, AggregationType.of, integerInputs_null]
      rfl
    · simp only [updateAggregate, AggregationType.of, integerInputs_ofInt, max?_concat]
      cases hmax : (integerInputs xs).max? with
      | none =>
        rw [Option.elim_none, Option.elim_none, Option.elim_some, integer_toInt]
        rfl
      | some m =>
        have hm := isInt32_of_mem (List.max?_mem hmax)
        have hgreater : ∀ a b : BitVec 32, (Value.ofInt a).compareGreaterThan (Value.ofInt b) =
            pure (Value.ofBool (decide (b.toInt < a.toInt))) := fun _ _ => rfl
        simp only [Option.elim_some]
        rw [replaces_integer (fun i j => decide (j < i)) hgreater b hm, pure_bind]
        by_cases hlt : m < b.toInt
        · rw [if_pos (decide_eq_true hlt), max_eq_right hlt.le, integer_toInt]
        · rw [if_neg (by simpa using hlt), max_eq_left (not_lt.1 hlt)]

end Inputs

/-! ## One more row -/

section Rows

variable {aggTypes : List AggregationType} {aggType : AggregationType} {xs ys : List Value}
  {inputs more : List (List Value)} {values : List Value} {i : ℕ}

/-- The inputs of an aggregate from two lists of rows. -/
lemma column_append (i : ℕ) (inputs more : List (List Value)) :
    column i (inputs ++ more) = column i inputs ++ column i more :=
  List.map_append ..

/-- The inputs of the aggregates behind the first one. -/
lemma column_succ (i : ℕ) (inputs : List (List Value)) :
    column (i + 1) inputs = column i (inputs.map List.tail) := by
  rw [column, column, List.map_map]
  apply List.map_congr_left
  intro values _
  cases values <;> simp

/-- The aggregates of the rows, one after the other. -/
lemma aggregatesOf_cons (aggType : AggregationType) (aggTypes : List AggregationType)
    (inputs : List (List Value)) :
    aggregatesOf (aggType :: aggTypes) inputs =
      aggType.of (column 0 inputs) :: aggregatesOf aggTypes (inputs.map List.tail) := by
  rw [aggregatesOf, aggregatesOf, List.mapIdx_cons]
  simp only [column_succ]

/-- The aggregates of no rows. -/
lemma initialAggregates_eq (aggTypes : List AggregationType) :
    initialAggregates aggTypes = aggregatesOf aggTypes [] := by
  induction aggTypes with
  | nil => rfl
  | cons aggType aggTypes ih =>
    rw [aggregatesOf_cons, initialAggregates, List.map_cons]
    congr 1
    cases aggType <;> rfl

/-- The integers among two lists of inputs. -/
lemma integerInputs_append (xs ys : List Value) :
    integerInputs (xs ++ ys) = integerInputs xs ++ integerInputs ys :=
  List.filterMap_append

/-- What is in range for all rows is so for the first ones. -/
lemma AggregationType.InRange.of_append (h : aggType.InRange (xs ++ ys)) : aggType.InRange xs := by
  cases aggType with
  | countStarAggregate =>
    obtain ⟨-, hlt⟩ := h
    rw [List.length_append] at hlt
    exact ⟨by omega, by omega⟩
  | countAggregate =>
    obtain ⟨-, hlt⟩ := h
    rw [integerInputs_append, List.length_append] at hlt
    exact ⟨by omega, by omega⟩
  | sumAggregate =>
    intro n
    have hn := h (min n (integerInputs xs).length)
    rw [integerInputs_append, List.take_append_of_le_length (by omega)] at hn
    rcases le_total n (integerInputs xs).length with hle | hle
    · rwa [min_eq_left hle] at hn
    · rw [min_eq_right hle, List.take_length] at hn
      rwa [List.take_of_length_le hle]
  | minAggregate => trivial
  | maxAggregate => trivial

/-- The update of all aggregates by one more row. -/
lemma updateAggregates_of (hlen : aggTypes.length = values.length)
    (hvalues : ∀ v ∈ values, v.IsInteger)
    (hrange : ∀ (i : ℕ) (aggType : AggregationType), aggTypes[i]? = some aggType →
      aggType.InRange (column i (inputs ++ [values]))) :
    updateAggregates aggTypes (aggregatesOf aggTypes inputs) values =
      pure (aggregatesOf aggTypes (inputs ++ [values])) := by
  induction aggTypes generalizing inputs values with
  | nil => rfl
  | cons aggType aggTypes ih =>
    obtain ⟨v, values, rfl⟩ := List.exists_cons_of_length_eq_add_one hlen.symm
    have hhead := hrange 0 aggType rfl
    rw [column_append] at hhead
    have hcolumns : ∀ (i : ℕ) (t : AggregationType), aggTypes[i]? = some t →
        t.InRange (column i (inputs.map List.tail ++ [values])) := by
      intro i t ht
      have hcol := hrange (i + 1) t ht
      rwa [column_succ, List.map_append] at hcol
    have hrest := ih (Nat.succ.inj hlen) (fun w hw => hvalues w (List.mem_cons_of_mem _ hw)) hcolumns
    rw [aggregatesOf_cons, aggregatesOf_cons, updateAggregates, column_append,
      updateAggregate_of (hvalues v List.mem_cons_self) hhead, pure_bind, hrest, List.map_append]
    rfl

/-- The aggregate of inputs is an integer, if it has one. -/
lemma AggregationType.HasInput.of_eq (h : aggType.HasInput xs) :
    ∃ i, aggType.of xs = Value.integer i := by
  cases aggType with
  | countStarAggregate => exact ⟨_, rfl⟩
  | countAggregate => exact ⟨_, rfl⟩
  | sumAggregate => exact ⟨_, sum_of_ne_nil h⟩
  | minAggregate =>
    obtain ⟨m, hm⟩ := Option.isSome_iff_exists.1 (List.isSome_min?_of_ne_nil h)
    exact ⟨m, by rw [AggregationType.of, hm, Option.elim_some]⟩
  | maxAggregate =>
    obtain ⟨m, hm⟩ := Option.isSome_iff_exists.1 (List.isSome_max?_of_ne_nil h)
    exact ⟨m, by rw [AggregationType.of, hm, Option.elim_some]⟩

/-- If all aggregates have an input, they are integers. -/
lemma integer_of_mem_aggregatesOf
    (h : ∀ (i : ℕ) (aggType : AggregationType), aggTypes[i]? = some aggType →
      aggType.HasInput (column i inputs)) {v : Value} (hv : v ∈ aggregatesOf aggTypes inputs) :
    ∃ i, v = Value.integer i := by
  obtain ⟨i, hi⟩ := List.mem_iff_getElem?.1 hv
  rw [aggregatesOf, List.getElem?_mapIdx, Option.map_eq_some_iff] at hi
  obtain ⟨aggType, hget, rfl⟩ := hi
  exact (h i aggType hget).of_eq

end Rows

end OneBase
