import OneBase.Execution.Results
import OneBase.Lib.LexOrder

set_option relaxedAutoImplicit false
set_option autoImplicit false

/-!
# The order of the sort executor

The comparison that `SortExecutor` hands to `std::sort` looks at one ORDER BY item after the
other, tests for equality and then for less or greater. On integers and strings it is the
lexicographic order of the values of the items.

## Main definitions

* `OneBase.Value.Less` — the order of integers and of strings.
* `OneBase.SortKeys` — the values of the ORDER BY items on a row.

## Main results

* `OneBase.compareRows_eq` — the comparison is the lexicographic order.
* `OneBase.sortExecutor_sorts` — it is a strict weak order, and the executor emits the rows of its
  child in this order.
-/

namespace OneBase

open Exec LexOrder

/-- The order of integers and of strings; values of other types are not ordered. -/
def Value.Less (v w : Value) : Prop :=
  match v.payload, w.payload with
  | .integer i, .integer j => i.toInt < j.toInt
  | .varchar s, .varchar t => s < t
  | _, _ => False

/-- The values that a sort can order. -/
def Value.IsSortable (v : Value) : Prop :=
  v.isNull = false ∧ (v.getTypeId = .integer ∨ v.getTypeId = .varchar)

/-- On the row, the ORDER BY items have these values, which the sort can order. -/
def SortKeys (schema : Schema) (orderBys : List (Bool × Expression)) (tuple : Tuple)
    (keys : List Value) : Prop :=
  List.Forall₂ (fun item v => item.2.evaluate tuple schema = pure v ∧ v.IsSortable) orderBys keys

/-- Value by value, the types are the same. -/
def SameTypes (as bs : List Value) : Prop := as.map Value.getTypeId = bs.map Value.getTypeId

namespace Value

variable {u v w : Value}

/-- No value is less than itself. -/
lemma less_irrefl (v : Value) : ¬ v.Less v := by
  obtain ⟨payload, isNull⟩ := v
  cases payload <;> simp [Less]

/-- Less than is transitive. -/
lemma less_trans (huv : u.Less v) (hvw : v.Less w) : u.Less w := by
  obtain ⟨a, l⟩ := u
  obtain ⟨b, m⟩ := v
  obtain ⟨c, n⟩ := w
  cases a with
  | integer i =>
    cases b <;> cases c <;> simp only [Less] at huv hvw ⊢
    exact huv.trans hvw
  | varchar s =>
    cases b <;> cases c <;> simp only [Less] at huv hvw ⊢
    exact List.lt_trans huv hvw
  | _ => exact huv.elim

/-- What the tests of the sort return on values of one type. -/
lemma IsSortable.compare (hv : v.IsSortable) (hw : w.IsSortable)
    (htype : v.getTypeId = w.getTypeId) :
    (∃ r, v.compareEquals w = pure (ofBool r) ∧ (r = true ↔ v = w)) ∧
      (∃ r, v.compareLessThan w = pure (ofBool r) ∧ (r = true ↔ v.Less w)) ∧
      (∃ r, v.compareGreaterThan w = pure (ofBool r) ∧ (r = true ↔ w.Less v)) ∧
      (v.Less w ∨ v = w ∨ w.Less v) := by
  obtain ⟨a, m⟩ := v
  obtain ⟨b, n⟩ := w
  obtain ⟨rfl, hv⟩ : m = false ∧ _ := hv
  obtain ⟨rfl, -⟩ : n = false ∧ _ := hw
  rcases hv with hint | hvarchar
  · cases a <;> cases hint
    cases b <;> cases htype
    rename_i i j
    refine ⟨⟨decide (i.toInt = j.toInt), rfl, ?_⟩, ⟨decide (i.toInt < j.toInt), rfl, ?_⟩,
      ⟨decide (j.toInt < i.toInt), rfl, ?_⟩, ?_⟩
    · simp [BitVec.toInt_inj]
    · simp [Less]
    · simp [Less]
    · simpa [Less, BitVec.toInt_inj] using lt_trichotomy i.toInt j.toInt
  · cases a <;> cases hvarchar
    cases b <;> cases htype
    rename_i s t
    refine ⟨⟨decide (s = t), rfl, ?_⟩, ⟨decide (s < t), rfl, ?_⟩, ⟨decide (t < s), rfl, ?_⟩, ?_⟩
    · simp
    · simp [Less]
    · simp [Less]
    · by_cases hst : s < t
      · exact .inl hst
      by_cases hts : t < s
      · exact .inr (.inr hts)
      · have heq : s = t := List.le_antisymm (List.not_lt.1 hts) (List.not_lt.1 hst)
        exact .inr (.inl (by rw [heq]))

end Value

section Comparison

variable {schema : Schema} {orderBys : List (Bool × Expression)} {a b : Tuple} {as bs : List Value}

/-- What the sort makes of the values of the keys of two rows. -/
def compareKeys : List Bool → List Value → List Value → Cpp Bool
  | isAscending :: directions, a :: as, b :: bs => do
    let equal ← a.compareEquals b
    if ← equal.getAsBoolean then compareKeys directions as bs
    else
      let less ← if isAscending then a.compareLessThan b else a.compareGreaterThan b
      less.getAsBoolean
  | _, _, _ => pure false

/-- The sort compares the values of the keys. -/
lemma compareRows_eq_compareKeys
    (ha : List.Forall₂ (fun item v => item.2.evaluate a schema = pure v) orderBys as)
    (hb : List.Forall₂ (fun item v => item.2.evaluate b schema = pure v) orderBys bs) :
    compareRows schema orderBys a b = compareKeys (orderBys.map Prod.fst) as bs := by
  induction ha generalizing bs with
  | nil => rfl
  | @cons item v orderBys as hv _ ih =>
    cases hb with
    | @cons _ w _ bs hw hbs =>
      obtain ⟨isAscending, expr⟩ := item
      rw [compareRows, hv, pure_bind, hw, pure_bind, List.map_cons, compareKeys, ih hbs]

/-- Keys of the same types are comparable. -/
lemma SortKeys.comparable (ha : SortKeys schema orderBys a as) (hb : SortKeys schema orderBys b bs)
    (htypes : SameTypes as bs) :
    List.Forall₂ (fun v w => v.Less w ∨ v = w ∨ w.Less v) as bs := by
  induction ha generalizing bs with
  | nil =>
    cases hb
    exact .nil
  | cons hv _ ih =>
    cases hb with
    | cons hw hbs =>
      obtain ⟨htype, htypes⟩ := List.cons.inj htypes
      exact .cons (hv.2.compare hw.2 htype).2.2.2 (ih hbs htypes)

/-- The comparison of the sort is the lexicographic order of the keys. -/
lemma compareRows_eq (ha : SortKeys schema orderBys a as) (hb : SortKeys schema orderBys b bs)
    (htypes : SameTypes as bs) :
    ∃ r, compareRows schema orderBys a b = pure r ∧
      (r = true ↔ Precedes Value.Less (orderBys.map Prod.fst) as bs) := by
  induction ha generalizing bs with
  | nil => exact ⟨false, rfl, by simp [Precedes]⟩
  | @cons item v orderBys as hv _ ih =>
    cases hb with
    | @cons _ w _ bs hw hbs =>
      obtain ⟨htype, htail⟩ := List.cons.inj htypes
      obtain ⟨isAscending, expr⟩ := item
      obtain ⟨⟨equal, hequal, hequal_iff⟩, ⟨less, hless, hless_iff⟩,
        ⟨greater, hgreater, hgreater_iff⟩, -⟩ := hv.2.compare hw.2 htype
      have heval : compareRows schema ((isAscending, expr) :: orderBys) a b =
          (if equal then compareRows schema orderBys a b
          else if isAscending then pure less else pure greater) := by
        rw [compareRows, hv.1, pure_bind, hw.1, pure_bind, hequal, pure_bind]
        cases equal with
        | true => rfl
        | false => cases isAscending <;> simp only [hless, hgreater] <;> rfl
      rw [heval]
      cases equal with
      | true =>
        obtain rfl := hequal_iff.1 rfl
        obtain ⟨r, hr, hr_iff⟩ := ih hbs htail
        refine ⟨r, hr, hr_iff.trans ⟨fun h => .inr ⟨rfl, h⟩, fun h => ?_⟩⟩
        exact (h.resolve_left (before_irrefl Value.less_irrefl)).2
      | false =>
        have hne : v ≠ w := fun h => by simpa using hequal_iff.2 h
        cases isAscending with
        | true =>
          refine ⟨less, rfl, hless_iff.trans ⟨fun h => .inl h, fun h => ?_⟩⟩
          exact h.resolve_right fun h => hne h.1
        | false =>
          refine ⟨greater, rfl, hgreater_iff.trans ⟨fun h => .inl h, fun h => ?_⟩⟩
          exact h.resolve_right fun h => hne h.1

end Comparison

section Executor

variable {std : StandardLibrary} {fuel : ℕ} {ctx : ExecutorContext} {outputSchema : Schema}
  {child : Executor} {orderBys : List (Bool × Expression)} {rows : List Row}
  {keys : Tuple → List Value}

/-- A comparison that decides a strict order of keys in which the keys of the elements are
comparable is a strict weak order. -/
lemma strictWeakOrderOn_of_keys {α κ : Type} {l : List α} {lt : α → α → Cpp Bool} {key : α → κ}
    {precedes : κ → κ → Prop} (hirrefl : ∀ k, ¬ precedes k k)
    (htrans : ∀ j k m, precedes j k → precedes k m → precedes j m)
    (htotal : ∀ a ∈ l, ∀ b ∈ l, precedes (key a) (key b) ∨ key a = key b ∨
      precedes (key b) (key a))
    (hlt : ∀ a ∈ l, ∀ b ∈ l, ∃ r, lt a b = pure r ∧ (r = true ↔ precedes (key a) (key b))) :
    StrictWeakOrderOn l lt := by
  have htrue : ∀ a ∈ l, ∀ b ∈ l, (lt a b = pure true ↔ precedes (key a) (key b)) := by
    intro a ha b hb
    obtain ⟨r, hr, hiff⟩ := hlt a ha b hb
    rw [hr, ← hiff]
    exact ⟨fun h => Except.ok.inj (Option.some.inj h), fun h => by rw [h]⟩
  have hfalse : ∀ a ∈ l, ∀ b ∈ l, (lt a b = pure false ↔ ¬ precedes (key a) (key b)) := by
    intro a ha b hb
    obtain ⟨r, hr, hiff⟩ := hlt a ha b hb
    rw [hr, ← hiff, Bool.not_eq_true]
    exact ⟨fun h => Except.ok.inj (Option.some.inj h), fun h => by rw [h]⟩
  exact
    { returns := fun a ha b hb => (hlt a ha b hb).imp fun r hr => hr.1
      irrefl := fun a ha => (hfalse a ha a ha).2 (hirrefl _)
      trans := by
        intro a ha b hb c hc hab hbc
        rw [htrue a ha b hb] at hab
        rw [htrue b hb c hc] at hbc
        exact (htrue a ha c hc).2 (htrans _ _ _ hab hbc)
      incomparable := by
        intro a ha b hb c hc hab hba hbc hcb
        rw [hfalse a ha b hb] at hab
        rw [hfalse b hb a ha] at hba
        rw [hfalse b hb c hc] at hbc
        rw [hfalse c hc b hb] at hcb
        have heq : key a = key b := ((htotal a ha b hb).resolve_left hab).resolve_right hba
        rw [hfalse a ha c hc, heq]
        exact hbc }

/-- Sorting integers and strings: if the ORDER BY items have keys on all rows of the child, of the
same types on each two of them, then the comparison given to `std::sort` is a strict weak order,
and the executor emits the rows of its child, none of them preceded by a later one. -/
theorem sortExecutor_sorts (hchild : child.Yields ctx rows) (hfuel : rows.length < fuel)
    (hkeys : ∀ row ∈ rows, SortKeys child.outputSchema orderBys row.1 (keys row.1))
    (htypes : ∀ r ∈ rows, ∀ s ∈ rows, SameTypes (keys r.1) (keys s.1)) :
    StrictWeakOrderOn (rows.map Prod.fst) (compareRows child.outputSchema orderBys) ∧
      ∃ sorted : List Tuple,
        (sortExecutor std fuel outputSchema child orderBys).Yields ctx (placeless sorted) ∧
        sorted.Perm (rows.map Prod.fst) ∧
        sorted.Pairwise fun a b =>
          ¬ Precedes Value.Less (orderBys.map Prod.fst) (keys b) (keys a) := by
  have hlt : ∀ a ∈ rows.map Prod.fst, ∀ b ∈ rows.map Prod.fst, ∃ r,
      compareRows child.outputSchema orderBys a b = pure r ∧
        (r = true ↔ Precedes Value.Less (orderBys.map Prod.fst) (keys a) (keys b)) := by
    intro a ha b hb
    obtain ⟨r, hr, rfl⟩ := List.mem_map.1 ha
    obtain ⟨s, hs, rfl⟩ := List.mem_map.1 hb
    exact compareRows_eq (hkeys r hr) (hkeys s hs) (htypes r hr s hs)
  have hweak : StrictWeakOrderOn (rows.map Prod.fst) (compareRows child.outputSchema orderBys) := by
    refine strictWeakOrderOn_of_keys (fun k => precedes_irrefl Value.less_irrefl)
      (fun j k m => precedes_trans fun _ _ _ => Value.less_trans) ?_ hlt
    intro a ha b hb
    obtain ⟨r, hr, rfl⟩ := List.mem_map.1 ha
    obtain ⟨s, hs, rfl⟩ := List.mem_map.1 hb
    refine precedes_trichotomous ?_ ((hkeys r hr).comparable (hkeys s hs) (htypes r hr s hs))
    rw [List.length_map, (hkeys r hr).length_eq]
  refine ⟨hweak, ?_⟩
  obtain ⟨sorted, hsort, hperm, hpairwise⟩ := std.sort_spec _ _ hweak
  refine ⟨sorted, hchild.sort hfuel hsort, hperm, hpairwise.imp_of_mem fun {a b} ha hb hba => ?_⟩
  obtain ⟨r, hr, hiff⟩ := hlt b (hperm.subset hb) a (hperm.subset ha)
  rw [hr] at hba
  obtain rfl : r = false := Except.ok.inj (Option.some.inj hba)
  exact fun h => by simpa using hiff.2 h

/-- Sorting `2, 1`. -/
theorem sortExecutor_sorts_sample :
    ∃ sorted : List Tuple,
      (sortExecutor default 3 (Schema.new []) (rowsExecutor (Schema.new []) [intRow 2, intRow 1])
        [(true, .columnValue 0 0 .integer)]).Yields {} (placeless sorted) ∧
      sorted.Perm [intRow 2, intRow 1] ∧
      sorted.Pairwise fun a b =>
        ¬ Precedes Value.Less [true] (b.values.take 1) (a.values.take 1) := by
  obtain ⟨-, sorted, hyields, hperm, hsorted⟩ :=
    @sortExecutor_sorts default 3 {} (Schema.new [])
      (rowsExecutor (Schema.new []) [intRow 2, intRow 1]) [(true, .columnValue 0 0 .integer)]
      (placeless [intRow 2, intRow 1]) (fun tuple => tuple.values.take 1)
      (yields_rowsExecutor _ _ _) (by decide)
      (by
        intro row hrow
        obtain ⟨tuple, htuple, rfl⟩ := List.mem_map.1 hrow
        have hcase : tuple = intRow 2 ∨ tuple = intRow 1 := by simpa using htuple
        rcases hcase with rfl | rfl
        · exact .cons ⟨rfl, rfl, .inl rfl⟩ .nil
        · exact .cons ⟨rfl, rfl, .inl rfl⟩ .nil)
      (by simp [placeless, SameTypes, intRow, Value.getTypeId, Value.ofInt, Payload.typeId])
  exact ⟨sorted, hyields, hperm, hsorted⟩

end Executor

end OneBase
