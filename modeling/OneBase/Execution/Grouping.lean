import OneBase.Execution.Aggregates
import OneBase.Execution.Results

set_option relaxedAutoImplicit false
set_option autoImplicit false

/-!
# The hash table of the groups

The loop of `AggregationExecutor` keeps one entry for each key. If the keys tell the groups apart,
each entry is that of a group, whatever its aggregates are: it suffices that their update goes from
the summary of some inputs to that of one more.

## Main definitions

* `OneBase.groupInputs` — the inputs of the aggregates on the rows of a group.
* `OneBase.GroupRows` — the values of the expressions on rows whose keys tell the groups apart.
* `OneBase.TabulatesBy` — a hash table with the summary of each group.
* `OneBase.AggregationType.total` — the aggregates of values of any type.

## Main results

* `OneBase.keys_foldlM_aggregateRow` — the keys of the hash table.
* `OneBase.GroupRows.foldlM_aggregateRow` — the hash table of the loop.
* `OneBase.updateAggregates_totals` — the update goes from the totals of inputs to those of one more.
-/

namespace OneBase

open Exec

/-- The inputs of the aggregates on the rows of a group. -/
def groupInputs (groups inputs : Row → List Value) (rows : List Row) (g : List Value) :
    List (List Value) :=
  (rows.filter fun row => groups row = g).map inputs

/-- The entry of a group in the hash table, where `summary` makes the aggregates of its inputs. -/
def summaryEntry (summary : List (List Value) → List Value) (groups inputs : Row → List Value)
    (rows : List Row) (g : List Value) : List UInt8 × AggState :=
  (groupKey g, { groupBys := g, aggregates := summary (groupInputs groups inputs rows g) })

/-- The hash table has one entry for each group of the rows. -/
def TabulatesBy (summary : List (List Value) → List Value) (groups inputs : Row → List Value)
    (rows : List Row) (aht : List (List UInt8 × AggState)) : Prop :=
  ∃ gs : List (List Value), gs.Nodup ∧ (∀ g, g ∈ gs ↔ g ∈ rows.map groups) ∧
    aht = gs.map (summaryEntry summary groups inputs rows)

/-- The values of the group-by expressions and of the inputs of the aggregates on the rows, where
rows with the same key are of the same group. -/
structure GroupRows (schema : Schema) (groupBys aggregates : List Expression) (rows : List Row)
    (groups inputs : Row → List Value) : Prop where
  evaluate_groups : ∀ row ∈ rows,
    (groupBys.mapM fun expr => expr.evaluate row.1 schema) = pure (groups row)
  evaluate_inputs : ∀ row ∈ rows,
    (aggregates.mapM fun expr => expr.evaluate row.1 schema) = pure (inputs row)
  key_inj : ∀ row ∈ rows, ∀ row' ∈ rows, groupKey (groups row) = groupKey (groups row') →
    groups row = groups row'

/-! ## One more row -/

section Table

variable {summary : List (List Value) → List Value} {schema : Schema}
  {groupBys aggregates : List Expression} {aggTypes : List AggregationType}
  {rows done rest : List Row} {groups inputs : Row → List Value}
  {aht aht' : List (List UInt8 × AggState)} {row : Row} {g : List Value} {gs : List (List Value)}

/-- A row adds its inputs to those of its own group. -/
lemma groupInputs_append_self (groups inputs : Row → List Value) (done : List Row) (row : Row) :
    groupInputs groups inputs (done ++ [row]) (groups row) =
      groupInputs groups inputs done (groups row) ++ [inputs row] := by
  simp [groupInputs]

/-- A row adds no inputs to those of another group. -/
lemma groupInputs_append_other (hne : groups row ≠ g) :
    groupInputs groups inputs (done ++ [row]) g = groupInputs groups inputs done g := by
  simp [groupInputs, hne]

/-- A group that no row has has no inputs. -/
lemma groupInputs_of_notMem (h : g ∉ done.map groups) : groupInputs groups inputs done g = [] := by
  rw [groupInputs, List.map_eq_nil_iff, List.filter_eq_nil_iff]
  intro row hrow heq
  exact h (List.mem_map.2 ⟨row, hrow, of_decide_eq_true heq⟩)

/-- The inputs of the group of a row are those before it, its own, and those behind it. -/
lemma groupInputs_split (groups inputs : Row → List Value) (done rest : List Row) (row : Row) :
    groupInputs groups inputs (done ++ row :: rest) (groups row) =
      groupInputs groups inputs done (groups row) ++
        inputs row :: groupInputs groups inputs rest (groups row) := by
  simp [groupInputs]

/-- Looking up a group by its key. -/
lemma lookup_summaryEntry (hinj : ∀ g' ∈ gs, groupKey g' = groupKey g → g' = g) :
    (gs.map (summaryEntry summary groups inputs done)).lookup (groupKey g) =
      if g ∈ gs then some (summaryEntry summary groups inputs done g).2 else none := by
  induction gs with
  | nil => rfl
  | cons g' gs ih =>
    have hhead : groupKey g = groupKey g' → g' = g := fun h => hinj g' List.mem_cons_self h.symm
    have htail := ih fun x hx => hinj x (List.mem_cons_of_mem _ hx)
    rw [List.map_cons, summaryEntry, List.lookup_cons]
    by_cases heq : groupKey g = groupKey g'
    · obtain rfl := hhead heq
      simp [summaryEntry]
    · have hne : g ≠ g' := fun h => heq (by rw [h])
      rw [beq_eq_false_iff_ne.2 heq]
      simp only [htail, List.mem_cons, hne, false_or]

/-- The body of the loop adds a row to its group. -/
lemma GroupRows.aggregateRow (hrows : GroupRows schema groupBys aggregates rows groups inputs)
    (hinit : summary [] = initialAggregates aggTypes) (hdone : ∀ r ∈ done, r ∈ rows)
    (hrow : row ∈ rows)
    (hupdate : updateAggregates aggTypes (summary (groupInputs groups inputs done (groups row)))
      (inputs row) = pure (summary (groupInputs groups inputs done (groups row) ++ [inputs row])))
    (haht : TabulatesBy summary groups inputs done aht) :
    ∃ aht', OneBase.aggregateRow groupBys aggregates aggTypes schema aht row = pure aht' ∧
      TabulatesBy summary groups inputs (done ++ [row]) aht' := by
  obtain ⟨gs, hnodup, hmem, rfl⟩ := haht
  have hinj : ∀ g' ∈ gs, groupKey g' = groupKey (groups row) → g' = groups row := by
    intro g' hg' hkey
    obtain ⟨r, hr, rfl⟩ := List.mem_map.1 ((hmem g').1 hg')
    exact hrows.key_inj r (hdone r hr) row hrow hkey
  have hothers : ∀ g' ∈ gs, g' ≠ groups row →
      summaryEntry summary groups inputs (done ++ [row]) g' =
        summaryEntry summary groups inputs done g' := by
    intro g' _ hne
    rw [summaryEntry, groupInputs_append_other (Ne.symm hne), ← summaryEntry]
  unfold OneBase.aggregateRow
  simp only [hrows.evaluate_groups row hrow, hrows.evaluate_inputs row hrow, pure_bind,
    lookup_summaryEntry hinj]
  by_cases hold : groups row ∈ gs
  · -- the group has been met before
    simp only [if_pos hold, summaryEntry, hupdate, pure_bind]
    refine ⟨_, rfl, gs, hnodup, fun g => ?_, ?_⟩
    · rw [hmem, List.map_append, List.mem_append, List.map_singleton, List.mem_singleton]
      refine ⟨.inl, fun h => h.elim id ?_⟩
      rintro rfl
      exact (hmem _).1 hold
    · rw [List.map_map]
      apply List.map_congr_left
      intro g' hg'
      by_cases heq : g' = groups row
      · subst heq
        simp [summaryEntry, groupInputs_append_self]
      · have hkey : groupKey g' ≠ groupKey (groups row) := fun h => heq (hinj g' hg' h)
        rw [hothers g' hg' heq]
        simp [summaryEntry, hkey]
  · -- the row is the first of its group
    have hnew : groupInputs groups inputs done (groups row) = [] :=
      groupInputs_of_notMem fun h => hold ((hmem _).2 h)
    rw [hnew, hinit] at hupdate
    simp only [if_neg hold, hupdate, pure_bind]
    refine ⟨_, rfl, gs ++ [groups row], ?_, fun g => ?_, ?_⟩
    · rw [List.nodup_append]
      refine ⟨hnodup, List.nodup_singleton _, fun a ha b hb => ?_⟩
      rw [List.mem_singleton.1 hb]
      exact fun h => hold (h ▸ ha)
    · rw [List.mem_append, hmem, List.map_append, List.mem_append, List.map_singleton]
    · rw [List.map_append, List.map_singleton]
      congr 1
      · apply List.map_congr_left
        intro g' hg'
        exact (hothers g' hg' fun h => hold (h ▸ hg')).symm
      · rw [summaryEntry, groupInputs_append_self, hnew]

/-- The loop over the rows of the child. -/
lemma GroupRows.foldlM_aggregateRow
    (hrows : GroupRows schema groupBys aggregates rows groups inputs)
    (hinit : summary [] = initialAggregates aggTypes) (hsplit : rows = done ++ rest)
    (hupdate : ∀ row ∈ rows, ∀ before after,
      groupInputs groups inputs rows (groups row) = before ++ inputs row :: after →
        updateAggregates aggTypes (summary before) (inputs row) =
          pure (summary (before ++ [inputs row])))
    (haht : TabulatesBy summary groups inputs done aht) :
    ∃ aht', rest.foldlM (OneBase.aggregateRow groupBys aggregates aggTypes schema) aht = pure aht' ∧
      TabulatesBy summary groups inputs rows aht' := by
  induction rest generalizing done aht with
  | nil =>
    rw [List.append_nil] at hsplit
    exact ⟨aht, rfl, hsplit ▸ haht⟩
  | cons row rest ih =>
    have hassoc : rows = (done ++ [row]) ++ rest := by simpa using hsplit
    have hrow : row ∈ rows := by simp [hsplit]
    have hinputs := groupInputs_split groups inputs done rest row
    rw [← hsplit] at hinputs
    obtain ⟨aht', hstep, haht'⟩ := hrows.aggregateRow hinit (fun r hr => by simp [hsplit, hr]) hrow
      (hupdate row hrow _ _ hinputs) haht
    obtain ⟨aht'', hfold, haht''⟩ := ih hassoc haht'
    exact ⟨aht'', by rw [List.foldlM_cons, hstep, pure_bind, hfold], haht''⟩

/-- The body of the loop adds the key of the row, if it is new. -/
lemma keys_aggregateRow (hgroups : (groupBys.mapM fun expr => expr.evaluate row.1 schema) = pure g)
    (h : OneBase.aggregateRow groupBys aggregates aggTypes schema aht row = pure aht') :
    aht'.map Prod.fst =
      if groupKey g ∈ aht.map Prod.fst then aht.map Prod.fst
      else aht.map Prod.fst ++ [groupKey g] := by
  unfold OneBase.aggregateRow at h
  rw [hgroups, pure_bind] at h
  obtain ⟨inputs, -, h⟩ := Cpp.bind_eq_pure.1 h
  cases hlookup : aht.lookup (groupKey g) with
  | some state =>
    simp only [hlookup] at h
    obtain ⟨values, -, h⟩ := Cpp.bind_eq_pure.1 h
    cases h
    have hmem : groupKey g ∈ aht.map Prod.fst := by
      obtain ⟨before, after, haht, -⟩ := List.lookup_eq_some_iff.1 hlookup
      rw [haht]
      simp
    rw [if_pos hmem, List.map_map]
    apply List.map_congr_left
    intro entry _
    by_cases heq : entry.1 = groupKey g <;> simp [heq]
  | none =>
    simp only [hlookup] at h
    obtain ⟨values, -, h⟩ := Cpp.bind_eq_pure.1 h
    cases h
    have hnew : groupKey g ∉ aht.map Prod.fst := by
      intro hmem
      obtain ⟨entry, hentry, hkey⟩ := List.mem_map.1 hmem
      have hne := List.lookup_eq_none_iff.1 hlookup entry hentry
      rw [hkey] at hne
      simp at hne
    rw [if_neg hnew, List.map_append]
    rfl

/-- The hash table has one entry for each key of the rows. -/
lemma keys_foldlM_aggregateRow
    (hgroups : ∀ row ∈ rows,
      (groupBys.mapM fun expr => expr.evaluate row.1 schema) = pure (groups row))
    (h : rows.foldlM (OneBase.aggregateRow groupBys aggregates aggTypes schema) aht = pure aht')
    (hnodup : (aht.map Prod.fst).Nodup) :
    (aht'.map Prod.fst).Nodup ∧ ∀ key, key ∈ aht'.map Prod.fst ↔
      key ∈ aht.map Prod.fst ∨ ∃ row ∈ rows, groupKey (groups row) = key := by
  induction rows generalizing aht with
  | nil =>
    cases h
    exact ⟨hnodup, by simp⟩
  | cons row rows ih =>
    rw [List.foldlM_cons] at h
    obtain ⟨aht₁, hstep, hrest⟩ := Cpp.bind_eq_pure.1 h
    have hkeys := keys_aggregateRow (hgroups row List.mem_cons_self) hstep
    have hnodup₁ : (aht₁.map Prod.fst).Nodup := by
      rw [hkeys]
      split_ifs with hmem
      · exact hnodup
      · rw [List.nodup_append]
        refine ⟨hnodup, List.nodup_singleton _, fun a ha b hb => ?_⟩
        rw [List.mem_singleton.1 hb]
        exact fun heq => hmem (heq ▸ ha)
    have hmem₁ : ∀ key, key ∈ aht₁.map Prod.fst ↔
        key ∈ aht.map Prod.fst ∨ groupKey (groups row) = key := by
      intro key
      rw [hkeys]
      split_ifs with hmem
      · refine ⟨.inl, fun h => h.elim id ?_⟩
        rintro rfl
        exact hmem
      · rw [List.mem_append, List.mem_singleton, @eq_comm _ key]
    obtain ⟨hnodup', hiff⟩ := ih (fun r hr => hgroups r (List.mem_cons_of_mem _ hr)) hrest hnodup₁
    refine ⟨hnodup', fun key => ?_⟩
    rw [hiff, hmem₁, or_assoc, List.exists_mem_cons_iff]

/-- The loop has evaluated the inputs of the aggregates on all rows. -/
lemma exists_inputs_of_foldlM
    (h : rows.foldlM (OneBase.aggregateRow groupBys aggregates aggTypes schema) aht = pure aht')
    {row : Row} (hrow : row ∈ rows) :
    ∃ inputs, (aggregates.mapM fun expr => expr.evaluate row.1 schema) = pure inputs := by
  induction rows generalizing aht with
  | nil => exact absurd hrow List.not_mem_nil
  | cons first rows ih =>
    rw [List.foldlM_cons] at h
    obtain ⟨aht₁, hstep, hrest⟩ := Cpp.bind_eq_pure.1 h
    rcases List.mem_cons.1 hrow with rfl | hrow
    · obtain ⟨groupValues, -, hstep⟩ := Cpp.bind_eq_pure.1 hstep
      obtain ⟨inputs, hinputs, -⟩ := Cpp.bind_eq_pure.1 hstep
      exact ⟨inputs, hinputs⟩
    · exact ih hrest hrow

end Table

/-! ## Aggregates of values of any type -/

/-- The values that are not null. -/
def given (xs : List Value) : List Value := xs.filter fun v => !v.isNull

/-- The values put together from the first one on; null without values. -/
def combine (f : Value → Value → Cpp Value) : List Value → Cpp Value
  | [] => pure default
  | x :: xs => xs.foldlM f x

/-- The new value, if it compares so with the old one. -/
def chooseBy (compare : Value → Value → Cpp Value) (old new : Value) : Cpp Value := do
  let less ← compare new old
  if ← less.getAsBoolean then pure new else pure old

/-- The aggregate of the inputs of a group, if it has one. -/
def AggregationType.total (aggType : AggregationType) (xs : List Value) : Cpp Value :=
  match aggType with
  | .countStarAggregate => Value.intResult xs.length
  | .countAggregate => Value.intResult (given xs).length
  | .sumAggregate => combine Value.add (given xs)
  | .minAggregate => combine (chooseBy Value.compareLessThan) (given xs)
  | .maxAggregate => combine (chooseBy Value.compareGreaterThan) (given xs)

/-- The aggregates of a group, given the inputs of each of its rows. -/
def totalsOf : List AggregationType → List (List Value) → Cpp (List Value)
  | [], _ => pure []
  | aggType :: aggTypes, inputs => do
    let value ← aggType.total (column 0 inputs)
    let rest ← totalsOf aggTypes (inputs.map List.tail)
    pure (value :: rest)

section Totals

variable {xs : List Value} {x u v w : Value} {aggType : AggregationType} {n : ℕ}
  {aggTypes : List AggregationType} {inputs : List (List Value)} {values totals : List Value}

/-- A null is not given. -/
lemma given_append_null (hx : x.isNull = true) : given (xs ++ [x]) = given xs := by
  simp [given, hx]

/-- A value that is not a null is given. -/
lemma given_append (hx : x.isNull = false) : given (xs ++ [x]) = given xs ++ [x] := by
  simp [given, hx]

/-- A value that is given is not a null. -/
lemma isNull_of_mem_given (h : v ∈ given xs) : v.isNull = false := by
  simpa using (List.mem_filter.1 h).2

/-- A sum is not null. -/
lemma isNull_add (h : u.add v = pure w) : w.isNull = false := by
  unfold Value.add Value.arithmetic Value.intResult at h
  split_ifs at h with htype
  · cases h
  split at h
  · dsimp only at h
    split_ifs at h
    · cases h
      rfl
    · cases h
  · rename_i heq
    cases heq
    cases h
    rfl
  · cases h

/-- The better of two values that are not null is not null. -/
lemma isNull_chooseBy {compare : Value → Value → Cpp Value} (hu : u.isNull = false)
    (hv : v.isNull = false) (h : chooseBy compare u v = pure w) : w.isNull = false := by
  obtain ⟨less, -, h⟩ := Cpp.bind_eq_pure.1 h
  obtain ⟨b, -, h⟩ := Cpp.bind_eq_pure.1 h
  cases b with
  | true =>
    cases h
    exact hv
  | false =>
    cases h
    exact hu

/-- What is put together of values that are not null. -/
lemma isNull_foldlM {f : Value → Value → Cpp Value}
    (hf : ∀ u v w, u.isNull = false → v.isNull = false → f u v = pure w → w.isNull = false)
    (hx : x.isNull = false) (hxs : ∀ v ∈ xs, v.isNull = false) (h : xs.foldlM f x = pure w) :
    w.isNull = false := by
  induction xs generalizing x with
  | nil =>
    cases h
    exact hx
  | cons y xs ih =>
    rw [List.foldlM_cons] at h
    obtain ⟨z, hz, hrest⟩ := Cpp.bind_eq_pure.1 h
    exact ih (hf x y z hx (hxs y List.mem_cons_self) hz)
      (fun v hv => hxs v (List.mem_cons_of_mem _ hv)) hrest

/-- One more value: it is the first, or it is put together with those before it, which do not make
a null. -/
lemma combine_given_append {f : Value → Value → Cpp Value}
    (hf : ∀ u v w, u.isNull = false → v.isNull = false → f u v = pure w → w.isNull = false)
    (hx : x.isNull = false) (h : combine f (given (xs ++ [x])) = pure v) :
    ∃ u, combine f (given xs) = pure u ∧
      ((u.isNull = true ∧ v = x) ∨ (u.isNull = false ∧ f u x = pure v)) := by
  rw [given_append hx] at h
  have hgiven : ∀ v ∈ given xs, v.isNull = false := fun v => isNull_of_mem_given
  cases hcons : given xs with
  | nil =>
    rw [hcons] at h
    cases h
    exact ⟨default, rfl, .inl ⟨rfl, rfl⟩⟩
  | cons y ys =>
    rw [hcons] at h hgiven
    have hfold : (ys ++ [x]).foldlM f y = pure v := h
    rw [List.foldlM_append] at hfold
    obtain ⟨u, hu, hlast⟩ := Cpp.bind_eq_pure.1 hfold
    rw [List.foldlM_cons] at hlast
    obtain ⟨w, hw, hpure⟩ := Cpp.bind_eq_pure.1 hlast
    cases hpure
    exact ⟨u, hu, .inr ⟨isNull_foldlM hf (hgiven y List.mem_cons_self)
      (fun v hv => hgiven v (List.mem_cons_of_mem _ hv)) hu, hw⟩⟩

/-- A count of one more. -/
lemma intResult_succ (h : Value.intResult (n + 1 : ℕ) = pure v) :
    ∃ u, Value.intResult n = pure u ∧ u.add (Value.ofInt 1) = pure v := by
  unfold Value.intResult at h
  split_ifs at h with hrange
  · cases h
    have hn : IsInt32 n := ⟨by omega, by have := hrange.2; push_cast at this; omega⟩
    exact ⟨Value.integer n, if_pos hn, add_one_integer hrange⟩
  · cases h

/-- The update of an aggregate by one more input. -/
lemma updateAggregate_total (h : aggType.total (xs ++ [x]) = pure v) :
    ∃ u, aggType.total xs = pure u ∧ updateAggregate u x aggType = pure v := by
  have hnull : ∀ f, x.isNull = true → combine f (given (xs ++ [x])) = pure v →
      combine f (given xs) = pure v := by
    intro f hx h
    rwa [given_append_null hx] at h
  have hchoose : ∀ compare u, x.isNull = false →
      ((u.isNull = true ∧ v = x) ∨ (u.isNull = false ∧ chooseBy compare u x = pure v)) →
      (do if ← replaces compare x u then pure x else pure u : Cpp Value) = pure v := by
    rintro compare u hx (⟨hu, rfl⟩ | ⟨hu, hv⟩)
    · simp [replaces, hx, hu]
    · unfold chooseBy at hv
      simpa [replaces, hx, hu] using hv
  cases aggType with
  | countStarAggregate =>
    have hlen : (xs ++ [x]).length = xs.length + 1 := by simp
    simp only [AggregationType.total, hlen] at h
    exact intResult_succ h
  | countAggregate =>
    simp only [AggregationType.total] at h
    cases hx : x.isNull with
    | true =>
      rw [given_append_null hx] at h
      exact ⟨v, h, by simp [updateAggregate, hx]⟩
    | false =>
      rw [given_append hx, List.length_append] at h
      obtain ⟨u, hu, hv⟩ := intResult_succ h
      exact ⟨u, hu, by simpa [updateAggregate, hx] using hv⟩
  | sumAggregate =>
    cases hx : x.isNull with
    | true => exact ⟨v, hnull _ hx h, by simp [updateAggregate, hx]⟩
    | false =>
      obtain ⟨u, hu, hv⟩ := combine_given_append (fun _ _ _ _ _ => isNull_add) hx h
      refine ⟨u, hu, ?_⟩
      rcases hv with ⟨hnone, rfl⟩ | ⟨hsome, hv⟩
      · simp [updateAggregate, hx, hnone]
      · simpa [updateAggregate, hx, hsome] using hv
  | minAggregate =>
    cases hx : x.isNull with
    | true => exact ⟨v, hnull _ hx h, by simp [updateAggregate, replaces, hx]⟩
    | false =>
      obtain ⟨u, hu, hv⟩ := combine_given_append (fun _ _ _ => isNull_chooseBy) hx h
      exact ⟨u, hu, hchoose _ u hx hv⟩
  | maxAggregate =>
    cases hx : x.isNull with
    | true => exact ⟨v, hnull _ hx h, by simp [updateAggregate, replaces, hx]⟩
    | false =>
      obtain ⟨u, hu, hv⟩ := combine_given_append (fun _ _ _ => isNull_chooseBy) hx h
      exact ⟨u, hu, hchoose _ u hx hv⟩

/-- The update of all aggregates by one more row. -/
lemma updateAggregates_totals (hlen : aggTypes.length = values.length)
    (h : totalsOf aggTypes (inputs ++ [values]) = pure totals) :
    ∃ before, totalsOf aggTypes inputs = pure before ∧
      updateAggregates aggTypes before values = pure totals := by
  induction aggTypes generalizing inputs values totals with
  | nil =>
    cases h
    exact ⟨[], rfl, rfl⟩
  | cons aggType aggTypes ih =>
    obtain ⟨x, values, rfl⟩ := List.exists_cons_of_length_eq_add_one hlen.symm
    obtain ⟨v, hv, h⟩ := Cpp.bind_eq_pure.1 h
    obtain ⟨rest, hrest, h⟩ := Cpp.bind_eq_pure.1 h
    cases h
    rw [column_append] at hv
    rw [List.map_append] at hrest
    have hupdate : ∃ u, aggType.total (column 0 inputs) = pure u ∧
        updateAggregate u x aggType = pure v := updateAggregate_total hv
    obtain ⟨u, hu, hupdate⟩ := hupdate
    obtain ⟨before, hbefore, hupdates⟩ := ih (Nat.succ.inj hlen) hrest
    refine ⟨u :: before, ?_, ?_⟩
    · rw [totalsOf, hu, pure_bind, hbefore]
      rfl
    · rw [updateAggregates, hupdate, pure_bind, hupdates]
      rfl

/-- The aggregates of no rows. -/
lemma totalsOf_nil (aggTypes : List AggregationType) :
    totalsOf aggTypes [] = pure (initialAggregates aggTypes) := by
  induction aggTypes with
  | nil => rfl
  | cons aggType aggTypes ih =>
    have hhead : aggType.total (column 0 []) = pure ((initialAggregates [aggType]).headD default) := by
      cases aggType <;> rfl
    rw [totalsOf, hhead, pure_bind, List.map_nil, ih]
    rfl

end Totals

end OneBase
