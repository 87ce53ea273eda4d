import OneBase.Execution.Aggregation
import OneBase.Execution.ExecutorFactory
import OneBase.Execution.Sorting

set_option relaxedAutoImplicit false
set_option autoImplicit false

/-!
# The outcome of a plan

A plan that only reads has an outcome: the rows that it returns, or none, if its `Init` does not
return. The outcome of an operator is a function of that of its child.

## Main definitions

* `OneBase.HasOutcome` — the outcome of a plan.
* `OneBase.aggregateTuples` — the rows of an aggregation.
* `OneBase.sortedBy` — the rows of a sort, if there is one.
* `OneBase.MaySort` — the orders in which it may leave them.

## Main results

* `OneBase.HasOutcome.completes_iff` — what the engine returns.
* `OneBase.HasOutcome.sort`, `HasOutcome.limit`, `HasOutcome.aggregation`,
  `HasOutcome.completes_projection_iff` — the operators.
* `OneBase.exists_sortedBy`, `OneBase.sortedBy_arranging`, `OneBase.forall_sortedBy_iff` — what a
  sort may leave of given rows.
-/

namespace OneBase

open Exec

/-- With enough fuel, the plan yields these rows and leaves the context alone; without an outcome,
its `Init` does not return. -/
def HasOutcome (std : StandardLibrary) (plan : PlanNode) (ctx : ExecutorContext) :
    Option (List Tuple) → Prop
  | some tuples => ∃ rows : List Row, rows.map Prod.fst = tuples ∧
      ∃ fuel₀, ∀ fuel ≥ fuel₀, (createExecutor std fuel plan).Yields ctx rows
  | none => ∃ fuel₀, ∀ fuel ≥ fuel₀, ∀ st st' ctx',
      ¬ Returns ((createExecutor std fuel plan).init st) ctx st' ctx'

/-- The rows of an aggregation of these rows. -/
def aggregateTuples (std : StandardLibrary) (groupBys aggregates : List Expression)
    (aggTypes : List AggregationType) (schema : Schema) (tuples : List Tuple) :
    Cpp (List Tuple) := do
  let aht ← (placeless tuples).foldlM (aggregateRow groupBys aggregates aggTypes schema) []
  (std.buckets (finishedTable groupBys aggTypes aht)).mapM fun entry =>
    Tuple.ofValues (entry.2.groupBys ++ entry.2.aggregates)

/-- These rows, sorted by the keys, if there are keys. -/
def sortedBy (std : StandardLibrary) (schema : Schema) (orderBys : List (Bool × Expression))
    (tuples : List Tuple) : Cpp (List Tuple) :=
  if orderBys.isEmpty then pure tuples else std.sort (compareRows schema orderBys) tuples

/-- The rows in an order in which a sort by the keys may leave them. -/
structure MaySort (schema : Schema) (orderBys : List (Bool × Expression))
    (tuples sorted : List Tuple) : Prop where
  perm : sorted.Perm tuples
  nokeys : orderBys.isEmpty = true → sorted = tuples
  sorted : sorted.Pairwise fun s t => compareRows schema orderBys t s = pure false

section Outcomes

variable {std : StandardLibrary} {plan child : PlanNode} {ctx ctx' : ExecutorContext}
  {outcome : Option (List Tuple)} {result : List Tuple} {outputSchema : Schema}
  {orderBys : List (Bool × Expression)} {groupBys aggregates expressions : List Expression}
  {aggTypes : List AggregationType} {rows : List Row}

/-- The engine returns the outcome. -/
lemma HasOutcome.completes_iff (h : HasOutcome std plan ctx outcome) :
    Completes std plan ctx result ctx' ↔ outcome = some result ∧ ctx' = ctx := by
  cases outcome with
  | none =>
    obtain ⟨fuel₀, hinit⟩ := h
    constructor
    · rintro ⟨fuel₁, hreturns⟩
      obtain ⟨st, c, hst, -⟩ := returns_bind.1 (hreturns (fuel₀ + fuel₁) (by omega))
      exact absurd hst (hinit _ (by omega) _ _ _)
    · rintro ⟨hnone, -⟩
      cases hnone
  | some tuples =>
    obtain ⟨rows, rfl, fuel₀, hyields⟩ := h
    constructor
    · rintro ⟨fuel₁, hreturns⟩
      obtain ⟨-, rfl, rfl⟩ := (returns_execute (hyields (fuel₀ + fuel₁) (by omega))).1
        (hreturns _ (by omega))
      exact ⟨rfl, rfl⟩
    · rintro ⟨htuples, rfl⟩
      refine ⟨fuel₀ + rows.length + 1, fun fuel hfuel => ?_⟩
      exact (returns_execute (hyields fuel (by omega))).2
        ⟨by omega, (Option.some.inj htuples).symm, rfl⟩

/-- The outcome of a class that computes its rows in `Init` from those of its child. -/
lemma HasOutcome.of_init {compute : List Tuple → Cpp (List Tuple)}
    (h : HasOutcome std child ctx outcome)
    (hchild : ∀ fuel st st' ctx', Returns ((createExecutor std fuel plan).init st) ctx st' ctx' →
      ∃ s s' c, Returns ((createExecutor std fuel child).init s) ctx s' c)
    (hreturns : ∀ fuel rows st st' ctx', (createExecutor std fuel child).Yields ctx rows →
      Returns ((createExecutor std fuel plan).init st) ctx st' ctx' →
      ∃ tuples, compute (rows.map Prod.fst) = pure tuples)
    (hyields : ∀ fuel rows tuples, (createExecutor std fuel child).Yields ctx rows →
      rows.length < fuel → compute (rows.map Prod.fst) = pure tuples →
      (createExecutor std fuel plan).Yields ctx (placeless tuples)) :
    HasOutcome std plan ctx (outcome.bind fun tuples => (compute tuples).result) := by
  cases outcome with
  | none =>
    obtain ⟨fuel₀, hinit⟩ := h
    refine ⟨fuel₀, fun fuel hfuel st st' ctx' hret => ?_⟩
    obtain ⟨s, s', c, hs⟩ := hchild fuel st st' ctx' hret
    exact hinit fuel hfuel s s' c hs
  | some tuples =>
    obtain ⟨rows, rfl, fuel₀, hrows⟩ := h
    rw [Option.bind_some]
    cases hcompute : (compute (rows.map Prod.fst)).result with
    | none =>
      refine ⟨fuel₀, fun fuel hfuel st st' ctx' hret => ?_⟩
      obtain ⟨tuples, htuples⟩ := hreturns fuel rows st st' ctx' (hrows fuel hfuel) hret
      rw [htuples] at hcompute
      cases hcompute
    | some tuples =>
      have htuples := Cpp.result_eq_some.1 hcompute
      refine ⟨placeless tuples, placeless_fst tuples, fuel₀ + rows.length + 1,
        fun fuel hfuel => ?_⟩
      exact hyields fuel rows tuples (hrows fuel (by omega)) (by omega) htuples

/-- The outcome of a sort. -/
lemma HasOutcome.sort (h : HasOutcome std child ctx outcome) :
    HasOutcome std (.sort outputSchema child orderBys) ctx (outcome.bind fun tuples =>
      (std.sort (compareRows child.getOutputSchema orderBys) tuples).result) := by
  refine h.of_init ?_ ?_ ?_
  · intro fuel st st' ctx' hret
    obtain ⟨s', c, hinit, -⟩ := returns_bind.1 hret
    exact ⟨_, s', c, hinit⟩
  · intro fuel rows st st' ctx' hchild hret
    obtain ⟨-, -, -, hsort⟩ := hchild.returns_sortInit st hret
    rw [outputSchema_createExecutor] at hsort
    exact ⟨_, hsort⟩
  · intro fuel rows tuples hchild hfuel hsort
    rw [← outputSchema_createExecutor std fuel child] at hsort
    exact hchild.sort hfuel hsort

/-- The outcome of a limit. -/
lemma HasOutcome.limit (h : HasOutcome std child ctx outcome) (limit : ℕ) :
    HasOutcome std (.limit outputSchema child limit) ctx (outcome.map (List.take limit)) := by
  cases outcome with
  | none =>
    obtain ⟨fuel₀, hinit⟩ := h
    refine ⟨fuel₀, fun fuel hfuel st st' ctx' hret => ?_⟩
    obtain ⟨s', c, hchild, -⟩ := returns_bind.1 hret
    exact hinit fuel hfuel _ _ _ hchild
  | some tuples =>
    obtain ⟨rows, rfl, fuel₀, hrows⟩ := h
    refine ⟨rows.take limit, List.map_take, fuel₀, fun fuel hfuel => ?_⟩
    exact (hrows fuel hfuel).limit limit

/-- An aggregation does not look at where its rows lie. -/
lemma foldlM_aggregateRow_placeless {schema : Schema} (aht : List (List UInt8 × AggState)) :
    (placeless (rows.map Prod.fst)).foldlM (aggregateRow groupBys aggregates aggTypes schema) aht =
      rows.foldlM (aggregateRow groupBys aggregates aggTypes schema) aht := by
  unfold placeless
  rw [List.map_map, List.foldlM_map]
  rfl

/-- The outcome of an aggregation. -/
lemma HasOutcome.aggregation (h : HasOutcome std child ctx outcome) :
    HasOutcome std (.aggregation outputSchema child groupBys aggregates aggTypes) ctx
      (outcome.bind fun tuples =>
        (aggregateTuples std groupBys aggregates aggTypes child.getOutputSchema tuples).result) := by
  refine h.of_init ?_ ?_ ?_
  · intro fuel st st' ctx' hret
    obtain ⟨s', c, hinit, -⟩ := returns_bind.1 hret
    exact ⟨_, s', c, hinit⟩
  · intro fuel rows st st' ctx' hchild hret
    obtain ⟨-, aht, hfold, htuples⟩ := hchild.returns_aggregationInit st hret
    rw [outputSchema_createExecutor] at hfold
    refine ⟨_, Cpp.bind_eq_pure.2 ⟨aht, ?_, htuples⟩⟩
    rw [foldlM_aggregateRow_placeless, hfold]
  · intro fuel rows tuples hchild hfuel hcompute
    obtain ⟨aht, hfold, htuples⟩ := Cpp.bind_eq_pure.1 hcompute
    rw [foldlM_aggregateRow_placeless, ← outputSchema_createExecutor std fuel child] at hfold
    exact hchild.aggregation hfuel hfold htuples

/-- The loop over the rows of a projection, which returns iff all of them can be made. -/
lemma exists_of_projection {fuel n : ℕ} {s s' : (createExecutor std fuel child).State}
    {acc b : List Tuple} {st : (createExecutor std fuel child).State}
    (hemits : Emits (createExecutor std fuel child).next ctx s rows s')
    (hloop : Returns (forEachRow
      (projectionExecutor outputSchema (createExecutor std fuel child) expressions).next
      (fun acc row => pure (acc ++ [row.1])) n s acc) ctx (st, b) ctx') :
    ∃ tuples, (rows.map Prod.fst).mapM (evaluateRow expressions child.getOutputSchema) =
      pure tuples := by
  induction hemits generalizing n acc with
  | done hnext => exact ⟨[], rfl⟩
  | @row s s₁ s₂ row rows hnext _ ih =>
    cases n with
    | zero => exact absurd hloop not_returns_undefined
    | succ n =>
      obtain ⟨⟨o, st₁⟩, c, hret, hrest⟩ := returns_bind.1 hloop
      obtain ⟨⟨o', st₂⟩, c', hchild, hmake⟩ := returns_bind.1 hret
      obtain ⟨heq, rfl⟩ := hchild.unique hnext
      cases heq
      obtain ⟨tuple, c'', hret', hpure⟩ := returns_bind.1 hmake
      obtain ⟨hrow, rfl⟩ := returns_ofCpp.1 hret'
      obtain ⟨heq, rfl⟩ := returns_pure.1 hpure
      cases heq
      obtain ⟨acc', c₃, hacc, hloop'⟩ := returns_bind.1 hrest
      obtain ⟨-, rfl⟩ := returns_pure.1 hacc
      obtain ⟨tuples, htuples⟩ := ih hloop'
      rw [outputSchema_createExecutor] at hrow
      exact ⟨tuple :: tuples, by rw [List.map_cons, List.mapM_cons, hrow, pure_bind, htuples]; rfl⟩

/-- The rows of a projection. -/
lemma HasOutcome.completes_projection_iff (h : HasOutcome std child ctx outcome) :
    Completes std (.projection outputSchema child expressions) ctx result ctx' ↔
      ctx' = ctx ∧ ∃ tuples, outcome = some tuples ∧
        tuples.mapM (evaluateRow expressions child.getOutputSchema) = pure result := by
  cases outcome with
  | none =>
    obtain ⟨fuel₀, hinit⟩ := h
    constructor
    · rintro ⟨fuel₁, hreturns⟩
      obtain ⟨st, c, hst, -⟩ := returns_bind.1 (hreturns (fuel₀ + fuel₁) (by omega))
      exact absurd hst (hinit _ (by omega) _ _ _)
    · rintro ⟨-, tuples, hnone, -⟩
      cases hnone
  | some tuples =>
    obtain ⟨rows, rfl, fuel₀, hrows⟩ := h
    have hyields : ∀ tuples : List Tuple,
        (rows.map Prod.fst).mapM (evaluateRow expressions child.getOutputSchema) = pure tuples →
        ∃ out : List Row, out.map Prod.fst = tuples ∧ ∀ fuel ≥ fuel₀,
          (createExecutor std fuel (.projection outputSchema child expressions)).Yields ctx out := by
      intro tuples htuples
      have hforall := Cpp.mapM_eq_pure.1 htuples
      rw [List.forall₂_map_left_iff] at hforall
      refine ⟨tuples.zip (rows.map Prod.snd), ?_, fun fuel hfuel => ?_⟩
      · exact List.map_fst_zip (by rw [List.length_map, hforall.length_eq])
      · refine (hrows fuel hfuel).projection ?_
        rw [outputSchema_createExecutor]
        clear hrows htuples
        induction hforall with
        | nil => exact .nil
        | cons hrow _ ih => exact .cons ⟨hrow, rfl⟩ ih
    constructor
    · rintro ⟨fuel₁, hreturns⟩
      have hret := hreturns (fuel₀ + fuel₁) (by omega)
      obtain ⟨st, c, hinit, hrest⟩ := returns_bind.1 hret
      obtain ⟨⟨s, b⟩, c', hloop, -⟩ := returns_bind.1 hrest
      obtain ⟨s₁, s₂, hinit', hemits⟩ := hrows (fuel₀ + fuel₁) (by omega) _
      obtain ⟨rfl, rfl⟩ := hinit.unique hinit'
      obtain ⟨tuples, htuples⟩ := exists_of_projection hemits hloop
      obtain ⟨out, rfl, hout⟩ := hyields tuples htuples
      obtain ⟨-, rfl, rfl⟩ := (returns_execute (hout (fuel₀ + fuel₁) (by omega))).1 hret
      exact ⟨rfl, _, rfl, htuples⟩
    · rintro ⟨rfl, _, hsome, htuples⟩
      cases hsome
      obtain ⟨out, rfl, hout⟩ := hyields _ htuples
      refine ⟨fuel₀ + out.length + 1, fun fuel hfuel => ?_⟩
      exact (returns_execute (hout fuel (by omega))).2 ⟨by omega, rfl, rfl⟩

end Outcomes

/-! ## Sorted rows -/

section Sorted

variable {α : Type} {std : StandardLibrary} {schema : Schema} {orderBys : List (Bool × Expression)}
  {l l' : List α} {f : α → Tuple} {before : α → α → Cpp Bool} {order : List ℕ}
  {tuples : List Tuple}

/-- Without keys nothing comes before anything else. -/
lemma before_of_isEmpty
    (hcompare : ∀ a ∈ l, ∀ b ∈ l, compareRows schema orderBys (f a) (f b) = before a b)
    (hempty : orderBys.isEmpty = true) : ∀ a ∈ l, ∀ b ∈ l, before a b = pure false := by
  intro a ha b hb
  rw [← hcompare a ha b hb, List.isEmpty_iff.1 hempty]
  rfl

/-- By a strict weak order the rows are sorted. -/
lemma exists_sortedBy (std : StandardLibrary)
    (hcompare : ∀ a ∈ l, ∀ b ∈ l, compareRows schema orderBys (f a) (f b) = before a b)
    (hweak : StrictWeakOrderOn l before) :
    ∃ l' : List α, l'.Perm l ∧ (orderBys.isEmpty = true → l' = l) ∧
      l'.Pairwise (fun a b => before b a = pure false) ∧
      sortedBy std schema orderBys (l.map f) = pure (l'.map f) := by
  unfold sortedBy
  cases hempty : orderBys.isEmpty with
  | true =>
    refine ⟨l, .refl l, fun _ => rfl, ?_, if_pos rfl⟩
    exact List.pairwise_of_forall_mem_list fun a ha b hb =>
      before_of_isEmpty hcompare hempty b hb a ha
  | false =>
    obtain ⟨tuples, hsort, hperm, hsorted⟩ :=
      std.sort_spec _ _ ((strictWeakOrderOn_map_iff hcompare).2 hweak)
    obtain ⟨l', hl', rfl⟩ := exists_map_of_perm hperm
    refine ⟨l', hl', nofun, ?_, by rw [if_neg Bool.false_ne_true, hsort]⟩
    rw [List.pairwise_map] at hsorted
    refine hsorted.imp_of_mem fun {a b} ha hb hab => ?_
    rwa [hcompare b (hl'.subset hb) a (hl'.subset ha)] at hab

/-- If every sort returns, the comparison is a strict weak order. -/
lemma sortedBy_arranging
    (hcompare : ∀ a ∈ l, ∀ b ∈ l, compareRows schema orderBys (f a) (f b) = before a b)
    (h : sortedBy (arrangingLibrary order) schema orderBys (l.map f) = pure tuples) :
    StrictWeakOrderOn l before ∧ ∃ l' : List α, l'.Perm l ∧ tuples = l'.map f := by
  cases hempty : orderBys.isEmpty with
  | true =>
    have hfalse := before_of_isEmpty hcompare hempty
    rw [sortedBy, if_pos hempty] at h
    cases h
    exact ⟨strictWeakOrderOn_of_false hfalse, l, .refl l, rfl⟩
  | false =>
    have hsort : (arrangingLibrary order).sort (compareRows schema orderBys) (l.map f) =
        pure tuples := by
      rwa [sortedBy, hempty, if_neg Bool.false_ne_true] at h
    have hweak := strictWeakOrderOn_of_sort hsort
    obtain ⟨tuples', hsort', hperm, -⟩ := (arrangingLibrary order).sort_spec _ _ hweak
    rw [hsort] at hsort'
    cases hsort'
    exact ⟨(strictWeakOrderOn_map_iff hcompare).1 hweak, exists_map_of_perm hperm⟩

/-- Some sort leaves a given sorted order. -/
lemma exists_sortedBy_eq (hne : orderBys.isEmpty = false)
    (hcompare : ∀ a ∈ l, ∀ b ∈ l, compareRows schema orderBys (f a) (f b) = before a b)
    (hweak : StrictWeakOrderOn l before) (hperm : l'.Perm l)
    (hsorted : l'.Pairwise fun a b => before b a = pure false) :
    ∃ order, sortedBy (arrangingLibrary order) schema orderBys (l.map f) = pure (l'.map f) := by
  have hmap : (l'.map f).Pairwise fun a b => compareRows schema orderBys b a = pure false := by
    rw [List.pairwise_map]
    refine hsorted.imp_of_mem fun {a b} ha hb hab => ?_
    rwa [hcompare b (hperm.subset hb) a (hperm.subset ha)]
  obtain ⟨order, horder⟩ := exists_sort_eq ((strictWeakOrderOn_map_iff hcompare).2 hweak)
    (hperm.map f) hmap
  exact ⟨order, by rw [sortedBy, hne, if_neg Bool.false_ne_true, horder]⟩

/-- Some library leaves a given sorted order, and without keys all of them leave the rows alone. -/
lemma exists_arranging {sorted : List Tuple}
    (hweak : StrictWeakOrderOn tuples (compareRows schema orderBys))
    (hsorted : MaySort schema orderBys tuples sorted) :
    ∃ order, sortedBy (arrangingLibrary order) schema orderBys tuples = pure sorted := by
  cases hempty : orderBys.isEmpty with
  | true =>
    rw [hsorted.nokeys hempty]
    exact ⟨[], if_pos hempty⟩
  | false =>
    have hcompare : ∀ a ∈ tuples, ∀ b ∈ tuples, compareRows schema orderBys (id a) (id b) =
        compareRows schema orderBys a b := fun _ _ _ _ => rfl
    obtain ⟨order, horder⟩ := exists_sortedBy_eq hempty hcompare hweak hsorted.perm hsorted.sorted
    rw [List.map_id, List.map_id] at horder
    exact ⟨order, horder⟩

/-- What holds of the rows that a sort leaves, whatever the standard library does. -/
lemma forall_sortedBy_iff {P : List Tuple → Prop} :
    (∀ std, ∃ sorted, sortedBy std schema orderBys tuples = pure sorted ∧ P sorted) ↔
      StrictWeakOrderOn tuples (compareRows schema orderBys) ∧
        ∀ sorted, MaySort schema orderBys tuples sorted → P sorted := by
  have hcompare : ∀ a ∈ tuples, ∀ b ∈ tuples, compareRows schema orderBys (id a) (id b) =
      compareRows schema orderBys a b := fun _ _ _ _ => rfl
  constructor
  · intro h
    obtain ⟨first, hfirst, -⟩ := h (arrangingLibrary [])
    have hweak := (sortedBy_arranging hcompare (by rw [List.map_id]; exact hfirst)).1
    refine ⟨hweak, fun sorted hsorted => ?_⟩
    obtain ⟨order, horder⟩ := exists_arranging hweak hsorted
    obtain ⟨sorted', hsorted', hP⟩ := h (arrangingLibrary order)
    obtain rfl := Except.ok.inj (Option.some.inj (horder.symm.trans hsorted'))
    exact hP
  · rintro ⟨hweak, hall⟩ std
    obtain ⟨sorted, hperm, hnokeys, hsorted, hsort⟩ := exists_sortedBy std hcompare hweak
    rw [List.map_id, List.map_id] at hsort
    exact ⟨sorted, hsort, hall sorted ⟨hperm, hnokeys, hsorted⟩⟩

end Sorted

end OneBase
