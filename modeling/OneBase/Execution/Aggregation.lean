import OneBase.Execution.Grouping

set_option relaxedAutoImplicit false
set_option autoImplicit false

/-!
# The aggregation executor

`AggregationExecutor` keeps one state for each key of a group. On integers the key determines the
values of the group, so that the states are the aggregates of the groups. Without rows and without
group-by expressions it builds a row of default values, which it can only emit if none of them is
null.

## Main definitions

* `OneBase.IntegerRows` — the values of the expressions on the rows of the child.
* `OneBase.Tabulates` — the hash table of these groups.

## Main results

* `OneBase.aggregationExecutor_groups` — the emitted rows are the groups with their aggregates.
* `OneBase.emptyAggregation_iff` — when there is a row of default values for an empty input.
-/

namespace OneBase

open Exec Terminated

/-- The values of the group-by expressions and of the inputs of the aggregates on the rows. -/
structure IntegerRows (schema : Schema) (groupBys aggregates : List Expression)
    (aggTypes : List AggregationType) (rows : List Row) (groups inputs : Row → List Value) :
    Prop where
  evaluate_groups : ∀ row ∈ rows,
    (groupBys.mapM fun expr => expr.evaluate row.1 schema) = pure (groups row)
  evaluate_inputs : ∀ row ∈ rows,
    (aggregates.mapM fun expr => expr.evaluate row.1 schema) = pure (inputs row)
  isInteger : ∀ row ∈ rows, ∀ v ∈ groups row ++ inputs row, v.IsInteger
  length_eq : aggTypes.length = aggregates.length

/-- The entry of a group in the hash table. -/
def groupEntry (aggTypes : List AggregationType) (groups inputs : Row → List Value)
    (rows : List Row) (g : List Value) : List UInt8 × AggState :=
  (groupKey g,
    { groupBys := g, aggregates := aggregatesOf aggTypes (groupInputs groups inputs rows g) })

/-- The hash table has one entry for each group of the rows. -/
def Tabulates (aggTypes : List AggregationType) (groups inputs : Row → List Value)
    (rows : List Row) (aht : List (List UInt8 × AggState)) : Prop :=
  ∃ gs : List (List Value), gs.Nodup ∧ (∀ g, g ∈ gs ↔ g ∈ rows.map groups) ∧
    aht = gs.map (groupEntry aggTypes groups inputs rows)

/-! ## Keys of integers -/

section Keys

variable {u v : Value} {us vs : List Value}

/-- Integers and nulls of the type `INTEGER` are told apart by their texts. -/
lemma Value.IsInteger.toBytes_inj (hu : u.IsInteger) (hv : v.IsInteger)
    (h : u.toBytes = v.toBytes) : u = v := by
  have hnull : ∀ i : ℤ, asciiBytes "NULL" ≠ Decimal.intBytes i := by
    intro i hi
    have hlast : (76 : UInt8) ∈ Decimal.intBytes i := by
      rw [← hi]
      decide
    unfold Decimal.intBytes at hlast
    split at hlast
    · rcases List.mem_cons.1 hlast with hlast | hlast
      · exact absurd hlast (by decide)
      · exact absurd (Decimal.mem_natBytes hlast).2 (by decide)
    · exact absurd (Decimal.mem_natBytes hlast).2 (by decide)
  rcases hu with rfl | ⟨i, rfl⟩
  · rcases hv with rfl | ⟨j, rfl⟩
    · rfl
    · exact absurd h (hnull j.toInt)
  · rcases hv with rfl | ⟨j, rfl⟩
    · exact absurd h.symm (hnull i.toInt)
    · rw [BitVec.toInt_inj.1 (Decimal.intBytes_inj h)]

/-- There is no number sign in the text of an integer. -/
lemma Value.IsInteger.mark_notMem (hv : v.IsInteger) : 35 ∉ v.toBytes := by
  rcases hv with rfl | ⟨i, rfl⟩
  · exact mark_notMem_toBytes (.inr rfl)
  · exact mark_notMem_toBytes (.inr rfl)

/-- The key of a vector of integers determines it. -/
lemma groupKey_inj_integers (hlen : us.length = vs.length) (hu : ∀ u ∈ us, u.IsInteger)
    (hv : ∀ v ∈ vs, v.IsInteger) (h : groupKey us = groupKey vs) : us = vs := by
  have htexts : ∀ ws : List Value, (∀ w ∈ ws, w.IsInteger) →
      ∀ text ∈ ws.map Value.toBytes, 35 ∉ text := by
    intro ws hws text htext
    obtain ⟨w, hw, rfl⟩ := List.mem_map.1 htext
    exact (hws w hw).mark_notMem
  rw [groupKey_eq_iff hlen] at h
  have hmap := join_inj (by rw [List.length_map, List.length_map, hlen]) (htexts us hu)
    (htexts vs hv) h
  clear h htexts
  induction us generalizing vs with
  | nil => exact (List.eq_nil_of_length_eq_zero hlen.symm).symm
  | cons u us ih =>
    obtain ⟨v, vs, rfl⟩ := List.exists_cons_of_length_eq_add_one hlen.symm
    obtain ⟨hhead, htail⟩ := List.cons.inj hmap
    rw [(hu u List.mem_cons_self).toBytes_inj (hv v List.mem_cons_self) hhead,
      ih (Nat.succ.inj hlen) (fun w hw => hu w (List.mem_cons_of_mem _ hw))
        (fun w hw => hv w (List.mem_cons_of_mem _ hw)) htail]

end Keys

/-! ## The loop -/

section Table

variable {schema : Schema} {groupBys aggregates : List Expression}
  {aggTypes : List AggregationType} {rows : List Row} {groups inputs : Row → List Value} {row : Row}

/-- The length of the vectors of the group-by values. -/
lemma IntegerRows.length_groups
    (hrows : IntegerRows schema groupBys aggregates aggTypes rows groups inputs) (hrow : row ∈ rows) :
    (groups row).length = groupBys.length :=
  (Cpp.mapM_eq_pure.1 (hrows.evaluate_groups row hrow)).length_eq.symm

/-- Groups with the same key are the same. -/
lemma IntegerRows.group_inj
    (hrows : IntegerRows schema groupBys aggregates aggTypes rows groups inputs) {row' : Row}
    (hrow : row ∈ rows) (hrow' : row' ∈ rows) (h : groupKey (groups row) = groupKey (groups row')) :
    groups row = groups row' := by
  refine groupKey_inj_integers ?_ (fun v hv => ?_) (fun v hv => ?_) h
  · rw [hrows.length_groups hrow, hrows.length_groups hrow']
  · exact hrows.isInteger row hrow v (List.mem_append_left _ hv)
  · exact hrows.isInteger row' hrow' v (List.mem_append_left _ hv)

/-- The keys tell these groups apart. -/
lemma IntegerRows.groupRows
    (hrows : IntegerRows schema groupBys aggregates aggTypes rows groups inputs) :
    GroupRows schema groupBys aggregates rows groups inputs where
  evaluate_groups := hrows.evaluate_groups
  evaluate_inputs := hrows.evaluate_inputs
  key_inj := fun _ hrow _ hrow' => hrows.group_inj hrow hrow'

/-- The loop over the rows of the child. -/
lemma IntegerRows.foldlM_aggregateRow
    (hrows : IntegerRows schema groupBys aggregates aggTypes rows groups inputs)
    (hrange : ∀ row ∈ rows, ∀ (i : ℕ) (aggType : AggregationType), aggTypes[i]? = some aggType →
      aggType.InRange (column i (groupInputs groups inputs rows (groups row)))) :
    ∃ aht, rows.foldlM (aggregateRow groupBys aggregates aggTypes schema) [] = pure aht ∧
      Tabulates aggTypes groups inputs rows aht := by
  refine hrows.groupRows.foldlM_aggregateRow (initialAggregates_eq aggTypes).symm
    (List.nil_append rows).symm (fun row hrow before after hsplit => ?_)
    ⟨[], List.nodup_nil, by simp, rfl⟩
  have hlen : aggTypes.length = (inputs row).length := by
    rw [hrows.length_eq, (Cpp.mapM_eq_pure.1 (hrows.evaluate_inputs row hrow)).length_eq]
  refine updateAggregates_of hlen
    (fun v hv => hrows.isInteger row hrow v (List.mem_append_right _ hv)) ?_
  intro i aggType hget
  have hall := hrange row hrow i aggType hget
  rw [hsplit, List.append_cons, column_append] at hall
  exact hall.of_append

end Table

/-! ## The executor -/

section Executor

variable {std : StandardLibrary} {fuel : ℕ} {ctx ctx' : ExecutorContext} {child : Executor}
  {outputSchema : Schema} {groupBys aggregates : List Expression}
  {aggTypes : List AggregationType} {rows : List Row} {aht : List (List UInt8 × AggState)}
  {tuples : List Tuple} {groups inputs : Row → List Value}

/-- The hash table from which the rows are built: for an empty input of a global aggregation, it
has an entry with the default values. -/
def finishedTable (groupBys : List Expression) (aggTypes : List AggregationType)
    (aht : List (List UInt8 × AggState)) : List (List UInt8 × AggState) :=
  if aht = [] ∧ groupBys = [] then
    [(asciiBytes "SINGLE_GROUP", { aggregates := initialAggregates aggTypes })]
  else aht

/-- What `Init` of an aggregation leaves, whose child has these rows. -/
lemma Executor.Yields.returns_aggregationInit (h : child.Yields ctx rows)
    (st : Materialized child.State) {st' : Materialized child.State} :
    Returns ((aggregationExecutor std fuel outputSchema child groupBys aggregates aggTypes).init st)
        ctx st' ctx' →
      st'.cursor = 0 ∧ ∃ aht,
        rows.foldlM (aggregateRow groupBys aggregates aggTypes child.outputSchema) [] = pure aht ∧
        (std.buckets (finishedTable groupBys aggTypes aht)).mapM (fun entry =>
          Tuple.ofValues (entry.2.groupBys ++ entry.2.aggregates)) = pure st'.resultTuples := by
  intro hret
  obtain ⟨s, s', hinit, hemits⟩ := h st.children
  obtain ⟨s₁, c₁, hinit₁, hret₁⟩ := returns_bind.1 hret
  obtain ⟨rfl, rfl⟩ := hinit₁.unique hinit
  obtain ⟨⟨s₂, aht⟩, c₂, hloop, hret₂⟩ := returns_bind.1 hret₁
  obtain ⟨-, -, -, hfold⟩ := (forEachRow_ofCpp hemits).1 hloop
  obtain ⟨l, c₃, hmapM, hret₃⟩ := returns_bind.1 hret₂
  obtain ⟨hl, rfl⟩ := returns_ofCpp.1 hmapM
  obtain ⟨rfl, rfl⟩ := returns_pure.1 hret₃
  exact ⟨rfl, aht, hfold, hl⟩

/-- The rows of an aggregation. -/
lemma Executor.Yields.aggregation (h : child.Yields ctx rows) (hfuel : rows.length < fuel)
    (hfold : rows.foldlM (aggregateRow groupBys aggregates aggTypes child.outputSchema) [] =
      pure aht)
    (htuples : (std.buckets (finishedTable groupBys aggTypes aht)).mapM (fun entry =>
      Tuple.ofValues (entry.2.groupBys ++ entry.2.aggregates)) = pure tuples) :
    (aggregationExecutor std fuel outputSchema child groupBys aggregates aggTypes).Yields ctx
      (placeless tuples) := by
  intro st
  obtain ⟨s, s', hinit, hemits⟩ := h st.children
  obtain ⟨st', hst'⟩ := emits_nextResult ctx s' [] tuples
  refine ⟨_, st', ?_, hst'⟩
  refine returns_bind.2 ⟨s, ctx, hinit, ?_⟩
  refine returns_bind.2 ⟨(s', aht), ctx, ?_, ?_⟩
  · exact (forEachRow_ofCpp hemits).2 ⟨hfuel, rfl, rfl, hfold⟩
  · exact returns_bind.2 ⟨tuples, ctx, returns_ofCpp.2 ⟨htuples, rfl⟩, returns_pure.2 ⟨rfl, rfl⟩⟩

/-- An integer takes four bytes of a row. -/
lemma encodedSize_integer {v : Value} (hv : v.IsInteger) :
    v.getTypeId ≠ .invalid ∧ v.encodedSize < 2 ^ 32 := by
  rcases hv with rfl | ⟨i, rfl⟩
  · exact ⟨by decide, by decide⟩
  · exact ⟨by simp [Value.getTypeId, Value.ofInt, Payload.typeId],
      by simp [Value.encodedSize, Value.ofInt]⟩

/-- Entries whose values are integers become rows of these values. -/
lemma exists_tuples {entries : List (List UInt8 × AggState)}
    (h : ∀ entry ∈ entries, ∀ v ∈ entry.2.groupBys ++ entry.2.aggregates, v.IsInteger) :
    ∃ tuples, entries.mapM (fun entry =>
        Tuple.ofValues (entry.2.groupBys ++ entry.2.aggregates)) = pure tuples ∧
      tuples.map Tuple.values = entries.map fun entry => entry.2.groupBys ++ entry.2.aggregates := by
  induction entries with
  | nil => exact ⟨[], rfl, rfl⟩
  | cons entry entries ih =>
    obtain ⟨tuples, htuples, hvalues⟩ := ih fun e he => h e (List.mem_cons_of_mem _ he)
    have hrow := ofValues_eq fun v hv => encodedSize_integer (h entry List.mem_cons_self v hv)
    exact ⟨_ :: tuples, by rw [List.mapM_cons, hrow, pure_bind, htuples]; rfl, by simp [hvalues]⟩

/-- **Aggregation computes GROUP BY.** On integers whose counts and partial sums are `int32_t`s,
the rows that the executor emits are, in some order, one for each group of its input: the values
of the group, followed by the aggregates over its rows. -/
theorem aggregationExecutor_groups (hchild : child.Yields ctx rows) (hfuel : rows.length < fuel)
    (hne : rows ≠ [] ∨ groupBys ≠ [])
    (hrows : IntegerRows child.outputSchema groupBys aggregates aggTypes rows groups inputs)
    (hrange : ∀ row ∈ rows, ∀ (i : ℕ) (aggType : AggregationType), aggTypes[i]? = some aggType →
      aggType.InRange (column i (groupInputs groups inputs rows (groups row))) ∧
        aggType.HasInput (column i (groupInputs groups inputs rows (groups row)))) :
    ∃ tuples : List Tuple,
      (aggregationExecutor std fuel outputSchema child groupBys aggregates aggTypes).Yields ctx
        (placeless tuples) ∧
      (tuples.map Tuple.values).Perm ((rows.map groups).dedup.map fun g =>
        g ++ aggregatesOf aggTypes (groupInputs groups inputs rows g)) := by
  obtain ⟨aht, hfold, gs, hnodup, hmem, rfl⟩ := hrows.foldlM_aggregateRow
    fun row hrow i aggType hget => (hrange row hrow i aggType hget).1
  have hfinished : finishedTable groupBys aggTypes
      (gs.map (groupEntry aggTypes groups inputs rows)) =
        gs.map (groupEntry aggTypes groups inputs rows) := by
    refine if_neg ?_
    rintro ⟨hempty, hglobal⟩
    obtain rfl := List.map_eq_nil_iff.1 hempty
    obtain ⟨row, hrow⟩ := List.exists_mem_of_ne_nil _ (hne.resolve_right fun h => h hglobal)
    exact absurd ((hmem (groups row)).2 (List.mem_map_of_mem hrow)) (by simp)
  have hperm := std.buckets_perm (gs.map (groupEntry aggTypes groups inputs rows))
  have hintegers : ∀ entry ∈ std.buckets (gs.map (groupEntry aggTypes groups inputs rows)),
      ∀ v ∈ entry.2.groupBys ++ entry.2.aggregates, v.IsInteger := by
    intro entry hentry v hv
    obtain ⟨g, hg, rfl⟩ := List.mem_map.1 (hperm.subset hentry)
    obtain ⟨row, hrow, rfl⟩ := List.mem_map.1 ((hmem g).1 hg)
    rcases List.mem_append.1 hv with hv | hv
    · exact hrows.isInteger row hrow v (List.mem_append_left _ hv)
    · obtain ⟨i, rfl⟩ := integer_of_mem_aggregatesOf
        (fun i aggType hget => (hrange row hrow i aggType hget).2) hv
      exact .inr ⟨_, rfl⟩
  obtain ⟨tuples, htuples, hvalues⟩ := exists_tuples hintegers
  refine ⟨tuples, hchild.aggregation hfuel hfold (by rw [hfinished]; exact htuples), ?_⟩
  rw [hvalues]
  refine (hperm.map _).trans ?_
  rw [List.map_map]
  refine List.Perm.map _ ((List.perm_ext_iff_of_nodup hnodup (List.nodup_dedup _)).2 fun g => ?_)
  rw [hmem, List.mem_dedup]

/-- Grouping `1, 2, 1` by the value, with `COUNT(*)` and `SUM`. -/
theorem aggregationExecutor_groups_sample :
    ∃ tuples : List Tuple,
      (aggregationExecutor default 4 (Schema.new [])
        (rowsExecutor (Schema.new []) [intRow 1, intRow 2, intRow 1])
        [.columnValue 0 0 .integer] [.constantValue (Value.ofInt 1), .columnValue 0 0 .integer]
        [.countStarAggregate, .sumAggregate]).Yields {} (placeless tuples) ∧
      (tuples.map Tuple.values).Perm
        [[Value.ofInt 2, Value.ofInt 1, Value.ofInt 2], [Value.ofInt 1, Value.ofInt 2, Value.ofInt 2]]
    := by
  have hrows : IntegerRows (Schema.new []) [.columnValue 0 0 .integer]
      [.constantValue (Value.ofInt 1), .columnValue 0 0 .integer]
      [.countStarAggregate, .sumAggregate] (placeless [intRow 1, intRow 2, intRow 1])
      (fun row => row.1.values) (fun row => Value.ofInt 1 :: row.1.values) := by
    have hcase : ∀ row ∈ placeless [intRow 1, intRow 2, intRow 1],
        ∃ i, row = (intRow i, default) := by
      intro row hrow
      obtain ⟨tuple, htuple, rfl⟩ := List.mem_map.1 hrow
      have htuple : tuple = intRow 1 ∨ tuple = intRow 2 ∨ tuple = intRow 1 := by simpa using htuple
      rcases htuple with rfl | rfl | rfl
      · exact ⟨1, rfl⟩
      · exact ⟨2, rfl⟩
      · exact ⟨1, rfl⟩
    refine ⟨fun row hrow => ?_, fun row hrow => ?_, fun row hrow => ?_, rfl⟩
    · obtain ⟨i, rfl⟩ := hcase row hrow
      rfl
    · obtain ⟨i, rfl⟩ := hcase row hrow
      rfl
    · obtain ⟨i, rfl⟩ := hcase row hrow
      intro v hv
      have hv : v = Value.ofInt i ∨ v = Value.ofInt 1 ∨ v = Value.ofInt i := by simpa [intRow] using hv
      rcases hv with rfl | rfl | rfl
      · exact .inr ⟨i, rfl⟩
      · exact .inr ⟨1, rfl⟩
      · exact .inr ⟨i, rfl⟩
  obtain ⟨tuples, hyields, hperm⟩ :=
    @aggregationExecutor_groups default 4 {}
      (rowsExecutor (Schema.new []) [intRow 1, intRow 2, intRow 1])
      (Schema.new []) [.columnValue 0 0 .integer]
      [.constantValue (Value.ofInt 1), .columnValue 0 0 .integer]
      [.countStarAggregate, .sumAggregate] (placeless [intRow 1, intRow 2, intRow 1])
      (fun row => row.1.values) (fun row => Value.ofInt 1 :: row.1.values)
      (yields_rowsExecutor _ _ _) (by decide) (.inl (by decide)) hrows (by
        have hshort : ∀ n, ∀ l : List ℤ, (l = [1, 1] ∨ l = [2]) → IsInt32 (l.take n).sum := by
          rintro (_ | _ | n) l (rfl | rfl) <;> simp [IsInt32]
        intro row hrow i aggType hget
        obtain ⟨tuple, htuple, rfl⟩ := List.mem_map.1 hrow
        have htuple : tuple = intRow 1 ∨ tuple = intRow 2 := by
          rcases List.mem_cons.1 htuple with h | h
          · exact .inl h
          · rcases List.mem_cons.1 h with h | h
            · exact .inr h
            · exact .inl (List.mem_singleton.1 h)
        rcases i with _ | _ | i
        · obtain rfl : AggregationType.countStarAggregate = aggType := Option.some.inj hget
          rcases htuple with rfl | rfl <;> exact ⟨⟨by decide, by decide⟩, trivial⟩
        · obtain rfl : AggregationType.sumAggregate = aggType := Option.some.inj hget
          rcases htuple with rfl | rfl
          · exact ⟨fun n => hshort n _ (.inl rfl), List.cons_ne_nil 1 [1]⟩
          · exact ⟨fun n => hshort n _ (.inr rfl), List.cons_ne_nil 2 []⟩
        · cases hget)
  exact ⟨tuples, hyields, hperm⟩

/-! ## The empty input -/

/-- The default value of an aggregate without rows: zero for a count, null for the others. -/
def IsDefault (aggType : AggregationType) (v : Value) : Prop :=
  match aggType with
  | .countStarAggregate => v = Value.ofInt 0
  | .countAggregate => v = Value.ofInt 0
  | _ => v.isNull = true

/-- The executor emits one row, with the default values of the aggregates. -/
def EmitsDefaults (ex : Executor) (ctx : ExecutorContext) (aggTypes : List AggregationType) : Prop :=
  ∃ tuple : Tuple, ex.Yields ctx (placeless [tuple]) ∧ List.Forall₂ IsDefault aggTypes tuple.values

/-- The aggregate is a count. -/
def AggregationType.IsCount (aggType : AggregationType) : Prop :=
  aggType = .countStarAggregate ∨ aggType = .countAggregate

/-- **A global aggregation of an empty input** emits a row of default values iff all its
aggregates are counts: the null values of `SUM`, `MIN` and `MAX` have no type and cannot be
serialized. -/
theorem emptyAggregation_iff (hchild : child.Yields ctx []) (hfuel : 0 < fuel) :
    EmitsDefaults (aggregationExecutor std fuel outputSchema child [] aggregates aggTypes) ctx
      aggTypes ↔ ∀ aggType ∈ aggTypes, aggType.IsCount := by
  have hbuckets : std.buckets (finishedTable [] aggTypes []) =
      [(asciiBytes "SINGLE_GROUP", { aggregates := initialAggregates aggTypes })] :=
    List.perm_singleton.1 (std.buckets_perm _)
  constructor
  · rintro ⟨tuple, hyields, -⟩ aggType hmem
    obtain ⟨st, -, hinit, -⟩ := hyields { children := child.fresh }
    obtain ⟨-, aht, hfold, htuples⟩ := hchild.returns_aggregationInit _ hinit
    obtain rfl : [] = aht := Except.ok.inj (Option.some.inj hfold)
    rw [hbuckets] at htuples
    obtain ⟨row, -, hrow, -, -⟩ := List.forall₂_cons_left_iff.1 (Cpp.mapM_eq_pure.1 htuples)
    by_contra hcount
    refine ofValues_invalid (v := default) ?_ rfl row hrow
    show default ∈ [] ++ initialAggregates aggTypes
    refine List.mem_map.2 ⟨aggType, hmem, ?_⟩
    cases aggType with
    | countStarAggregate => exact absurd (.inl rfl) hcount
    | countAggregate => exact absurd (.inr rfl) hcount
    | sumAggregate => rfl
    | minAggregate => rfl
    | maxAggregate => rfl
  · intro hcounts
    have hzero : ∀ v ∈ initialAggregates aggTypes, v = Value.ofInt 0 := by
      intro v hv
      obtain ⟨aggType, hmem, rfl⟩ := List.mem_map.1 hv
      rcases hcounts aggType hmem with rfl | rfl <;> rfl
    have hrow := ofValues_eq fun v hv => encodedSize_integer (.inr ⟨0, hzero v hv⟩)
    refine ⟨_, hchild.aggregation hfuel rfl
      (by rw [hbuckets, List.mapM_cons, List.nil_append, hrow]; rfl),
      ?_⟩
    rw [initialAggregates, List.forall₂_map_right_iff, List.forall₂_same]
    intro aggType hmem
    rcases hcounts aggType hmem with rfl | rfl <;> rfl

/-- `COUNT(*)` and `COUNT` of no rows. -/
theorem emptyAggregation_counts :
    EmitsDefaults (aggregationExecutor default 1 (Schema.new [])
      (rowsExecutor (Schema.new []) []) [] [.null, .columnValue 0 0 .integer]
      [.countStarAggregate, .countAggregate]) {} [.countStarAggregate, .countAggregate] := by
  refine (emptyAggregation_iff (yields_rowsExecutor _ [] _) Nat.one_pos).2 fun aggType hmem => ?_
  rcases List.mem_cons.1 hmem with rfl | hmem
  · exact .inl rfl
  · exact .inr (List.mem_singleton.1 hmem)

/-- `SUM` of no rows: `Init` throws. -/
theorem not_emitsDefaults_sum :
    ¬ EmitsDefaults (aggregationExecutor default 1 (Schema.new [])
      (rowsExecutor (Schema.new []) []) [] [.columnValue 0 0 .integer] [.sumAggregate]) {}
      [.sumAggregate] := by
  rintro ⟨tuple, hyields, -⟩
  obtain ⟨st, -, hinit, -⟩ := hyields { children := { children := () } }
  have hthrown := congrArg (Option.map Prod.fst) hinit
  cases hthrown

end Executor

end OneBase
