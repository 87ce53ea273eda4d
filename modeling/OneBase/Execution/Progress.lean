import OneBase.Execution.IndexedRuns
import OneBase.Execution.Typing

set_option relaxedAutoImplicit false
set_option autoImplicit false

/-!
# Queries that cannot fail

The execution of a query may throw because of the type of an operand, divide by zero, or have no
defined behaviour, because a sum overflows or a row is too long to be written. A check of the plan
rules all this out: what the plan denotes exists then, for any contents of tables whose rows can
be read.

## Main definitions

* `OneBase.RowFits` — the values of a row are of these types, and can be written again.
* `OneBase.Expression.isTotal`, `isFilter`, `OneBase.PlanNode.isTotal` — the check.
* `OneBase.ExecutorContext.Readable` — the rows of the tables can be read.

## Main results

* `OneBase.exists_denotes_of_isTotal` — such a plan denotes rows, of the types of its columns.
* `OneBase.completes_of_isTotal` — the engine returns them.
* `OneBase.completes_of_run` — so it does after any run of statements on tables of integers.
-/

namespace OneBase

open Exec TableHeap

/-! ## Values that can be written -/

/-- The constructor of `Tuple` can write the value. -/
def Value.Writes (v : Value) : Prop := ∃ data, Tuple.appendValue [] v = pure data

/-- The value is of this type, not null, and can be written. -/
structure Value.Fits (v : Value) (type : TypeId) : Prop where
  hasType : v.HasType type
  writes : v.Writes

/-- There is such a value for each of these types. -/
def RowFits (types : List TypeId) (values : List Value) : Prop :=
  List.Forall₂ (fun type v => Value.Fits v type) types values

section Rows

variable {v : Value} {type : TypeId} {types types' : List TypeId} {values values' : List Value}
  {tuple : Tuple} {schema : Schema}

/-- A value of less than 4 GiB can be written. -/
lemma Value.writes_of_encodedSize (htype : v.getTypeId ≠ .invalid)
    (hsize : v.encodedSize < 2 ^ 32) : v.Writes := by
  obtain ⟨hbytes, hlen⟩ := v.serializeTo_eq htype hsize
  have happend : Tuple.appendValue [] v =
      pure ([] ++ v.encoding ++ List.replicate (v.encodedSize - v.encoding.length) 0) := by
    rw [Tuple.appendValue, hlen, pure_bind, hbytes, pure_bind, if_pos (Value.length_encoding v).le]
  exact ⟨_, happend⟩

/-- A value that is no text can be written. -/
lemma Value.HasType.fits_of_ne (h : v.HasType type)
    (htype : type ≠ .invalid ∧ type ≠ .varchar) : v.Fits type := by
  refine ⟨h, Value.writes_of_encodedSize (by rw [h.1]; exact htype.1) ?_⟩
  obtain ⟨payload, isNull⟩ := v
  obtain ⟨rfl, -⟩ := h
  cases payload with
  | varchar => exact absurd rfl htype.2
  | _ => simp [Value.encodedSize]

/-- A row of values that can be written has their types. -/
lemma RowFits.hasTypes (h : RowFits types values) : HasTypes types values :=
  h.imp fun _ _ hv => hv.hasType

/-- A row whose values can be written. -/
lemma HasTypes.rowFits (h : HasTypes types values) (hwrites : ∀ v ∈ values, v.Writes) :
    RowFits types values := by
  induction h with
  | nil => exact .nil
  | cons hv _ ih =>
    exact .cons ⟨hv, hwrites _ List.mem_cons_self⟩
      (ih fun v hv => hwrites v (List.mem_cons_of_mem _ hv))

/-- A row can be made of such values. -/
lemma RowFits.exists_ofValues (h : RowFits types values) :
    ∃ tuple, Tuple.ofValues values = pure tuple ∧ RowFits types tuple.values := by
  have hwrites : ∀ v ∈ values, ∃ data, Tuple.appendValue [] v = pure data := by
    intro v hv
    obtain ⟨type, -, hfits⟩ := exists_left_of_mem h hv
    exact hfits.writes
  obtain ⟨tuple, htuple, hvalues⟩ := exists_ofValues_iff.2 hwrites
  exact ⟨tuple, htuple, by rwa [hvalues]⟩

/-- Its values are those of all columns. -/
lemma RowFits.columnValues (h : RowFits schema.types tuple.values)
    (hcount : schema.columns.length < 2 ^ 32) :
    OneBase.columnValues tuple schema = pure tuple.values := by
  have hread : tuple.IsRead schema := by
    refine ⟨?_, fun v hv => ?_, fun v hv => ?_⟩
    · rw [← h.length_eq, Schema.types, List.length_map, Schema.getColumnCount,
        Nat.mod_eq_of_lt hcount]
    · obtain ⟨type, -, hfits⟩ := exists_left_of_mem h hv
      exact hfits.hasType.2
    · obtain ⟨type, -, hfits⟩ := exists_left_of_mem h hv
      exact hfits.writes
  exact hread.columnValues

/-- The row of a join can be made. -/
lemma exists_joinRow {leftSchema rightSchema : Schema} {leftTuple rightTuple : Tuple}
    (hlcount : leftSchema.columns.length < 2 ^ 32) (hrcount : rightSchema.columns.length < 2 ^ 32)
    (hl : RowFits leftSchema.types leftTuple.values)
    (hr : RowFits rightSchema.types rightTuple.values) :
    ∃ out, joinRow leftSchema rightSchema leftTuple rightTuple = pure out ∧
      RowFits (leftSchema.types ++ rightSchema.types) out.values := by
  obtain ⟨out, hout, hfits⟩ := RowFits.exists_ofValues (List.rel_append hl hr)
  refine ⟨out, ?_, hfits⟩
  rw [joinRow, hl.columnValues hlcount, pure_bind, hr.columnValues hrcount, pure_bind, hout]

end Rows

/-! ## Expressions -/

/-- A constant can be written. -/
def Expression.writes : Expression → Bool
  | constantValue val => decide (val.getTypeId ≠ .invalid ∧ val.encodedSize < 2 ^ 32)
  | _ => true

/-- The expression has a value on every row, and this can be written. -/
def Expression.isTotal (scope : ℕ → ℕ → Option TypeId) (e : Expression) : Bool :=
  e.checks scope && !e.hasArithmetic && e.writes

/-- The expression is a `nullptr`, or it has a truth value on every row. -/
def Expression.isFilter (scope : ℕ → ℕ → Option TypeId) (e : Expression) : Bool :=
  decide (e = .null) ||
    (e.checks scope && !e.hasArithmetic && decide (e.getReturnType = .boolean))

section Evaluation

variable {scope : ℕ → ℕ → Option TypeId} {column : ℕ → ℕ → Cpp Value} {e : Expression}
  {expressions : List Expression} {types leftTypes rightTypes : List TypeId}
  {tuple leftTuple rightTuple : Tuple} {schema : Schema}

/-- A checked expression has a value of its type, and the value can be written.

**Proof sketch.** By the form of the expression. Operators have boolean values, which can be
written; columns and constants are such values by the hypothesis and by the check. -/
lemma Expression.exists_fits (hcolumn : ∀ tupleIdx colIdx type,
      scope tupleIdx colIdx = some type → ∃ v, column tupleIdx colIdx = pure v ∧ v.Fits type)
    (h : e.isTotal scope = true) :
    ∃ v, e.evaluateWith column = pure v ∧ v.Fits e.getReturnType := by
  simp only [Expression.isTotal, Bool.and_eq_true, Bool.not_eq_true'] at h
  obtain ⟨⟨hchecks, harith⟩, hwrites⟩ := h
  have hreads : ReadsScope scope column := by
    intro tupleIdx colIdx type htype
    obtain ⟨v, hv, hfits⟩ := hcolumn tupleIdx colIdx type htype
    exact ⟨v, hv, hfits.hasType⟩
  obtain ⟨v, hv, htype⟩ := Expression.exists_evaluateWith hreads hchecks harith
  refine ⟨v, hv, ?_⟩
  cases e with
  | null => cases hchecks
  | columnValue tupleIdx colIdx retType =>
    obtain ⟨w, hw, hfits⟩ := hcolumn _ _ _ (of_decide_eq_true hchecks)
    cases hv.symm.trans hw
    exact hfits
  | constantValue val =>
    cases hv
    obtain ⟨hvalid, hsize⟩ := of_decide_eq_true hwrites
    exact ⟨htype, Value.writes_of_encodedSize hvalid hsize⟩
  | comparison | logic => exact htype.fits_of_ne (by simp [Expression.getReturnType])
  | arithmetic => cases harith

/-- A checked expression has such a value on every row. -/
lemma Expression.exists_evaluate (hrow : RowFits types tuple.values) (schema : Schema)
    (h : e.isTotal (rowScope types) = true) :
    ∃ v, e.evaluate tuple schema = pure v ∧ v.Fits e.getReturnType := by
  refine Expression.exists_fits (fun tupleIdx colIdx type htype => ?_) h
  obtain ⟨v, hv, hfits⟩ := exists_getElem?_of_forall₂ hrow htype
  exact ⟨v, getValueAt_of_getElem? hv, hfits⟩

/-- Expressions on a row. -/
lemma exists_values (hrow : RowFits types tuple.values) (schema : Schema)
    (h : ∀ e ∈ expressions, e.isTotal (rowScope types) = true) :
    ∃ values, (expressions.mapM fun e => e.evaluate tuple schema) = pure values ∧
      RowFits (expressions.map Expression.getReturnType) values := by
  induction expressions with
  | nil => exact ⟨[], rfl, .nil⟩
  | cons e expressions ih =>
    obtain ⟨v, hv, hfits⟩ := Expression.exists_evaluate hrow schema (h e List.mem_cons_self)
    obtain ⟨values, hvalues, hrest⟩ := ih fun e he => h e (List.mem_cons_of_mem _ he)
    refine ⟨v :: values, ?_, .cons hfits hrest⟩
    rw [List.mapM_cons, hv, pure_bind, hvalues]
    rfl

/-- Checked expressions have such values on every row, and the row of these values can be made. -/
lemma exists_evaluateRow (hrow : RowFits types tuple.values) (schema : Schema)
    (h : ∀ e ∈ expressions, e.isTotal (rowScope types) = true) :
    ∃ out, evaluateRow expressions schema tuple = pure out ∧
      RowFits (expressions.map Expression.getReturnType) out.values := by
  obtain ⟨values, hvalues, hfits⟩ := exists_values hrow schema h
  obtain ⟨out, hout, hfits'⟩ := hfits.exists_ofValues
  exact ⟨out, by rw [evaluateRow, hvalues, pure_bind, hout], hfits'⟩

/-- A predicate decides about a row. -/
lemma Expression.exists_accepts (hcolumn : ReadsScope scope column)
    (h : e.isFilter scope = true) :
    ∃ b, accepts e (fun e => e.evaluateWith column) = pure b := by
  simp only [Expression.isFilter, Bool.or_eq_true, Bool.and_eq_true, Bool.not_eq_true',
    decide_eq_true_eq] at h
  unfold accepts
  rcases h with hnull | ⟨⟨hchecks, harith⟩, htype⟩
  · exact ⟨true, if_pos hnull⟩
  · obtain ⟨⟨payload, isNull⟩, hv, hvtype, hnull⟩ :=
      Expression.exists_evaluateWith hcolumn hchecks harith
    rw [htype] at hvtype
    cases payload with
    | boolean b =>
      by_cases hne : e = .null
      · exact ⟨true, if_pos hne⟩
      · obtain rfl : isNull = false := hnull
        refine ⟨b, ?_⟩
        simp only [if_neg hne, hv, pure_bind]
        rfl
    | _ => cases hvtype

end Evaluation

/-! ## Aggregates -/

/-- `MIN` and `MAX` of values that can be compared. -/
def AggregationType.isExtremum (aggType : AggregationType) (e : Expression) : Bool :=
  decide (aggType = .minAggregate ∨ aggType = .maxAggregate) &&
    ComparisonType.lessThan.takes e.getReturnType

section Aggregation

variable {aggType : AggregationType} {aggTypes : List AggregationType} {e : Expression}
  {aggregates groupBys : List Expression} {current input : Value}
  {currents inputs : List Value} {types : List TypeId} {schema : Schema} {type : TypeId}

/-- The state of a `MIN` or `MAX`: null before the first row. -/
def MayFit (v : Value) (type : TypeId) : Prop := v.isNull = true ∨ v.Fits type

/-- Whether `MIN` or `MAX` replaces its value is decided. -/
lemma exists_replaces {compType : ComparisonType} (hcurrent : MayFit current type)
    (hinput : input.Fits type) (htakes : compType.takes type = true) :
    ∃ b, replaces compType.perform input current = pure b ∧
      (b = false → current.Fits type) := by
  unfold replaces
  rw [hinput.hasType.2, if_neg Bool.false_ne_true]
  rcases hcurrent with hnull | hfits
  · exact ⟨true, by rw [hnull]; rfl, nofun⟩
  · rw [hfits.hasType.2, if_neg Bool.false_ne_true]
    obtain ⟨b, hb⟩ := exists_compare hinput.hasType.1 hfits.hasType.1 htakes
    exact ⟨b, by rw [hb]; rfl, fun _ => hfits⟩

/-- A round of `MIN` or `MAX`: its state is a value that was given. -/
lemma exists_updateAggregate (hextremum : aggType.isExtremum e = true)
    (hcurrent : MayFit current e.getReturnType) (hinput : input.Fits e.getReturnType) :
    ∃ v, updateAggregate current input aggType = pure v ∧ v.Fits e.getReturnType := by
  simp only [AggregationType.isExtremum, Bool.and_eq_true, decide_eq_true_eq] at hextremum
  obtain ⟨haggType, htakes⟩ := hextremum
  have hchoose : ∀ {compType : ComparisonType}, compType.takes e.getReturnType = true →
      ∃ v, (replaces compType.perform input current >>= fun b =>
        if b = true then pure input else pure current) = pure v ∧ v.Fits e.getReturnType := by
    intro compType htakes
    obtain ⟨b, hb, hkeep⟩ := exists_replaces hcurrent hinput htakes
    cases b with
    | true => exact ⟨input, by rw [hb]; rfl, hinput⟩
    | false => exact ⟨current, by rw [hb]; rfl, hkeep rfl⟩
  rcases haggType with rfl | rfl
  · exact @hchoose .lessThan htakes
  · refine @hchoose .greaterThan ?_
    revert htakes
    cases e.getReturnType <;> exact id

/-- The states of the aggregates of a group. -/
def AllMayFit (aggregates : List Expression) (currents : List Value) : Prop :=
  List.Forall₂ (fun e v => MayFit v e.getReturnType) aggregates currents

/-- The states of aggregates that were all given a value. -/
lemma RowFits.allMayFit (h : RowFits (aggregates.map Expression.getReturnType) currents) :
    AllMayFit aggregates currents := by
  have hforall := List.forall₂_map_left_iff.1 h
  exact hforall.imp fun _ _ hv => .inr hv

/-- A round of the aggregates of a group.

**Proof sketch.** Induction on the aggregates, which the loop of `UpdateAggregates` visits one after
the other. -/
lemma exists_updateAggregates (hlen : aggTypes.length = aggregates.length)
    (hextrema : ∀ p ∈ aggTypes.zip aggregates, p.1.isExtremum p.2 = true)
    (hcurrents : AllMayFit aggregates currents)
    (hinputs : RowFits (aggregates.map Expression.getReturnType) inputs) :
    ∃ values, updateAggregates aggTypes currents inputs = pure values ∧
      RowFits (aggregates.map Expression.getReturnType) values := by
  induction aggTypes generalizing aggregates currents inputs with
  | nil =>
    obtain rfl : aggregates = [] := List.length_eq_zero_iff.1 hlen.symm
    cases hcurrents
    exact ⟨[], rfl, .nil⟩
  | cons aggType aggTypes ih =>
    cases aggregates with
    | nil => cases hlen
    | cons e aggregates =>
      cases hcurrents with
      | @cons _ current _ currents hcurrent hcurrents =>
        cases hinputs with
        | @cons _ input _ inputs hinput hinputs =>
          obtain ⟨v, hv, hfits⟩ := exists_updateAggregate
            (hextrema (aggType, e) List.mem_cons_self) hcurrent hinput
          obtain ⟨values, hvalues, hrest⟩ := ih (Nat.succ.inj hlen)
            (fun p hp => hextrema p (List.mem_cons_of_mem _ hp)) hcurrents hinputs
          refine ⟨v :: values, ?_, .cons hfits hrest⟩
          rw [updateAggregates, hv, pure_bind, hvalues]
          rfl

/-- Before the first row the states of the aggregates are nulls. -/
lemma allMayFit_initialAggregates (hlen : aggTypes.length = aggregates.length)
    (hextrema : ∀ p ∈ aggTypes.zip aggregates, p.1.isExtremum p.2 = true) :
    AllMayFit aggregates (initialAggregates aggTypes) := by
  induction aggTypes generalizing aggregates with
  | nil =>
    obtain rfl : aggregates = [] := List.length_eq_zero_iff.1 hlen.symm
    exact .nil
  | cons aggType aggTypes ih =>
    cases aggregates with
    | nil => cases hlen
    | cons e aggregates =>
      have hextremum := hextrema (aggType, e) List.mem_cons_self
      simp only [AggregationType.isExtremum, Bool.and_eq_true, decide_eq_true_eq] at hextremum
      refine .cons (.inl ?_) (ih (Nat.succ.inj hlen) fun p hp =>
        hextrema p (List.mem_cons_of_mem _ hp))
      rcases hextremum.1 with rfl | rfl <;> rfl

/-- The rows of the groups that the aggregation has so far can be made. -/
def GroupsFit (groupBys aggregates : List Expression) (aht : List (List UInt8 × AggState)) : Prop :=
  ∀ entry ∈ aht, RowFits (groupBys.map Expression.getReturnType) entry.2.groupBys ∧
    RowFits (aggregates.map Expression.getReturnType) entry.2.aggregates

/-- A row is added to its group: the keys and the inputs have values, and the aggregates of the
group go on from the states that they have, or from those of a new group. -/
lemma exists_aggregateRow {aht : List (List UInt8 × AggState)} {row : Row}
    (hlen : aggTypes.length = aggregates.length)
    (hextrema : ∀ p ∈ aggTypes.zip aggregates, p.1.isExtremum p.2 = true)
    (hgroups : ∀ e ∈ groupBys, e.isTotal (rowScope types) = true)
    (haggregates : ∀ e ∈ aggregates, e.isTotal (rowScope types) = true)
    (hrow : RowFits types row.1.values) (haht : GroupsFit groupBys aggregates aht) :
    ∃ aht', aggregateRow groupBys aggregates aggTypes schema aht row = pure aht' ∧
      GroupsFit groupBys aggregates aht' := by
  obtain ⟨groupValues, hgroup, hgroupFits⟩ := exists_values hrow schema hgroups
  obtain ⟨inputs, hinputs, hinputFits⟩ := exists_values hrow schema haggregates
  unfold aggregateRow
  simp only [hgroup, hinputs, pure_bind]
  cases hlookup : aht.lookup (groupKey groupValues) with
  | some state =>
    obtain ⟨before, after, heq, -⟩ := List.lookup_eq_some_iff.1 hlookup
    have hstate := haht (groupKey groupValues, state) (by simp [heq])
    obtain ⟨values, hvalues, hfits⟩ :=
      exists_updateAggregates hlen hextrema hstate.2.allMayFit hinputFits
    simp only [hvalues, pure_bind]
    refine ⟨_, rfl, fun entry hentry => ?_⟩
    obtain ⟨old, hold, rfl⟩ := List.mem_map.1 hentry
    split_ifs
    · exact ⟨hstate.1, hfits⟩
    · exact haht old hold
  | none =>
    obtain ⟨values, hvalues, hfits⟩ := exists_updateAggregates hlen hextrema
      (allMayFit_initialAggregates hlen hextrema) hinputFits
    simp only [hvalues, pure_bind]
    refine ⟨_, rfl, fun entry hentry => ?_⟩
    rcases List.mem_append.1 hentry with hentry | hentry
    · exact haht entry hentry
    · rw [List.mem_singleton.1 hentry]
      exact ⟨hgroupFits, hfits⟩

/-- The types of `MIN` and `MAX` are those of their values. -/
lemma aggregateTypes_of_extrema (hlen : aggTypes.length = aggregates.length)
    (hextrema : ∀ p ∈ aggTypes.zip aggregates, p.1.isExtremum p.2 = true) :
    aggregateTypes aggTypes aggregates = aggregates.map Expression.getReturnType := by
  induction aggTypes generalizing aggregates with
  | nil =>
    obtain rfl : aggregates = [] := List.length_eq_zero_iff.1 hlen.symm
    rfl
  | cons aggType aggTypes ih =>
    cases aggregates with
    | nil => cases hlen
    | cons e aggregates =>
      have hextremum := hextrema (aggType, e) List.mem_cons_self
      simp only [AggregationType.isExtremum, Bool.and_eq_true, decide_eq_true_eq] at hextremum
      have hrest := ih (Nat.succ.inj hlen) fun p hp => hextrema p (List.mem_cons_of_mem _ hp)
      unfold aggregateTypes at hrest ⊢
      rw [List.zip_cons_cons, List.map_cons, List.map_cons, hrest]
      rcases hextremum.1 with rfl | rfl <;> rfl

/-- The rows of an aggregation. -/
lemma exists_aggregateTuples (std : StandardLibrary) {tuples : List Tuple}
    (hne : groupBys ≠ []) (hlen : aggTypes.length = aggregates.length)
    (hextrema : ∀ p ∈ aggTypes.zip aggregates, p.1.isExtremum p.2 = true)
    (hgroups : ∀ e ∈ groupBys, e.isTotal (rowScope types) = true)
    (haggregates : ∀ e ∈ aggregates, e.isTotal (rowScope types) = true)
    (hrows : ∀ t ∈ tuples, RowFits types t.values) :
    ∃ out, aggregateTuples std groupBys aggregates aggTypes schema tuples = pure out ∧
      ∀ t ∈ out, RowFits (groupBys.map Expression.getReturnType ++
        aggregateTypes aggTypes aggregates) t.values := by
  obtain ⟨aht, haht, hfits⟩ := Cpp.exists_foldlM (P := GroupsFit groupBys aggregates)
    (f := aggregateRow groupBys aggregates aggTypes schema) (l := placeless tuples) (b := []) (by
      intro row hrow aht haht
      obtain ⟨t, ht, rfl⟩ := List.mem_map.1 hrow
      exact exists_aggregateRow hlen hextrema hgroups haggregates (hrows t ht) haht) (by
      intro entry hentry
      cases hentry)
  have hfinished : finishedTable groupBys aggTypes aht = aht := if_neg fun h => hne h.2
  have hentries : ∀ entry ∈ std.buckets aht,
      ∃ t, Tuple.ofValues (entry.2.groupBys ++ entry.2.aggregates) = pure t ∧
        RowFits (groupBys.map Expression.getReturnType ++ aggregateTypes aggTypes aggregates)
          t.values := by
    intro entry hentry
    obtain ⟨hg, ha⟩ := hfits entry ((std.buckets_perm aht).subset hentry)
    rw [aggregateTypes_of_extrema hlen hextrema]
    exact RowFits.exists_ofValues (List.rel_append hg ha)
  obtain ⟨out, hout⟩ := Cpp.exists_mapM fun entry hentry =>
    (hentries entry hentry).imp fun _ h => h.1
  refine ⟨out, by rw [aggregateTuples, haht, pure_bind, hfinished, hout], fun t ht => ?_⟩
  obtain ⟨entry, hentry, hmade⟩ := exists_left_of_mem (Cpp.mapM_eq_pure.1 hout) ht
  obtain ⟨t', ht', hrow⟩ := hentries entry hentry
  cases hmade.symm.trans ht'
  exact hrow

end Aggregation

/-! ## Scans and joins -/

section Children

variable {schema leftSchema rightSchema : Schema} {rows : List (RID × List UInt8)}
  {predicate leftKeyExpr rightKeyExpr : Expression} {all L R : List Row}

/-- The rows of a scan with a predicate, if all rows of the table can be read. -/
lemma exists_scanRows (hcount : schema.columns.length < 2 ^ 32)
    (hpredicate : predicate.isFilter (rowScope schema.types) = true)
    (hread : scanRows (scanRow .null schema) rows = pure all) :
    ∃ out, scanRows (scanRow predicate schema) rows = pure out ∧
      ∀ row ∈ out, RowFits schema.types row.1.values := by
  have hfits : ∀ {out}, scanRows (scanRow predicate schema) rows = pure out →
      ∀ row ∈ out, RowFits schema.types row.1.values := fun h row hrow =>
    (hasTypes_of_scanRows hcount h row hrow).rowFits (isRead_of_scanRows h row hrow).writes
  suffices h : ∃ out, scanRows (scanRow predicate schema) rows = pure out by
    obtain ⟨out, hout⟩ := h
    exact ⟨out, hout, hfits hout⟩
  clear hfits
  induction rows generalizing all with
  | nil => exact ⟨[], rfl⟩
  | cons r rows ih =>
    obtain ⟨o, ho, hread⟩ := Cpp.bind_eq_pure.1 hread
    obtain ⟨rest, hrest, -⟩ := Cpp.bind_eq_pure.1 hread
    obtain ⟨tuple, rfl, hvalues, hscan⟩ := scanRow_null ho
    obtain ⟨out, hout⟩ := ih hrest
    have htyped := hasTypes_of_scanRow hcount ho
    have hreads : ReadsScope (rowScope schema.types)
        fun _ colIdx => (rawTuple r).getValueAt schema colIdx := by
      intro tupleIdx colIdx type htype
      have hlt : colIdx < schema.getColumnCount := by
        obtain ⟨hlt, -⟩ := List.getElem?_eq_some_iff.1 htype
        rwa [Schema.types, List.length_map, ← Nat.mod_eq_of_lt hcount] at hlt
      show ∃ v, (rawTuple r).getValueAt schema colIdx = pure v ∧ v.HasType type
      rw [getValueAt_rawTuple hvalues hlt]
      exact htyped.getValueAt schema htype
    obtain ⟨b, hb⟩ := Expression.exists_accepts hreads hpredicate
    simp only [scanRows, hscan predicate b hb, pure_bind, hout]
    exact ⟨_, rfl⟩

/-- The rows of a nested-loop join. -/
lemma exists_nestedLoopTuples (hlcount : leftSchema.columns.length < 2 ^ 32)
    (hrcount : rightSchema.columns.length < 2 ^ 32)
    (hpredicate : predicate.isFilter (joinScope leftSchema.types rightSchema.types) = true)
    (hL : ∀ row ∈ L, RowFits leftSchema.types row.1.values)
    (hR : ∀ row ∈ R, RowFits rightSchema.types row.1.values) :
    ∃ tuples, nestedLoopTuples predicate leftSchema rightSchema L R = pure tuples ∧
      ∀ t ∈ tuples, RowFits (leftSchema.types ++ rightSchema.types) t.values := by
  refine Cpp.exists_foldlM (fun l hl acc hacc => Cpp.exists_foldlM (fun r hr acc hacc => ?_) hacc)
    (by simp)
  obtain ⟨b, hb⟩ := Expression.exists_accepts
    ((hL l hl).hasTypes.readsScope_join (hR r hr).hasTypes leftSchema rightSchema) hpredicate
  obtain ⟨out, hout, hfits⟩ := exists_joinRow hlcount hrcount (hL l hl) (hR r hr)
  have hpair : joinPair predicate leftSchema rightSchema l.1 acc r =
      pure (if b then acc ++ [out] else acc) := by
    unfold joinPair Expression.evaluateJoin
    rw [hb, pure_bind, hout]
    cases b <;> rfl
  refine ⟨_, hpair, fun t ht => ?_⟩
  split_ifs at ht
  · rcases List.mem_append.1 ht with ht | ht
    · exact hacc t ht
    · rw [List.mem_singleton.1 ht]
      exact hfits
  · exact hacc t ht

/-- The rows of a hash join. -/
lemma exists_hashJoinTuples (hlcount : leftSchema.columns.length < 2 ^ 32)
    (hrcount : rightSchema.columns.length < 2 ^ 32)
    (hlkey : leftKeyExpr.isTotal (rowScope leftSchema.types) = true)
    (hrkey : rightKeyExpr.isTotal (rowScope rightSchema.types) = true)
    (hL : ∀ row ∈ L, RowFits leftSchema.types row.1.values)
    (hR : ∀ row ∈ R, RowFits rightSchema.types row.1.values) :
    ∃ tuples, hashJoinTuples leftKeyExpr rightKeyExpr leftSchema rightSchema L R = pure tuples ∧
      ∀ t ∈ tuples, RowFits (leftSchema.types ++ rightSchema.types) t.values := by
  have hbuild : ∃ table : HashTable, R.foldlM (buildRow rightKeyExpr rightSchema) (fun _ => []) =
      pure table ∧ ∀ key, ∀ t ∈ table key, RowFits rightSchema.types t.values := by
    refine Cpp.exists_foldlM (fun r hr table htable => ?_) (by simp)
    obtain ⟨v, hv, -⟩ := Expression.exists_evaluate (hR r hr) rightSchema hrkey
    refine ⟨_, by rw [buildRow, hashKey, hv, pure_bind, pure_bind], fun key t ht => ?_⟩
    by_cases hkey : key = v.toBytes
    · rw [hkey, Function.update_self] at ht
      rcases List.mem_append.1 ht with ht | ht
      · exact htable _ t ht
      · rw [List.mem_singleton.1 ht]
        exact hR r hr
    · rw [Function.update_of_ne hkey] at ht
      exact htable key t ht
  obtain ⟨table, htable, hrows⟩ := hbuild
  have hprobe : ∃ tuples, L.foldlM (probeRow leftKeyExpr leftSchema rightSchema table) [] =
      pure tuples ∧ ∀ t ∈ tuples, RowFits (leftSchema.types ++ rightSchema.types) t.values := by
    refine Cpp.exists_foldlM (fun l hl acc hacc => ?_) (by simp)
    obtain ⟨v, hv, -⟩ := Expression.exists_evaluate (hL l hl) leftSchema hlkey
    rw [probeRow, hashKey, hv, pure_bind, pure_bind]
    refine Cpp.exists_foldlM (fun r hr acc hacc => ?_) hacc
    obtain ⟨out, hout, hfits⟩ := exists_joinRow hlcount hrcount (hL l hl) (hrows _ r hr)
    refine ⟨acc ++ [out], by rw [hout, pure_bind], fun t ht => ?_⟩
    rcases List.mem_append.1 ht with ht | ht
    · exact hacc t ht
    · rw [List.mem_singleton.1 ht]
      exact hfits
  obtain ⟨tuples, htuples, hfits⟩ := hprobe
  exact ⟨tuples, by rw [hashJoinTuples, htable, pure_bind, htuples], hfits⟩

end Children

/-! ## Plans -/

/-- The check of a plan. Sums and counts may overflow, and without groups an extremum of no rows has
no value. -/
def PlanNode.isTotal (catalog : Catalog) : PlanNode → Bool
  | .seqScan out oid predicate =>
    (catalog.getTable oid).any fun info =>
      decide (out.types = info.schema.types ∧ info.schema.columns.length < 2 ^ 32) &&
        predicate.isFilter (rowScope info.schema.types)
  | .nestedLoopJoin out left right predicate =>
    left.isTotal catalog && right.isTotal catalog &&
      decide (left.getOutputSchema.columns.length < 2 ^ 32 ∧
        right.getOutputSchema.columns.length < 2 ^ 32 ∧
        out.types = left.getOutputSchema.types ++ right.getOutputSchema.types) &&
      predicate.isFilter (joinScope left.getOutputSchema.types right.getOutputSchema.types)
  | .hashJoin out left right leftKeyExpr rightKeyExpr =>
    left.isTotal catalog && right.isTotal catalog &&
      decide (left.getOutputSchema.columns.length < 2 ^ 32 ∧
        right.getOutputSchema.columns.length < 2 ^ 32 ∧
        out.types = left.getOutputSchema.types ++ right.getOutputSchema.types) &&
      leftKeyExpr.isTotal (rowScope left.getOutputSchema.types) &&
      rightKeyExpr.isTotal (rowScope right.getOutputSchema.types)
  | .aggregation out child groupBys aggregates aggTypes =>
    child.isTotal catalog &&
      (groupBys ++ aggregates).all (·.isTotal (rowScope child.getOutputSchema.types)) &&
      (aggTypes.zip aggregates).all (fun p => p.1.isExtremum p.2) &&
      decide (groupBys ≠ [] ∧ aggTypes.length = aggregates.length ∧ out.types =
        groupBys.map Expression.getReturnType ++ aggregateTypes aggTypes aggregates)
  | .sort out child orderBys =>
    child.isTotal catalog && decide (out.types = child.getOutputSchema.types) &&
      orderBys.all (·.2.orders (rowScope child.getOutputSchema.types))
  | .limit out child _ =>
    child.isTotal catalog && decide (out.types = child.getOutputSchema.types)
  | .projection out child expressions =>
    child.isTotal catalog &&
      expressions.all (·.isTotal (rowScope child.getOutputSchema.types)) &&
      decide (out.types = expressions.map Expression.getReturnType)
  | .null | .indexScan .. | .insert .. | .delete .. | .update .. | .utility .. => false

/-- The tables are heaps, and the values of their rows can be read. -/
def ExecutorContext.Readable (ctx : ExecutorContext) : Prop :=
  ∀ oid tableInfo, ctx.catalog.getTable oid = some tableInfo →
    ∃ pages rows, HeapTable ctx tableInfo pages ∧
      scanRows (scanRow .null tableInfo.schema) (liveRows pages) = pure rows

section Plans

variable {std : StandardLibrary} {ctx : ExecutorContext} {plan : PlanNode} {rows : List Row}

/-- Tables whose rows can be read are heaps. -/
lemma ExecutorContext.Readable.scannable (h : ctx.Readable) : ctx.Scannable := by
  intro oid tableInfo htable
  obtain ⟨pages, rows, hheap, -⟩ := h oid tableInfo htable
  exact ⟨pages, hheap⟩

/-- A checked plan is a query. -/
lemma isQuery_of_isTotal {catalog : Catalog} (h : plan.isTotal catalog = true) :
    plan.isQuery = true := by
  induction plan with
  | seqScan => rfl
  | nestedLoopJoin out left right predicate ihl ihr | hashJoin out left right _ _ ihl ihr =>
    simp only [PlanNode.isTotal, Bool.and_eq_true] at h
    exact (Bool.and_eq_true _ _).mpr ⟨ihl (by simp [h]), ihr (by simp [h])⟩
  | aggregation out child _ _ _ ih | sort out child _ ih | projection out child _ ih
  | limit out child _ ih =>
    simp only [PlanNode.isTotal, Bool.and_eq_true] at h
    exact ih (by simp [h])
  | null | indexScan | insert | delete | update | utility => cases h

/-- The first rows of a plan that denotes rows. -/
lemma DenotesRows.take (h : DenotesRows std ctx plan rows true) (hplan : plan.isQuery = true)
    (hctx : ctx.Scannable) (n : ℕ) : DenotesRows std ctx plan (rows.take n) false := by
  obtain ⟨fuel, hshows⟩ := h.shows
  have hyields := Executor.shows_true_iff.1 (hshows fuel le_rfl)
  obtain ⟨st', last, hinit, hemits⟩ := hyields (createExecutor std fuel plan).fresh
  obtain ⟨mid, hgives, -⟩ := hemits.gives (List.take_prefix n rows)
  exact denotes_of_hasShown hplan hctx ⟨_, st', mid, hinit, hgives, nofun⟩

/-- All tuples of a class, as rows. -/
lemma placeless_all (tuples : List Tuple) : FirstOf tuples (placeless tuples) true :=
  ⟨List.prefix_rfl, fun _ => rfl⟩

/-- What holds of all tuples holds of all rows. -/
lemma forall_placeless {tuples : List Tuple} {types : List TypeId}
    (h : ∀ t ∈ tuples, RowFits types t.values) :
    ∀ row ∈ placeless tuples, RowFits types row.1.values := by
  intro row hrow
  obtain ⟨t, ht, rfl⟩ := List.mem_map.1 hrow
  exact h t ht

/-- **Progress.** A plan that passes the check denotes rows, of the types of its columns, whatever
the tables contain.

**Proof sketch.** Induction on the plan. The rows of the children exist and are typed, so that the
expressions have values on them, and the rows that are made of these can be written. -/
lemma exists_denotes_of_isTotal (hctx : ctx.Readable) (h : plan.isTotal ctx.catalog = true) :
    ∃ rows, DenotesRows std ctx plan rows true ∧
      ∀ row ∈ rows, RowFits plan.getOutputSchema.types row.1.values := by
  induction plan with
  | seqScan out oid predicate =>
    rw [PlanNode.isTotal, Option.any_eq_true] at h
    obtain ⟨info, htable, h⟩ := h
    simp only [Bool.and_eq_true, decide_eq_true_eq] at h
    obtain ⟨⟨hout, hcount⟩, hpredicate⟩ := h
    obtain ⟨pages, all, hheap, hread⟩ := hctx oid info htable
    obtain ⟨rows, hrows, hfits⟩ := exists_scanRows hcount hpredicate hread
    rw [PlanNode.getOutputSchema, hout]
    exact ⟨rows, .seqScan htable hheap (List.append_nil _).symm hrows fun _ => rfl, hfits⟩
  | nestedLoopJoin out left right predicate ihl ihr =>
    simp only [PlanNode.isTotal, Bool.and_eq_true, decide_eq_true_eq] at h
    obtain ⟨⟨⟨hl, hr⟩, hlcount, hrcount, hout⟩, hpredicate⟩ := h
    obtain ⟨L, hL, hLfits⟩ := ihl hl
    obtain ⟨R, hR, hRfits⟩ := ihr hr
    obtain ⟨tuples, htuples, hfits⟩ :=
      exists_nestedLoopTuples hlcount hrcount hpredicate hLfits hRfits
    rw [PlanNode.getOutputSchema, hout]
    exact ⟨_, .nestedLoopJoin hL (fun _ => hR) htuples (placeless_all tuples),
      forall_placeless hfits⟩
  | hashJoin out left right leftKeyExpr rightKeyExpr ihl ihr =>
    simp only [PlanNode.isTotal, Bool.and_eq_true, decide_eq_true_eq] at h
    obtain ⟨⟨⟨⟨hl, hr⟩, hlcount, hrcount, hout⟩, hlkey⟩, hrkey⟩ := h
    obtain ⟨L, hL, hLfits⟩ := ihl hl
    obtain ⟨R, hR, hRfits⟩ := ihr hr
    obtain ⟨tuples, htuples, hfits⟩ :=
      exists_hashJoinTuples hlcount hrcount hlkey hrkey hLfits hRfits
    rw [PlanNode.getOutputSchema, hout]
    exact ⟨_, .hashJoin hL hR htuples (placeless_all tuples), forall_placeless hfits⟩
  | aggregation out child groupBys aggregates aggTypes ih =>
    simp only [PlanNode.isTotal, Bool.and_eq_true, decide_eq_true_eq, List.all_eq_true,
      List.forall_mem_append] at h
    obtain ⟨⟨⟨hc, hgroups, haggregates⟩, hextrema⟩, hne, hlen, hout⟩ := h
    obtain ⟨C, hC, hCfits⟩ := ih hc
    obtain ⟨tuples, htuples, hfits⟩ := exists_aggregateTuples std hne hlen hextrema hgroups
      haggregates (List.forall_mem_map.2 hCfits)
    rw [PlanNode.getOutputSchema, hout]
    exact ⟨_, .aggregation hC htuples (placeless_all tuples), forall_placeless hfits⟩
  | sort out child orderBys ih =>
    simp only [PlanNode.isTotal, Bool.and_eq_true, decide_eq_true_eq, List.all_eq_true] at h
    obtain ⟨⟨hc, hout⟩, horders⟩ := h
    obtain ⟨C, hC, hCfits⟩ := ih hc
    have hrows : ∀ t ∈ C.map Prod.fst, RowFits child.getOutputSchema.types t.values :=
      List.forall_mem_map.2 hCfits
    obtain ⟨sorted, hsorted, hperm, -⟩ := std.sort_spec _ _
      (strictWeakOrderOn_of_orders (fun t ht => (hrows t ht).hasTypes) horders)
    rw [PlanNode.getOutputSchema, hout]
    exact ⟨_, .sort hC hsorted (placeless_all sorted),
      forall_placeless fun t ht => hrows t (hperm.subset ht)⟩
  | limit out child n ih =>
    simp only [PlanNode.isTotal, Bool.and_eq_true, decide_eq_true_eq] at h
    obtain ⟨hc, hout⟩ := h
    obtain ⟨C, hC, hCfits⟩ := ih hc
    rw [PlanNode.getOutputSchema, hout]
    by_cases hle : C.length ≤ n
    · exact ⟨C, .limit hC hle fun _ => .inl rfl, hCfits⟩
    · have htake := hC.take (isQuery_of_isTotal hc) hctx.scannable n
      have hlen : (C.take n).length = n := List.length_take_of_le (by omega)
      exact ⟨C.take n, .limit htake hlen.le fun _ => .inr hlen,
        fun row hrow => hCfits row (List.mem_of_mem_take hrow)⟩
  | projection out child expressions ih =>
    simp only [PlanNode.isTotal, Bool.and_eq_true, decide_eq_true_eq, List.all_eq_true] at h
    obtain ⟨⟨hc, hexprs⟩, hout⟩ := h
    obtain ⟨C, hC, hCfits⟩ := ih hc
    rw [PlanNode.getOutputSchema, hout]
    have hmade : ∀ row ∈ C, ∃ o, evaluateRow expressions child.getOutputSchema row.1 = pure o ∧
        RowFits (expressions.map Expression.getReturnType) o.values :=
      fun row hrow => exists_evaluateRow (hCfits row hrow) _ hexprs
    obtain ⟨rows, hrows, hfits⟩ : ∃ rows : List Row, List.Forall₂ (fun row o =>
        evaluateRow expressions child.getOutputSchema row.1 = pure o.1 ∧ o.2 = row.2) C rows ∧
        ∀ o ∈ rows, RowFits (expressions.map Expression.getReturnType) o.1.values := by
      clear hC hCfits
      induction C with
      | nil => exact ⟨[], .nil, by simp⟩
      | cons row C ihC =>
        obtain ⟨o, ho, hofits⟩ := hmade row List.mem_cons_self
        obtain ⟨rows, hrows, hfits⟩ := ihC fun r hr => hmade r (List.mem_cons_of_mem _ hr)
        refine ⟨(o, row.2) :: rows, .cons ⟨ho, rfl⟩ hrows, fun r hr => ?_⟩
        rcases List.mem_cons.1 hr with rfl | hr
        · exact hofits
        · exact hfits r hr
    exact ⟨rows, .projection hC hrows, hfits⟩
  | null | indexScan | insert | delete | update | utility => cases h

/-- **Queries that cannot fail.** Over tables whose rows can be read, whatever these are, the engine
completes a plan that passes the check: with enough fuel it returns rows, the same ones for every
amount, each with a value for each column, of its type and not null, and leaves the context as it
is. -/
theorem completes_of_isTotal (hctx : ctx.Readable) (h : plan.isTotal ctx.catalog = true) :
    ∃ result, Completes std plan ctx result ctx ∧
      ∀ tuple ∈ result, HasTypes plan.getOutputSchema.types tuple.values := by
  obtain ⟨rows, hrows, hfits⟩ := @exists_denotes_of_isTotal std ctx plan hctx h
  exact ⟨_, hrows.completes, List.forall_mem_map.2 fun row hrow => (hfits row hrow).hasTypes⟩

/-- The rows of tables of integers can be read. -/
lemma readable_of_integerTables (h : ∀ oid info, ctx.catalog.getTable oid = some info →
    ∃ pages, IntegerTable ctx info pages) : ctx.Readable := by
  intro oid info htable
  obtain ⟨pages, hinteger⟩ := h oid info htable
  have hscan : ∀ r ∈ liveRows pages, scanRow .null info.schema r =
      pure (if true then some (parsedTuple info.schema.columns.length r) else none) :=
    fun r hr => hinteger.scanRow hr rfl
  exact ⟨pages, _, hinteger.toHeapTable, scanRows_of_keep hscan⟩

end Plans

/-- The smallest of two rows of a table. -/
def smallestRow : PlanNode :=
  .limit (smallTable ["x"]).schema
    (.sort (smallTable ["x"]).schema
      (.seqScan (smallTable ["x"]).schema 1
        (.comparison (.columnValue 0 0 .integer) (.constantValue (Value.ofInt 0)) .greaterThan))
      [(true, .columnValue 0 0 .integer)]) 1

/-- The table of the small database can be read. -/
lemma readable_smallContext {columns : List String} {rows : List (List (BitVec 32))}
    {attr : Option ℕ} (hroom : roomOf (rows.map rowBytes) + 16 ≤ pageSize)
    (hwidth : ∀ row ∈ rows, row.length = columns.length) :
    (smallContext columns rows attr).Readable := by
  refine readable_of_integerTables fun oid info htable => ?_
  obtain ⟨before, after, htables, -⟩ := List.lookup_eq_some_iff.1 htable
  have hmem : (oid, info) ∈ [(1, smallTable columns)] := by
    change [(1, smallTable columns)] = _ at htables
    rw [htables]
    exact List.mem_append_right _ List.mem_cons_self
  obtain ⟨rfl, rfl⟩ := Prod.mk.inj (List.mem_singleton.1 hmem)
  exact ⟨_, integerTable_smallContext hroom hwidth⟩

/-- It is returned. -/
theorem completes_of_isTotal_smallestRow :
    ∃ result, Completes default smallestRow (smallContext ["x"] [[2], [1]] none) result
        (smallContext ["x"] [[2], [1]] none) ∧
      ∀ tuple ∈ result, HasTypes [.integer] tuple.values :=
  completes_of_isTotal (readable_smallContext (by decide) (by decide)) (by decide)

/-! ## Runs -/

section Runs

variable {std : StandardLibrary} {ctx ctx' : ExecutorContext} {pages : ℕ → Pages}
  {plans : List PlanNode} {plan : PlanNode}

/-- Statements keep a database of integers. -/
lemma IndexedDatabase.readable_of_run (h : IndexedDatabase ctx pages)
    (hrun : Transition.Run (DatabaseStep std) ctx plans ctx') (hframes : 1 ≤ ctx'.poolSize) :
    ctx'.Readable := by
  obtain ⟨pages', h'⟩ : ∃ pages', IndexedDatabase { ctx' with poolSize := ⊤ } pages' := by
    refine hrun.invariant (I := fun c => ∃ pages, IndexedDatabase { c with poolSize := ⊤ } pages)
      ?_ ⟨pages, h.withFrames le_top⟩
    rintro c plan c' ⟨pages, h⟩ ⟨hstatement, optimized, fuel, result, hopt, -, hret⟩
    exact h.step le_top hstatement hopt hret
  exact readable_of_integerTables fun oid info htable =>
    ⟨pages' oid, ((h'.withFrames hframes).table oid info htable)⟩

/-- **Queries after a run.** On a database of integers, after any run of `CREATE INDEX`,
`DROP INDEX`, `INSERT` and `DELETE` statements, a query that passes the check completes. -/
theorem completes_of_run (h : IndexedDatabase ctx pages)
    (hrun : Transition.Run (DatabaseStep std) ctx plans ctx') (hframes : 1 ≤ ctx'.poolSize)
    (htotal : plan.isTotal ctx'.catalog = true) :
    ∃ result, Completes std plan ctx' result ctx' ∧
      ∀ tuple ∈ result, HasTypes plan.getOutputSchema.types tuple.values := by
  obtain ⟨rows, hrows, hfits⟩ :=
    @exists_denotes_of_isTotal std ctx' plan (h.readable_of_run hrun hframes) htotal
  exact ⟨_, hrows.completes, List.forall_mem_map.2 fun row hrow => (hfits row hrow).hasTypes⟩

end Runs

/-- `SELECT MAX(a) FROM t GROUP BY a`. -/
def largestOfGroups : PlanNode :=
  .aggregation (Schema.new [.new "a" .integer, .new "max" .integer])
    (.seqScan (smallTable ["a"]).schema 1 .null) [.columnValue 0 0 .integer]
    [.columnValue 0 0 .integer] [.maxAggregate]

/-- The query, after an index was created, rows were copied and the rows with 7 were deleted. -/
theorem completes_of_run_deleted :
    ∃ ctx', Transition.Run (DatabaseStep default) twoTables
        [indexColumn, copyRows, deleteSevens] ctx' ∧
      ∃ result, Completes default largestOfGroups ctx' result ctx' ∧
        ∀ tuple ∈ result, HasTypes [.integer, .integer] tuple.values := by
  have hok : (executeAll default 6 twoTables [indexColumn, copyRows, deleteSevens]).any
      (fun c => largestOfGroups.isTotal c.catalog) = true := by
    decide +kernel
  obtain ⟨ctx', hexecute, htotal⟩ := Option.any_eq_true _ _ |>.1 hok
  obtain ⟨hrun, hframes⟩ := run_of_executeAll rfl hexecute
  exact ⟨ctx', hrun, completes_of_run indexedDatabase_twoTables hrun (hframes ▸ le_top) htotal⟩

end OneBase
