import OneBase.Execution.HashJoin
import OneBase.Execution.SeqScan
import OneBase.Lib.Joins

set_option relaxedAutoImplicit false
set_option autoImplicit false

/-!
# The nested-loop join of two tables

The rows that a scan reads can be joined, whatever the types of the columns: their values were
read from the heap, so they are not null and can be written again.

## Main definitions

* `OneBase.Tuple.IsRead` — a row with a value, which is not null, for each column.
* `OneBase.TableContents` — the rows of a table.
* `OneBase.admits`, `OneBase.Decides` — the pairs that a predicate admits.

## Main results

* `OneBase.TableContents.completes_seqScan`, `OneBase.completes_nestedLoopJoin` — what the plans of a
  table and of a join of two tables return.
-/

namespace OneBase

open Exec TableHeap

/-! ## Rows that were read -/

/-- The row has a value for each column, and these are not null and can be written. -/
structure Tuple.IsRead (schema : Schema) (tuple : Tuple) : Prop where
  length : tuple.values.length = schema.getColumnCount
  notNull : ∀ v ∈ tuple.values, v.isNull = false
  writes : ∀ v ∈ tuple.values, ∃ data, Tuple.appendValue [] v = pure data

section Read

variable {schema : Schema} {tuple : Tuple} {values : List Value} {v : Value} {data : List UInt8}

/-- What is written for a value does not depend on what precedes it. -/
lemma appendValue_append (data : List UInt8) (v : Value) :
    Tuple.appendValue data v = (do
      let bytes ← Tuple.appendValue [] v
      pure (data ++ bytes)) := by
  unfold Tuple.appendValue
  simp only [bind_assoc]
  congr 1
  funext valSize
  congr 1
  funext bytes
  split_ifs
  · rw [pure_bind, List.nil_append, List.append_assoc]
  · rfl

/-- A row can be made of values that can be written, each by itself. -/
lemma exists_ofValues_iff : (∃ tuple, Tuple.ofValues values = pure tuple ∧ tuple.values = values) ↔
    ∀ v ∈ values, ∃ data, Tuple.appendValue [] v = pure data := by
  have hfold : ∀ data, (∃ data', values.foldlM Tuple.appendValue data = pure data') ↔
      ∀ v ∈ values, ∃ data, Tuple.appendValue [] v = pure data := by
    induction values with
    | nil =>
      intro data
      constructor
      · intro _ v hv
        cases hv
      · intro _
        exact ⟨data, rfl⟩
    | cons v values ih =>
      intro data
      rw [List.foldlM_cons, List.forall_mem_cons, appendValue_append]
      constructor
      · rintro ⟨data', h⟩
        obtain ⟨data₁, hstep, hrest⟩ := Cpp.bind_eq_pure.1 h
        obtain ⟨bytes, hbytes, -⟩ := Cpp.bind_eq_pure.1 hstep
        exact ⟨⟨bytes, hbytes⟩, (ih data₁).1 ⟨data', hrest⟩⟩
      · rintro ⟨⟨bytes, hbytes⟩, hrest⟩
        obtain ⟨data', hdata'⟩ := (ih (data ++ bytes)).2 hrest
        exact ⟨data', by rw [hbytes, pure_bind, pure_bind, hdata']⟩
  rw [← hfold []]
  constructor
  · rintro ⟨tuple, htuple, -⟩
    obtain ⟨data', hdata', -⟩ := Cpp.bind_eq_pure.1 htuple
    exact ⟨data', hdata'⟩
  · rintro ⟨data', hdata'⟩
    exact ⟨{ data := data', values := values }, Cpp.bind_eq_pure.2 ⟨data', hdata', rfl⟩, rfl⟩

/-- The values that a scan reads from the heap. -/
lemma columnValues_rawTuple {r : RID × List UInt8}
    (h : columnValues (rawTuple r) schema = pure values) :
    values.length = schema.getColumnCount ∧ ∀ v ∈ values, v.isNull = false := by
  have hforall := Cpp.mapM_eq_pure.1 h
  refine ⟨by rw [← hforall.length_eq, List.length_range], fun v hv => ?_⟩
  obtain ⟨i, hi, hiv⟩ := List.mem_iff_getElem.1 hv
  have hget := (List.forall₂_iff_get.1 hforall).2 i
    (by rw [hforall.length_eq]; exact hi) hi
  rw [List.get_eq_getElem, List.get_eq_getElem, hiv] at hget
  unfold Tuple.getValueAt at hget
  simp only [rawTuple, List.getElem?_nil] at hget
  split at hget
  · exact Value.isNull_deserializeFrom hget
  · cases hget

/-- A scan makes such rows. -/
lemma isRead_of_scanRow {predicate : Expression} {r : RID × List UInt8}
    (h : scanRow predicate schema r = pure (some tuple)) : tuple.IsRead schema := by
  obtain ⟨keep, -, h⟩ := Cpp.bind_eq_pure.1 h
  split_ifs at h
  · obtain ⟨values, hvalues, h⟩ := Cpp.bind_eq_pure.1 h
    obtain ⟨made, hmade, h⟩ := Cpp.bind_eq_pure.1 h
    have htuple : tuple.values = values := by
      rw [← values_of_ofValues hmade]
      cases h
      rfl
    obtain ⟨hlen, hnotNull⟩ := columnValues_rawTuple hvalues
    refine ⟨by rw [htuple, hlen], by rwa [htuple], ?_⟩
    rw [htuple]
    exact exists_ofValues_iff.1 ⟨made, hmade, values_of_ofValues hmade⟩
  · cases h

/-- The tuples of a scan are read under the schema of its table. -/
lemma isRead_of_scanRows {predicate : Expression} {rows : List (RID × List UInt8)}
    {out : List Row} (h : scanRows (scanRow predicate schema) rows = pure out) :
    ∀ row ∈ out, row.1.IsRead schema := by
  induction rows generalizing out with
  | nil =>
    cases h
    exact fun row hrow => by cases hrow
  | cons r rows ih =>
    obtain ⟨o, ho, hrest⟩ := Cpp.bind_eq_pure.1 h
    obtain ⟨out', hout', heq⟩ := Cpp.bind_eq_pure.1 hrest
    cases o with
    | none =>
      cases heq
      exact ih hout'
    | some tuple =>
      cases heq
      intro row hrow
      rcases List.mem_cons.1 hrow with rfl | hrow
      · exact isRead_of_scanRow ho
      · exact ih hout' row hrow

/-- The columns of such a tuple are its values. -/
lemma Tuple.IsRead.columnValues (h : tuple.IsRead schema) :
    OneBase.columnValues tuple schema = pure tuple.values := by
  unfold OneBase.columnValues
  rw [← h.length, Cpp.mapM_eq_pure, List.forall₂_iff_get]
  refine ⟨List.length_range, fun i hi hi' => ?_⟩
  rw [List.get_eq_getElem, List.get_eq_getElem, List.getElem_range]
  exact getValueAt_of_getElem? (List.getElem?_eq_getElem hi')

end Read

/-! ## Tables -/

/-- The catalog knows the table, and these are the rows of its heap. -/
structure TableContents (ctx : ExecutorContext) (info : TableInfo) (tuples : List Tuple) :
    Prop where
  registered : ctx.catalog.getTable info.oid = some info
  scanned : ∃ pages rows, HeapTable ctx info pages ∧
    scanRows (scanRow .null info.schema) (liveRows pages) = pure rows ∧
    rows.map Prod.fst = tuples

section Contents

variable {ctx ctx' : ExecutorContext} {info : TableInfo} {tuples result : List Tuple}
  {std : StandardLibrary}

/-- The rows of a table are read under its schema. -/
lemma TableContents.isRead (h : TableContents ctx info tuples) :
    ∀ tuple ∈ tuples, tuple.IsRead info.schema := by
  obtain ⟨pages, rows, -, hrows, rfl⟩ := h.scanned
  intro tuple htuple
  obtain ⟨row, hrow, rfl⟩ := List.mem_map.1 htuple
  exact isRead_of_scanRows hrows row hrow

/-- The plan of a table. -/
lemma TableContents.completes_seqScan (h : TableContents ctx info tuples) :
    Completes std (.seqScan info.schema info.oid .null) ctx result ctx' ↔
      ctx' = ctx ∧ result = tuples := by
  obtain ⟨pages, rows, htable, hrows, rfl⟩ := h.scanned
  rw [htable.completes_seqScan h.registered]
  constructor
  · rintro ⟨rfl, rows', hrows', rfl⟩
    rw [hrows] at hrows'
    cases hrows'
    exact ⟨rfl, rfl⟩
  · rintro ⟨rfl, rfl⟩
    exact ⟨rfl, rows, hrows, rfl⟩

/-- The rows of a table as those of a child. -/
lemma TableContents.yields (h : TableContents ctx info tuples) (std : StandardLibrary) :
    ∃ rows : List Row, rows.map Prod.fst = tuples ∧ ∃ fuel₀, ∀ fuel ≥ fuel₀,
      (createExecutor std fuel (.seqScan info.schema info.oid .null)).Yields ctx rows := by
  obtain ⟨pages, rows, htable, hrows, rfl⟩ := h.scanned
  refine ⟨rows, rfl, pages.length + (liveRows pages).length + 1, fun fuel hfuel => ?_⟩
  exact htable.yields_seqScan h.registered (by omega) (by omega) hrows

end Contents

/-! ## Joins -/

/-- Whether a predicate, which may be a `nullptr`, admits a pair of rows. -/
def admits (predicate : Expression) (leftSchema rightSchema : Schema)
    (leftTuple rightTuple : Tuple) : Bool :=
  (accepts predicate fun e =>
    e.evaluateJoin leftTuple leftSchema rightTuple rightSchema).result == some true

/-- The predicate has a truth value on all pairs of rows. -/
def Decides (predicate : Expression) (leftSchema rightSchema : Schema) (ls rs : List Tuple) :
    Prop :=
  ∀ l ∈ ls, ∀ r ∈ rs, ∃ b,
    accepts predicate (fun e => e.evaluateJoin l leftSchema r rightSchema) = pure b

/-- The row of a join, if it can be made. -/
def joined (leftTuple rightTuple : Tuple) : Tuple :=
  ((Tuple.ofValues (leftTuple.values ++ rightTuple.values)).result).getD default

section Join

variable {predicate : Expression} {leftSchema rightSchema : Schema} {l r : Tuple}
  {ls rs acc out : List Tuple} {b : Bool} {rid : RID}

/-- A condition that has a truth value decides whether a pair is admitted. -/
lemma admits_eq
    (h : accepts predicate (fun e => e.evaluateJoin l leftSchema r rightSchema) = pure b) :
    admits predicate leftSchema rightSchema l r = b := by
  unfold admits
  rw [h]
  cases b <;> rfl

/-- The row of two rows that were read. -/
lemma joinRow_eq (hl : l.IsRead leftSchema) (hr : r.IsRead rightSchema) :
    joinRow leftSchema rightSchema l r = pure (joined l r) ∧
      (joined l r).values = l.values ++ r.values := by
  have hexists : ∃ tuple, Tuple.ofValues (l.values ++ r.values) = pure tuple ∧
      tuple.values = l.values ++ r.values := by
    rw [exists_ofValues_iff]
    intro v hv
    rcases List.mem_append.1 hv with hv | hv
    · exact hl.writes v hv
    · exact hr.writes v hv
  obtain ⟨tuple, htuple, hvalues⟩ := hexists
  have hjoined : joined l r = tuple := by
    unfold joined
    rw [Cpp.result_eq_some.2 htuple]
    rfl
  refine ⟨?_, by rw [hjoined, hvalues]⟩
  rw [joinRow, hl.columnValues, pure_bind, hr.columnValues, pure_bind, htuple, hjoined]

/-- The inner loop returns iff the predicate is decided, and then it appends the admitted pairs. -/
lemma foldlM_joinPair_iff (hl : l.IsRead leftSchema) {R : List Row}
    (hR : ∀ row ∈ R, row.1.IsRead rightSchema) :
    R.foldlM (joinPair predicate leftSchema rightSchema l) acc = pure out ↔
      Decides predicate leftSchema rightSchema [l] (R.map Prod.fst) ∧
        out = acc ++ ((R.map Prod.fst).filter (admits predicate leftSchema rightSchema l)).map
          (joined l) := by
  induction R generalizing acc with
  | nil =>
    rw [List.foldlM_nil, List.map_nil, List.filter_nil, List.map_nil, List.append_nil]
    constructor
    · intro h
      cases h
      refine ⟨?_, rfl⟩
      intro _ _ r hr
      cases hr
    · rintro ⟨-, rfl⟩
      rfl
  | cons row R ih =>
    have hjoin := (joinRow_eq hl (hR row List.mem_cons_self)).1
    have ih' := fun acc => @ih acc fun row hrow => hR row (List.mem_cons_of_mem _ hrow)
    -- a round appends the row of an admitted pair
    have hstep : ∀ b, accepts predicate (fun e => e.evaluateJoin l leftSchema row.1 rightSchema) =
        pure b → joinPair predicate leftSchema rightSchema l acc row =
          pure (acc ++ ([row.1].filter (admits predicate leftSchema rightSchema l)).map
            (joined l)) := by
      intro b hb
      rw [joinPair, hb, pure_bind, List.filter_cons, admits_eq hb]
      cases b with
      | false => simp
      | true => simp [hjoin]
    rw [List.foldlM_cons, List.map_cons]
    constructor
    · intro h
      obtain ⟨mid, hmid, hrest⟩ := Cpp.bind_eq_pure.1 h
      obtain ⟨b, hb, -⟩ := Cpp.bind_eq_pure.1 hmid
      rw [hstep b hb] at hmid
      cases hmid
      obtain ⟨hdecides, rfl⟩ := (ih' _).1 hrest
      refine ⟨?_, ?_⟩
      · intro l' hl' r hr
        obtain rfl := List.mem_singleton.1 hl'
        rcases List.mem_cons.1 hr with rfl | hr
        · exact ⟨b, hb⟩
        · exact hdecides _ hl' r hr
      · rw [List.append_assoc, ← List.map_append, ← List.filter_append, List.singleton_append]
    · rintro ⟨hdecides, rfl⟩
      obtain ⟨b, hb⟩ := hdecides l List.mem_cons_self row.1 List.mem_cons_self
      refine Cpp.bind_eq_pure.2 ⟨_, hstep b hb, (ih' _).2 ⟨?_, ?_⟩⟩
      · exact fun l' hl' r hr => hdecides l' hl' r (List.mem_cons_of_mem _ hr)
      · rw [List.append_assoc, ← List.map_append, ← List.filter_append, List.singleton_append]

/-- The nested loops return iff the predicate is decided, and then they return the admitted
pairs. -/
lemma foldlM_joinPairs_iff {L R : List Row} (hL : ∀ row ∈ L, row.1.IsRead leftSchema)
    (hR : ∀ row ∈ R, row.1.IsRead rightSchema) :
    L.foldlM (fun acc l => R.foldlM (joinPair predicate leftSchema rightSchema l.1) acc) acc =
        pure out ↔
      Decides predicate leftSchema rightSchema (L.map Prod.fst) (R.map Prod.fst) ∧
        out = acc ++ Joins.pairs (admits predicate leftSchema rightSchema) joined (L.map Prod.fst)
          (R.map Prod.fst) := by
  induction L generalizing acc with
  | nil =>
    rw [List.foldlM_nil, List.map_nil]
    constructor
    · intro h
      cases h
      refine ⟨?_, by simp [Joins.pairs]⟩
      intro l hl
      cases hl
    · rintro ⟨-, rfl⟩
      simp [Joins.pairs]
  | cons l L ih =>
    have ih' := fun acc => @ih acc fun row hrow => hL row (List.mem_cons_of_mem _ hrow)
    rw [List.foldlM_cons, Cpp.bind_eq_pure, List.map_cons]
    constructor
    · rintro ⟨mid, hmid, hrest⟩
      obtain ⟨hhead, rfl⟩ := (foldlM_joinPair_iff (hL l List.mem_cons_self) hR).1 hmid
      obtain ⟨htail, rfl⟩ := (ih' _).1 hrest
      refine ⟨?_, ?_⟩
      · intro l' hl' r hr
        rcases List.mem_cons.1 hl' with rfl | hl'
        · exact hhead _ List.mem_cons_self r hr
        · exact htail l' hl' r hr
      · rw [Joins.pairs_cons, List.append_assoc]
    · rintro ⟨hdecides, rfl⟩
      refine ⟨_, (foldlM_joinPair_iff (hL l List.mem_cons_self) hR).2 ⟨?_, rfl⟩,
        (ih' _).2 ⟨?_, ?_⟩⟩
      · intro l' hl' r hr
        obtain rfl := List.mem_singleton.1 hl'
        exact hdecides _ List.mem_cons_self r hr
      · exact fun l' hl' r hr => hdecides l' (List.mem_cons_of_mem _ hl') r hr
      · rw [Joins.pairs_cons, List.append_assoc]

end Join

section Executor

variable {outputSchema : Schema} {left right : Executor} {ctx ctx' : ExecutorContext}
  {L R : List Row} {predicate : Expression} {fuel : ℕ} {rows : List Tuple}

/-- The inner loop, from the fold over the right rows. -/
lemma Executor.Yields.returns_innerLoop (hright : right.Yields ctx R) {leftSchema : Schema}
    {row : Row} (rs : right.State) {acc acc' : List Tuple} (hR : R.length < fuel)
    (h : R.foldlM (joinPair predicate leftSchema right.outputSchema row.1) acc = pure acc') :
    ∃ rs', Returns (innerLoop fuel predicate leftSchema right (rs, acc) row) ctx (rs', acc') ctx := by
  obtain ⟨st, st', hinit, hemits⟩ := hright rs
  refine ⟨st', returns_bind.2 ⟨st, ctx, hinit, ?_⟩⟩
  exact (forEachRow_ofCpp hemits).2 ⟨hR, rfl, rfl, h⟩

/-- The rows of a nested-loop join, from the fold over the pairs of rows. -/
lemma Executor.Yields.nestedLoopJoin (hleft : left.Yields ctx L) (hright : right.Yields ctx R)
    (hL : L.length < fuel) (hR : R.length < fuel)
    (h : L.foldlM (fun acc l =>
      R.foldlM (joinPair predicate left.outputSchema right.outputSchema l.1) acc) [] = pure rows) :
    (nestedLoopJoinExecutor fuel outputSchema left right predicate).Yields ctx (placeless rows) := by
  have houter : ∀ (L : List Row) (rs : right.State) (acc : List Tuple),
      L.foldlM (fun acc l =>
        R.foldlM (joinPair predicate left.outputSchema right.outputSchema l.1) acc) acc =
          pure rows →
      ∃ rs', Returns (L.foldlM (innerLoop fuel predicate left.outputSchema right) (rs, acc)) ctx
        (rs', rows) ctx := by
    intro L
    induction L with
    | nil =>
      intro rs acc hfold
      cases hfold
      exact ⟨rs, returns_pure.2 ⟨rfl, rfl⟩⟩
    | cons l L ih =>
      intro rs acc hfold
      rw [List.foldlM_cons] at hfold
      obtain ⟨mid, hmid, hrest⟩ := Cpp.bind_eq_pure.1 hfold
      obtain ⟨rs₁, hinner⟩ := hright.returns_innerLoop rs hR hmid
      obtain ⟨rs', houter⟩ := ih rs₁ mid hrest
      exact ⟨rs', returns_bind.2 ⟨(rs₁, mid), ctx, hinner, houter⟩⟩
  intro st
  obtain ⟨ls, ls', hlinit, hlemits⟩ := hleft st.children.1
  obtain ⟨rs', hfold⟩ := houter L st.children.2 [] h
  obtain ⟨st', hst'⟩ := emits_nextResult ctx (ls', rs') [] rows
  refine ⟨_, st', ?_, hst'⟩
  refine returns_bind.2 ⟨ls, ctx, hlinit, ?_⟩
  refine returns_bind.2 ⟨(ls', (rs', rows)), ctx, ?_, returns_pure.2 ⟨rfl, rfl⟩⟩
  exact (forEachRow_emits hlemits fun acc row b c _ hret =>
    (OneBase.returns_innerLoop hright hret).1).2 ⟨hL, rfl, rfl, hfold⟩

/-- The plan of a join of two tables returns iff its predicate is decided on all pairs of rows, and
then it returns the admitted pairs. -/
theorem completes_nestedLoopJoin {std : StandardLibrary} {leftInfo rightInfo : TableInfo}
    {ls rs : List Tuple} (hleft : TableContents ctx leftInfo ls)
    (hright : TableContents ctx rightInfo rs) :
    Completes std (.nestedLoopJoin outputSchema (.seqScan leftInfo.schema leftInfo.oid .null)
        (.seqScan rightInfo.schema rightInfo.oid .null) predicate) ctx rows ctx' ↔
      ctx' = ctx ∧ Decides predicate leftInfo.schema rightInfo.schema ls rs ∧
        rows = Joins.pairs (admits predicate leftInfo.schema rightInfo.schema) joined ls rs := by
  have hreadLeft := hleft.isRead
  have hreadRight := hright.isRead
  obtain ⟨L, rfl, fuelL, hL⟩ := hleft.yields std
  obtain ⟨R, rfl, fuelR, hR⟩ := hright.yields std
  have hfold := fun rows => @foldlM_joinPairs_iff predicate leftInfo.schema rightInfo.schema []
    rows L R (fun row hrow => hreadLeft row.1 (List.mem_map_of_mem hrow))
    fun row hrow => hreadRight row.1 (List.mem_map_of_mem hrow)
  constructor
  · rintro ⟨fuel₀, hreturns⟩
    obtain ⟨rfl, hrows⟩ := returns_nestedLoopJoin (hL (fuel₀ + fuelL + fuelR) (by omega))
      (hR _ (by omega)) (hreturns _ (by omega))
    obtain ⟨hdecides, heq⟩ := (hfold rows).1 hrows
    exact ⟨rfl, hdecides, by rwa [List.nil_append] at heq⟩
  · rintro ⟨rfl, hdecides, hrows⟩
    have hjoin := (hfold rows).2 ⟨hdecides, by rw [hrows, List.nil_append]⟩
    refine ⟨fuelL + fuelR + L.length + R.length + rows.length + 1, fun fuel hfuel => ?_⟩
    have hyields : (createExecutor std fuel (.nestedLoopJoin outputSchema
        (.seqScan leftInfo.schema leftInfo.oid .null)
        (.seqScan rightInfo.schema rightInfo.oid .null) predicate)).Yields ctx' (placeless rows) :=
      (hL fuel (by omega)).nestedLoopJoin (hR fuel (by omega)) (by omega) (by omega) hjoin
    refine (returns_execute hyields).2 ⟨?_, (placeless_fst _).symm, rfl⟩
    rw [length_placeless]
    omega

end Executor

end OneBase
