import OneBase.Execution.SeqScan
import OneBase.Execution.SmallTables
import OneBase.Optimizer.Optimizer

set_option relaxedAutoImplicit false
set_option autoImplicit false

/-!
# Index scans

An index scan returns the rows of the heap as `GetTuple` hands them out: their bytes can be read
with a schema, but they have no values. A sequential scan returns them with their values.

## Main definitions

* `OneBase.readings` — what the consumers of a row read of it.
* `OneBase.SameResults` — two plans return the same rows, as far as the consumers can tell.

## Main results

* `OneBase.optimizeSeqScanToIndexScan_eq` — the scans that the optimizer replaces.
* `OneBase.sameResults_indexScan_iff` — when the plan that replaces a scan has the same results.
-/

namespace OneBase

open Exec TableHeap

section Class

variable {ctx ctx' : ExecutorContext} {tableInfo : TableInfo} {pages : Pages}
  {found : List (RID × List UInt8)} {outputSchema : Schema} {oid indexOid : ℕ} {val : Value}
  {predicate : Expression} {i : IndexInfo} {k : BitVec 32} {fuel : ℕ}

/-- The state of an index scan that has returned some of the rows that it found. -/
def indexScanAt (tableInfo : TableInfo) (found : List (RID × List UInt8)) (cursor : ℕ) :
    IndexScanState :=
  { tableInfo := some tableInfo, matchingRids := found.map Prod.fst, cursor := cursor }

/-- A call of `Next` with all rows returned. -/
lemma returns_indexScanNext_end {lookupKey : Expression} {st : IndexScanState}
    (hend : st.matchingRids[st.cursor]? = none) :
    Returns ((indexScanExecutor outputSchema oid indexOid lookupKey).next st) ctx (none, st)
      ctx := by
  unfold indexScanExecutor
  simp only [hend]
  exact returns_pure.2 ⟨rfl, rfl⟩

/-- A call of `Next` with a row to return. -/
lemma HeapTable.returns_indexScanNext (h : HeapTable ctx tableInfo pages) {lookupKey : Expression}
    {st : IndexScanState} {r : RID × List UInt8} (hinfo : st.tableInfo = some tableInfo)
    (hrow : st.matchingRids[st.cursor]? = some r.1) (hr : r ∈ liveRows pages) :
    Returns ((indexScanExecutor outputSchema oid indexOid lookupKey).next st) ctx
      (some (rawTuple r, r.1), { st with cursor := st.cursor + 1 }) ctx := by
  have hrun := h.holds.getTuple h.ready h.frames hr
  unfold indexScanExecutor
  simp only [hrow]
  refine returns_bind.2 ⟨tableInfo, ctx, returns_deref.2 ⟨hinfo, rfl⟩, ?_⟩
  refine returns_bind.2 ⟨rawTuple r, ctx, returns_ofThrowing.2 ⟨ctx.bpm, hrun, rfl⟩, ?_⟩
  exact returns_pure.2 ⟨rfl, rfl⟩

/-- The rows of an index scan. -/
lemma HeapTable.emits_indexScan (h : HeapTable ctx tableInfo pages)
    {lookupKey : Expression} {before after : List (RID × List UInt8)}
    (hfound : ∀ r ∈ before ++ after, r ∈ liveRows pages) :
    Emits (indexScanExecutor outputSchema oid indexOid lookupKey).next ctx
      (indexScanAt tableInfo (before ++ after) before.length)
      (after.map fun r => (rawTuple r, r.1))
      (indexScanAt tableInfo (before ++ after) (before ++ after).length) := by
  induction after generalizing before with
  | nil =>
    rw [List.append_nil]
    exact .done (returns_indexScanNext_end (by simp [indexScanAt]))
  | cons r after ih =>
    have hassoc : before ++ r :: after = (before ++ [r]) ++ after := by simp
    have hrest := @ih (before ++ [r]) (by rwa [← hassoc])
    rw [← hassoc, List.length_append, List.length_singleton] at hrest
    have hr : r ∈ liveRows pages := hfound r (by simp)
    exact .row (h.returns_indexScanNext rfl (by simp [indexScanAt]) hr) hrest

/-- `Init` of an index scan. -/
lemma returns_indexScanInit {st s : IndexScanState}
    (hindex : ctx.catalog.getIndex indexOid = some i) :
    Returns ((indexScanExecutor outputSchema oid indexOid (.constantValue val)).init s) ctx st
      ctx' ↔ ∃ k, val.payload = .integer k ∧ ctx' = ctx ∧
        st = { tableInfo := ctx.catalog.getTable oid, matchingRids := i.rids k.toInt } := by
  have hkey : ∀ key : ℤ, (do
      let v ← (Expression.constantValue val).evaluateNull
      v.getAsInteger) = pure key ↔ ∃ k, val.payload = .integer k ∧ key = k.toInt := by
    intro key
    show val.getAsInteger = pure key ↔ _
    unfold Value.getAsInteger
    split
    · rename_i k hk
      constructor
      · intro heq
        cases heq
        exact ⟨k, hk, rfl⟩
      · rintro ⟨k', hk', rfl⟩
        cases hk.symm.trans hk'
        rfl
    · rename_i hother
      constructor
      · intro heq
        cases heq
      · rintro ⟨k, hk, -⟩
        exact absurd hk (hother k)
  constructor
  · intro hret
    obtain ⟨catalog, c₁, hcatalog, hret₁⟩ := returns_bind.1 hret
    obtain ⟨rfl, rfl⟩ := returns_getCatalog.1 hcatalog
    obtain ⟨rawKey, c₂, hraw, hret₂⟩ := returns_bind.1 hret₁
    obtain ⟨hraw', rfl⟩ := returns_ofCpp.1 hraw
    obtain ⟨k, hk, rfl⟩ := (hkey rawKey).1 hraw'
    obtain ⟨info, c₃, hderef, hret₃⟩ := returns_bind.1 hret₂
    obtain ⟨hinfo, rfl⟩ := returns_deref.1 hderef
    obtain rfl : i = info := Option.some.inj (hindex.symm.trans hinfo)
    obtain ⟨rfl, rfl⟩ := returns_pure.1 hret₃
    exact ⟨k, hk, rfl, rfl⟩
  · rintro ⟨k, hk, rfl, rfl⟩
    refine returns_bind.2 ⟨_, ctx', returns_getCatalog.2 ⟨rfl, rfl⟩, ?_⟩
    refine returns_bind.2 ⟨k.toInt, ctx', returns_ofCpp.2 ⟨(hkey _).2 ⟨k, hk, rfl⟩, rfl⟩, ?_⟩
    exact returns_bind.2 ⟨i, ctx', returns_deref.2 ⟨hindex, rfl⟩, returns_pure.2 ⟨rfl, rfl⟩⟩

/-- The rows of a plan that is an index scan. -/
lemma HeapTable.completes_indexScan (h : HeapTable ctx tableInfo pages) {std : StandardLibrary}
    (htable : ctx.catalog.getTable oid = some tableInfo)
    (hindex : ctx.catalog.getIndex indexOid = some i) (hk : val.payload = .integer k)
    (hrids : i.rids k.toInt = found.map Prod.fst) (hfound : ∀ r ∈ found, r ∈ liveRows pages)
    {result : List Tuple} :
    Completes std (.indexScan outputSchema oid indexOid (.constantValue val) predicate) ctx result
      ctx' ↔ ctx' = ctx ∧ result = found.map rawTuple := by
  have hinit : ∀ s, Returns
      ((indexScanExecutor outputSchema oid indexOid (.constantValue val)).init s) ctx
      (indexScanAt tableInfo found 0) ctx := by
    intro s
    refine (returns_indexScanInit hindex).2 ⟨k, hk, rfl, ?_⟩
    rw [htable, hrids]
    rfl
  have hyields : (indexScanExecutor outputSchema oid indexOid (.constantValue val)).Yields ctx
      (found.map fun r => (rawTuple r, r.1)) :=
    fun s => ⟨_, _, hinit s, @HeapTable.emits_indexScan _ _ _ _ _ _ h _ [] found hfound⟩
  have hresult : (found.map fun r => (rawTuple r, r.1)).map Prod.fst = found.map rawTuple := by
    rw [List.map_map]
    rfl
  constructor
  · rintro ⟨fuel, hreturns⟩
    obtain ⟨-, rfl, rfl⟩ := (returns_execute hyields).1 (hreturns fuel le_rfl)
    exact ⟨rfl, hresult⟩
  · rintro ⟨rfl, rfl⟩
    refine ⟨found.length + 1, fun fuel hfuel => ?_⟩
    refine (returns_execute hyields).2 ⟨?_, hresult.symm, rfl⟩
    rw [List.length_map]
    omega

/-- An index scan for a value that is no integer does not return. -/
lemma not_completes_indexScan {std : StandardLibrary} {result : List Tuple}
    (hindex : ctx.catalog.getIndex indexOid = some i) (hval : ∀ k, val.payload ≠ .integer k) :
    ¬ Completes std (.indexScan outputSchema oid indexOid (.constantValue val) predicate) ctx result
      ctx' := by
  rintro ⟨fuel, hreturns⟩
  obtain ⟨st, c, hinit, -⟩ := returns_bind.1 (hreturns fuel le_rfl)
  obtain ⟨k, hk, -⟩ := (returns_indexScanInit hindex).1 hinit
  exact hval k hk

end Class

/-! ## The rewrite -/

/-- What the consumers of a row read of it: `GetValue(i)` and `GetValue(schema, i)`. -/
def readings (schema : Schema) (tuple : Tuple) (i : ℕ) : Value × Cpp Value :=
  (tuple.getValue i, tuple.getValueAt schema i)

/-- If one of the plans returns, then so does the other, and with the same rows: as a multiset, and
as the consumers read them. -/
def SameResults (std : StandardLibrary) (ctx : ExecutorContext) (schema : Schema)
    (plan plan' : PlanNode) : Prop :=
  (∀ rows c, Completes std plan ctx rows c → ∃ rows', Completes std plan' ctx rows' c ∧
    (rows.map (readings schema)).Perm (rows'.map (readings schema))) ∧
  ∀ rows' c, Completes std plan' ctx rows' c → ∃ rows, Completes std plan ctx rows c ∧
    (rows.map (readings schema)).Perm (rows'.map (readings schema))

/-- There is nothing to find: the constant is an integer that no row has in the column, or it is
of another type, and there is a row with which it cannot be compared. -/
def NothingToFind (predicate : Expression) (rows : List (RID × List UInt8)) : Prop :=
  ∃ colIdx val, lookupOperands predicate = some (colIdx, .constantValue val) ∧
    ((∃ k, val.payload = .integer k ∧ ∀ r ∈ rows, integerAt r.2 colIdx ≠ k) ∨
      (∀ k, val.payload ≠ .integer k) ∧ rows ≠ [])

section Rewrite

variable {ctx ctx' : ExecutorContext} {tableInfo : TableInfo} {pages : Pages} {val : Value}
  {predicate lookupKey : Expression} {colIdx oid indexOid : ℕ} {r : RID × List UInt8}
  {k : BitVec 32} {outputSchema : Schema} {i : IndexInfo} {oids : List ℕ}

/-- The comparison of an integer with a value of another type throws. -/
lemma compareEquals_ofInt_ne {b : Value} (n : BitVec 32) (hval : ∀ k, val.payload ≠ .integer k) :
    Value.compareEquals (Value.ofInt n) val ≠ pure b ∧
      Value.compareEquals val (Value.ofInt n) ≠ pure b := by
  have htype : (Value.ofInt n).getTypeId ≠ val.getTypeId := by
    obtain ⟨payload, isNull⟩ := val
    cases payload with
    | integer k => exact absurd rfl (hval k)
    | _ => simp [Value.ofInt, Value.getTypeId, Payload.typeId]
  constructor
  · intro heq
    exact htype (Value.compareWith_returns heq).1
  · intro heq
    exact htype (Value.compareWith_returns heq).1.symm

/-- A lookup predicate on a row of integers. -/
lemma IntegerTable.accepts_lookup (h : IntegerTable ctx tableInfo pages) (hr : r ∈ liveRows pages)
    (hcol : colIdx < tableInfo.schema.columns.length)
    (hoperands : lookupOperands predicate = some (colIdx, .constantValue val)) :
    (∀ k, val.payload = .integer k →
      accepts predicate (fun e => e.evaluate (rawTuple r) tableInfo.schema) =
        pure (decide (integerAt r.2 colIdx = k))) ∧
      ((∀ k, val.payload ≠ .integer k) → ∀ b,
        accepts predicate (fun e => e.evaluate (rawTuple r) tableInfo.schema) ≠ pure b) := by
  obtain ⟨tupleIdx, type, v, hv, hshape⟩ := lookupOperands_eq hoperands
  obtain rfl : val = v := Expression.constantValue.inj hv
  have hsize := (h.length_le hr).2
  have hcolumn := h.schema.getValueAt_raw hcol (h.rows r hr) (by unfold pageSize at hsize; omega)
  have hnull : predicate ≠ .null := by
    rcases hshape with rfl | rfl <;> exact nofun
  have hevaluate : predicate.evaluate (rawTuple r) tableInfo.schema =
      Value.compareEquals (Value.ofInt (integerAt r.2 colIdx)) val ∨
      predicate.evaluate (rawTuple r) tableInfo.schema =
        Value.compareEquals val (Value.ofInt (integerAt r.2 colIdx)) := by
    rcases hshape with rfl | rfl
    · left
      unfold Expression.evaluate
      simp only [Expression.evaluateWith, hcolumn, pure_bind]
      rfl
    · right
      unfold Expression.evaluate
      simp only [Expression.evaluateWith, hcolumn, pure_bind]
      rfl
  have haccepts : accepts predicate (fun e => e.evaluate (rawTuple r) tableInfo.schema) =
      predicate.evaluate (rawTuple r) tableInfo.schema >>= Expression.holds := if_neg hnull
  rw [haccepts]
  constructor
  · intro k hk
    have htype : (Value.ofInt (integerAt r.2 colIdx)).getTypeId = val.getTypeId := by
      simp [Value.getTypeId, hk, Value.ofInt, Payload.typeId]
    have hkey : Value.IsKeyType val.getTypeId := by
      rw [← htype]
      exact .inl rfl
    have hpayload : (Value.ofInt (integerAt r.2 colIdx)).payload = val.payload ↔
        integerAt r.2 colIdx = k := by
      rw [hk]
      exact Payload.integer.injEq _ _ ▸ Iff.rfl
    rcases hevaluate with heq | heq
    · rw [heq, Value.compareEquals_eq htype (htype ▸ hkey), pure_bind, decide_eq_decide.2 hpayload]
      rfl
    · rw [heq, Value.compareEquals_eq htype.symm hkey, pure_bind,
        decide_eq_decide.2 (eq_comm.trans hpayload)]
      rfl
  · intro hval b heq
    obtain ⟨value, hvalue, -⟩ := Cpp.bind_eq_pure.1 heq
    obtain ⟨hne, hne'⟩ := compareEquals_ofInt_ne (b := value) (integerAt r.2 colIdx) hval
    rcases hevaluate with hev | hev
    · exact hne (hev.symm.trans hvalue)
    · exact hne' (hev.symm.trans hvalue)

/-- The rows that an agreeing index finds, in the order in which it files them. -/
lemma IndexInfo.Agrees.exists_found {attr : ℕ} {rows : List (RID × List UInt8)}
    (h : i.Agrees attr rows) (key : ℤ) :
    ∃ found : List (RID × List UInt8), i.rids key = found.map Prod.fst ∧
      ∀ r ∈ found, r ∈ rows ∧ keyAt attr r.2 = key := by
  have hrow : ∀ rid ∈ i.rids key, ∃ b, (rid, b) ∈ rows ∧ keyAt attr b = key :=
    fun rid hrid => (h.mem_iff key rid).1 hrid
  choose! bytes hbytes using hrow
  refine ⟨(i.rids key).map fun rid => (rid, bytes rid), ?_, ?_⟩
  · rw [List.map_map]
    exact (List.map_id _).symm
  · intro r hr
    obtain ⟨rid, hrid, rfl⟩ := List.mem_map.1 hr
    exact hbytes rid hrid

/-- A lookup finds nothing iff no row has the key. -/
lemma IndexInfo.Agrees.rids_eq_nil_iff {attr : ℕ} {rows : List (RID × List UInt8)}
    (h : i.Agrees attr rows) (k : BitVec 32) :
    i.rids k.toInt = [] ↔ ∀ r ∈ rows, integerAt r.2 attr ≠ k := by
  rw [List.eq_nil_iff_forall_not_mem]
  constructor
  · rintro hnil ⟨rid, b⟩ hr rfl
    exact hnil rid ((h.mem_iff _ _).2 ⟨b, hr, rfl⟩)
  · intro hne rid hrid
    obtain ⟨b, hb, hkey⟩ := (h.mem_iff _ _).1 hrid
    exact hne _ hb (BitVec.toInt_inj.1 hkey)

/-- The index that the optimizer found. -/
lemma TableIndexes.exists_index (hindexes : TableIndexes ctx.catalog tableInfo oids)
    (htable : ctx.catalog.getTable oid = some tableInfo)
    (hopt : optimizeSeqScanToIndexScan (some ctx.catalog) (.seqScan outputSchema oid predicate) =
      pure (.indexScan outputSchema oid indexOid lookupKey predicate)) :
    ∃ colIdx val i, lookupKey = .constantValue val ∧
      lookupOperands predicate = some (colIdx, .constantValue val) ∧
      colIdx < tableInfo.schema.columns.length ∧ indexOid ∈ oids ∧
      ctx.catalog.getIndex indexOid = some i ∧ i.supportsPointLookup = true ∧
      i.getLookupAttr = pure colIdx := by
  obtain ⟨colIdx, info, indexes, hoperands, hinfo, hlisted, hfind⟩ :=
    optimizeSeqScanToIndexScan_eq hopt
  obtain rfl : tableInfo = info := Option.some.inj (htable.symm.trans hinfo)
  obtain rfl : oids = indexes := by
    have heq := hindexes.listed.symm.trans hlisted
    cases heq
    rfl
  obtain ⟨found, hmem, i, hi, hlookup, hattr, rfl⟩ := findLookupIndex_eq hfind
  obtain ⟨i', hi', hoid, attr, hlt, hattr'⟩ := hindexes.filed _ hmem
  obtain rfl : i = i' := Option.some.inj (hi.symm.trans hi')
  obtain rfl : colIdx = attr := by
    have heq := hattr.symm.trans hattr'
    cases heq
    rfl
  obtain ⟨-, -, val, hval, -⟩ := lookupOperands_eq hoperands
  rw [hoid]
  exact ⟨colIdx, val, i, hval, hval ▸ hoperands, hlt, hmem, hi, hlookup, hattr⟩

/-- A row with its values is told from a row of the heap by any of its columns. -/
lemma readings_parsedTuple_ne {schema : Schema} {n : ℕ} (hcol : colIdx < n)
    (r r' : RID × List UInt8) :
    readings schema (parsedTuple n r) ≠ readings schema (rawTuple r') := by
  intro heq
  have hvalue := congrArg Prod.fst (congrFun heq colIdx)
  simp [readings, Tuple.getValue, parsedTuple, rawTuple, getElem?_integersOf hcol, Value.ofInt,
    default, Value.null, Payload.zero] at hvalue

/-- **The index-scan rewrite.** On a table of integers whose indexes agree with its rows, the plan
that replaces a scan has the same results iff there is nothing to find. -/
theorem sameResults_indexScan_iff {std : StandardLibrary} (h : IntegerTable ctx tableInfo pages)
    (htable : ctx.catalog.getTable oid = some tableInfo)
    (hindexes : TableIndexes ctx.catalog tableInfo oids)
    (hagrees : ctx.catalog.Agrees oids (liveRows pages))
    (hopt : optimizeSeqScanToIndexScan (some ctx.catalog) (.seqScan outputSchema oid predicate) =
      pure (.indexScan outputSchema oid indexOid lookupKey predicate)) :
    SameResults std ctx outputSchema (.seqScan outputSchema oid predicate)
        (.indexScan outputSchema oid indexOid lookupKey predicate) ↔
      NothingToFind predicate (liveRows pages) := by
  obtain ⟨colIdx, val, i, rfl, hoperands, hcol, hmem, hi, hlookup, hattr⟩ :=
    hindexes.exists_index htable hopt
  have hfiled := hagrees _ hmem i colIdx hi hlookup hattr
  by_cases hint : ∃ k, val.payload = .integer k
  · obtain ⟨k, hk⟩ := hint
    have hcond : NothingToFind predicate (liveRows pages) ↔
        ∀ r ∈ liveRows pages, integerAt r.2 colIdx ≠ k := by
      unfold NothingToFind
      simp [hoperands, hk]
    -- both scans return: the rows with the key, and what the index files under it
    obtain ⟨found, hrids, hfound⟩ := hfiled.exists_found k.toInt
    have hscan := scanRows_of_keep (fun r hr =>
      h.scanRow hr ((h.accepts_lookup hr hcol hoperands).1 k hk))
    have hseq : Completes std (.seqScan outputSchema oid predicate) ctx _ ctx :=
      (h.completes_seqScan htable).2 ⟨rfl, _, hscan, rfl⟩
    have hindex : Completes std
        (.indexScan outputSchema oid indexOid (.constantValue val) predicate) ctx _ ctx :=
      (h.completes_indexScan htable hi hk hrids fun r hr => (hfound r hr).1).2 ⟨rfl, rfl⟩
    rw [hcond]
    constructor
    · rintro ⟨hforth, -⟩ r hr hkey
      obtain ⟨rows', hrows', hperm⟩ := hforth _ _ hseq
      obtain ⟨-, rfl⟩ := (h.completes_indexScan htable hi hk hrids
        fun r hr => (hfound r hr).1).1 hrows'
      have hin : readings outputSchema (parsedTuple tableInfo.schema.columns.length r) ∈
          (found.map rawTuple).map (readings outputSchema) := by
        apply hperm.subset
        apply List.mem_map_of_mem
        rw [List.map_map]
        apply List.mem_map.2 ⟨r, ?_, rfl⟩
        exact List.mem_filter.2 ⟨hr, by simpa using hkey⟩
      obtain ⟨t, ht, heq⟩ := List.mem_map.1 hin
      obtain ⟨r', -, rfl⟩ := List.mem_map.1 ht
      exact readings_parsedTuple_ne hcol r r' heq.symm
    · intro hnone
      have hfilter : (liveRows pages).filter (fun r => decide (integerAt r.2 colIdx = k)) = [] := by
        rw [List.filter_eq_nil_iff]
        intro r hr
        simpa using hnone r hr
      have hnil : found = [] := by
        rw [(hfiled.rids_eq_nil_iff k).2 hnone] at hrids
        exact List.map_eq_nil_iff.1 hrids.symm
      subst hnil
      rw [hfilter] at hscan
      constructor
      · intro rows c hrows
        obtain ⟨rfl, rows', hrows', rfl⟩ := (h.completes_seqScan htable).1 hrows
        cases hscan.symm.trans hrows'
        exact ⟨_, hindex, .refl _⟩
      · intro rows c hrows
        obtain ⟨rfl, rfl⟩ := (h.completes_indexScan htable hi hk hrids
          fun r hr => (hfound r hr).1).1 hrows
        rw [hfilter] at hseq
        exact ⟨_, hseq, .refl _⟩
  · have hval : ∀ k, val.payload ≠ .integer k := fun k hk => hint ⟨k, hk⟩
    have hcond : NothingToFind predicate (liveRows pages) ↔ liveRows pages ≠ [] := by
      unfold NothingToFind
      simp [hoperands, hval]
    rw [hcond]
    constructor
    · rintro ⟨hforth, -⟩ hnil
      have hseq : Completes std (.seqScan outputSchema oid predicate) ctx [] ctx :=
        (h.completes_seqScan htable).2 ⟨rfl, [], by rw [hnil]; rfl, rfl⟩
      obtain ⟨rows', hrows', -⟩ := hforth _ _ hseq
      exact not_completes_indexScan hi hval hrows'
    · intro hne
      constructor
      · intro rows c hrows
        obtain ⟨-, rows', hscan, -⟩ := (h.completes_seqScan htable).1 hrows
        obtain ⟨r, rest, hlive⟩ := List.exists_cons_of_ne_nil hne
        have hr : r ∈ liveRows pages := by
          rw [hlive]
          exact List.mem_cons_self
        rw [hlive] at hscan
        obtain ⟨o, ho, -⟩ := Cpp.bind_eq_pure.1 hscan
        obtain ⟨keep, hkeep, -⟩ := Cpp.bind_eq_pure.1 ho
        exact absurd hkeep ((h.accepts_lookup hr hcol hoperands).2 hval keep)
      · intro rows c hrows
        exact absurd hrows (not_completes_indexScan hi hval)

/-- `a = n`. -/
def lookupPredicate (n : BitVec 32) : Expression :=
  .comparison (.columnValue 0 0 .integer) (.constantValue (Value.ofInt n)) .equal

/-- The optimizer replaces the scan of the sample by an index scan. -/
lemma optimize_smallContext (n : BitVec 32) :
    optimizeSeqScanToIndexScan (some (smallContext ["a"] [[7]] (some 0)).catalog)
      (.seqScan (smallTable ["a"]).schema 1 (lookupPredicate n)) =
    pure (.indexScan (smallTable ["a"]).schema 1 1 (.constantValue (Value.ofInt n))
      (lookupPredicate n)) := rfl

/-- The sample is a table of integers. -/
lemma integerTable_seven : IntegerTable (smallContext ["a"] [[7]] (some 0)) (smallTable ["a"])
    (smallPages [[7]]) :=
  integerTable_smallContext (by decide) (by decide)

/-- In a table with the row 7, nobody misses the row 3. -/
theorem sameResults_indexScan_three :
    SameResults default (smallContext ["a"] [[7]] (some 0)) (smallTable ["a"]).schema
      (.seqScan (smallTable ["a"]).schema 1 (lookupPredicate 3))
      (.indexScan (smallTable ["a"]).schema 1 1 (.constantValue (Value.ofInt 3))
        (lookupPredicate 3)) := by
  have hfilter : NothingToFind (lookupPredicate 3) (liveRows (smallPages [[7]])) :=
    ⟨0, Value.ofInt 3, rfl, .inl ⟨3, rfl, by decide⟩⟩
  exact (sameResults_indexScan_iff integerTable_seven rfl
    (tableIndexes_smallContext (by decide)) (agrees_smallContext _ _ _)
    (optimize_smallContext 3)).2 hfilter

/-- The row 7 is returned without its value. -/
theorem not_sameResults_indexScan_seven :
    ¬ SameResults default (smallContext ["a"] [[7]] (some 0)) (smallTable ["a"]).schema
      (.seqScan (smallTable ["a"]).schema 1 (lookupPredicate 7))
      (.indexScan (smallTable ["a"]).schema 1 1 (.constantValue (Value.ofInt 7))
        (lookupPredicate 7)) := by
  rintro ⟨hforth, -⟩
  have hscan : scanRows (scanRow (lookupPredicate 7) (smallTable ["a"]).schema)
      (liveRows (smallPages [[7]])) =
        pure [(parsedTuple 1 (⟨0, 0⟩, [7, 0, 0, 0]), ⟨0, 0⟩)] := by rfl
  obtain ⟨rows, hrows, hperm⟩ := hforth _ _
    ((integerTable_seven.completes_seqScan rfl).2 ⟨rfl, _, hscan, rfl⟩)
  have hrids : (smallIndex ["a"] [[7]] 0).rids (7 : BitVec 32).toInt =
      [((⟨0, 0⟩, [7, 0, 0, 0]) : RID × List UInt8)].map Prod.fst := by rfl
  have hlive : ∀ r ∈ [((⟨0, 0⟩, [7, 0, 0, 0]) : RID × List UInt8)],
      r ∈ liveRows (smallPages [[7]]) := by decide
  obtain ⟨-, rfl⟩ := (integerTable_seven.completes_indexScan rfl rfl rfl hrids hlive).1 hrows
  have hin := hperm.subset List.mem_cons_self
  obtain ⟨t, ht, heq⟩ := List.mem_map.1 hin
  obtain ⟨r', -, rfl⟩ := List.mem_map.1 ht
  exact readings_parsedTuple_ne Nat.one_pos _ r' heq.symm

end Rewrite

end OneBase
