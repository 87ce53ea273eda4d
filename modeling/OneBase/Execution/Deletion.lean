import OneBase.Execution.IndexScan
import OneBase.Execution.SelfInsert
import OneBase.Storage.Table.HeapStore

set_option relaxedAutoImplicit false
set_option autoImplicit false

/-!
# Deleting rows under a scan

`DELETE FROM t WHERE p` deletes each row as soon as its child has returned it, from the heap and
from the indexes of the table. A sequential scan has already gone on to the next row by then, and
an index scan follows a copy of the list that it found.

## Main definitions

* `OneBase.Feeds` — a child whose rows are deleted one by one while it goes on.
* `OneBase.DeletesExactly` — the statement deletes the rows that match, and counts them.
* `OneBase.Expression.OverIntegers` — predicates over the columns of a table of integers.

## Main results

* `OneBase.feeds_seqScan`, `OneBase.feeds_indexScan` — both scans, under deletions.
* `OneBase.IntegerTable.deleteLoop` — the loop of the statement.
* `OneBase.deletesExactly_iff` — the statement is exact iff its count is a number of 32 bits.
-/

namespace OneBase

open Effect.Program Exec TableHeap

/-! ## Children under deletions -/

/-- From the state `st` on, the child returns the rows `todo` of a table that holds `rows` on at
most `m` pages, each in a context in which those before it have been deleted. -/
def Feeds {σ : Type} (next : σ → Exec (Option Row × σ)) (tableInfo : TableInfo) (m : ℕ) :
    List (RID × List UInt8) → σ → List (RID × List UInt8) → Prop
  | [], st, rows => ∀ c pages, IntegerTable c tableInfo pages → pages.length ≤ m →
      liveRows pages = rows → ∃ st', Returns (next st) c (none, st') c
  | r :: todo, st, rows => ∀ c pages, IntegerTable c tableInfo pages → pages.length ≤ m →
      liveRows pages = rows → ∃ tuple st', Carries tableInfo.schema r.2 tuple ∧
        Returns (next st) c (some (tuple, r.1), st') c ∧ Feeds next tableInfo m todo st' (rows.erase r)

section Children

variable {ctx : ExecutorContext} {tableInfo : TableInfo} {pages : Pages} {predicate : Expression}
  {schema : Schema} {seen ahead todo rows : List (RID × List UInt8)} {r : RID × List UInt8}
  {fuel m oid indexOid : ℕ} {outputSchema : Schema} {lookupKey : Expression}

/-- Erasing the element in the middle of a list without repetitions. -/
lemma erase_middle {before after : List (RID × List UInt8)} (h : (before ++ r :: after).Nodup) :
    (before ++ r :: after).erase r = before ++ after := by
  have hout : r ∉ before :=
    fun hmem => (List.nodup_append.1 h).2.2 r hmem r List.mem_cons_self rfl
  rw [List.erase_append_right _ hout, List.erase_cons_head]

/-- Whether a row matches, if the predicate can be evaluated on it. -/
lemma selects_eq (h : ∃ keep, selects predicate schema r.2 = pure keep) :
    selects predicate schema r.2 = pure (isMatch predicate schema r) := by
  obtain ⟨keep, hkeep⟩ := h
  rw [hkeep]
  congr 1
  rw [Bool.eq_iff_iff, isMatch_iff, hkeep]
  constructor
  · rintro rfl
    rfl
  · intro heq
    cases heq
    rfl

/-- What a scan makes of a row on which the predicate can be evaluated. -/
lemma IntegerTable.scanRow_eq (h : IntegerTable ctx tableInfo pages) (hr : r ∈ liveRows pages)
    (hevaluates : ∃ keep, selects predicate tableInfo.schema r.2 = pure keep) :
    OneBase.scanRow predicate tableInfo.schema r =
      pure (if isMatch predicate tableInfo.schema r then
        some (parsedTuple tableInfo.schema.columns.length r) else none) := by
  apply h.scanRow hr
  rw [accepts_rawTuple]
  exact selects_eq hevaluates

/-- A sequential scan is one row ahead of the deletions. -/
lemma feeds_seqScan
    (hevaluates : ∀ r ∈ ahead, ∃ keep, selects predicate tableInfo.schema r.2 = pure keep)
    (htodo : matching predicate tableInfo.schema ahead = todo) (hnodup : (seen ++ ahead).Nodup)
    (hlen : ahead.length < fuel) (hm : m < fuel) :
    Feeds (seqScanNext fuel predicate fuel) tableInfo m todo (scanAt tableInfo ahead)
      (seen ++ ahead) := by
  induction todo generalizing seen ahead with
  | nil =>
    intro c pages h hpages hrows
    have hscan : Scans (scanRow predicate tableInfo.schema) ahead none [] := by
      refine Scans.none_iff.2 ⟨rfl, fun r hr => ?_⟩
      have hlive : r ∈ liveRows pages := by
        rw [hrows]
        exact List.mem_append_right _ hr
      rw [h.scanRow_eq hlive (hevaluates r hr), if_neg (List.filter_eq_nil_iff.1 htodo r hr)]
    exact ⟨_, h.returns_seqScanNext (hpages.trans_lt hm) hscan hlen hrows⟩
  | cons r todo ih =>
    obtain ⟨skipped, rest, rfl, hskipped, hr, htodo'⟩ := List.filter_eq_cons_iff.1 htodo
    intro c pages h hpages hrows
    have hlive : ∀ x ∈ skipped ++ r :: rest, x ∈ liveRows pages := by
      intro x hx
      rw [hrows]
      exact List.mem_append_right _ hx
    have hscan : Scans (scanRow predicate tableInfo.schema) (skipped ++ r :: rest)
        (some (parsedTuple tableInfo.schema.columns.length r, r.1)) rest := by
      refine Scans.some_iff.2 ⟨skipped, r, rfl, fun x hx => ?_, ?_, rfl⟩
      · have hx' : x ∈ skipped ++ r :: rest := List.mem_append_left _ hx
        rw [h.scanRow_eq (hlive x hx') (hevaluates x hx'), if_neg (hskipped x hx)]
      · have hr' : r ∈ skipped ++ r :: rest := List.mem_append_right _ List.mem_cons_self
        rw [h.scanRow_eq (hlive r hr') (hevaluates r hr'), if_pos hr]
    refine ⟨_, _, carries_parsedTuple rfl, h.returns_seqScanNext (hpages.trans_lt hm) hscan hlen
      hrows, ?_⟩
    -- the row is deleted where the scan has passed, and what lies ahead stays
    have herase : (seen ++ (skipped ++ r :: rest)).erase r = (seen ++ skipped) ++ rest := by
      rw [← List.append_assoc] at hnodup ⊢
      exact erase_middle hnodup
    rw [herase]
    refine ih (fun x hx => hevaluates x (by simp [hx])) htodo' ?_ ?_
    · rw [← herase]
      exact hnodup.erase r
    · simp only [List.length_append, List.length_cons] at hlen
      omega

/-- An index scan has copied the list of its rows. -/
lemma feeds_indexScan {before after : List (RID × List UInt8)}
    (hrows : ∀ r ∈ after, r ∈ rows) (hnodup : after.Nodup) :
    Feeds (indexScanExecutor outputSchema oid indexOid lookupKey).next tableInfo m after
      (indexScanAt tableInfo (before ++ after) before.length) rows := by
  induction after generalizing before rows with
  | nil =>
    intro c pages h _ _
    exact ⟨_, returns_indexScanNext_end (by simp [indexScanAt])⟩
  | cons r after ih =>
    intro c pages h _ hlive
    have hr : r ∈ liveRows pages := by
      rw [hlive]
      exact hrows r List.mem_cons_self
    have hsize := (h.length_le hr).2
    have hcarries : Carries tableInfo.schema r.2 (rawTuple r) :=
      carries_rawTuple h.schema (h.rows r hr) (by unfold pageSize at hsize; omega)
    refine ⟨_, _, hcarries, h.returns_indexScanNext rfl (by simp [indexScanAt]) hr, ?_⟩
    have hassoc : before ++ r :: after = (before ++ [r]) ++ after := by simp
    rw [List.nodup_cons] at hnodup
    have hrest := @ih (rows.erase r) (before ++ [r]) (fun x hx => by
      refine (List.mem_erase_of_ne ?_).2 (hrows x (List.mem_cons_of_mem r hx))
      rintro rfl
      exact hnodup.1 hx) hnodup.2
    rw [List.length_append, List.length_singleton, ← hassoc] at hrest
    exact hrest

end Children

/-! ## The loop -/

section Loop

variable {ctx : ExecutorContext} {tableInfo : TableInfo} {pages : Pages} {oids : List ℕ}
  {todo : List (RID × List UInt8)} {m : ℕ}

/-- The rows of a table are different. -/
lemma HeapTable.nodup_rows (h : HeapTable ctx tableInfo pages) : (liveRows pages).Nodup :=
  (nodup_liveRows h.holds.nodup).of_map _

/-- A deleted row is erased from the list of the rows. -/
lemma RowDeleted.erase {b : List UInt8} {rid : RID} {ctx' : ExecutorContext} {pages' : Pages}
    (h : RowDeleted tableInfo oids b ctx pages rid ctx' pages')
    (hnodup : (liveRows pages).Nodup) : liveRows pages' = (liveRows pages).erase (rid, b) := by
  obtain ⟨before, after, hrows, hrows'⟩ := h.rows
  rw [hrows] at hnodup
  rw [hrows, hrows', erase_middle hnodup]

/-- The loop deletes the rows that the child returns, and counts them. -/
lemma IntegerTable.deleteLoop {σ : Type} {next : σ → Exec (Option Row × σ)} {st : σ}
    (h : IntegerTable ctx tableInfo pages) (hindexes : TableIndexes ctx.catalog tableInfo oids)
    (hfeeds : Feeds next tableInfo m todo st (liveRows pages)) (hm : pages.length ≤ m)
    (hrows : ∀ r ∈ todo, r ∈ liveRows pages) (hnodup : todo.Nodup) (n : ℕ)
    (hn : todo.length < n) (count : ℤ) (hcount : count + todo.length < 2 ^ 31) :
    ∃ st' ctx' pages', Returns (forEachRow next (deleteRow tableInfo oids) n st count) ctx
        (st', count + todo.length) ctx' ∧ IntegerTable ctx' tableInfo pages' ∧
      liveRows pages' = (liveRows pages).diff todo := by
  induction todo generalizing n st ctx pages count with
  | nil =>
    obtain ⟨n, rfl⟩ := Nat.exists_eq_add_of_lt hn
    obtain ⟨st', hnext⟩ := hfeeds ctx pages h hm rfl
    refine ⟨st', ctx, pages, returns_bind.2 ⟨_, ctx, hnext, ?_⟩, h, (List.diff_nil _).symm⟩
    rw [List.length_nil, Nat.cast_zero, add_zero]
    exact returns_pure.2 ⟨rfl, rfl⟩
  | cons r todo ih =>
    rw [List.length_cons] at hn hcount
    rw [List.nodup_cons] at hnodup
    obtain ⟨n, rfl⟩ : ∃ k, n = k + 1 := ⟨n - 1, by omega⟩
    obtain ⟨tuple, st', hcarries, hnext, hfeeds'⟩ := hfeeds ctx pages h hm rfl
    have hr : r ∈ liveRows pages := hrows r List.mem_cons_self
    obtain ⟨c, hbody⟩ : ∃ c, Returns (deleteRow tableInfo oids count (tuple, r.1)) ctx
        (count + 1) c := h.exists_deleteRow hindexes hcarries hr (by omega)
    obtain ⟨-, pages', hdeleted⟩ := h.deleteRow_returns hindexes.nodup hcarries hr hbody
    obtain ⟨t, -, hmaintained⟩ := hdeleted.catalog
    have herase := hdeleted.erase h.nodup_rows
    rw [← herase] at hfeeds'
    have hlen : pages'.length = pages.length := by
      simpa using congrArg List.length hdeleted.pages_eq
    have hrows' : ∀ x ∈ todo, x ∈ liveRows pages' := by
      intro x hx
      rw [herase]
      refine (List.mem_erase_of_ne ?_).2 (hrows x (List.mem_cons_of_mem r hx))
      rintro rfl
      exact hnodup.1 hx
    obtain ⟨s, ctx', pages'', hloop, htable, hdiff⟩ := ih hdeleted.table
      (hindexes.maintained hmaintained (onlyEntries_deleteChange _ _ _)) hfeeds'
      (hlen.trans_le hm) hrows' hnodup.2 n (by omega) (count + 1) (by omega)
    refine ⟨s, ctx', pages'', ?_, htable, ?_⟩
    · rw [List.length_cons, Nat.cast_succ, add_comm (todo.length : ℤ), ← add_assoc]
      exact returns_bind.2 ⟨_, ctx, hnext, returns_bind.2 ⟨_, c, hbody, hloop⟩⟩
    · rw [hdiff, herase, List.diff_cons]

end Loop

/-! ## The statement -/

/-- With enough fuel, the statement returns a row with the number of the rows that matched before it
began. Afterwards an iteration over the heap visits the other rows, in their order, and each of
them has its bytes. -/
def DeletesExactly (std : StandardLibrary) (ctx : ExecutorContext) (tableInfo : TableInfo)
    (pages : Pages) (plan : PlanNode) (predicate : Expression) : Prop :=
  ∃ fuel₀, ∀ fuel ≥ fuel₀, ∃ tuple k ctx',
    Returns (executePlan std fuel plan) ctx [tuple] ctx' ∧
    tuple.values = [Value.ofInt k] ∧
    k.toInt = (matching predicate tableInfo.schema (liveRows pages)).length ∧
    Terminates ctx'.poolSize (fun fuel => iterate fuel tableInfo.table) ctx'.bpm
      (((liveRows pages).filter fun r => !isMatch predicate tableInfo.schema r).map Prod.fst)
      ctx'.bpm ∧
    ∀ r ∈ liveRows pages, isMatch predicate tableInfo.schema r = false →
      (TableHeap.getTuple r.1).run (PageStore.handler ctx'.poolSize) ctx'.bpm =
        some (.ok (rawTuple r), ctx'.bpm)

/-- A predicate over `n` integer columns and integer constants. -/
def Expression.OverIntegers (n : ℕ) : Expression → Prop
  | .null => False
  | .columnValue _ colIdx _ => colIdx < n
  | .constantValue val => ∃ k, val = Value.ofInt k
  | .comparison left right _ => left.OverIntegers n ∧ right.OverIntegers n
  | .arithmetic left right _ => left.OverIntegers n ∧ right.OverIntegers n
  | .logic left right _ => left.OverIntegers n ∧ right.OverIntegers n

section Statement

variable {std : StandardLibrary} {ctx : ExecutorContext} {tableInfo : TableInfo} {pages : Pages}
  {oids : List ℕ} {predicate lookupKey : Expression} {outputSchema scanSchema : Schema}
  {oid indexOid : ℕ}

/-- The constant of a lookup is an integer. -/
lemma Expression.OverIntegers.lookup {n colIdx : ℕ} {val : Value} (h : predicate.OverIntegers n)
    (hoperands : lookupOperands predicate = some (colIdx, .constantValue val)) :
    ∃ k, val.payload = .integer k := by
  obtain ⟨tupleIdx, type, v, hv, hshape⟩ := lookupOperands_eq hoperands
  obtain rfl : val = v := Expression.constantValue.inj hv
  rcases hshape with rfl | rfl
  · obtain ⟨-, k, rfl⟩ := h
    exact ⟨k, rfl⟩
  · obtain ⟨⟨k, rfl⟩, -⟩ := h
    exact ⟨k, rfl⟩

/-- A statement over a child that returns the rows that match, in any order. -/
lemma IntegerTable.deletesExactly (h : IntegerTable ctx tableInfo pages)
    (htable : ctx.catalog.getTable oid = some tableInfo)
    (hindexes : TableIndexes ctx.catalog tableInfo oids) {child : PlanNode}
    (todo : List (RID × List UInt8)) (fuel₀ : ℕ)
    (hchild : ∀ fuel ≥ fuel₀, ∃ st,
      Returns ((createExecutor std fuel child).init (createExecutor std fuel child).fresh) ctx st
        ctx ∧
      Feeds (createExecutor std fuel child).next tableInfo pages.length todo st (liveRows pages))
    (hnodup : todo.Nodup)
    (htodo : ∀ r, r ∈ todo ↔ r ∈ matching predicate tableInfo.schema (liveRows pages))
    (hsmall : (matching predicate tableInfo.schema (liveRows pages)).length < 2 ^ 31) :
    DeletesExactly std ctx tableInfo pages (.delete outputSchema child oid) predicate := by
  have hlen : todo.length = (matching predicate tableInfo.schema (liveRows pages)).length :=
    ((List.perm_ext_iff_of_nodup hnodup (h.nodup_rows.filter _)).2 htodo).length_eq
  have hrows : ∀ r ∈ todo, r ∈ liveRows pages :=
    fun r hr => List.mem_of_mem_filter ((htodo r).1 hr)
  obtain ⟨tuple, htuple, hvalues⟩ := countTuple_eq todo.length
  refine ⟨fuel₀ + todo.length + 2, fun fuel hfuel => ?_⟩
  obtain ⟨st, hinit, hfeeds⟩ := hchild fuel (by omega)
  obtain ⟨st', ctx', pages', hloop, htable', hdiff⟩ := h.deleteLoop hindexes hfeeds le_rfl hrows
    hnodup fuel (by omega) 0 (by omega)
  rw [zero_add] at hloop
  have hkept : liveRows pages' =
      (liveRows pages).filter fun r => !isMatch predicate tableInfo.schema r := by
    rw [hdiff, h.nodup_rows.sdiff_eq_filter]
    apply List.filter_congr
    intro r hr
    have hmem : r ∈ todo ↔ isMatch predicate tableInfo.schema r = true := by
      rw [htodo, matching, List.mem_filter]
      exact and_iff_right hr
    simp [hmem]
  refine ⟨tuple, BitVec.ofInt 32 todo.length, ctx', ?_, hvalues, ?_, ?_, ?_⟩
  · exact returns_execute_modification.2 ⟨by omega, st, ctx, tableInfo, oids, st', _, tuple, hinit,
      htable, hindexes.listed, hloop, htuple, rfl⟩
  · rw [BitVec.toInt_ofInt, hlen]
    exact Int.bmod_eq_of_le (by omega) (by omega)
  · rw [← hkept]
    exact htable'.holds.terminates_iterate htable'.ready htable'.frames
  · intro r hr hmatch
    apply htable'.holds.getTuple htable'.ready htable'.frames
    rw [hkept]
    exact List.mem_filter.2 ⟨hr, by simp [hmatch]⟩

/-- The scan that the optimizer looks at stays or becomes an index scan. -/
lemma TableIndexes.exists_optimized (hindexes : TableIndexes ctx.catalog tableInfo oids)
    (htable : ctx.catalog.getTable oid = some tableInfo) (scanSchema : Schema)
    (predicate : Expression) :
    ∃ child, optimizeSeqScanToIndexScan (some ctx.catalog) (.seqScan scanSchema oid predicate) =
        pure child ∧ (child = .seqScan scanSchema oid predicate ∨
      ∃ indexOid lookupKey, child = .indexScan scanSchema oid indexOid lookupKey predicate) := by
  have hfind : ∀ (colIdx : ℕ) (l : List ℕ), (∀ oid ∈ l, oid ∈ oids) →
      ∃ o, findLookupIndex ctx.catalog colIdx l = pure o := by
    intro colIdx l hl
    induction l with
    | nil => exact ⟨none, rfl⟩
    | cons oid l ih =>
      obtain ⟨i, hi, -, attr, -, hattr⟩ := hindexes.filed oid (hl oid List.mem_cons_self)
      obtain ⟨o, ho⟩ := ih fun x hx => hl x (List.mem_cons_of_mem oid hx)
      unfold findLookupIndex
      simp only [hi]
      split_ifs
      · rw [hattr, pure_bind]
        split_ifs
        · exact ⟨_, rfl⟩
        · exact ⟨o, ho⟩
      · exact ⟨o, ho⟩
  unfold optimizeSeqScanToIndexScan
  simp only [htable]
  split
  · rename_i colIdx lookupKey info hoperands hinfo
    obtain rfl : tableInfo = info := Option.some.inj hinfo
    obtain ⟨o, ho⟩ := hfind colIdx oids fun _ => id
    rw [hindexes.listed, pure_bind, ho, pure_bind]
    cases o with
    | none => exact ⟨_, rfl, .inl rfl⟩
    | some indexOid => exact ⟨_, rfl, .inr ⟨indexOid, lookupKey, rfl⟩⟩
  · exact ⟨_, rfl, .inl rfl⟩

/-- The statement over a sequential scan. -/
lemma IntegerTable.deletesExactly_seqScan (h : IntegerTable ctx tableInfo pages)
    (htable : ctx.catalog.getTable oid = some tableInfo)
    (hindexes : TableIndexes ctx.catalog tableInfo oids)
    (hevaluates : ∀ r ∈ liveRows pages,
      ∃ keep, selects predicate tableInfo.schema r.2 = pure keep)
    (hsmall : (matching predicate tableInfo.schema (liveRows pages)).length < 2 ^ 31) :
    DeletesExactly std ctx tableInfo pages
      (.delete outputSchema (.seqScan scanSchema oid predicate) oid) predicate := by
  refine h.deletesExactly htable hindexes _ (pages.length + (liveRows pages).length + 1)
    (fun fuel hfuel => ?_) (h.nodup_rows.filter _) (fun _ => Iff.rfl) hsmall
  have hfeeds : Feeds (seqScanNext fuel predicate fuel) tableInfo pages.length _
      (scanAt tableInfo (liveRows pages)) ([] ++ liveRows pages) :=
    feeds_seqScan hevaluates rfl h.nodup_rows (by omega) (by omega)
  exact ⟨_, h.returns_seqScanInit htable (by omega) _, hfeeds⟩

/-- The statement over an index scan. -/
lemma IntegerTable.deletesExactly_indexScan (h : IntegerTable ctx tableInfo pages)
    (htable : ctx.catalog.getTable oid = some tableInfo)
    (hindexes : TableIndexes ctx.catalog tableInfo oids)
    (hagrees : ctx.catalog.Agrees oids (liveRows pages))
    (hopt : optimizeSeqScanToIndexScan (some ctx.catalog) (.seqScan scanSchema oid predicate) =
      pure (.indexScan scanSchema oid indexOid lookupKey predicate))
    (hint : ∀ colIdx val, lookupOperands predicate = some (colIdx, .constantValue val) →
      ∃ k, val.payload = .integer k)
    (hsmall : (matching predicate tableInfo.schema (liveRows pages)).length < 2 ^ 31) :
    DeletesExactly std ctx tableInfo pages
      (.delete outputSchema (.indexScan scanSchema oid indexOid lookupKey predicate) oid)
      predicate := by
  obtain ⟨colIdx, val, i, rfl, hoperands, hcol, hmem, hi, hlookup, hattr⟩ :=
    hindexes.exists_index htable hopt
  obtain ⟨k, hk⟩ := hint colIdx val hoperands
  have hfiled := hagrees _ hmem i colIdx hi hlookup hattr
  obtain ⟨found, hrids, hfound⟩ := hfiled.exists_found k.toInt
  have hnodup : found.Nodup := by
    have hrids' := hfiled.nodup k.toInt
    rw [hrids] at hrids'
    exact hrids'.of_map _
  have hmatch : ∀ r ∈ liveRows pages,
      (isMatch predicate tableInfo.schema r = true ↔ integerAt r.2 colIdx = k) := by
    intro r hr
    have haccepts := (h.accepts_lookup hr hcol hoperands).1 k hk
    rw [accepts_rawTuple] at haccepts
    rw [isMatch_iff, haccepts]
    constructor
    · intro heq
      cases hkey : decide (integerAt r.2 colIdx = k) with
      | true => exact of_decide_eq_true hkey
      | false =>
        rw [hkey] at heq
        cases heq
    · intro hkey
      rw [decide_eq_true hkey]
  refine h.deletesExactly htable hindexes found 0 (fun fuel _ => ?_) hnodup (fun r => ?_) hsmall
  · refine ⟨indexScanAt tableInfo found 0, ?_, ?_⟩
    · refine (returns_indexScanInit hi).2 ⟨k, hk, rfl, ?_⟩
      rw [htable, hrids]
      rfl
    · have hfeeds : Feeds (indexScanExecutor scanSchema oid indexOid (.constantValue val)).next
          tableInfo pages.length found (indexScanAt tableInfo ([] ++ found) [].length)
          (liveRows pages) := feeds_indexScan (fun r hr => (hfound r hr).1) hnodup
      exact hfeeds
  · rw [matching, List.mem_filter]
    constructor
    · intro hr
      obtain ⟨hlive, hkey⟩ := hfound r hr
      exact ⟨hlive, (hmatch r hlive).2 (BitVec.toInt_inj.1 hkey)⟩
    · rintro ⟨hlive, hr⟩
      have hkey := (hmatch r hlive).1 hr
      have hrid : r.1 ∈ i.rids k.toInt := by
        refine (hfiled.mem_iff _ _).2 ⟨r.2, hlive, ?_⟩
        unfold keyAt
        rw [hkey]
      rw [hrids] at hrid
      obtain ⟨x, hx, hfst⟩ := List.mem_map.1 hrid
      have heq : x = r := List.inj_on_of_nodup_map (nodup_liveRows h.holds.nodup)
        (hfound x hx).1 hlive hfst
      exact heq ▸ hx

/-- The count that the statement returns is a number of 32 bits. -/
lemma DeletesExactly.lt {plan : PlanNode}
    (h : DeletesExactly std ctx tableInfo pages plan predicate) :
    (matching predicate tableInfo.schema (liveRows pages)).length < 2 ^ 31 := by
  obtain ⟨fuel, hfuel⟩ := h
  obtain ⟨tuple, k, ctx', -, -, hk, -⟩ := hfuel fuel le_rfl
  have hlt := k.toInt_lt
  omega

/-- **Deletion.** On a table of integers whose indexes agree with its rows, and with a predicate
over its columns that can be evaluated on every row, the statement that the optimizer makes deletes
exactly the rows that match iff fewer than `2 ^ 31` rows match. -/
theorem deletesExactly_iff (h : IntegerTable ctx tableInfo pages)
    (htable : ctx.catalog.getTable oid = some tableInfo)
    (hindexes : TableIndexes ctx.catalog tableInfo oids)
    (hagrees : ctx.catalog.Agrees oids (liveRows pages))
    (hpredicate : predicate.OverIntegers tableInfo.schema.columns.length)
    (hevaluates : ∀ r ∈ liveRows pages,
      ∃ keep, selects predicate tableInfo.schema r.2 = pure keep) :
    ∃ plan, optimize (some ctx.catalog)
        (.delete outputSchema (.seqScan scanSchema oid predicate) oid) = pure plan ∧
      (DeletesExactly std ctx tableInfo pages plan predicate ↔
        (matching predicate tableInfo.schema (liveRows pages)).length < 2 ^ 31) := by
  obtain ⟨child, hopt, hshape⟩ := hindexes.exists_optimized htable scanSchema predicate
  have hoptimize : optimize (some ctx.catalog)
      (.delete outputSchema (.seqScan scanSchema oid predicate) oid) =
        pure (.delete outputSchema child oid) := by
    have hchild : optimizeNLJToHashJoin child = child := by
      rcases hshape with rfl | ⟨indexOid, lookupKey, rfl⟩ <;> rfl
    unfold optimize optimize applyRules
    rw [hopt, pure_bind, hchild, pure_bind]
    rfl
  refine ⟨_, hoptimize, DeletesExactly.lt, fun hsmall => ?_⟩
  · rcases hshape with rfl | ⟨indexOid, lookupKey, rfl⟩
    · exact h.deletesExactly_seqScan htable hindexes hevaluates hsmall
    · exact h.deletesExactly_indexScan htable hindexes hagrees hopt
        (fun _ _ => hpredicate.lookup) hsmall

/-- Of the rows 1 and 2 of an indexed column, the row 2 is deleted. -/
theorem deletesExactly_two :
    ∃ plan, optimize (some (smallContext ["a"] [[1], [2]] (some 0)).catalog)
        (.delete (Schema.new []) (.seqScan (smallTable ["a"]).schema 1 (lookupPredicate 2)) 1) =
          pure plan ∧
      DeletesExactly default (smallContext ["a"] [[1], [2]] (some 0)) (smallTable ["a"])
        (smallPages [[1], [2]]) plan (lookupPredicate 2) := by
  have hpredicate : (lookupPredicate 2).OverIntegers (smallTable ["a"]).schema.columns.length :=
    ⟨Nat.one_pos, 2, rfl⟩
  have hevaluates : ∀ r ∈ liveRows (smallPages [[1], [2]]),
      ∃ keep, selects (lookupPredicate 2) (smallTable ["a"]).schema r.2 = pure keep := by
    intro r hr
    rw [liveRows_one_two, List.mem_cons, List.mem_singleton] at hr
    rcases hr with rfl | rfl
    · exact ⟨false, rfl⟩
    · exact ⟨true, rfl⟩
  have htable : IntegerTable (smallContext ["a"] [[1], [2]] (some 0)) (smallTable ["a"])
      (smallPages [[1], [2]]) := integerTable_smallContext (by decide) (by decide)
  obtain ⟨plan, hplan, hiff⟩ := @deletesExactly_iff default _ _ _ _ _ (Schema.new [])
    (smallTable ["a"]).schema 1 htable rfl (tableIndexes_smallContext (by decide))
    (agrees_smallContext _ _ _) hpredicate hevaluates
  exact ⟨plan, hplan, hiff.2 (by decide)⟩

/-- The table of one column with 256 rows of the integer 7 on each of `n` pages. -/
def sevensContext (n : ℕ) : ExecutorContext :=
  { smallContext ["a"] [] none with bpm := chainOf n (List.replicate 256 (rowBytes [7])) }

/-- The pages of this table. -/
def sevensPages (n : ℕ) : Pages := chainPages (List.replicate 256 (rowBytes [7])) 0 n

/-- All rows of the sample are the row 7. -/
lemma bytes_sevens {n : ℕ} {r : RID × List UInt8} (hr : r ∈ liveRows (sevensPages n)) :
    r.2 = rowBytes [7] := by
  obtain ⟨slots, hslots, hget, -⟩ := mem_liveRows.1 hr
  obtain ⟨i, -, heq⟩ := List.mem_map.1 hslots
  obtain ⟨-, rfl⟩ := Prod.mk.inj heq
  obtain ⟨b, hb, hsome⟩ := List.mem_map.1 (List.mem_of_getElem? hget)
  obtain rfl := Option.some.inj hsome
  exact List.eq_of_mem_replicate hb

/-- The sample is a table of integers, on one page for each row. -/
lemma integerTable_sevens {n : ℕ} (hpos : 0 < n) (hn : n ≤ 2 ^ 31) :
    IntegerTable (sevensContext n) (smallTable ["a"]) (sevensPages n) where
  ready := ready_chainOf _ _
  frames := le_top
  holds := by
    refine holds_chainOf ?_ hpos hn
    rw [roomOf, List.map_replicate, List.sum_replicate_nat]
    decide
  schema := isInteger_smallTable ["a"]
  rows := by
    intro r hr
    rw [bytes_sevens hr]
    rfl

/-- In a table with `2 ^ 31` rows, the count of the statement is not the number of the rows that
are deleted. -/
theorem not_deletesExactly_sevens :
    IntegerTable (sevensContext (2 ^ 23)) (smallTable ["a"]) (sevensPages (2 ^ 23)) ∧
    ∀ plan, optimize (some (sevensContext (2 ^ 23)).catalog)
        (.delete (Schema.new []) (.seqScan (smallTable ["a"]).schema 1 (lookupPredicate 7)) 1) =
          pure plan →
      ¬ DeletesExactly default (sevensContext (2 ^ 23)) (smallTable ["a"]) (sevensPages (2 ^ 23))
        plan (lookupPredicate 7) := by
  generalize hn : 2 ^ 23 = n
  refine ⟨integerTable_sevens (by omega) (by omega), fun plan _ hexact => ?_⟩
  have hall : matching (lookupPredicate 7) (smallTable ["a"]).schema (liveRows (sevensPages n)) =
      liveRows (sevensPages n) := by
    unfold matching
    rw [List.filter_eq_self]
    intro r hr
    rw [isMatch_iff, bytes_sevens hr]
    rfl
  have hlt := hexact.lt
  rw [hall, sevensPages, length_liveRows_chainPages, List.length_replicate] at hlt
  · omega
  · intro b hb
    rw [List.eq_of_mem_replicate hb]
    decide

end Statement

end OneBase
