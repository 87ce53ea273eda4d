import OneBase.Execution.ExecutorFactory
import OneBase.Execution.IntegerTables

set_option relaxedAutoImplicit false
set_option autoImplicit false

/-!
# Sequential scans

The iterator of a scan is at the first of the rows that it has not seen. A call of `Next` passes
over the rows that the predicate refuses.

## Main definitions

* `OneBase.scanRow` — what a scan makes of a row of the heap.
* `OneBase.Scans` — what a call of `Next` does on the rows ahead of it.

## Main results

* `OneBase.HeapTable.returns_seqScanNext`, `OneBase.HeapTable.scans_of_returns` — a call of `Next`.
* `OneBase.HeapTable.yields_seqScan` — the rows of a scan.
* `OneBase.HeapTable.completes_seqScan` — the rows of a plan that is a scan.
-/

namespace OneBase

open Exec TableHeap

/-- What a scan makes of a row of the heap: nothing if the predicate refuses it. -/
def scanRow (predicate : Expression) (schema : Schema) (r : RID × List UInt8) :
    Cpp (Option Tuple) := do
  if ← accepts predicate fun e => e.evaluate (rawTuple r) schema then
    let parsedValues ← columnValues (rawTuple r) schema
    let tuple ← Tuple.ofValues parsedValues
    pure (some { tuple with rid := r.1 })
  else pure none

/-- A scan without a predicate makes a row with the values that it reads. -/
lemma scanRow_null {schema : Schema} {r : RID × List UInt8} {o : Option Tuple}
    (h : scanRow .null schema r = pure o) :
    ∃ tuple, o = some tuple ∧ columnValues (rawTuple r) schema = pure tuple.values ∧
      ∀ predicate b, accepts predicate (fun e => e.evaluate (rawTuple r) schema) = pure b →
        scanRow predicate schema r = pure (if b then some tuple else none) := by
  unfold scanRow at h
  have hnull : accepts .null (fun e => e.evaluate (rawTuple r) schema) = pure true := rfl
  rw [hnull, pure_bind, if_pos rfl] at h
  obtain ⟨values, hvalues, h⟩ := Cpp.bind_eq_pure.1 h
  obtain ⟨made, hmade, h⟩ := Cpp.bind_eq_pure.1 h
  cases h
  refine ⟨_, rfl, ?_, fun predicate b hb => ?_⟩
  · show columnValues (rawTuple r) schema = pure made.values
    rw [hvalues, values_of_ofValues hmade]
  · unfold scanRow
    rw [hb, pure_bind]
    cases b with
    | false => rfl
    | true => rw [if_pos rfl, hvalues, pure_bind, hmade, pure_bind, if_pos rfl]

/-- A column has the same value on the bytes of a row and on the values read from them. -/
lemma getValueAt_rawTuple {schema : Schema} {r : RID × List UInt8} {tuple : Tuple} {i : ℕ}
    (h : columnValues (rawTuple r) schema = pure tuple.values) (hi : i < schema.getColumnCount) :
    (rawTuple r).getValueAt schema i = tuple.getValueAt schema i := by
  have hforall := Cpp.mapM_eq_pure.1 h
  have hlen : i < tuple.values.length := by
    rwa [← hforall.length_eq, List.length_range]
  have hget := (List.forall₂_iff_get.1 hforall).2 i (by rwa [List.length_range]) hlen
  rw [List.get_eq_getElem, List.get_eq_getElem, List.getElem_range] at hget
  rw [hget, getValueAt_of_getElem? (List.getElem?_eq_getElem hlen)]

/-- A call of `Next` with these rows ahead of it returns a row or none, and leaves those rows
ahead. -/
inductive Scans (read : RID × List UInt8 → Cpp (Option Tuple)) :
    List (RID × List UInt8) → Option Row → List (RID × List UInt8) → Prop
  | done : Scans read [] none []
  | skip {r : RID × List UInt8} {rows rest : List (RID × List UInt8)} {o : Option Row}
      (h : read r = pure none) (hrest : Scans read rows o rest) : Scans read (r :: rows) o rest
  | row {r : RID × List UInt8} {rows : List (RID × List UInt8)} {tuple : Tuple}
      (h : read r = pure (some tuple)) : Scans read (r :: rows) (some (tuple, r.1)) rows

/-- The rows of a whole scan. -/
def scanRows (read : RID × List UInt8 → Cpp (Option Tuple)) :
    List (RID × List UInt8) → Cpp (List Row)
  | [] => pure []
  | r :: rows => do
    let o ← read r
    let rest ← scanRows read rows
    pure ((o.map fun tuple => (tuple, r.1)).toList ++ rest)

section Scans

variable {read : RID × List UInt8 → Cpp (Option Tuple)} {rows rest : List (RID × List UInt8)}
  {o : Option Row} {out : List Row}

/-- A call that returns no row has passed over all of them. -/
lemma Scans.none_iff : Scans read rows none rest ↔ rest = [] ∧ ∀ r ∈ rows, read r = pure none := by
  constructor
  · intro h
    generalize ho : (none : Option Row) = o at h
    induction h with
    | done => exact ⟨rfl, by simp⟩
    | skip hread hrest ih =>
      obtain ⟨hnil, hrows⟩ := ih ho
      exact ⟨hnil, by simpa [hread] using hrows⟩
    | row hread => cases ho
  · rintro ⟨rfl, hrows⟩
    induction rows with
    | nil => exact .done
    | cons r rows ih =>
      exact .skip (hrows r List.mem_cons_self) (ih fun x hx => hrows x (List.mem_cons_of_mem r hx))

/-- A call that returns a row has passed over the rows before it. -/
lemma Scans.some_iff {row : Row} : Scans read rows (some row) rest ↔
    ∃ skipped r, rows = skipped ++ r :: rest ∧ (∀ x ∈ skipped, read x = pure none) ∧
      read r = pure (some row.1) ∧ row.2 = r.1 := by
  constructor
  · intro h
    generalize ho : some row = o at h
    induction h with
    | done => cases ho
    | @skip r rows rest o hread hrest ih =>
      obtain ⟨skipped, x, rfl, hskipped, hx⟩ := ih ho
      exact ⟨r :: skipped, x, rfl, by simpa [hread] using hskipped, hx⟩
    | @row r rows tuple hread =>
      cases ho
      exact ⟨[], r, rfl, by simp, hread, rfl⟩
  · rintro ⟨skipped, r, rfl, hskipped, hread, hrid⟩
    obtain ⟨tuple, rid⟩ := row
    obtain rfl : rid = r.1 := hrid
    induction skipped with
    | nil => exact .row hread
    | cons x skipped ih =>
      exact .skip (hskipped x List.mem_cons_self)
        (ih fun y hy => hskipped y (List.mem_cons_of_mem x hy))

/-- A scan that finds no row has selected none. -/
lemma Scans.of_none (h : Scans read rows none rest) : rest = [] ∧ scanRows read rows = pure [] := by
  obtain ⟨hnil, hrows⟩ := Scans.none_iff.1 h
  refine ⟨hnil, ?_⟩
  clear h
  induction rows with
  | nil => rfl
  | cons r rows ih =>
    rw [scanRows, hrows r List.mem_cons_self, ih fun x hx => hrows x (List.mem_cons_of_mem r hx)]
    rfl

/-- The rows ahead are among those that were there. -/
lemma Scans.suffix (h : Scans read rows o rest) : ∃ seen, rows = seen ++ rest := by
  induction h with
  | done => exact ⟨[], rfl⟩
  | @skip r rows rest o hread hrest ih =>
    obtain ⟨seen, rfl⟩ := ih
    exact ⟨r :: seen, rfl⟩
  | @row r rows tuple hread => exact ⟨[r], rfl⟩

/-- A whole scan is a call of `Next` and the rest. -/
lemma Scans.scanRows_eq {row : Row} (h : Scans read rows (some row) rest)
    (hrest : scanRows read rest = pure out) : scanRows read rows = pure (row :: out) := by
  generalize ho : some row = o at h
  induction h with
  | done => cases ho
  | skip hread hscan ih =>
    rw [scanRows, hread, ih hrest ho]
    rfl
  | row hread =>
    cases ho
    rw [scanRows, hread, hrest]
    rfl

/-- If a whole scan returns, then so does a call of `Next`. -/
lemma exists_scans (h : scanRows read rows = pure out) :
    ∃ rest, Scans read rows out.head? rest ∧ scanRows read rest = pure out.tail := by
  induction rows generalizing out with
  | nil =>
    cases h
    exact ⟨[], .done, rfl⟩
  | cons r rows ih =>
    obtain ⟨o, ho, hrest⟩ := Cpp.bind_eq_pure.1 h
    obtain ⟨out', hout', heq⟩ := Cpp.bind_eq_pure.1 hrest
    cases o with
    | none =>
      cases heq
      obtain ⟨rest, hscan, htail⟩ := ih hout'
      exact ⟨rest, .skip ho hscan, htail⟩
    | some tuple =>
      cases heq
      exact ⟨rows, .row ho, hout'⟩

/-- A whole scan, if it is known what becomes of each row. -/
lemma scanRows_of_keep {keep : RID × List UInt8 → Bool} {f : RID × List UInt8 → Tuple}
    (h : ∀ r ∈ rows, read r = pure (if keep r then some (f r) else none)) :
    scanRows read rows = pure ((rows.filter keep).map fun r => (f r, r.1)) := by
  induction rows with
  | nil => rfl
  | cons r rows ih =>
    rw [scanRows, h r List.mem_cons_self, pure_bind,
      ih fun r' hr' => h r' (List.mem_cons_of_mem r hr'), pure_bind]
    cases hkeep : keep r with
    | false => simp [hkeep]
    | true => simp [hkeep]

/-- A scan selects no more rows than there are. -/
lemma length_le_of_scanRows (h : scanRows read rows = pure out) : out.length ≤ rows.length := by
  induction rows generalizing out with
  | nil =>
    cases h
    exact le_rfl
  | cons r rows ih =>
    obtain ⟨o, ho, hrest⟩ := Cpp.bind_eq_pure.1 h
    obtain ⟨out', hout', heq⟩ := Cpp.bind_eq_pure.1 hrest
    have hle := ih hout'
    cases o <;> cases heq <;> simp <;> omega

end Scans

/-- Whether a predicate, which may be a `nullptr`, accepts a row with these bytes. -/
def selects (predicate : Expression) (schema : Schema) (b : List UInt8) : Cpp Bool :=
  accepts predicate fun e => e.evaluate { data := b } schema

/-- A predicate does not see where a row lies. -/
lemma accepts_rawTuple (predicate : Expression) (schema : Schema) (r : RID × List UInt8) :
    accepts predicate (fun e => e.evaluate (rawTuple r) schema) = selects predicate schema r.2 := by
  unfold selects accepts
  have hsame : ∀ e : Expression, e.evaluate (rawTuple r) schema =
      e.evaluate { data := r.2 } schema := fun e => e.evaluate_congr fun i => rfl
  simp only [hsame]

/-- What a scan makes of a row of integers. -/
lemma IntegerTable.scanRow {ctx : ExecutorContext} {tableInfo : TableInfo} {pages : Pages}
    {predicate : Expression} {r : RID × List UInt8} {keep : Bool}
    (h : IntegerTable ctx tableInfo pages) (hr : r ∈ liveRows pages)
    (hkeep : accepts predicate (fun e => e.evaluate (rawTuple r) tableInfo.schema) = pure keep) :
    scanRow predicate tableInfo.schema r =
      pure (if keep then some (parsedTuple tableInfo.schema.columns.length r) else none) := by
  unfold OneBase.scanRow
  rw [hkeep, pure_bind]
  cases keep with
  | false => rfl
  | true =>
    rw [if_pos rfl, h.columnValues hr, pure_bind, ofValues_integersOf (h.rows r hr), pure_bind]
    rfl

/-- What a scan has made of a row of integers. -/
lemma IntegerTable.selects_of_scanRow {ctx : ExecutorContext} {tableInfo : TableInfo} {pages : Pages}
    {predicate : Expression} {r : RID × List UInt8} {o : Option Tuple}
    (h : IntegerTable ctx tableInfo pages) (hr : r ∈ liveRows pages)
    (hread : OneBase.scanRow predicate tableInfo.schema r = pure o) :
    selects predicate tableInfo.schema r.2 = pure o.isSome ∧
      ∀ tuple, o = some tuple → tuple = parsedTuple tableInfo.schema.columns.length r := by
  obtain ⟨keep, hkeep, hrest⟩ := Cpp.bind_eq_pure.1 hread
  have hscan := h.scanRow hr hkeep
  rw [hread] at hscan
  rw [accepts_rawTuple] at hkeep
  cases keep with
  | false =>
    cases hscan
    exact ⟨hkeep, nofun⟩
  | true =>
    cases hscan
    exact ⟨hkeep, fun tuple htuple => (Option.some.inj htuple).symm⟩

/-! ## The class -/

section Class

variable {ctx ctx' : ExecutorContext} {tableInfo : TableInfo} {pages : Pages}
  {predicate : Expression} {before rows rest : List (RID × List UInt8)} {o : Option Row}
  {st : SeqScanState} {fuel n oid : ℕ} {out : List Row} {outputSchema : Schema}

/-- The state of a scan with these rows ahead. -/
def scanAt (tableInfo : TableInfo) (rows : List (RID × List UInt8)) : SeqScanState :=
  { tableInfo := some tableInfo, iter := first rows }

/-- A scan with nothing ahead returns no row. -/
lemma returns_seqScanNext_nil :
    Returns (seqScanNext fuel predicate (n + 1) (scanAt tableInfo [])) ctx (o, st) ctx' ↔
      o = none ∧ st = scanAt tableInfo [] ∧ ctx' = ctx := by
  have hend : (scanAt tableInfo []).iter = endIterator := rfl
  rw [seqScanNext, if_pos hend, returns_pure, Prod.mk.injEq]
  constructor
  · rintro ⟨⟨rfl, rfl⟩, rfl⟩
    exact ⟨rfl, rfl, rfl⟩
  · rintro ⟨rfl, rfl, rfl⟩
    exact ⟨⟨rfl, rfl⟩, rfl⟩

/-- A scan with a row ahead reads it and either returns it or goes on. -/
lemma HeapTable.returns_seqScanNext_cons (h : HeapTable ctx tableInfo pages)
    {r : RID × List UInt8} (hrows : liveRows pages = before ++ r :: rows) :
    Returns (seqScanNext fuel predicate (n + 1) (scanAt tableInfo (r :: rows))) ctx (o, st) ctx' ↔
      (TableHeap.increment fuel r.1).run (PageStore.handler ctx.poolSize) ctx.bpm =
          some (first rows, ctx.bpm) ∧
        ∃ read, scanRow predicate tableInfo.schema r = pure read ∧
          match read with
          | some tuple => o = some (tuple, r.1) ∧ st = scanAt tableInfo rows ∧ ctx' = ctx
          | none =>
            Returns (seqScanNext fuel predicate n (scanAt tableInfo rows)) ctx (o, st) ctx' := by
  obtain ⟨rid, b⟩ := r
  have hmem : (rid, b) ∈ liveRows pages := by
    rw [hrows]
    simp
  have hne : (scanAt tableInfo ((rid, b) :: rows)).iter ≠ endIterator := (h.length_le hmem).1
  have hget := h.holds.getTuple h.ready h.frames hmem
  have hincrement := (h.holds.increment h.ready h.frames hrows fuel).2
  rw [seqScanNext, if_neg hne]
  constructor
  · intro hret
    obtain ⟨info, c₁, hderef, hret₁⟩ := returns_bind.1 hret
    obtain ⟨hinfo, rfl⟩ := returns_deref.1 hderef
    obtain rfl : tableInfo = info := Option.some.inj hinfo
    obtain ⟨raw, c₂, hraw, hret₂⟩ := returns_bind.1 hret₁
    obtain ⟨bpm, hrun, rfl⟩ := returns_ofThrowing.1 hraw
    obtain ⟨hok, rfl⟩ := Prod.mk.inj (Option.some.inj (hget.symm.trans hrun))
    obtain rfl := Except.ok.inj hok
    obtain ⟨iter, c₃, hiter, hret₃⟩ := returns_bind.1 hret₂
    obtain ⟨bpm, hrun', rfl⟩ := returns_ofProgram.1 hiter
    obtain ⟨rfl, rfl⟩ := Prod.mk.inj (hincrement _ hrun')
    refine ⟨hrun', ?_⟩
    obtain ⟨keep, c₄, haccepts, hret₄⟩ := returns_bind.1 hret₃
    obtain ⟨hkeep, rfl⟩ := returns_ofCpp.1 haccepts
    cases keep with
    | false =>
      refine ⟨none, ?_, hret₄⟩
      exact Cpp.bind_eq_pure.2 ⟨false, hkeep, rfl⟩
    | true =>
      obtain ⟨values, c₅, hread, hret₅⟩ := returns_bind.1 hret₄
      obtain ⟨hvalues, rfl⟩ := returns_ofCpp.1 hread
      obtain ⟨tuple, c₆, hmake, hret₆⟩ := returns_bind.1 hret₅
      obtain ⟨htuple, rfl⟩ := returns_ofCpp.1 hmake
      obtain ⟨heq, rfl⟩ := returns_pure.1 hret₆
      obtain ⟨rfl, rfl⟩ := Prod.mk.inj heq
      refine ⟨some { tuple with rid := rid }, ?_, rfl, rfl, rfl⟩
      exact Cpp.bind_eq_pure.2 ⟨true, hkeep, Cpp.bind_eq_pure.2 ⟨values, hvalues,
        Cpp.bind_eq_pure.2 ⟨tuple, htuple, rfl⟩⟩⟩
  · rintro ⟨hrun, read, hread, hcase⟩
    obtain ⟨keep, hkeep, hrest⟩ := Cpp.bind_eq_pure.1 hread
    refine returns_bind.2 ⟨tableInfo, ctx, returns_deref.2 ⟨rfl, rfl⟩, ?_⟩
    refine returns_bind.2 ⟨rawTuple (rid, b), ctx, returns_ofThrowing.2 ⟨ctx.bpm, hget, rfl⟩, ?_⟩
    refine returns_bind.2 ⟨first rows, ctx, returns_ofProgram.2 ⟨ctx.bpm, hrun, rfl⟩, ?_⟩
    refine returns_bind.2 ⟨keep, ctx, returns_ofCpp.2 ⟨hkeep, rfl⟩, ?_⟩
    cases keep with
    | false =>
      cases hrest
      exact hcase
    | true =>
      obtain ⟨values, hvalues, hrest⟩ := Cpp.bind_eq_pure.1 hrest
      obtain ⟨tuple, htuple, hrest⟩ := Cpp.bind_eq_pure.1 hrest
      cases hrest
      obtain ⟨rfl, rfl, rfl⟩ := hcase
      refine returns_bind.2 ⟨values, _, returns_ofCpp.2 ⟨hvalues, rfl⟩, ?_⟩
      exact returns_bind.2 ⟨tuple, _, returns_ofCpp.2 ⟨htuple, rfl⟩, returns_pure.2 ⟨rfl, rfl⟩⟩

/-- A call of `Next`, with enough fuel. -/
lemma HeapTable.returns_seqScanNext (h : HeapTable ctx tableInfo pages) (hfuel : pages.length < fuel)
    (hscan : Scans (scanRow predicate tableInfo.schema) rows o rest) (hn : rows.length < n)
    (hrows : liveRows pages = before ++ rows) :
    Returns (seqScanNext fuel predicate n (scanAt tableInfo rows)) ctx
      (o, scanAt tableInfo rest) ctx := by
  induction hscan generalizing n before with
  | done =>
    obtain ⟨n, rfl⟩ := Nat.exists_eq_add_of_lt hn
    exact returns_seqScanNext_nil.2 ⟨rfl, rfl, rfl⟩
  | @skip r rows rest o hread hrest ih =>
    rw [List.length_cons] at hn
    obtain ⟨n, rfl⟩ : ∃ m, n = m + 1 := ⟨n - 1, by omega⟩
    obtain ⟨rid, b⟩ := r
    refine (h.returns_seqScanNext_cons hrows).2
      ⟨(h.holds.increment h.ready h.frames hrows fuel).1 hfuel, none, hread, ?_⟩
    have hrows' : liveRows pages = (before ++ [(rid, b)]) ++ rows := by
      rw [hrows]
      simp
    exact ih (by omega) hrows'
  | @row r rows tuple hread =>
    obtain ⟨n, rfl⟩ : ∃ m, n = m + 1 := ⟨n - 1, by omega⟩
    obtain ⟨rid, b⟩ := r
    exact (h.returns_seqScanNext_cons hrows).2
      ⟨(h.holds.increment h.ready h.frames hrows fuel).1 hfuel, some tuple, hread, rfl, rfl, rfl⟩

/-- A call of `Next` that returns. -/
lemma HeapTable.scans_of_returns (h : HeapTable ctx tableInfo pages)
    (hrows : liveRows pages = before ++ rows)
    (hret : Returns (seqScanNext fuel predicate n (scanAt tableInfo rows)) ctx (o, st)
      ctx') :
    ∃ rest, Scans (scanRow predicate tableInfo.schema) rows o rest ∧
      st = scanAt tableInfo rest ∧ ctx' = ctx := by
  induction n generalizing rows before with
  | zero => exact absurd hret not_returns_undefined
  | succ n ih =>
    cases rows with
    | nil =>
      obtain ⟨rfl, rfl, rfl⟩ := returns_seqScanNext_nil.1 hret
      exact ⟨[], .done, rfl, rfl⟩
    | cons r rows =>
      obtain ⟨-, read, hread, hcase⟩ := (h.returns_seqScanNext_cons hrows).1 hret
      cases read with
      | some tuple =>
        obtain ⟨rfl, rfl, rfl⟩ := hcase
        exact ⟨rows, .row hread, rfl, rfl⟩
      | none =>
        have hrows' : liveRows pages = (before ++ [r]) ++ rows := by
          rw [hrows]
          simp
        obtain ⟨rest, hscan, hst, hctx⟩ := ih hrows' hcase
        exact ⟨rest, .skip hread hscan, hst, hctx⟩

/-- The rows of a scan, with enough fuel. -/
lemma HeapTable.emits_seqScan (h : HeapTable ctx tableInfo pages) (hfuel : pages.length < fuel)
    (hn : (liveRows pages).length < fuel) (hrows : liveRows pages = before ++ rows)
    (hout : scanRows (scanRow predicate tableInfo.schema) rows = pure out) :
    Emits (seqScanNext fuel predicate fuel) ctx (scanAt tableInfo rows) out
      (scanAt tableInfo []) := by
  induction out generalizing before rows with
  | nil =>
    have hlen := congrArg List.length hrows
    rw [List.length_append] at hlen
    have hlt : rows.length < fuel := by omega
    obtain ⟨rest, hscan, -⟩ := exists_scans hout
    have hnext := h.returns_seqScanNext hfuel hscan hlt hrows
    obtain ⟨rfl, -⟩ := hscan.of_none
    exact .done hnext
  | cons row out ih =>
    have hlen := congrArg List.length hrows
    rw [List.length_append] at hlen
    have hlt : rows.length < fuel := by omega
    obtain ⟨rest, hscan, htail⟩ := exists_scans hout
    have hnext := h.returns_seqScanNext hfuel hscan hlt hrows
    obtain ⟨seen, rfl⟩ := hscan.suffix
    rw [← List.append_assoc] at hrows
    exact .row hnext (ih hrows htail)

/-- `Init` of a scan, with enough fuel. -/
lemma HeapTable.returns_seqScanInit (h : HeapTable ctx tableInfo pages)
    (htable : ctx.catalog.getTable oid = some tableInfo) (hfuel : pages.length < fuel)
    (s : SeqScanState) :
    Returns ((seqScanExecutor fuel outputSchema oid predicate).init s) ctx
      (scanAt tableInfo (liveRows pages)) ctx := by
  have hrun := (h.holds.begin h.ready h.frames fuel).1 hfuel
  refine returns_bind.2 ⟨_, ctx, returns_getCatalog.2 ⟨rfl, rfl⟩, ?_⟩
  refine returns_bind.2 ⟨tableInfo, ctx, returns_deref.2 ⟨htable, rfl⟩, ?_⟩
  refine returns_bind.2 ⟨_, ctx, returns_ofProgram.2 ⟨ctx.bpm, hrun, rfl⟩, ?_⟩
  exact returns_pure.2 ⟨rfl, rfl⟩

/-- `Init` of a scan that returns. -/
lemma HeapTable.eq_of_seqScanInit (h : HeapTable ctx tableInfo pages)
    (htable : ctx.catalog.getTable oid = some tableInfo) {s : SeqScanState}
    (hret : Returns ((seqScanExecutor fuel outputSchema oid predicate).init s) ctx st ctx') :
    st = scanAt tableInfo (liveRows pages) ∧ ctx' = ctx := by
  obtain ⟨catalog, c₁, hcatalog, hret₁⟩ := returns_bind.1 hret
  obtain ⟨rfl, rfl⟩ := returns_getCatalog.1 hcatalog
  obtain ⟨info, c₂, hderef, hret₂⟩ := returns_bind.1 hret₁
  obtain ⟨hinfo, rfl⟩ := returns_deref.1 hderef
  obtain rfl : tableInfo = info := Option.some.inj (htable.symm.trans hinfo)
  obtain ⟨iter, c₃, hiter, hret₃⟩ := returns_bind.1 hret₂
  obtain ⟨bpm, hrun, rfl⟩ := returns_ofProgram.1 hiter
  obtain ⟨rfl, rfl⟩ := Prod.mk.inj ((h.holds.begin h.ready h.frames fuel).2 _ hrun)
  obtain ⟨rfl, rfl⟩ := returns_pure.1 hret₃
  exact ⟨rfl, rfl⟩

/-- The rows of a scan, as those of a child. -/
lemma HeapTable.yields_seqScan (h : HeapTable ctx tableInfo pages)
    (htable : ctx.catalog.getTable oid = some tableInfo) (hfuel : pages.length < fuel)
    (hn : (liveRows pages).length < fuel)
    (hout : scanRows (scanRow predicate tableInfo.schema) (liveRows pages) = pure out) :
    (seqScanExecutor fuel outputSchema oid predicate).Yields ctx out := by
  intro s
  exact ⟨_, _, h.returns_seqScanInit htable hfuel s,
    h.emits_seqScan hfuel hn (List.nil_append _).symm hout⟩

/-- A scan that emits rows has read them. -/
lemma HeapTable.scanRows_of_emits (h : HeapTable ctx tableInfo pages)
    (hrows : liveRows pages = before ++ rows)
    (hemits : Emits (seqScanNext fuel predicate fuel) ctx (scanAt tableInfo rows) out st) :
    scanRows (scanRow predicate tableInfo.schema) rows = pure out := by
  generalize hs : scanAt tableInfo rows = s at hemits
  induction hemits generalizing before rows with
  | done hnext =>
    subst hs
    obtain ⟨rest, hscan, -⟩ := h.scans_of_returns hrows hnext
    exact hscan.of_none.2
  | row hnext _ ih =>
    subst hs
    obtain ⟨rest, hscan, hst, -⟩ := h.scans_of_returns hrows hnext
    obtain ⟨seen, rfl⟩ := hscan.suffix
    rw [← List.append_assoc] at hrows
    exact hscan.scanRows_eq (ih hrows hst.symm)

/-- The rows of a plan that is a scan. -/
lemma HeapTable.completes_seqScan (h : HeapTable ctx tableInfo pages)
    (htable : ctx.catalog.getTable oid = some tableInfo) {std : StandardLibrary}
    {result : List Tuple} :
    Completes std (.seqScan outputSchema oid predicate) ctx result ctx' ↔
      ctx' = ctx ∧ ∃ rows, scanRows (scanRow predicate tableInfo.schema) (liveRows pages) =
        pure rows ∧ result = rows.map Prod.fst := by
  constructor
  · rintro ⟨fuel, hreturns⟩
    obtain ⟨st, c, hinit, hrest⟩ := returns_bind.1 (hreturns fuel le_rfl)
    obtain ⟨rfl, rfl⟩ := h.eq_of_seqScanInit htable hinit
    obtain ⟨⟨s, b⟩, c', hloop, hpure⟩ := returns_bind.1 hrest
    obtain ⟨rows, hemits, -⟩ := emits_of_forEachRow
      (I := fun st => ∃ before rows, liveRows pages = before ++ rows ∧ st = scanAt tableInfo rows)
      (by
        rintro st o st' c ⟨before, rows, hrows, rfl⟩ hnext
        obtain ⟨rest, hscan, rfl, rfl⟩ := h.scans_of_returns hrows hnext
        obtain ⟨seen, rfl⟩ := hscan.suffix
        exact ⟨rfl, before ++ seen, rest, by rw [hrows, List.append_assoc], rfl⟩)
      (fun acc row b c hret => (returns_pure.1 hret).2.symm) ⟨[], _, rfl, rfl⟩ hloop
    obtain ⟨-, -, rfl, rfl⟩ := (forEachRow_collect hemits).1 hloop
    obtain ⟨rfl, rfl⟩ := returns_pure.1 hpure
    exact ⟨rfl, rows, h.scanRows_of_emits (List.nil_append _).symm hemits, rfl⟩
  · rintro ⟨rfl, rows, hrows, rfl⟩
    refine ⟨pages.length + (liveRows pages).length + 1, fun fuel hfuel => ?_⟩
    have hpages : pages.length < fuel := by omega
    have hlive : (liveRows pages).length < fuel := by omega
    have hlen := length_le_of_scanRows hrows
    exact (returns_execute (h.yields_seqScan htable hpages hlive hrows)).2 ⟨by omega, rfl, rfl⟩

end Class

end OneBase
