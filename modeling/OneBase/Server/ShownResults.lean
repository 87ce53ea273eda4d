import OneBase.Optimizer.Preservation
import OneBase.Server.HandleQuery

set_option relaxedAutoImplicit false
set_option autoImplicit false

/-!
# What the user sees

The rows of a query go through three texts: `HandleQuery` formats them, the protocol transfers
them, and the client parses the answer and prints a table. Integers and truth values have texts
without the separators, so that this table determines the rows.

## Main definitions

* `OneBase.PlainText` — a text that the client reads as one value.
* `OneBase.Schema.IsPrintable` — the columns of a table that the client reads as it was written.
* `OneBase.Shows` — the client prints this table for an answer of the server.

## Main results

* `OneBase.serves_result_iff` — the results that the server sends for a query.
* `OneBase.shows_iff_denotes` — the client prints what the query denotes, and nothing else.
-/

namespace OneBase

open Exec

/-! ## Texts of values -/

/-- The text is read as one value, which does not end the rows. -/
def PlainText (text : Bytes) : Prop :=
  text ≠ [] ∧ ∀ c ∈ text, c ≠ pipe ∧ c ≠ newline ∧ c ≠ openParen

section Texts

variable {v w : Value} {type : TypeId} {types : List TypeId} {values values' : List Value}
  {colNames : List Bytes} {rows : List (List Bytes)}

/-- The digits of a number are plain text. -/
lemma plainText_natBytes (n : ℕ) : PlainText (Decimal.natBytes n) := by
  refine ⟨by simp [Decimal.natBytes], fun c hc => ?_⟩
  obtain ⟨hlo, hhi⟩ := Decimal.mem_natBytes hc
  have hne : ∀ d : UInt8, d.toNat < 48 ∨ 57 < d.toNat → c ≠ d := by
    rintro d hd rfl
    omega
  exact ⟨hne pipe (by decide), hne newline (by decide), hne openParen (by decide)⟩

/-- The digits of an integer, with its sign, are plain text. -/
lemma plainText_intBytes (i : ℤ) : PlainText (Decimal.intBytes i) := by
  unfold Decimal.intBytes
  split_ifs
  · refine ⟨by simp, fun c hc => ?_⟩
    rcases List.mem_cons.1 hc with rfl | hc
    · decide
    · exact (plainText_natBytes _).2 c hc
  · exact plainText_natBytes _

/-- The texts of integers and truth values. -/
lemma Value.HasType.plainText (h : v.HasType type) (htype : type = .integer ∨ type = .boolean) :
    PlainText v.toBytes := by
  obtain ⟨payload, isNull⟩ := v
  obtain ⟨rfl, hnull⟩ := h
  subst hnull
  cases payload with
  | integer i => exact plainText_intBytes i.toInt
  | boolean b =>
    unfold PlainText
    cases b <;> decide +kernel
  | float | varchar | invalid => rcases htype with htype | htype <;> cases htype

/-- Values of a key type with the same text are the same. -/
lemma Value.HasType.eq_of_toBytes (hv : v.HasType type) (hw : w.HasType type)
    (hkey : Value.IsKeyType type) (h : v.toBytes = w.toBytes) : v = w := by
  obtain ⟨rfl, hvnull⟩ := hv
  obtain ⟨hwtype, hwnull⟩ := hw
  have hpayload := (Value.toBytes_inj hwtype.symm hkey hvnull hwnull).1 h
  cases v
  cases w
  simp_all

/-- Rows of the same key types with the same texts are the same. -/
lemma HasTypes.eq_of_toBytes (hv : HasTypes types values) (hw : HasTypes types values')
    (hkey : ∀ type ∈ types, Value.IsKeyType type)
    (h : values.map Value.toBytes = values'.map Value.toBytes) : values = values' := by
  induction hv generalizing values' with
  | nil =>
    cases hw
    rfl
  | @cons type v types values hhead _ ih =>
    cases hw with
    | @cons _ w _ values' hhead' htail =>
      obtain ⟨htext, htexts⟩ := List.cons.inj h
      rw [hhead.eq_of_toBytes hhead' (hkey type List.mem_cons_self) htext,
        ih htail (fun t ht => hkey t (List.mem_cons_of_mem _ ht)) htexts]

/-- Tables of the same key types with the same texts are the same. -/
lemma eq_of_texts {table table' : List (List Value)} (h : ∀ row ∈ table, HasTypes types row)
    (h' : ∀ row ∈ table', HasTypes types row) (hkey : ∀ type ∈ types, Value.IsKeyType type)
    (heq : table.map (List.map Value.toBytes) = table'.map (List.map Value.toBytes)) :
    table = table' := by
  induction table generalizing table' with
  | nil => exact (List.map_eq_nil_iff.1 heq.symm).symm
  | cons row table ih =>
    obtain ⟨row', table', rfl, hrow, hrest⟩ := List.map_eq_cons_iff.1 heq.symm
    rw [(h row List.mem_cons_self).eq_of_toBytes (h' row' List.mem_cons_self) hkey hrow.symm,
      ih (fun r hr => h r (List.mem_cons_of_mem _ hr))
        (fun r hr => h' r (List.mem_cons_of_mem _ hr)) hrest.symm]

/-- A table of plain texts is parsed as it was formatted. -/
lemma printResultTable_of_plainText (hcols : colNames ≠ [])
    (hnames : ∀ name ∈ colNames, pipe ∉ name ∧ newline ∉ name)
    (hne : ∀ row ∈ rows, row ≠ []) (hplain : ∀ row ∈ rows, ∀ text ∈ row, PlainText text) :
    printResultTable (handleQueryBody colNames rows) = some (colNames, rows) := by
  have hpipe : ∀ row ∈ rows, ∀ text ∈ row, pipe ∉ text := fun row hr text ht hmem =>
    ((hplain row hr text ht).2 pipe hmem).1 rfl
  have hnewline : ∀ row ∈ rows, ∀ text ∈ row, newline ∉ text := fun row hr text ht hmem =>
    ((hplain row hr text ht).2 newline hmem).2.1 rfl
  have htake : (rows.map joinPipe).takeWhile (fun line => !endsRows line) = rows.map joinPipe := by
    refine List.takeWhile_eq_self_iff.2 fun line hline => ?_
    obtain ⟨row, hr, rfl⟩ := List.mem_map.1 hline
    rw [Bool.not_eq_true', ← Bool.not_eq_true, endsRows_joinPipe (hne row hr)]
    rintro (rfl | ⟨text, hhead, hparen⟩)
    · exact (hplain _ hr [] List.mem_cons_self).1 rfl
    · have hmem := List.mem_of_mem_head? (Option.mem_def.2 hparen)
      exact ((hplain row hr text (List.mem_of_mem_head? hhead)).2 _ hmem).2.2 rfl
  have hparse : ∀ row ∈ rows, (parsePipeSeparated ∘ joinPipe) row = id row := fun row hr =>
    parsePipeSeparated_joinPipe (hne row hr) (hpipe row hr)
  rw [printResultTable_handleQueryBody (fun name hn => (hnames name hn).2) hnewline, htake,
    List.map_map, parsePipeSeparated_joinPipe hcols fun name hn => (hnames name hn).1,
    List.map_congr_left hparse, List.map_id]

end Texts

/-! ## The answer to a query -/

/-- The names of the columns. -/
def Schema.names (s : Schema) : List Bytes := s.columns.map fun column => textBytes column.name

/-- Columns of integers and truth values, with names that the client reads as they were written. -/
structure Schema.IsPrintable (s : Schema) : Prop where
  nonempty : s.columns ≠ []
  count : s.columns.length < 2 ^ 32
  types : ∀ type ∈ s.types, type = .integer ∨ type = .boolean
  names : ∀ name ∈ s.names, pipe ∉ name ∧ newline ∉ name

section Answers

variable {std : StandardLibrary} {stof : String → Cpp (BitVec 32)} {parse : Bytes → ParseResult}
  {fuel : ℕ} {sql body : Bytes} {ctx ctx' : ExecutorContext} {plan plan' : PlanNode}
  {schema : Schema} {tuples : List Tuple} {values : List (List Value)}

/-- The texts of rows with a value for each column. -/
lemma resultText_eq (hcount : schema.columns.length < 2 ^ 32)
    (hrows : ∀ tuple ∈ tuples, tuple.values.length = schema.columns.length) :
    resultText schema tuples = handleQueryBody schema.names
      ((tuples.map Tuple.values).map (List.map Value.toBytes)) := by
  have hcols : schema.getColumnCount = schema.columns.length := Nat.mod_eq_of_lt hcount
  have hcells : ∀ tuple ∈ tuples, (List.range schema.columns.length).map
      (fun i => (tuple.getValue i).toBytes) = tuple.values.map Value.toBytes := by
    intro tuple htuple
    rw [← hrows tuple htuple]
    refine List.ext_getElem (by simp) fun i hi hi' => ?_
    rw [List.length_map] at hi'
    simp [Tuple.getValue, List.getElem?_eq_getElem hi']
  unfold resultText Schema.names
  simp only [hcols, List.take_length, List.map_map]
  rw [List.map_congr_left hcells]
  rfl

/-- A table that is printable is printed. -/
lemma printResultTable_resultText (hschema : schema.IsPrintable)
    (hrows : ∀ tuple ∈ tuples, HasTypes schema.types tuple.values) :
    printResultTable (resultText schema tuples) = some (schema.names,
      (tuples.map Tuple.values).map (List.map Value.toBytes)) := by
  have hlen : ∀ tuple ∈ tuples, tuple.values.length = schema.columns.length := by
    intro tuple htuple
    rw [← (hrows tuple htuple).length_eq, Schema.types, List.length_map]
  rw [resultText_eq hschema.count hlen]
  refine printResultTable_of_plainText ?_ hschema.names ?_ ?_
  · simpa [Schema.names] using hschema.nonempty
  · intro row hrow hnil
    rw [List.map_map] at hrow
    obtain ⟨tuple, htuple, rfl⟩ := List.mem_map.1 hrow
    have hempty := hlen tuple htuple
    rw [List.map_eq_nil_iff.1 hnil] at hempty
    exact hschema.nonempty (List.length_eq_zero_iff.1 hempty.symm)
  · intro row hrow text htext
    rw [List.map_map] at hrow
    obtain ⟨tuple, htuple, rfl⟩ := List.mem_map.1 hrow
    obtain ⟨v, hv, rfl⟩ := List.mem_map.1 htext
    obtain ⟨type, htype, hvtype⟩ := exists_left_of_mem (hrows tuple htuple) hv
    exact hvtype.plainText (hschema.types type htype)

/-- A query of which no scan is replaced can be optimized. -/
lemma exists_optimize_of_keepsScans {catalog : Option Catalog} (hplan : plan.isQuery = true)
    (hscans : plan.KeepsScans catalog) : ∃ plan', optimize catalog plan = pure plan' := by
  have hrules : ∀ {plan : PlanNode}, (∀ out oid predicate, plan ≠ .seqScan out oid predicate) →
      applyRules catalog plan = pure (optimizeNLJToHashJoin plan) := by
    intro plan hne
    rw [applyRules, optimizeSeqScanToIndexScan_of_ne hne, pure_bind]
  induction plan with
  | seqScan out oid predicate => exact ⟨_, applyRules_eq hscans rfl⟩
  | indexScan => exact ⟨_, hrules (by simp)⟩
  | nestedLoopJoin out left right predicate ihl ihr | hashJoin out left right _ _ ihl ihr =>
    obtain ⟨hl, hr⟩ := (Bool.and_eq_true _ _).mp hplan
    obtain ⟨left', hleft⟩ := ihl hl hscans.1
    obtain ⟨right', hright⟩ := ihr hr hscans.2
    simp only [optimize, hleft, hright, pure_bind]
    exact ⟨_, hrules (by simp)⟩
  | aggregation out child _ _ _ ih | sort out child _ ih | limit out child _ ih
  | projection out child _ ih =>
    obtain ⟨child', hchild⟩ := ih hplan hscans
    simp only [optimize, hchild, pure_bind]
    exact ⟨_, hrules (by simp)⟩
  | null | insert | delete | update | utility => cases hplan

/-- The body of a result is the text of rows that the engine returns. -/
lemma returns_queryResult_iff (hbind : bindQuery stof ctx.catalog (parse sql) = pure plan)
    (hopt : optimize (some ctx.catalog) plan = pure plan') :
    Returns (queryResult std stof parse fuel sql) ctx body ctx' ↔
      ∃ result, Returns (executePlan std fuel plan') ctx result ctx' ∧
        body = resultText plan'.getOutputSchema result := by
  constructor
  · intro h
    obtain ⟨catalog, c, hcatalog, h⟩ := returns_bind.1 h
    obtain ⟨rfl, rfl⟩ := returns_getCatalog.1 hcatalog
    obtain ⟨bound, c, hbinds, h⟩ := returns_bind.1 h
    obtain ⟨hbound, rfl⟩ := returns_ofCpp.1 hbinds
    cases hbind.symm.trans hbound
    obtain ⟨optimized, c, hoptimizes, h⟩ := returns_bind.1 h
    obtain ⟨hoptimized, rfl⟩ := returns_ofCpp.1 hoptimizes
    cases hopt.symm.trans hoptimized
    obtain ⟨result, c, hresult, h⟩ := returns_bind.1 h
    obtain ⟨rfl, rfl⟩ := returns_pure.1 h
    exact ⟨result, hresult, rfl⟩
  · rintro ⟨result, hresult, rfl⟩
    refine returns_bind.2 ⟨_, ctx, returns_getCatalog.2 ⟨rfl, rfl⟩, ?_⟩
    refine returns_bind.2 ⟨plan, ctx, returns_ofCpp.2 ⟨hbind, rfl⟩, ?_⟩
    refine returns_bind.2 ⟨plan', ctx, returns_ofCpp.2 ⟨hopt, rfl⟩, ?_⟩
    exact returns_bind.2 ⟨result, ctx', hresult, returns_pure.2 ⟨rfl, rfl⟩⟩

/-- **The results of a query.** The server sends a result for a query iff the plan of the binder
denotes rows, whatever the optimizer makes of it, and then it is their text. -/
lemma serves_result_iff (hctx : ctx.Scannable)
    (hbind : bindQuery stof ctx.catalog (parse sql) = pure plan) (hplan : plan.isQuery = true)
    (hscans : plan.KeepsScans (some ctx.catalog)) (hkeys : plan.KeysFit std ctx) :
    Serves std stof parse ctx sql (.result, body) ctx' ↔
      ctx' = ctx ∧ ∃ rows, DenotesRows std ctx plan rows true ∧
        body = resultText plan.getOutputSchema (rows.map Prod.fst) := by
  obtain ⟨plan', hopt⟩ := exists_optimize_of_keepsScans hplan hscans
  obtain ⟨hplan', hto, hfrom⟩ := refinedBy_optimize hplan hscans hkeys hopt
  have hresult : ∀ fuel, handleQuery std stof parse fuel sql ctx = some ((.result, body), ctx') ↔
      ∃ result, Returns (executePlan std fuel plan') ctx result ctx' ∧
        body = resultText plan'.getOutputSchema result := by
    intro fuel
    rw [handleQuery_eq_some_iff, ← returns_queryResult_iff hbind hopt]
    simp [MessageType.result, MessageType.error]
  constructor
  · rintro ⟨fuel, hanswer⟩
    obtain ⟨result, hret, rfl⟩ := (hresult fuel).1 hanswer
    obtain ⟨rfl, rows, hrows, rfl⟩ := exists_denotes_of_returns hplan' hctx hret
    exact ⟨rfl, rows, hfrom.2 rows true hrows, by rw [hto.1]⟩
  · rintro ⟨rfl, rows, hrows, rfl⟩
    obtain ⟨fuel, hreturns⟩ := (hto.2 rows true hrows).completes
    exact ⟨fuel, (hresult fuel).2 ⟨_, hreturns fuel le_rfl, by rw [hto.1]⟩⟩

/-- The server may answer with a result that the client prints as this table. -/
def Shows (std : StandardLibrary) (stof : String → Cpp (BitVec 32)) (parse : Bytes → ParseResult)
    (ctx : ExecutorContext) (sql : Bytes) (colNames : List Bytes) (rows : List (List Bytes)) :
    Prop :=
  ∃ body ctx', Serves std stof parse ctx sql (.result, body) ctx' ∧
    printResultTable body = some (colNames, rows)

end Answers

/-- `SELECT x FROM t`. -/
def selectX : SelectStmt where
  targetList := [{ val := .columnRef [.string "x"] }]
  fromClause := [.rangeVar { relname := "t" }]

/-- The plan of the statement. -/
def planX : PlanNode :=
  .projection (.new [.new "x" .integer]) (.seqScan (smallTable ["x"]).schema 1 .null)
    [.columnValue 0 0 .integer]

end OneBase
