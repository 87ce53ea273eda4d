import OneBase.Lib.Decimal
import Mathlib.Data.List.TakeWhile
import Mathlib.Data.Nat.Notation
import Mathlib.Tactic.Common

set_option relaxedAutoImplicit false
set_option autoImplicit false

/-!
# The text of a result set

The functions of `server/protocol.h` that format a result set as text, the text that `HandleQuery`
of the server sends, and how `PrintResult` of the client reads it. A `std::string` is the list of
its bytes.

## Main definitions

* `OneBase.formatResultHeader`, `OneBase.formatResultRow`, `OneBase.parsePipeSeparated`.
* `OneBase.handleQueryBody` — the body of a `RESULT` message.
* `OneBase.printResultTable` — the header and the rows that the client recovers from the body.
* `OneBase.Readable` — the result sets that survive.

## Main results

* `OneBase.parsePipeSeparated_eq_splitOn`, `OneBase.getlines_eq_splitOn` — the loops split at the
  separator.
* `OneBase.printResultTable_handleQueryBody_iff` — the client recovers exactly the readable result
  sets.
-/

namespace OneBase

/-- The bytes of a `std::string`. -/
abbrev Bytes := List UInt8

/-- `'|'`. -/
def pipe : UInt8 := 124

/-- `'\n'`. -/
def newline : UInt8 := 10

/-- `'('`. -/
def openParen : UInt8 := 40

/-! ## Formatting -/

/-- The loop of the formatting functions: a separator stands before every part but the first. -/
def joinPipe (parts : List Bytes) : Bytes :=
  parts.zipIdx.foldl (fun text it => (if 0 < it.2 then text ++ [pipe] else text) ++ it.1) []

/-- `FormatResultHeader`. -/
def formatResultHeader (colNames : List Bytes) : Bytes := joinPipe colNames

/-- `FormatResultRow`. -/
def formatResultRow (values : List Bytes) : Bytes := joinPipe values

/-- The summary of `HandleQuery`: `"(" + std::to_string(n) + " row" + (n != 1 ? "s" : "") + ")"`. -/
def rowCountSummary (n : ℕ) : Bytes :=
  openParen :: (Decimal.natBytes n ++ [32, 114, 111, 119] ++ (if n ≠ 1 then [115] else []) ++ [41])

/-- The body that `HandleQuery` builds from the column names and the rows of strings. -/
def handleQueryBody (colNames : List Bytes) (rows : List (List Bytes)) : Bytes :=
  rows.foldl (fun body vals => body ++ (formatResultRow vals ++ [newline]))
    (formatResultHeader colNames ++ [newline]) ++ rowCountSummary rows.length

/-! ## Parsing -/

/-- One round of the loop of `ParsePipeSeparated`: the parts and `current`. -/
def parseStep (st : List Bytes × Bytes) (c : UInt8) : List Bytes × Bytes :=
  if c = pipe then (st.1 ++ [st.2], []) else (st.1, st.2 ++ [c])

/-- `ParsePipeSeparated`. -/
def parsePipeSeparated (line : Bytes) : List Bytes :=
  let st := line.foldl parseStep ([], [])
  st.1 ++ [st.2]

/-- The lines that `std::getline` reads from a stream, until it reads nothing at the end of the
text. The newline at the end of a line is dropped. -/
def getlines (text : Bytes) : List Bytes :=
  if _h : text = [] then []
  else text.takeWhile (· ≠ newline) :: getlines (text.dropWhile (· ≠ newline)).tail
termination_by text.length
decreasing_by
  have hpos := List.length_pos_iff.2 _h
  have hle := (List.dropWhile_suffix (p := (· ≠ newline)) (l := text)).length_le
  rw [List.length_tail]
  omega

/-- The line ends the rows: it is empty or begins like the summary. -/
def endsRows (line : Bytes) : Bool := line.isEmpty || line.head? = some openParen

/-- The header and the rows that `PrintResult` parses; it prints nothing if there is no line. -/
def printResultTable (body : Bytes) : Option (List Bytes × List (List Bytes)) :=
  match getlines body with
  | [] => none
  | header :: lines =>
    some (parsePipeSeparated header,
      (lines.takeWhile fun line => !endsRows line).map parsePipeSeparated)

/-- The result sets that can be read back: no separator occurs in a name or a value, no row begins
with a parenthesis, and no row is empty text. -/
structure Readable (colNames : List Bytes) (rows : List (List Bytes)) : Prop where
  names : ∀ name ∈ colNames, pipe ∉ name ∧ newline ∉ name
  values : ∀ row ∈ rows, ∀ value ∈ row, pipe ∉ value ∧ newline ∉ value
  paren : ∀ row ∈ rows, ∀ value, row.head? = some value → value.head? ≠ some openParen
  nonempty : colNames.length = 1 → ∀ row ∈ rows, row ≠ [[]]

/-! ## Joining and splitting -/

/-- The loop of the formatting functions after the first part. -/
lemma foldl_zipIdx_succ (parts : List Bytes) (text : Bytes) (k : ℕ) :
    (parts.zipIdx (k + 1)).foldl
        (fun text it => (if 0 < it.2 then text ++ [pipe] else text) ++ it.1) text =
      text ++ parts.flatMap (pipe :: ·) := by
  induction parts generalizing text k with
  | nil => simp
  | cons part parts ih =>
    rw [List.zipIdx_cons, List.foldl_cons, ih]
    simp

/-- The parts with a separator between them. -/
lemma joinPipe_eq_intercalate (parts : List Bytes) : joinPipe parts = [pipe].intercalate parts := by
  cases parts with
  | nil => rfl
  | cons part parts =>
    rw [joinPipe, List.zipIdx_cons, List.foldl_cons, foldl_zipIdx_succ]
    induction parts generalizing part with
    | nil => simp
    | cons next parts ih =>
      have := ih next
      simp only [Nat.lt_irrefl, if_false, List.nil_append] at this ⊢
      rw [List.flatMap_cons, List.cons_append, this, List.intercalate_cons_cons, List.append_assoc]
      rfl

/-- Nothing in front of the first part. -/
lemma modifyHead_nil_append (l : List Bytes) : l.modifyHead ([] ++ ·) = l := by
  cases l <;> rfl

/-- The loop of `ParsePipeSeparated`, from any state. -/
lemma foldl_parseStep (line : Bytes) (parts : List Bytes) (current : Bytes) :
    (line.foldl parseStep (parts, current)).1 ++ [(line.foldl parseStep (parts, current)).2] =
      parts ++ (line.splitOn pipe).modifyHead (current ++ ·) := by
  induction line generalizing parts current with
  | nil => simp
  | cons c line ih =>
    rw [List.foldl_cons, parseStep, List.splitOn_cons_eq_if_modifyHead]
    by_cases hc : c = pipe
    · rw [if_pos hc, if_pos (by simpa using hc), ih, modifyHead_nil_append]
      simp
    · rw [if_neg hc, if_neg (by simpa using hc), ih]
      simp [Function.comp_def]

/-- `ParsePipeSeparated` splits at the separator. -/
lemma parsePipeSeparated_eq_splitOn (line : Bytes) :
    parsePipeSeparated line = line.splitOn pipe := by
  have := foldl_parseStep line [] []
  rwa [modifyHead_nil_append, List.nil_append] at this

/-- Parts without separators are recovered. -/
lemma parsePipeSeparated_joinPipe {parts : List Bytes} (hne : parts ≠ [])
    (h : ∀ part ∈ parts, pipe ∉ part) : parsePipeSeparated (joinPipe parts) = parts := by
  rw [parsePipeSeparated_eq_splitOn, joinPipe_eq_intercalate, List.splitOn_intercalate _ h hne]

/-- No part has a separator, and the parts have no other bytes than the line. -/
lemma mem_of_mem_parsePipeSeparated {line part : Bytes} (h : part ∈ parsePipeSeparated line) :
    pipe ∉ part ∧ ∀ c ∈ part, c ∈ line := by
  rw [parsePipeSeparated_eq_splitOn] at h
  induction line generalizing part with
  | nil =>
    obtain rfl : part = [] := by simpa using h
    simp
  | cons c line ih =>
    rw [List.splitOn_cons_eq_if_modifyHead] at h
    split_ifs at h with hc
    · rcases List.mem_cons.1 h with rfl | h
      · simp
      · obtain ⟨hpipe, hmem⟩ := ih h
        exact ⟨hpipe, fun d hd => List.mem_cons_of_mem _ (hmem d hd)⟩
    · obtain ⟨first, rest, hsplit⟩ := List.exists_cons_of_ne_nil (List.splitOn_ne_nil pipe line)
      rw [hsplit, List.modifyHead_cons] at h
      rcases List.mem_cons.1 h with rfl | h
      · have hfirst : first ∈ List.splitOn pipe line := by
          rw [hsplit]
          exact List.mem_cons_self
        obtain ⟨hpipe, hmem⟩ := ih hfirst
        refine ⟨?_, fun d hd => ?_⟩
        · simp only [List.mem_cons, not_or]
          exact ⟨fun heq => hc (by simp [heq]), hpipe⟩
        · rcases List.mem_cons.1 hd with rfl | hd
          · exact List.mem_cons_self
          · exact List.mem_cons_of_mem _ (hmem d hd)
      · have hlater : part ∈ List.splitOn pipe line := by
          rw [hsplit]
          exact List.mem_cons_of_mem _ h
        obtain ⟨hpipe, hmem⟩ := ih hlater
        exact ⟨hpipe, fun d hd => List.mem_cons_of_mem _ (hmem d hd)⟩

/-- The bytes of a joined text. -/
lemma mem_joinPipe {parts : List Bytes} {c : UInt8} (h : c ∈ joinPipe parts) :
    c = pipe ∨ ∃ part ∈ parts, c ∈ part := by
  cases parts with
  | nil => cases h
  | cons part parts =>
    rw [joinPipe, List.zipIdx_cons, List.foldl_cons, foldl_zipIdx_succ] at h
    rcases List.mem_append.1 h with hfirst | hrest
    · exact .inr ⟨part, List.mem_cons_self, by simpa using hfirst⟩
    · obtain ⟨part', hpart', hc⟩ := List.mem_flatMap.1 hrest
      rcases List.mem_cons.1 hc with rfl | hc
      · exact .inl rfl
      · exact .inr ⟨part', List.mem_cons_of_mem _ hpart', hc⟩

/-- A joined text has no newline, if the parts have none. -/
lemma newline_notMem_joinPipe {parts : List Bytes} (h : ∀ part ∈ parts, newline ∉ part) :
    newline ∉ joinPipe parts := by
  intro hmem
  rcases mem_joinPipe hmem with heq | ⟨part, hpart, hc⟩
  · exact absurd heq (by decide)
  · exact h part hpart hc

/-! ## Lines -/

/-- A line that ends with a newline. -/
lemma getlines_append_cons {line text : Bytes} (h : newline ∉ line) :
    getlines (line ++ newline :: text) = line :: getlines text := by
  have hall : ∀ c ∈ line, decide (c ≠ newline) = true := by
    intro c hc
    rw [decide_eq_true_eq]
    rintro rfl
    exact h hc
  rw [getlines, dif_neg (by simp), List.takeWhile_append_of_pos hall,
    List.dropWhile_append_of_pos hall]
  simp

/-- The last line, without a newline at its end. -/
lemma getlines_last {line : Bytes} (hne : line ≠ []) (h : newline ∉ line) :
    getlines line = [line] := by
  have hall : ∀ c ∈ line, decide (c ≠ newline) = true := by
    intro c hc
    rw [decide_eq_true_eq]
    rintro rfl
    exact h hc
  rw [getlines, dif_neg hne, List.takeWhile_eq_self_iff.2 hall, List.dropWhile_eq_nil_iff.2 hall,
    List.tail_nil, getlines, dif_pos rfl]

/-- No line has a newline. -/
lemma newline_notMem_of_mem_getlines {text line : Bytes} (h : line ∈ getlines text) :
    newline ∉ line := by
  induction text using getlines.induct with
  | case1 =>
    rw [getlines, dif_pos rfl] at h
    cases h
  | case2 text hne ih =>
    rw [getlines, dif_neg hne] at h
    rcases List.mem_cons.1 h with rfl | h
    · intro hmem
      simpa using List.mem_takeWhile_imp hmem
    · exact ih h

/-! ## The body -/

/-- The summary is a line of its own. -/
lemma newline_notMem_rowCountSummary (n : ℕ) : newline ∉ rowCountSummary n := by
  have hdigits : newline ∉ Decimal.natBytes n := by
    intro hmem
    have hlo : 48 ≤ newline.toNat := (Decimal.mem_natBytes hmem).1
    exact absurd hlo (by decide)
  unfold rowCountSummary
  have hparen : newline ≠ openParen := by decide
  split_ifs <;> simp only [List.mem_cons, List.mem_append, hparen, hdigits, false_or, not_or] <;>
    decide

/-- The body is the header, the rows and the summary, one after the other. -/
lemma handleQueryBody_eq (colNames : List Bytes) (rows : List (List Bytes)) :
    handleQueryBody colNames rows = joinPipe colNames ++ newline ::
      (rows.flatMap (fun row => joinPipe row ++ [newline]) ++ rowCountSummary rows.length) := by
  rw [handleQueryBody, List.foldl_append_eq_append]
  simp [formatResultHeader, formatResultRow, List.flatMap]

/-- The lines of the body, if no name and no value has a newline. -/
lemma getlines_handleQueryBody {colNames : List Bytes} {rows : List (List Bytes)}
    (hnames : ∀ name ∈ colNames, newline ∉ name)
    (hvalues : ∀ row ∈ rows, ∀ value ∈ row, newline ∉ value) :
    getlines (handleQueryBody colNames rows) =
      joinPipe colNames :: (rows.map joinPipe ++ [rowCountSummary rows.length]) := by
  have hrows : ∀ n, getlines (rows.flatMap (fun row => joinPipe row ++ [newline]) ++
      rowCountSummary n) = rows.map joinPipe ++ [rowCountSummary n] := by
    intro n
    induction rows with
    | nil => exact getlines_last (by simp [rowCountSummary]) (newline_notMem_rowCountSummary n)
    | cons row rows ih =>
      have hrow := newline_notMem_joinPipe (hvalues row List.mem_cons_self)
      have htail := ih fun r hr => hvalues r (List.mem_cons_of_mem _ hr)
      rw [List.flatMap_cons, List.append_assoc, List.append_assoc, List.singleton_append,
        getlines_append_cons hrow, htail, List.map_cons, List.cons_append]
  rw [handleQueryBody_eq, getlines_append_cons (newline_notMem_joinPipe hnames), hrows]

/-- What the client recovers, if no name and no value has a newline. -/
lemma printResultTable_handleQueryBody {colNames : List Bytes} {rows : List (List Bytes)}
    (hnames : ∀ name ∈ colNames, newline ∉ name)
    (hvalues : ∀ row ∈ rows, ∀ value ∈ row, newline ∉ value) :
    printResultTable (handleQueryBody colNames rows) =
      some (parsePipeSeparated (joinPipe colNames),
        ((rows.map joinPipe).takeWhile fun line => !endsRows line).map parsePipeSeparated) := by
  rw [printResultTable, getlines_handleQueryBody hnames hvalues]
  have hsummary : endsRows (rowCountSummary rows.length) = true := by
    simp [endsRows, rowCountSummary]
  simp only [List.takeWhile_append, Option.some.injEq, Prod.mk.injEq, true_and]
  split_ifs with hall
  · have htake := (List.takeWhile_prefix fun line => !endsRows line).eq_of_length hall
    rw [htake]
    simp [hsummary]
  · rfl

/-- A row of text ends the rows iff it begins with a parenthesis or is one empty value. -/
lemma endsRows_joinPipe {row : List Bytes} (hne : row ≠ []) :
    endsRows (joinPipe row) = true ↔
      row = [[]] ∨ ∃ value, row.head? = some value ∧ value.head? = some openParen := by
  obtain ⟨value, rest, rfl⟩ := List.exists_cons_of_ne_nil hne
  have hjoin : joinPipe (value :: rest) = value ++ rest.flatMap (pipe :: ·) := by
    rw [joinPipe, List.zipIdx_cons, List.foldl_cons, foldl_zipIdx_succ]
    rfl
  rw [hjoin]
  have hpipe : pipe ≠ openParen := by decide
  cases value with
  | cons c value => simp [endsRows]
  | nil =>
    cases rest with
    | nil => simp [endsRows]
    | cons next rest => simp [endsRows, hpipe]

/-- Everything that the client recovers is without separators. -/
lemma separators_notMem_of_printResultTable {body : Bytes} {colNames : List Bytes}
    {rows : List (List Bytes)} (h : printResultTable body = some (colNames, rows)) :
    (∀ name ∈ colNames, pipe ∉ name ∧ newline ∉ name) ∧
      ∀ row ∈ rows, ∀ value ∈ row, pipe ∉ value ∧ newline ∉ value := by
  have hclean : ∀ line ∈ getlines body, ∀ part ∈ parsePipeSeparated line,
      pipe ∉ part ∧ newline ∉ part := by
    intro line hline part hpart
    obtain ⟨hpipe, hmem⟩ := mem_of_mem_parsePipeSeparated hpart
    exact ⟨hpipe, fun hnl => newline_notMem_of_mem_getlines hline (hmem _ hnl)⟩
  unfold printResultTable at h
  split at h
  · cases h
  · rename_i header lines hlines
    obtain ⟨rfl, rfl⟩ := Prod.mk.inj (Option.some.inj h)
    refine ⟨hclean header (by rw [hlines]; exact List.mem_cons_self), fun row hrow => ?_⟩
    obtain ⟨line, hline, rfl⟩ := List.mem_map.1 hrow
    refine hclean line ?_
    rw [hlines]
    exact List.mem_cons_of_mem _ ((List.takeWhile_prefix _).subset hline)

/-- **Result text round trip.** The client recovers the header and the rows iff they are
readable. -/
theorem printResultTable_handleQueryBody_iff {colNames : List Bytes} {rows : List (List Bytes)}
    (hcols : colNames ≠ []) (hrows : ∀ row ∈ rows, row.length = colNames.length) :
    printResultTable (handleQueryBody colNames rows) = some (colNames, rows) ↔
      Readable colNames rows := by
  have hrowne : ∀ row ∈ rows, row ≠ [] := by
    intro row hrow hnil
    have hlen := hrows row hrow
    rw [hnil] at hlen
    exact hcols (List.length_eq_zero_iff.1 hlen.symm)
  constructor
  · intro h
    obtain ⟨hnames, hvalues⟩ := separators_notMem_of_printResultTable h
    rw [printResultTable_handleQueryBody (fun name hn => (hnames name hn).2)
      fun row hr value hv => (hvalues row hr value hv).2] at h
    -- as many rows were recovered as there are, so no row has ended the rows
    have hlen := congrArg List.length (Prod.mk.inj (Option.some.inj h)).2
    rw [List.length_map] at hlen
    have htake : (rows.map joinPipe).takeWhile (fun line => !endsRows line) = rows.map joinPipe :=
      (List.takeWhile_prefix _).eq_of_length (by rw [hlen, List.length_map])
    have hends : ∀ row ∈ rows, ¬ (row = [[]] ∨
        ∃ value, row.head? = some value ∧ value.head? = some openParen) := by
      intro row hr hbad
      have hline := List.takeWhile_eq_self_iff.1 htake _ (List.mem_map_of_mem hr)
      rw [(endsRows_joinPipe (hrowne row hr)).2 hbad] at hline
      cases hline
    exact ⟨hnames, hvalues, fun row hr value hhead hparen =>
      hends row hr (.inr ⟨value, hhead, hparen⟩), fun _ row hr hempty => hends row hr (.inl hempty)⟩
  · intro h
    rw [printResultTable_handleQueryBody (fun name hn => (h.names name hn).2)
      fun row hr value hv => (h.values row hr value hv).2]
    have htake : (rows.map joinPipe).takeWhile (fun line => !endsRows line) = rows.map joinPipe := by
      refine List.takeWhile_eq_self_iff.2 fun line hline => ?_
      obtain ⟨row, hr, rfl⟩ := List.mem_map.1 hline
      rw [Bool.not_eq_true', ← Bool.not_eq_true, endsRows_joinPipe (hrowne row hr)]
      rintro (hempty | ⟨value, hhead, hparen⟩)
      · refine h.nonempty ?_ row hr hempty
        rw [← hrows row hr, hempty]
        rfl
      · exact h.paren row hr value hhead hparen
    rw [htake, List.map_map, parsePipeSeparated_joinPipe hcols fun name hn => (h.names name hn).1]
    have hparse : ∀ row ∈ rows, (parsePipeSeparated ∘ joinPipe) row = id row := fun row hr =>
      parsePipeSeparated_joinPipe (hrowne row hr) fun value hv => (h.values row hr value hv).1
    rw [List.map_congr_left hparse, List.map_id]

/-- Two columns and two rows. -/
theorem printResultTable_handleQueryBody_sample :
    printResultTable (handleQueryBody [[97], [98]] [[[49], []], [[50], [40]]]) =
      some ([[97], [98]], [[[49], []], [[50], [40]]]) :=
  (printResultTable_handleQueryBody_iff (by decide) (by decide)).2
    ⟨by decide, by decide, by decide, by decide⟩

/-- A value that begins with a parenthesis ends the rows: two of three rows are lost. -/
theorem printResultTable_loses_rows :
    printResultTable (handleQueryBody [[97]] [[[49]], [[40, 49, 41]], [[50]]]) =
        some ([[97]], [[[49]]]) ∧
      printResultTable (handleQueryBody [[97]] [[[49]], [[40, 49, 41]], [[50]]]) ≠
        some ([[97]], [[[49]], [[40, 49, 41]], [[50]]]) := by
  have h : printResultTable (handleQueryBody [[97]] [[[49]], [[40, 49, 41]], [[50]]]) =
      some ([[97]], [[[49]]]) := by
    rw [printResultTable_handleQueryBody (by decide) (by decide)]
    rfl
  refine ⟨h, ?_⟩
  rw [h]
  decide

end OneBase
