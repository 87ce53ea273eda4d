import OneBase.Server.ResultText
import Mathlib.Data.List.DropRight

set_option relaxedAutoImplicit false
set_option autoImplicit false

/-!
# The prompt of the client

The loop of `onebase_client/client_main.cpp` over the lines of its input: it collects lines until
one ends with a semicolon, and then sends the statement without it.

## Main definitions

* `OneBase.replLine` — one round of the loop: what is kept of the statement, and what is done.
* `OneBase.queriesOf` — the statements that are sent for the lines of an input.

## Main results

* `OneBase.queriesOf_typed` — statements typed over any number of lines are sent as they are.
-/

namespace OneBase

/-- `';'`. -/
def semicolon : UInt8 := 59

/-- `' '`. -/
def blank : UInt8 := 32

/-- `std::isspace`, in the locale of a program that has set none. -/
def isSpace (c : UInt8) : Bool := c = blank || (9 ≤ c && c ≤ 13)

/-- The two loops that trim the query. -/
def trimQuery (query : Bytes) : Bytes := (query.dropWhile isSpace).rdropWhile isSpace

/-- The words `\q`, `quit` and `exit`. -/
def quitWords : List Bytes := [[92, 113], [113, 117, 105, 116], [101, 120, 105, 116]]

/-- The words `\?` and `help`. -/
def helpWords : List Bytes := [[92, 63], [104, 101, 108, 112]]

/-- What the client does after a line. -/
inductive ReplAction
  /-- It reads on, after the help text if it was asked for. -/
  | readOn
  | send (query : Bytes)
  | quit
  deriving DecidableEq, Repr

/-- A round of the loop, with `query_buf` before and after it. -/
def replLine (queryBuf line : Bytes) : Bytes × ReplAction :=
  if quitWords.contains line then (queryBuf, .quit)
  else if helpWords.contains line then (queryBuf, .readOn)
  else if line = [] then (queryBuf, .readOn)
  else if (queryBuf ++ line).getLast? ≠ some semicolon then
    (queryBuf ++ line ++ [blank], .readOn)
  else
    let query := trimQuery (queryBuf ++ line).dropLast
    ([], if query = [] then .readOn else .send query)

/-- The statements that are sent for the lines, until the client quits. -/
def queriesOf (queryBuf : Bytes) : List Bytes → List Bytes
  | [] => []
  | line :: lines =>
    match replLine queryBuf line with
    | (_, .quit) => []
    | (queryBuf, .readOn) => queriesOf queryBuf lines
    | (queryBuf, .send query) => query :: queriesOf queryBuf lines

/-! ## Statements typed over several lines -/

/-- The line is no word of the client, not empty, and does not end with a semicolon. -/
structure IsPart (line : Bytes) : Prop where
  quit : line ∉ quitWords
  help : line ∉ helpWords
  ne_nil : line ≠ []
  last : line.getLast? ≠ some semicolon

/-- The lines at which a statement is typed, the last one without its semicolon. -/
structure Typed where
  init : List Bytes
  last : Bytes

namespace Typed

/-- The lines of the input. -/
def lines (t : Typed) : List Bytes := t.init ++ [t.last ++ [semicolon]]

/-- The statement: the lines with a blank after each but the last. -/
def text (t : Typed) : Bytes := t.init.flatMap (· ++ [blank]) ++ t.last

/-- Nothing in the lines is taken for something else, and something is typed. -/
structure Plain (t : Typed) : Prop where
  init : ∀ line ∈ t.init, IsPart line
  last : t.last ++ [semicolon] ∉ quitWords ∧ t.last ++ [semicolon] ∉ helpWords
  ne_nil : trimQuery t.text ≠ []

end Typed

variable {queryBuf line : Bytes} {lines : List Bytes}

/-- A part of a statement is kept. -/
lemma replLine_of_isPart (queryBuf : Bytes) (h : IsPart line) :
    replLine queryBuf line = (queryBuf ++ (line ++ [blank]), .readOn) := by
  have hlast : (queryBuf ++ line).getLast? = line.getLast? := by
    rw [List.getLast?_append_of_ne_nil _ h.ne_nil]
  have hquit : ¬ quitWords.contains line := by simpa using h.quit
  have hhelp : ¬ helpWords.contains line := by simpa using h.help
  rw [replLine, if_neg hquit, if_neg hhelp, if_neg h.ne_nil, hlast, if_pos h.last,
    List.append_assoc]

/-- The line with the semicolon sends the statement. -/
lemma replLine_of_semicolon (queryBuf : Bytes) (hquit : line ++ [semicolon] ∉ quitWords)
    (hhelp : line ++ [semicolon] ∉ helpWords) (hne : trimQuery (queryBuf ++ line) ≠ []) :
    replLine queryBuf (line ++ [semicolon]) = ([], .send (trimQuery (queryBuf ++ line))) := by
  have hquit' : ¬ quitWords.contains (line ++ [semicolon]) := by simpa using hquit
  have hhelp' : ¬ helpWords.contains (line ++ [semicolon]) := by simpa using hhelp
  rw [replLine, if_neg hquit', if_neg hhelp', if_neg (by simp), ← List.append_assoc,
    if_neg (by simp), List.dropLast_concat]
  simp only [hne, if_false]

/-- The parts of a statement are collected. -/
lemma queriesOf_parts {parts : List Bytes} (h : ∀ line ∈ parts, IsPart line) :
    queriesOf queryBuf (parts ++ lines) =
      queriesOf (queryBuf ++ parts.flatMap (· ++ [blank])) lines := by
  induction parts generalizing queryBuf with
  | nil => simp
  | cons line parts ih =>
    have hline := replLine_of_isPart queryBuf (h line List.mem_cons_self)
    rw [List.cons_append, queriesOf, hline]
    simp only
    rw [ih fun l hl => h l (List.mem_cons_of_mem _ hl), List.flatMap_cons, List.append_assoc]

/-- **Typed statements.** Statements that are typed one after the other, each over any number of
lines, are sent one after the other, trimmed and without their semicolons. -/
theorem queriesOf_typed {ts : List Typed} (h : ∀ t ∈ ts, t.Plain) :
    queriesOf [] (ts.flatMap Typed.lines) = ts.map fun t => trimQuery t.text := by
  induction ts with
  | nil => rfl
  | cons t ts ih =>
    have ht := h t List.mem_cons_self
    have hsend := replLine_of_semicolon (t.init.flatMap (· ++ [blank])) ht.last.1 ht.last.2
      ht.ne_nil
    rw [List.flatMap_cons, Typed.lines, List.append_assoc, queriesOf_parts ht.init, List.nil_append,
      List.singleton_append, queriesOf, hsend]
    simp only
    rw [ih fun u hu => h u (List.mem_cons_of_mem _ hu), List.map_cons, Typed.text]

/-- A statement over two lines, and one on a line of its own. -/
theorem queriesOf_typed_sample :
    queriesOf [] [[65], [66, 59], [67, 59]] = [[65, 32, 66], [67]] :=
  @queriesOf_typed [⟨[[65]], [66]⟩, ⟨[], [67]⟩] (by
    intro t ht
    simp only [List.mem_cons, List.not_mem_nil, or_false] at ht
    rcases ht with rfl | rfl
    · refine ⟨fun line hl => ?_, by decide, by decide⟩
      obtain rfl : line = [65] := by simpa using hl
      exact ⟨by decide, by decide, by decide, by decide⟩
    · exact ⟨fun line hl => absurd hl List.not_mem_nil, by decide, by decide⟩)

end OneBase
