import OneBase.Execution.Modifications
import OneBase.Execution.SeqScan
import OneBase.Execution.SmallTables

set_option relaxedAutoImplicit false
set_option autoImplicit false

/-!
# Inserting a table into itself

`INSERT INTO t SELECT * FROM t WHERE p` appends to the chain of pages along which its scan walks.
The iterator is one step ahead of the row that is inserted: only at the end of the heap has it
stopped before the copy arrives.

## Main definitions

* `OneBase.SelfInsert` — a table whose rows all have the same size, ready to grow at its end.
* `OneBase.InsertsSnapshot` — the statement inserts one copy of each row that matched before.
* `OneBase.OnlyLastMatches` — no row that matches has a row behind it.

## Main results

* `OneBase.SelfInsert.step` — a round of the loop.
* `OneBase.SelfInsert.not_returns` — with two rows that match, the loop does not end.
* `OneBase.insertsSnapshot_iff` — the statement reads a snapshot iff only the last row matches.
-/

namespace OneBase

open Exec TableHeap

/-- A table of integers whose pages but the last have no room for a row, with its indexes. -/
structure SelfInsert (ctx : ExecutorContext) (tableInfo : TableInfo) (oids : List ℕ)
    (pages : Pages) : Prop extends IntegerTable ctx tableInfo pages where
  filled : Filled ctx.bpm (4 * tableInfo.schema.columns.length) pages
  twoFrames : 2 ≤ ctx.poolSize
  indexes : TableIndexes ctx.catalog tableInfo oids

/-- Whether a row of the heap matches the predicate. -/
def isMatch (predicate : Expression) (schema : Schema) (r : RID × List UInt8) : Bool :=
  match (selects predicate schema r.2).run with
  | some (.ok true) => true
  | _ => false

/-- The rows that match. -/
def matching (predicate : Expression) (schema : Schema) (rows : List (RID × List UInt8)) :
    List (RID × List UInt8) :=
  rows.filter (isMatch predicate schema)

/-- With enough fuel, the statement returns the number of the rows that matched before it began,
the old rows are still there, and there is one copy more of each row that matched. -/
def InsertsSnapshot (std : StandardLibrary) (ctx : ExecutorContext) (tableInfo : TableInfo)
    (pages : Pages) (plan : PlanNode) (predicate : Expression) : Prop :=
  ∃ fuel₀, ∀ fuel ≥ fuel₀, ∃ tuple ctx' pages',
    Returns (executePlan std fuel plan) ctx [tuple] ctx' ∧
    countTuple (matching predicate tableInfo.schema (liveRows pages)).length = pure tuple ∧
    Holds ctx'.bpm.content tableInfo.table pages' ∧
    (∀ r ∈ liveRows pages, r ∈ liveRows pages') ∧
    ((liveRows pages').map Prod.snd).Perm
      ((liveRows pages ++ matching predicate tableInfo.schema (liveRows pages)).map Prod.snd)

/-- The predicate can be evaluated on every row, and a row that matches has no row behind it. -/
def OnlyLastMatches (predicate : Expression) (schema : Schema) (rows : List (RID × List UInt8)) :
    Prop :=
  (∀ r ∈ rows, ∃ keep, selects predicate schema r.2 = pure keep) ∧
    ∀ before r after, rows = before ++ r :: after → selects predicate schema r.2 = pure true →
      after = []

section Loop

variable {ctx ctx' c c' : ExecutorContext} {tableInfo : TableInfo} {oids : List ℕ} {pages : Pages}
  {predicate : Expression} {schema : Schema} {seen ahead rest : List (RID × List UInt8)} {row : Row}
  {st : SeqScanState} {count count' : ℤ} {fuel n : ℕ} {r : RID × List UInt8}

/-- A row matches if the scan selects it. -/
lemma isMatch_iff : isMatch predicate schema r = true ↔ selects predicate schema r.2 = pure true := by
  unfold isMatch
  constructor
  · intro h
    split at h
    · assumption
    · cases h
  · intro h
    rw [h]
    rfl

/-- A round of the loop: the copy of a row arrives behind the rows that are still ahead. -/
lemma SelfInsert.step (h : SelfInsert ctx tableInfo oids pages)
    (hrows : liveRows pages = seen ++ ahead)
    (hnext : Returns (seqScanNext fuel predicate n (scanAt tableInfo ahead)) ctx (some row, st) c)
    (hbody : Returns (insertRow fuel tableInfo oids count row) c count' c') :
    count' = count + 1 ∧ ∃ skipped r rest pages' rid, ahead = skipped ++ r :: rest ∧
      (∀ x ∈ skipped, selects predicate tableInfo.schema x.2 = pure false) ∧
      selects predicate tableInfo.schema r.2 = pure true ∧
      SelfInsert c' tableInfo oids pages' ∧
      liveRows pages' = seen ++ skipped ++ r :: (rest ++ [(rid, r.2)]) ∧
      st = scanAt tableInfo (if rest = [] then [] else rest ++ [(rid, r.2)]) := by
  obtain ⟨rest, hscan, rfl, rfl⟩ := h.scans_of_returns hrows hnext
  obtain ⟨skipped, r, rfl, hskipped, hread, hrid⟩ := Scans.some_iff.1 hscan
  obtain ⟨tuple, rid⟩ := row
  obtain rfl : rid = r.1 := hrid
  have hmem : ∀ x ∈ skipped ++ r :: rest, x ∈ liveRows pages := by
    intro x hx
    rw [hrows]
    exact List.mem_append_right _ hx
  have hr : r ∈ liveRows pages := hmem r (by simp)
  obtain ⟨hselects, htuple⟩ := h.selects_of_scanRow hr hread
  obtain rfl := htuple tuple rfl
  have hlen := h.rows r hr
  have hne : r.2 ≠ [] := (mem_liveRows.1 hr).choose_spec.2.2
  obtain ⟨hcount, newRid, pages', hinserted⟩ := h.insertRow_returns h.twoFrames h.indexes.nodup
    (carries_parsedTuple rfl) hlen (h.length_le hr).2 hne hbody
  have hfilled : Filled c.bpm r.2.length pages := by
    rw [hlen]
    exact h.filled
  obtain ⟨hfilled', hrows'⟩ := hinserted.inserts.atEnd hfilled
  rw [Option.elim_some, if_neg hne, hrows] at hrows'
  obtain ⟨t, -, hmaintained⟩ := hinserted.catalog
  refine ⟨hcount, skipped, r, rest, pages', newRid, rfl, ?_, hselects, ?_, ?_, ?_⟩
  · intro x hx
    exact (h.selects_of_scanRow (hmem x (List.mem_append_left _ hx)) (hskipped x hx)).1
  · refine ⟨hinserted.table, ?_, ?_, h.indexes.maintained hmaintained
      (onlyEntries_insertChange _ _ _)⟩
    · rw [← hlen]
      exact hfilled'
    · rw [hinserted.poolSize_eq]
      exact h.twoFrames
  · rw [hrows']
    simp
  · cases rest with
    | nil => rfl
    | cons x rest => rfl

/-- A loop with a match ahead begins with a round. -/
lemma SelfInsert.first_round (h : SelfInsert ctx tableInfo oids pages)
    (hrows : liveRows pages = seen ++ ahead) {x : RID × List UInt8} (hx : x ∈ ahead)
    (hmatch : selects predicate tableInfo.schema x.2 = pure true) {s : SeqScanState}
    (hret : Returns (forEachRow (seqScanNext fuel predicate fuel) (insertRow fuel tableInfo oids) n
      (scanAt tableInfo ahead) count) ctx (s, count') ctx') :
    ∃ m skipped r rest pages' rid c, n = m + 1 ∧ ahead = skipped ++ r :: rest ∧
      (∀ x ∈ skipped, selects predicate tableInfo.schema x.2 = pure false) ∧
      selects predicate tableInfo.schema r.2 = pure true ∧ SelfInsert c tableInfo oids pages' ∧
      liveRows pages' = (seen ++ skipped ++ [r]) ++ (rest ++ [(rid, r.2)]) ∧
      Returns (forEachRow (seqScanNext fuel predicate fuel) (insertRow fuel tableInfo oids) m
        (scanAt tableInfo (if rest = [] then [] else rest ++ [(rid, r.2)])) (count + 1)) c
        (s, count') ctx' := by
  cases n with
  | zero => exact absurd hret not_returns_undefined
  | succ n =>
    obtain ⟨⟨o, st⟩, c, hnext, hrest⟩ := returns_bind.1 hret
    cases o with
    | none =>
      obtain ⟨rest, hscan, -, rfl⟩ := h.scans_of_returns hrows hnext
      obtain ⟨-, hnone⟩ := Scans.none_iff.1 hscan
      have hx' : x ∈ liveRows pages := by
        rw [hrows]
        exact List.mem_append_right _ hx
      have hselects := (h.selects_of_scanRow hx' (hnone x hx)).1
      rw [hmatch] at hselects
      cases hselects
    | some row =>
      obtain ⟨acc, c', hbody, hloop⟩ := returns_bind.1 hrest
      obtain ⟨rfl, skipped, r, rest, pages', rid, rfl, hskipped, hr, h', hrows', rfl⟩ :=
        h.step hrows hnext hbody
      refine ⟨n, skipped, r, rest, pages', rid, c', rfl, rfl, hskipped, hr, h', ?_, hloop⟩
      rw [hrows']
      simp

/-- The matches behind rows that do not match. -/
lemma matching_append_cons {skipped : List (RID × List UInt8)}
    (hskipped : ∀ x ∈ skipped, selects predicate schema x.2 = pure false)
    (hr : selects predicate schema r.2 = pure true) (rest : List (RID × List UInt8)) :
    matching predicate schema (skipped ++ r :: rest) = r :: matching predicate schema rest := by
  have hnone : skipped.filter (isMatch predicate schema) = [] := by
    rw [List.filter_eq_nil_iff]
    intro x hx hmatch
    have hselects := hskipped x hx
    rw [isMatch_iff.1 hmatch] at hselects
    cases hselects
  unfold matching
  rw [List.filter_append, hnone, List.nil_append, List.filter_cons_of_pos (isMatch_iff.2 hr)]

/-- With two rows ahead that match, the loop does not end: it meets every copy that it makes. -/
lemma SelfInsert.not_returns (h : SelfInsert ctx tableInfo oids pages)
    (hrows : liveRows pages = seen ++ ahead)
    (hmany : 2 ≤ (matching predicate tableInfo.schema ahead).length) {s : SeqScanState} :
    ¬ Returns (forEachRow (seqScanNext fuel predicate fuel) (insertRow fuel tableInfo oids) n
      (scanAt tableInfo ahead) count) ctx (s, count') ctx' := by
  induction n generalizing ctx pages seen ahead count with
  | zero => exact not_returns_undefined
  | succ n ih =>
    intro hret
    obtain ⟨x, hx⟩ := List.exists_mem_of_length_pos (Nat.lt_of_lt_of_le Nat.two_pos hmany)
    obtain ⟨hmem, hmatch⟩ := List.mem_filter.1 hx
    obtain ⟨m, skipped, r, rest, pages', rid, c, hm, rfl, hskipped, hr, h', hrows', hloop⟩ :=
      h.first_round hrows hmem (isMatch_iff.1 hmatch) hret
    obtain rfl : n = m := Nat.succ.inj hm
    rw [matching_append_cons hskipped hr, List.length_cons] at hmany
    have hne : rest ≠ [] := by
      rintro rfl
      simp [matching] at hmany
    rw [if_neg hne] at hloop
    -- the copy matches like the row, so there are as many matches ahead as before
    have hcopy : isMatch predicate tableInfo.schema (rid, r.2) = true := isMatch_iff.2 hr
    refine ih h' hrows' ?_ hloop
    unfold matching at hmany ⊢
    rw [List.filter_append, List.filter_cons_of_pos hcopy, List.filter_nil, List.length_append,
      List.length_singleton]
    exact hmany

/-- The count after a round of the loop. -/
lemma insertRow_count (h : Returns (insertRow fuel tableInfo oids count row) ctx count' ctx') :
    count ≤ count' ∧ (count < 2 ^ 31 → count' < 2 ^ 31) := by
  obtain ⟨r, c₁, -, h₁⟩ := returns_bind.1 h
  cases r with
  | none =>
    obtain ⟨rfl, -⟩ := returns_pure.1 h₁
    exact ⟨le_rfl, id⟩
  | some rid =>
    obtain ⟨n, c₂, hcount, h₂⟩ := returns_bind.1 h₁
    obtain ⟨hcount', -⟩ := returns_ofCpp.1 hcount
    obtain ⟨⟨⟩, c₃, -, h₃⟩ := returns_bind.1 h₂
    obtain ⟨rfl, -⟩ := returns_pure.1 h₃
    unfold countUp at hcount'
    split at hcount'
    · rename_i hlt
      cases hcount'
      exact ⟨by omega, fun _ => hlt⟩
    · cases hcount'

/-- The count after the loop. -/
lemma loop_count {s s' : SeqScanState} (h : Returns (forEachRow (seqScanNext fuel predicate fuel)
      (insertRow fuel tableInfo oids) n s count) ctx (s', count') ctx') (hlt : count < 2 ^ 31) :
    count ≤ count' ∧ count' < 2 ^ 31 := by
  refine forEachRow_rule (I := fun _ acc _ => count ≤ acc ∧ acc < 2 ^ 31)
    (Q := fun _ acc _ => count ≤ acc ∧ acc < 2 ^ 31) ?_ ?_ ⟨le_rfl, hlt⟩ h
  · intro st acc c row st' c' acc' c'' hacc _ hbody
    obtain ⟨hle, hlt'⟩ := insertRow_count hbody
    exact ⟨hacc.1.trans hle, hlt' hacc.2⟩
  · intro st acc c st' c' hacc _
    exact hacc

/-- The predicate can be evaluated on every row ahead of a loop that ends. -/
lemma SelfInsert.evaluates (h : SelfInsert ctx tableInfo oids pages)
    (hrows : liveRows pages = seen ++ ahead) {s : SeqScanState}
    (hret : Returns (forEachRow (seqScanNext fuel predicate fuel) (insertRow fuel tableInfo oids) n
      (scanAt tableInfo ahead) count) ctx (s, count') ctx') :
    ∀ x ∈ ahead, ∃ keep, selects predicate tableInfo.schema x.2 = pure keep := by
  induction n generalizing ctx pages seen ahead count with
  | zero => exact absurd hret not_returns_undefined
  | succ n ih =>
    obtain ⟨⟨o, st⟩, c, hnext, hrest⟩ := returns_bind.1 hret
    cases o with
    | none =>
      obtain ⟨rest, hscan, -, rfl⟩ := h.scans_of_returns hrows hnext
      obtain ⟨-, hnone⟩ := Scans.none_iff.1 hscan
      intro x hx
      have hx' : x ∈ liveRows pages := by
        rw [hrows]
        exact List.mem_append_right _ hx
      exact ⟨false, (h.selects_of_scanRow hx' (hnone x hx)).1⟩
    | some row =>
      obtain ⟨acc, c', hbody, hloop⟩ := returns_bind.1 hrest
      obtain ⟨rfl, skipped, r, rest, pages', rid, rfl, hskipped, hr, h', hrows', rfl⟩ :=
        h.step hrows hnext hbody
      intro x hx
      rw [List.mem_append, List.mem_cons] at hx
      rcases hx with hx | rfl | hx
      · exact ⟨false, hskipped x hx⟩
      · exact ⟨true, hr⟩
      · have hassoc : seen ++ skipped ++ r :: (rest ++ [(rid, r.2)]) =
            (seen ++ skipped ++ [r]) ++ (rest ++ [(rid, r.2)]) := by simp
        rw [if_neg (List.ne_nil_of_mem hx)] at hloop
        rw [hassoc] at hrows'
        exact ih h' hrows' hloop x (List.mem_append_left _ hx)

/-- A match with a row behind it is inserted at least twice. -/
lemma SelfInsert.two_le_count (h : SelfInsert ctx tableInfo oids pages)
    (hrows : liveRows pages = seen ++ ahead) {before after : List (RID × List UInt8)}
    (hahead : ahead = before ++ r :: after) (hafter : after ≠ [])
    (hmatch : selects predicate tableInfo.schema r.2 = pure true) {s : SeqScanState}
    (hlt : count + 2 < 2 ^ 31)
    (hret : Returns (forEachRow (seqScanNext fuel predicate fuel) (insertRow fuel tableInfo oids) n
      (scanAt tableInfo ahead) count) ctx (s, count') ctx') :
    count + 2 ≤ count' := by
  have hmem : r ∈ ahead := by
    rw [hahead]
    simp
  obtain ⟨m, skipped, r', rest, pages', rid, c, -, hsplit, hskipped, hr', h', hrows', hloop⟩ :=
    h.first_round hrows hmem hmatch hret
  have hrest : rest ≠ [] := by
    -- otherwise the match, which is not the last row, would be among those passed over
    rintro rfl
    obtain ⟨init, last, rfl⟩ := (List.eq_nil_or_concat after).resolve_left hafter
    have hinit : before ++ r :: init = skipped := by
      have heq := hahead.symm.trans hsplit
      rw [List.concat_eq_append, ← List.cons_append, ← List.append_assoc] at heq
      exact (List.append_inj' heq rfl).1
    have hfalse := hskipped r (by rw [← hinit]; simp)
    rw [hmatch] at hfalse
    cases hfalse
  rw [if_neg hrest] at hloop
  obtain ⟨m', skipped', r'', rest', pages'', rid', c', -, -, -, -, -, -, hloop'⟩ :=
    h'.first_round hrows' (List.mem_append_right _ List.mem_cons_self) hr' hloop
  have hle := (loop_count hloop' (by omega)).1
  omega

end Loop

section Statement

variable {std : StandardLibrary} {ctx : ExecutorContext} {tableInfo : TableInfo} {oids : List ℕ}
  {pages : Pages} {predicate : Expression} {outputSchema scanSchema : Schema} {oid : ℕ}
  {r : RID × List UInt8} {before : List (RID × List UInt8)}

/-- A statement without matches leaves the table alone. -/
lemma SelfInsert.snapshot_of_none (h : SelfInsert ctx tableInfo oids pages)
    (htable : ctx.catalog.getTable oid = some tableInfo)
    (hnone : ∀ r ∈ liveRows pages, selects predicate tableInfo.schema r.2 = pure false) :
    InsertsSnapshot std ctx tableInfo pages
      (.insert outputSchema (.seqScan scanSchema oid predicate) oid) predicate := by
  have hmatching : matching predicate tableInfo.schema (liveRows pages) = [] := by
    unfold matching
    rw [List.filter_eq_nil_iff]
    intro x hx hmatch
    have hselects := hnone x hx
    rw [isMatch_iff.1 hmatch] at hselects
    cases hselects
  obtain ⟨tuple, htuple, -⟩ := countTuple_eq 0
  have hscan : Scans (scanRow predicate tableInfo.schema) (liveRows pages) none [] := by
    refine Scans.none_iff.2 ⟨rfl, fun r hr => ?_⟩
    have hkeep := hnone r hr
    rw [← accepts_rawTuple] at hkeep
    exact h.scanRow hr hkeep
  refine ⟨pages.length + (liveRows pages).length + 2, fun fuel hfuel => ?_⟩
  have hpages : pages.length < fuel := by omega
  have hlive : (liveRows pages).length < fuel := by omega
  obtain ⟨m, rfl⟩ : ∃ m, fuel = m + 1 := ⟨fuel - 1, by omega⟩
  have hround := h.returns_seqScanNext hpages hscan hlive (List.nil_append _).symm
  refine ⟨tuple, ctx, pages, ?_, ?_, h.holds, fun r hr => hr, ?_⟩
  · refine returns_execute_modification.2 ⟨by omega, _, ctx, tableInfo, oids,
      scanAt tableInfo [], 0, tuple, h.returns_seqScanInit htable hpages _, htable,
      h.indexes.listed, ?_, htuple, rfl⟩
    exact returns_bind.2 ⟨(none, scanAt tableInfo []), ctx, hround, returns_pure.2 ⟨rfl, rfl⟩⟩
  · rw [hmatching]
    exact htuple
  · rw [hmatching, List.append_nil]

/-- A statement whose only match is the last row inserts a copy of it. -/
lemma SelfInsert.snapshot_of_last (h : SelfInsert ctx tableInfo oids pages)
    (htable : ctx.catalog.getTable oid = some tableInfo) (hnext : ctx.bpm.nextPageId < 2 ^ 31)
    (hrows : liveRows pages = before ++ [r])
    (hnone : ∀ x ∈ before, selects predicate tableInfo.schema x.2 = pure false)
    (hlast : selects predicate tableInfo.schema r.2 = pure true) :
    InsertsSnapshot std ctx tableInfo pages
      (.insert outputSchema (.seqScan scanSchema oid predicate) oid) predicate := by
  have hmatching : matching predicate tableInfo.schema (liveRows pages) = [r] := by
    rw [hrows, matching_append_cons hnone hlast]
    rfl
  have hr : r ∈ liveRows pages := by
    rw [hrows]
    simp
  have hlen := h.rows r hr
  have hne : r.2 ≠ [] := (mem_liveRows.1 hr).choose_spec.2.2
  have hfilled : Filled ctx.bpm r.2.length pages := by
    rw [hlen]
    exact h.filled
  obtain ⟨tuple, htuple, -⟩ := countTuple_eq 1
  have hscan : Scans (scanRow predicate tableInfo.schema) (liveRows pages)
      (some (parsedTuple tableInfo.schema.columns.length r, r.1)) [] := by
    refine Scans.some_iff.2 ⟨before, r, hrows, fun x hx => ?_, ?_, rfl⟩
    · have hx' : x ∈ liveRows pages := by
        rw [hrows]
        exact List.mem_append_left _ hx
      have hkeep := hnone x hx
      rw [← accepts_rawTuple] at hkeep
      exact h.scanRow hx' hkeep
    · have hkeep := hlast
      rw [← accepts_rawTuple] at hkeep
      exact h.scanRow hr hkeep
  refine ⟨pages.length + (liveRows pages).length + 2, fun fuel hfuel => ?_⟩
  have hpages : pages.length < fuel := by omega
  have hlive : (liveRows pages).length < fuel := by omega
  obtain ⟨m, rfl⟩ : ∃ m, fuel = m + 2 := ⟨fuel - 2, by omega⟩
  have hround := h.returns_seqScanNext hpages hscan hlive (List.nil_append _).symm
  obtain ⟨ctx', hbody⟩ : ∃ ctx', Returns (insertRow (m + 2) tableInfo oids 0
      (parsedTuple tableInfo.schema.columns.length r, r.1)) ctx 1 ctx' :=
    h.exists_insertRow h.twoFrames h.indexes (carries_parsedTuple rfl) hlen (h.length_le hr).2 hne
      hnext hpages.le (by omega)
  obtain ⟨-, rid, pages', hinserted⟩ := h.insertRow_returns h.twoFrames h.indexes.nodup
    (carries_parsedTuple rfl) hlen (h.length_le hr).2 hne hbody
  have hrows' := (hinserted.inserts.atEnd hfilled).2
  rw [Option.elim_some, if_neg hne] at hrows'
  have hend : Returns (seqScanNext (m + 2) predicate (m + 2) (scanAt tableInfo [])) ctx'
      (none, scanAt tableInfo []) ctx' := returns_seqScanNext_nil.2 ⟨rfl, rfl, rfl⟩
  refine ⟨tuple, ctx', pages', ?_, ?_, hinserted.table.holds, fun x hx => ?_, ?_⟩
  · refine returns_execute_modification.2 ⟨by omega, _, ctx, tableInfo, oids,
      scanAt tableInfo [], 1, tuple, h.returns_seqScanInit htable hpages _, htable,
      h.indexes.listed, ?_, htuple, rfl⟩
    refine returns_bind.2 ⟨_, ctx, hround, returns_bind.2 ⟨1, ctx', hbody, ?_⟩⟩
    exact returns_bind.2 ⟨(none, scanAt tableInfo []), ctx', hend, returns_pure.2 ⟨rfl, rfl⟩⟩
  · rw [hmatching]
    exact htuple
  · rw [hrows']
    exact List.mem_append_left _ hx
  · rw [hmatching, hrows']
    simp

/-- A statement that reads a snapshot has no match but the last row. -/
lemma SelfInsert.onlyLastMatches (h : SelfInsert ctx tableInfo oids pages)
    (htable : ctx.catalog.getTable oid = some tableInfo) :
    InsertsSnapshot std ctx tableInfo pages
        (.insert outputSchema (.seqScan scanSchema oid predicate) oid) predicate →
      OnlyLastMatches predicate tableInfo.schema (liveRows pages) := by
  rintro ⟨fuel, hfuel⟩
  obtain ⟨tuple, ctx', pages', hret, hcount, -⟩ := hfuel fuel le_rfl
  obtain ⟨-, st, c, info, indexes, st', count, tuple', hinit, hinfo, hlisted, hloop, hcount',
    htuple⟩ := returns_execute_modification.1 hret
  obtain rfl : tuple = tuple' := List.cons.inj htuple |>.1
  obtain ⟨rfl, rfl⟩ := h.eq_of_seqScanInit htable hinit
  obtain rfl : tableInfo = info := Option.some.inj (htable.symm.trans hinfo)
  obtain rfl : oids = indexes := by
    cases h.indexes.listed.symm.trans hlisted
    rfl
  have hrows := List.nil_append (liveRows pages)
  refine ⟨h.evaluates hrows.symm hloop, fun before r after hsplit hmatch => ?_⟩
  by_contra hafter
  have hfew : ¬ 2 ≤ (matching predicate tableInfo.schema (liveRows pages)).length :=
    fun hmany => h.not_returns hrows.symm hmany hloop
  have hmem : r ∈ matching predicate tableInfo.schema (liveRows pages) := by
    refine List.mem_filter.2 ⟨?_, isMatch_iff.2 hmatch⟩
    rw [hsplit]
    simp
  have hone : (matching predicate tableInfo.schema (liveRows pages)).length = 1 := by
    have hpos := List.length_pos_of_mem hmem
    omega
  have htwo := h.two_le_count hrows.symm hsplit hafter hmatch (by omega) hloop
  have hlt := (loop_count hloop (by omega)).2
  rw [hone] at hcount
  have heq := countTuple_inj hcount hcount' (by omega) (by omega) (by omega) hlt
  rw [Nat.cast_one] at heq
  omega
/-- The small database is one whose table is inserted into itself. -/
lemma selfInsert_smallContext {columns : List String} {rows : List (List (BitVec 32))}
    {attr : Option ℕ} (hroom : roomOf (rows.map rowBytes) + 16 ≤ pageSize)
    (hwidth : ∀ row ∈ rows, row.length = columns.length)
    (hattr : ∀ a ∈ attr, a < columns.length) :
    SelfInsert (smallContext columns rows attr) (smallTable columns)
      (attr.toList.map fun _ => 1) (smallPages rows) where
  toIntegerTable := integerTable_smallContext hroom hwidth
  filled := by
    intro p hp
    simp [smallPages] at hp
  twoFrames := le_top
  indexes := tableIndexes_smallContext hattr

/-- `a > n`. -/
def abovePredicate (n : BitVec 32) : Expression :=
  .comparison (.columnValue 0 0 .integer) (.constantValue (Value.ofInt n)) .greaterThan

/-- The rows of the sample, with their row ids. -/
lemma liveRows_one_two : liveRows (smallPages [[1], [2]]) =
    [(⟨0, 0⟩, [1, 0, 0, 0]), (⟨0, 1⟩, [2, 0, 0, 0])] := rfl

/-- Only the last row matches, if it does. -/
lemma onlyLastMatches_append_singleton {schema : Schema} {keep : Bool}
    (hnone : ∀ x ∈ before, selects predicate schema x.2 = pure false)
    (hlast : selects predicate schema r.2 = pure keep) :
    OnlyLastMatches predicate schema (before ++ [r]) := by
  constructor
  · intro x hx
    rcases List.mem_append.1 hx with hx | hx
    · exact ⟨false, hnone x hx⟩
    · obtain rfl := List.mem_singleton.1 hx
      exact ⟨keep, hlast⟩
  · intro before' x after heq hmatch
    by_contra hafter
    obtain ⟨init, last, rfl⟩ := (List.eq_nil_or_concat after).resolve_left hafter
    have hinit : before = before' ++ x :: init := by
      rw [List.concat_eq_append, ← List.cons_append, ← List.append_assoc] at heq
      exact (List.append_inj' heq rfl).1
    have hfalse := hnone x (by rw [hinit]; simp)
    rw [hmatch] at hfalse
    cases hfalse

end Statement

end OneBase
