import OneBase.Execution.CatalogHistory
import OneBase.Execution.CatalogRuns
import OneBase.Execution.SmallTables

set_option relaxedAutoImplicit false
set_option autoImplicit false

/-!
# `DROP INDEX` with several names

The loop of `DROP INDEX` drops each index before it looks for the next name. So the statement drops
all or nothing only if no name goes wrong, or the first one that does comes before any name of an
index.

## Main definitions

* `OneBase.Catalog.tablesWith` — the tables with an index of a given name.
* `OneBase.DropsAllOrNothing` — the indexes after the statement.

## Main results

* `OneBase.spec_dropLoop` — what the loop drops, and where it stops.
* `OneBase.dropsAllOrNothing_iff` — when the statement drops all or nothing.
* `OneBase.not_dropsAllOrNothing_missing` — a statement that drops an index and throws.
-/

namespace OneBase

open Exec

namespace Catalog

/-- The table has an index of this name. -/
def hasIndex (c : Catalog) (indexName tableName : String) : Bool :=
  match c.indexNames.lookup tableName with
  | none => false
  | some names => (names.lookup indexName).isSome

/-- The tables with an index of this name, in the order of the iteration. -/
def tablesWith (c : Catalog) (indexName : String) : List String :=
  (c.getAllTables.map TableInfo.name).filter (c.hasIndex indexName)

/-- An index of this name is found after one on a table whose name is not empty. -/
def Ambiguous (c : Catalog) (indexName : String) : Prop :=
  ∃ tableName ∈ (c.tablesWith indexName).dropLast, tableName ≠ ""

/-- There is no index of this name, unless the name of its table is empty. -/
def Missing (c : Catalog) (indexName : String) : Prop :=
  ∀ tableName ∈ c.tablesWith indexName, tableName = ""

instance (c : Catalog) (indexName : String) : Decidable (c.Ambiguous indexName) :=
  inferInstanceAs (Decidable (∃ tableName ∈ (c.tablesWith indexName).dropLast, tableName ≠ ""))

instance (c : Catalog) (indexName : String) : Decidable (c.Missing indexName) :=
  inferInstanceAs (Decidable (∀ tableName ∈ c.tablesWith indexName, tableName = ""))

end Catalog

/-! ## The loop over the tables -/

section Tables

variable {c : Catalog} {indexName tableName indexName' tableName' : String} {oid : ℕ}

/-- The catalog finds an index of this name for the table if one is filed. -/
lemma Catalog.Bijective.hasIndex_iff (h : c.Bijective) :
    c.hasIndex indexName tableName = true ↔ ∃ oid, c.Files tableName indexName oid := by
  simp only [h.files_iff_lookup]
  unfold Catalog.hasIndex
  cases hnames : c.indexNames.lookup tableName with
  | none => simp
  | some names => simp [Option.isSome_iff_exists]

/-- An index is on a table. -/
lemma Catalog.Bijective.mem_tablesWith (h : c.Bijective) :
    tableName ∈ c.tablesWith indexName ↔ ∃ oid, c.Files tableName indexName oid := by
  unfold Catalog.tablesWith
  rw [List.mem_filter, h.hasIndex_iff]
  refine and_iff_right_of_imp ?_
  rintro ⟨oid, hfiles⟩
  obtain ⟨info, hinfo, rfl, -⟩ := (h.files_iff _ _ _).1 hfiles
  obtain ⟨entry, hentry, hname⟩ := List.mem_map.1 (h.index_table _ hinfo)
  obtain ⟨tableInfo, htable, hnamed⟩ := (h.mem_tableNames entry.1 entry.2).1 hentry
  refine List.mem_map.2 ⟨tableInfo, List.mem_map_of_mem (f := Prod.snd) htable, ?_⟩
  rw [hnamed, hname]

/-- The loop throws if a table follows one with a name, and otherwise finds the last table. -/
lemma foldlM_matchTable (h : c.Bijective) (tables : List TableInfo) (matched : String) :
    tables.foldlM (matchTable c indexName) matched =
      if ∃ t ∈ (matched :: (tables.map TableInfo.name).filter (c.hasIndex indexName)).dropLast,
          t ≠ "" then
        throw (.runtimeError ("Ambiguous index name: " ++ indexName))
      else pure (((tables.map TableInfo.name).filter (c.hasIndex indexName)).getLastD matched) := by
  induction tables generalizing matched with
  | nil => simp
  | cons info tables ih =>
    obtain ⟨o, ho, hiff⟩ := h.getIndexByName indexName info.name
    rw [← h.hasIndex_iff] at hiff
    rw [List.foldlM_cons, matchTable, ho, pure_bind, List.map_cons, List.filter_cons]
    cases hhas : c.hasIndex indexName info.name with
    | false =>
      rw [hhas] at hiff
      rw [if_neg (by simpa using hiff), if_neg Bool.false_ne_true, pure_bind, ih]
    | true =>
      rw [if_pos (hiff.2 hhas), if_pos rfl]
      by_cases hmatched : matched = ""
      · subst hmatched
        rw [if_neg (by simp), pure_bind, ih, List.getLastD_cons, List.dropLast_cons_cons]
        simp
      · rw [if_pos hmatched, if_pos]
        · rfl
        · exact ⟨matched, by simp, hmatched⟩

/-- The loop over the tables finds the last one with an index of this name, and throws if there are
two.

**Proof sketch.** The names of the tables are told apart, so that a round that finds an index after
another one was found is at another table. -/
lemma foldlM_matchTable_catalog (h : c.Bijective) :
    c.getAllTables.foldlM (matchTable c indexName) "" =
      if c.Ambiguous indexName then
        throw (.runtimeError ("Ambiguous index name: " ++ indexName))
      else pure ((c.tablesWith indexName).getLastD "") := by
  rw [foldlM_matchTable h]
  have hiff : (∃ t ∈ ("" :: c.tablesWith indexName).dropLast, t ≠ "") ↔ c.Ambiguous indexName := by
    unfold Catalog.Ambiguous
    cases c.tablesWith indexName with
    | nil => simp
    | cons t ts => simp
  exact if_congr hiff rfl rfl

/-- An index that is neither missing nor ambiguous is on one table with a name. -/
lemma Catalog.tablesWith_eq (hmissing : ¬ c.Missing indexName)
    (hambiguous : ¬ c.Ambiguous indexName) :
    (c.tablesWith indexName).getLastD "" ≠ "" ∧
      ∀ t ∈ c.tablesWith indexName, t ≠ "" → t = (c.tablesWith indexName).getLastD "" := by
  unfold Catalog.Missing at hmissing
  unfold Catalog.Ambiguous at hambiguous
  push Not at hambiguous
  have hlast : ∀ t ∈ c.tablesWith indexName, t ≠ "" →
      t = (c.tablesWith indexName).getLastD "" := by
    intro t ht hne
    obtain ⟨l, last, hl⟩ :=
      (List.eq_nil_or_concat' (c.tablesWith indexName)).resolve_left (List.ne_nil_of_mem ht)
    rw [hl] at ht hambiguous ⊢
    rw [List.dropLast_concat] at hambiguous
    rw [List.getLastD_concat]
    rcases List.mem_append.1 ht with hmem | hmem
    · exact absurd (hambiguous t hmem) hne
    · exact List.mem_singleton.1 hmem
  push Not at hmissing
  obtain ⟨t, ht, hne⟩ := hmissing
  exact ⟨hlast t ht hne ▸ hne, hlast⟩

/-- The table that the loop has found has an index of this name. -/
lemma Catalog.getLastD_mem (h : (c.tablesWith indexName).getLastD "" ≠ "") :
    (c.tablesWith indexName).getLastD "" ∈ c.tablesWith indexName := by
  rcases List.eq_nil_or_concat' (c.tablesWith indexName) with hnil | ⟨l, last, hl⟩
  · rw [hnil] at h
    exact absurd rfl h
  · rw [hl, List.getLastD_concat]
    simp

/-- A missing index is not found. -/
lemma Catalog.Missing.getLastD_eq (h : c.Missing indexName) :
    (c.tablesWith indexName).getLastD "" = "" := by
  rcases List.eq_nil_or_concat' (c.tablesWith indexName) with hnil | ⟨l, last, hl⟩
  · rw [hnil]
    rfl
  · rw [hl, List.getLastD_concat]
    exact h last (by rw [hl]; simp)

/-- A name that no table has an index of is not ambiguous. -/
lemma Catalog.Missing.not_ambiguous (h : c.Missing indexName) : ¬ c.Ambiguous indexName := by
  rintro ⟨t, ht, hne⟩
  exact hne (h t (List.mem_of_mem_dropLast ht))

end Tables

/-! ## The loop over the names -/

/-- In `c'` exactly the indexes of these names on tables with a name are gone. -/
structure Dropped (c : Catalog) (names : List String) (c' : Catalog) : Prop where
  files : ∀ tableName indexName oid, c'.Files tableName indexName oid ↔
    c.Files tableName indexName oid ∧ ¬ (indexName ∈ names ∧ tableName ≠ "")
  indexes : ∀ entry, entry ∈ c'.indexes ↔
    entry ∈ c.indexes ∧ ¬ (entry.2.name ∈ names ∧ entry.2.tableName ≠ "")

/-- None of these names goes wrong. -/
def Faultless (c : Catalog) (missingOk : Bool) (names : List String) : Prop :=
  (∀ n ∈ names, ¬ c.Ambiguous n) ∧
    (missingOk = false → names.Nodup ∧ ∀ n ∈ names, ¬ c.Missing n)

/-- The name goes wrong after these. -/
def FaultAfter (c : Catalog) (missingOk : Bool) (prior : List String) (n : String) : Prop :=
  c.Ambiguous n ∨ missingOk = false ∧ (c.Missing n ∨ n ∈ prior)

/-- What the loop leaves, and where it stops. -/
def LoopResult (c : Catalog) (missingOk : Bool) (names : List String)
    (r : Except Exception Bool) (c' : Catalog) : Prop :=
  match r with
  | .ok _ => Faultless c missingOk names ∧ Dropped c names c'
  | .error _ => ∃ prior n rest, names = prior ++ n :: rest ∧ FaultAfter c missingOk prior n ∧
      Dropped c prior c'

section Names

variable {c c' : Catalog} {missingOk removedAny : Bool} {names prior : List String}
  {indexName tableName n m : String} {ctx : ExecutorContext} {r : Except Exception Bool}

/-- Without names nothing is dropped. -/
lemma dropped_nil (c : Catalog) : Dropped c [] c where
  files := by simp
  indexes := by simp

/-- The body of the loop. -/
lemma runIn_dropNamedIndex (h : ctx.catalog.Bijective) :
    runIn (dropNamedIndex missingOk removedAny n) ctx =
      if ctx.catalog.Ambiguous n then
        some (.error (.runtimeError ("Ambiguous index name: " ++ n)), ctx)
      else if ctx.catalog.Missing n then
        if missingOk then some (.ok removedAny, ctx)
        else some (.error (.runtimeError ("Index not found: " ++ n)), ctx)
      else some (.ok true, { ctx with
        catalog := (ctx.catalog.dropIndex n ((ctx.catalog.tablesWith n).getLastD "")).2 }) := by
  have hfold : ctx.catalog.getAllTables.foldlM (matchTable ctx.catalog n) "" = _ :=
    foldlM_matchTable_catalog h
  unfold dropNamedIndex
  show runIn (ofCpp (ctx.catalog.getAllTables.foldlM (matchTable ctx.catalog n) "") >>= _) ctx = _
  rw [hfold]
  by_cases hambiguous : ctx.catalog.Ambiguous n
  · rw [if_pos hambiguous, if_pos hambiguous]
    rfl
  rw [if_neg hambiguous, if_neg hambiguous]
  show runIn (if (ctx.catalog.tablesWith n).getLastD "" = "" then _ else _) ctx = _
  by_cases hmissing : ctx.catalog.Missing n
  · rw [if_pos hmissing.getLastD_eq, if_pos hmissing]
    cases missingOk <;> rfl
  · obtain ⟨hne, -⟩ := Catalog.tablesWith_eq hmissing hambiguous
    obtain ⟨oid, hfiles⟩ := h.mem_tablesWith.1 (Catalog.getLastD_mem hne)
    rw [if_neg hne, if_neg hmissing, (h.dropIndex_of_files hfiles).1]
    rfl

/-- The indexes that are left are those whose names are. -/
lemma dropped_of_files (h : c.Bijective) (h' : c'.Bijective)
    (hsub : ∀ entry ∈ c'.indexes, entry ∈ c.indexes)
    (hfiles : ∀ tableName indexName oid, c'.Files tableName indexName oid ↔
      c.Files tableName indexName oid ∧ ¬ (indexName ∈ names ∧ tableName ≠ "")) :
    Dropped c names c' where
  files := hfiles
  indexes := by
    rintro ⟨oid, info⟩
    constructor
    · intro hentry
      have hfiled : c'.Files info.tableName info.name oid :=
        (h'.files_iff _ _ _).2 ⟨info, hentry, rfl, rfl⟩
      exact ⟨hsub _ hentry, ((hfiles _ _ _).1 hfiled).2⟩
    · rintro ⟨hentry, hnot⟩
      have hfiled : c.Files info.tableName info.name oid :=
        (h.files_iff _ _ _).2 ⟨info, hentry, rfl, rfl⟩
      obtain ⟨info', hentry', -⟩ := (h'.files_iff _ _ _).1 ((hfiles _ _ _).2 ⟨hfiled, hnot⟩)
      obtain rfl := Catalog.eq_of_mem_of_nodup h.indexes_nodup hentry (hsub _ hentry')
      exact hentry'

/-- What two parts of the loop drop. -/
lemma Dropped.append {c₁ : Catalog} (h : Dropped c prior c₁) (h' : Dropped c₁ names c') :
    Dropped c (prior ++ names) c' where
  files := by
    intro tableName indexName oid
    rw [h'.files, h.files, List.mem_append]
    tauto
  indexes := by
    intro entry
    rw [h'.indexes, h.indexes, List.mem_append]
    tauto

/-- A missing index is not there to be dropped. -/
lemma dropped_of_missing (h : c.Bijective) (hmissing : c.Missing n) : Dropped c [n] c := by
  refine dropped_of_files h h (fun _ hentry => hentry) fun tableName indexName oid => ?_
  refine (and_iff_left_of_imp fun hfiles => ?_).symm
  rintro ⟨hname, hne⟩
  obtain rfl := List.mem_singleton.1 hname
  exact hne (hmissing tableName (h.mem_tablesWith.2 ⟨oid, hfiles⟩))

/-- The one index of a name is dropped. -/
lemma dropped_dropIndex (h : c.Bijective) (hmissing : ¬ c.Missing n)
    (hambiguous : ¬ c.Ambiguous n) :
    Dropped c [n] (c.dropIndex n ((c.tablesWith n).getLastD "")).2 := by
  obtain ⟨hne, hone⟩ := Catalog.tablesWith_eq hmissing hambiguous
  obtain ⟨oid, hdropped⟩ := h.mem_tablesWith.1 (Catalog.getLastD_mem hne)
  refine dropped_of_files h (h.dropIndex _ _) (fun entry hentry => ?_)
    fun tableName indexName oid' => ?_
  · rw [(h.dropIndex_of_files hdropped).2] at hentry
    exact List.mem_of_mem_filter hentry
  · rw [h.files_dropIndex_iff]
    refine and_congr_right fun hfiles => not_congr ?_
    constructor
    · rintro ⟨rfl, rfl⟩
      exact ⟨List.mem_singleton_self _, hne⟩
    · rintro ⟨hname, htable⟩
      obtain rfl := List.mem_singleton.1 hname
      exact ⟨hone tableName (h.mem_tablesWith.2 ⟨oid', hfiles⟩) htable, rfl⟩

/-- An index that was dropped is missing. -/
lemma missing_of_dropped (h' : c'.Bijective) (hdropped : Dropped c names c') (hn : n ∈ names) :
    c'.Missing n := by
  intro tableName htable
  obtain ⟨oid, hfiles⟩ := h'.mem_tablesWith.1 htable
  by_contra hne
  exact ((hdropped.files _ _ _).1 hfiles).2 ⟨hn, hne⟩

/-- The other names are on the same tables as before. -/
lemma tablesWith_dropIndex (h : c.Bijective) (hne : m ≠ n) :
    (c.dropIndex n tableName).2.tablesWith m = c.tablesWith m := by
  have htables : (c.dropIndex n tableName).2.getAllTables = c.getAllTables := by
    unfold Catalog.dropIndex Catalog.getAllTables
    cases c.indexNames.lookup tableName with
    | none => rfl
    | some names =>
      dsimp only
      cases names.lookup n <;> rfl
  unfold Catalog.tablesWith
  rw [htables]
  refine List.filter_congr fun t _ => ?_
  rw [Bool.eq_iff_iff, (h.dropIndex n tableName).hasIndex_iff, h.hasIndex_iff]
  refine exists_congr fun oid => ?_
  rw [h.files_dropIndex_iff]
  exact and_iff_left fun hboth => hne hboth.2

/-- With `IF EXISTS` the loop passes over a missing name. -/
lemma LoopResult.after_missing (h : c.Bijective) (hmissing : c.Missing n)
    (hresult : LoopResult c true names r c') : LoopResult c true (n :: names) r c' := by
  have hfirst := dropped_of_missing h hmissing
  match r, hresult with
  | .ok b, ⟨hfaultless, hdropped⟩ =>
    refine ⟨⟨?_, nofun⟩, hfirst.append hdropped⟩
    exact List.forall_mem_cons.2 ⟨hmissing.not_ambiguous, hfaultless.1⟩
  | .error e, ⟨prior, m, rest, heq, hfault, hdropped⟩ =>
    refine ⟨n :: prior, m, rest, by rw [heq]; rfl, ?_, hfirst.append hdropped⟩
    exact hfault.imp_right fun hor => ⟨hor.1, hor.2.imp_right (List.mem_cons_of_mem n)⟩

/-- After a name was dropped, what goes wrong went wrong before, or is this name. -/
lemma LoopResult.after_dropped (h : c.Bijective) (hmissing : ¬ c.Missing n)
    (hambiguous : ¬ c.Ambiguous n)
    (hresult : LoopResult (c.dropIndex n ((c.tablesWith n).getLastD "")).2 missingOk names r c') :
    LoopResult c missingOk (n :: names) r c' := by
  have hfirst := dropped_dropIndex h hmissing hambiguous
  have hgone := missing_of_dropped (h.dropIndex _ _) hfirst (List.mem_singleton_self n)
  match r, hresult with
  | .ok b, ⟨⟨hnone, honce⟩, hdropped⟩ =>
    refine ⟨⟨?_, ?_⟩, hfirst.append hdropped⟩
    · refine List.forall_mem_cons.2 ⟨hambiguous, fun m hm => ?_⟩
      by_cases hmn : m = n
      · rw [hmn]
        exact hambiguous
      · have hm' := hnone m hm
        unfold Catalog.Ambiguous at hm' ⊢
        rwa [tablesWith_dropIndex h hmn] at hm'
    · intro hok
      obtain ⟨hnodup, hfound⟩ := honce hok
      refine ⟨List.nodup_cons.2 ⟨fun hn => hfound n hn hgone, hnodup⟩, ?_⟩
      refine List.forall_mem_cons.2 ⟨hmissing, fun m hm => ?_⟩
      have hmn : m ≠ n := by
        rintro rfl
        exact hfound m hm hgone
      have hm' := hfound m hm
      unfold Catalog.Missing at hm' ⊢
      rwa [tablesWith_dropIndex h hmn] at hm'
  | .error e, ⟨prior, m, rest, heq, hfault, hdropped⟩ =>
    refine ⟨n :: prior, m, rest, by rw [heq]; rfl, ?_, hfirst.append hdropped⟩
    by_cases hmn : m = n
    · rcases hfault with hamb | ⟨hok, -⟩
      · rw [hmn] at hamb
        exact absurd hamb hgone.not_ambiguous
      · exact .inr ⟨hok, .inr (by rw [hmn]; exact List.mem_cons_self)⟩
    · unfold FaultAfter Catalog.Ambiguous Catalog.Missing at hfault ⊢
      rw [tablesWith_dropIndex h hmn] at hfault
      exact hfault.imp_right fun hor => ⟨hor.1, hor.2.imp_right (List.mem_cons_of_mem n)⟩

/-- The loop over the names stops at the first one that goes wrong, and has dropped the indexes of
the names before. -/
lemma spec_dropLoop (h : ctx.catalog.Bijective) :
    ∃ r ctx', runIn (names.foldlM (dropNamedIndex missingOk) removedAny) ctx = some (r, ctx') ∧
      LoopResult ctx.catalog missingOk names r ctx'.catalog := by
  induction names generalizing ctx removedAny with
  | nil => exact ⟨.ok removedAny, ctx, rfl, ⟨by simp, by simp⟩, dropped_nil _⟩
  | cons n names ih =>
    rw [List.foldlM_cons, runIn_bind, runIn_dropNamedIndex h]
    split_ifs with hambiguous hmissing hok
    · exact ⟨_, ctx, rfl, [], n, names, rfl, .inl hambiguous, dropped_nil _⟩
    · obtain ⟨r, ctx', hrun, hresult⟩ := @ih removedAny ctx h
      subst hok
      exact ⟨r, ctx', hrun, hresult.after_missing h hmissing⟩
    · have hfalse : missingOk = false := by simpa using hok
      exact ⟨_, ctx, rfl, [], n, names, rfl, .inr ⟨hfalse, .inl hmissing⟩, dropped_nil _⟩
    · obtain ⟨r, ctx', hrun, hresult⟩ := @ih true { ctx with
        catalog := (ctx.catalog.dropIndex n ((ctx.catalog.tablesWith n).getLastD "")).2 }
        (h.dropIndex _ _)
      exact ⟨r, ctx', hrun, hresult.after_dropped h hmissing hambiguous⟩

/-- Where all names before one that goes wrong are missing, the loop changes nothing. -/
lemma dropLoop_of_missing (h : ctx.catalog.Bijective) {rest : List String}
    (hprior : ∀ m ∈ prior, ctx.catalog.Missing m)
    (hfault : ctx.catalog.Ambiguous n ∨ missingOk = false ∧ ctx.catalog.Missing n) :
    ∃ e, runIn ((prior ++ n :: rest).foldlM (dropNamedIndex missingOk) removedAny) ctx =
      some (.error e, ctx) := by
  induction prior generalizing removedAny with
  | nil =>
    rw [List.nil_append, List.foldlM_cons, runIn_bind, runIn_dropNamedIndex h]
    rcases hfault with hambiguous | ⟨rfl, hmissing⟩
    · rw [if_pos hambiguous]
      exact ⟨_, rfl⟩
    · rw [if_neg hmissing.not_ambiguous, if_pos hmissing]
      exact ⟨_, rfl⟩
  | cons m prior ih =>
    obtain ⟨hm, hprior⟩ := List.forall_mem_cons.1 hprior
    rw [List.cons_append, List.foldlM_cons, runIn_bind, runIn_dropNamedIndex h,
      if_neg hm.not_ambiguous, if_pos hm]
    cases missingOk with
    | false => exact ⟨_, rfl⟩
    | true => exact ih hprior

end Names

/-! ## The statement -/

section Statement

variable {std : StandardLibrary} {fuel : ℕ} {out : Schema} {tableName indexName : String}
  {keyAttrs : List ℕ} {names : List String} {missingOk : Bool} {ctx : ExecutorContext}

/-- The `Init` of `DROP INDEX` leaves the indexes alone if it throws, and otherwise exactly the
indexes of these names are gone. -/
def DropsAllOrNothing (std : StandardLibrary) (fuel : ℕ) (out : Schema)
    (tableName indexName : String) (keyAttrs : List ℕ) (names : List String) (missingOk : Bool)
    (ctx : ExecutorContext) : Prop :=
  ∀ st, ∃ r ctx', runIn ((utilityExecutor std fuel out .dropIndex tableName indexName keyAttrs names
      missingOk).init st) ctx = some (r, ctx') ∧
    match r with
    | .error _ => ctx'.catalog.indexNames = ctx.catalog.indexNames ∧
        ctx'.catalog.indexes = ctx.catalog.indexes
    | .ok _ =>
      (∀ tableName indexName oid, ctx'.catalog.Files tableName indexName oid ↔
        ctx.catalog.Files tableName indexName oid ∧ indexName ∉ names) ∧
      ∀ entry, entry ∈ ctx'.catalog.indexes ↔
        entry ∈ ctx.catalog.indexes ∧ entry.2.name ∉ names

/-- A name goes wrong before any index is dropped, or none does. -/
def Catalog.DropIsSafe (c : Catalog) (names : List String) (missingOk : Bool) : Prop :=
  (∃ prior n rest, names = prior ++ n :: rest ∧ (∀ m ∈ prior, c.Missing m) ∧
    (c.Ambiguous n ∨ missingOk = false ∧ c.Missing n)) ∨
  (∀ n ∈ names, (c.tablesWith n).length ≤ 1 ∧ "" ∉ c.tablesWith n) ∧
    (missingOk = false → names.Nodup ∧ ∀ n ∈ names, c.tablesWith n ≠ [])

/-- The command tag can be shown as a row. -/
lemma exists_commandRow (removedAny : Bool) :
    ∃ row, textRow [if removedAny then "DROP INDEX" else "DROP INDEX (0 rows)"] = pure row := by
  have hsome : ∀ b : Bool, (textRow
      [if b then "DROP INDEX" else "DROP INDEX (0 rows)"]).result.isSome = true := by
    decide +kernel
  obtain ⟨row, hrow⟩ := Option.isSome_iff_exists.1 (hsome removedAny)
  exact ⟨row, Cpp.result_eq_some.1 hrow⟩

/-- `Init` returns or throws as the loop does. -/
lemma runIn_dropIndexInit (st : Materialized Unit) {r : Except Exception Bool}
    {ctx' : ExecutorContext}
    (h : runIn (names.foldlM (dropNamedIndex missingOk) false) ctx = some (r, ctx')) :
    ∃ r', runIn ((utilityExecutor std fuel out .dropIndex tableName indexName keyAttrs names
        missingOk).init st) ctx = some (r', ctx') ∧ r'.isOk = r.isOk := by
  dsimp only [utilityExecutor, utilityRows]
  rw [runIn_bind, runIn_bind, h]
  cases r with
  | error e => exact ⟨.error e, rfl, rfl⟩
  | ok removedAny =>
    obtain ⟨row, hrow⟩ := exists_commandRow removedAny
    rw [Option.bind_some]
    dsimp only
    rw [hrow]
    exact ⟨.ok _, rfl, rfl⟩

section Safe

variable {c c' : Catalog} {n : String}

/-- The names of the tables of an index that is not ambiguous. -/
lemma Catalog.length_tablesWith_le (hambiguous : ¬ c.Ambiguous n) (hempty : "" ∉ c.tablesWith n) :
    (c.tablesWith n).length ≤ 1 := by
  unfold Catalog.Ambiguous at hambiguous
  match htables : c.tablesWith n with
  | [] => exact Nat.zero_le 1
  | [t] => exact le_rfl
  | t :: t' :: ts =>
    rw [htables] at hambiguous hempty
    refine absurd ⟨t, by simp, ?_⟩ hambiguous
    rintro rfl
    exact hempty List.mem_cons_self

/-- A name that at most one table has an index of is not ambiguous. -/
lemma Catalog.not_ambiguous_of_length (h : (c.tablesWith n).length ≤ 1) : ¬ c.Ambiguous n := by
  rintro ⟨t, ht, -⟩
  have hlen := List.length_pos_of_mem ht
  rw [List.length_dropLast] at hlen
  omega

/-- If the indexes of missing names alone are dropped, all are left. -/
lemma Dropped.missing (h : c.Bijective) (hdropped : Dropped c names c')
    (hsame : c'.indexNames = c.indexNames) : ∀ m ∈ names, c.Missing m := by
  intro m hm t ht
  obtain ⟨oid, hfiles⟩ := h.mem_tablesWith.1 ht
  have hfiles' : c'.Files t m oid := by
    unfold Catalog.Files at hfiles ⊢
    rwa [hsame]
  by_contra hne
  exact ((hdropped.files _ _ _).1 hfiles').2 ⟨hm, hne⟩

/-- Where no table of these names has an empty name, exactly the indexes of these names are gone. -/
lemma Dropped.exactly (h : c.Bijective) (hdropped : Dropped c names c')
    (hempty : ∀ n ∈ names, "" ∉ c.tablesWith n) :
    (∀ tableName indexName oid, c'.Files tableName indexName oid ↔
        c.Files tableName indexName oid ∧ indexName ∉ names) ∧
      ∀ entry, entry ∈ c'.indexes ↔ entry ∈ c.indexes ∧ entry.2.name ∉ names := by
  have hnamed : ∀ {tableName indexName oid}, c.Files tableName indexName oid →
      (indexName ∈ names ∧ tableName ≠ "" ↔ indexName ∈ names) := by
    intro tableName indexName oid hfiles
    refine and_iff_left_of_imp fun hmem => ?_
    rintro rfl
    exact hempty indexName hmem (h.mem_tablesWith.2 ⟨oid, hfiles⟩)
  constructor
  · intro tableName indexName oid
    rw [hdropped.files]
    exact and_congr_right fun hfiles => not_congr (hnamed hfiles)
  · intro entry
    rw [hdropped.indexes]
    refine and_congr_right fun hentry => not_congr ?_
    exact hnamed ((h.files_iff _ _ entry.1).2 ⟨entry.2, hentry, rfl, rfl⟩)

end Safe

/-- `DROP INDEX` drops all or nothing iff a name goes wrong before any index is dropped, or none
does. -/
theorem dropsAllOrNothing_iff (h : CatalogHistory ctx.catalog) :
    DropsAllOrNothing std fuel out tableName indexName keyAttrs names missingOk ctx ↔
      ctx.catalog.DropIsSafe names missingOk := by
  have hc := bijective_of_history h
  constructor
  · intro hall
    obtain ⟨r, ctx', hrun, hresult⟩ := @spec_dropLoop missingOk false names ctx hc
    obtain ⟨r₁, hinit, hok⟩ := @runIn_dropIndexInit std fuel out tableName indexName keyAttrs _ _ _
      ⟨(), [], 0⟩ r ctx' hrun
    obtain ⟨r₂, ctx₂, hinit₂, hleft⟩ := hall ⟨(), [], 0⟩
    rw [hinit] at hinit₂
    obtain ⟨rfl, rfl⟩ := Prod.mk.inj (Option.some.inj hinit₂)
    match r, r₁, hok, hresult, hleft with
    | .error e, .error e₁, _, ⟨prior, n, rest, heq, hfault, hdropped⟩, ⟨hnames, _⟩ =>
      have hprior := hdropped.missing hc hnames
      refine .inl ⟨prior, n, rest, heq, hprior, ?_⟩
      exact hfault.imp_right fun hor => ⟨hor.1, hor.2.elim id (hprior n)⟩
    | .ok b, .ok st, _, ⟨⟨hnone, honce⟩, hdropped⟩, ⟨hfiles, _⟩ =>
      have hempty : ∀ n ∈ names, "" ∉ ctx.catalog.tablesWith n := by
        intro n hn htable
        obtain ⟨oid, hold⟩ := hc.mem_tablesWith.1 htable
        have hstill := (hdropped.files "" n oid).2 ⟨hold, fun hboth => hboth.2 rfl⟩
        exact ((hfiles _ _ _).1 hstill).2 hn
      refine .inr ⟨fun n hn => ⟨?_, hempty n hn⟩, fun hok => ⟨(honce hok).1, fun n hn hnil => ?_⟩⟩
      · exact Catalog.length_tablesWith_le (hnone n hn) (hempty n hn)
      · refine (honce hok).2 n hn fun t ht => ?_
        rw [hnil] at ht
        exact absurd ht List.not_mem_nil
  · rintro (⟨prior, n, rest, rfl, hprior, hfault⟩ | ⟨hone, honce⟩) st
    · obtain ⟨e, hrun⟩ := @dropLoop_of_missing missingOk false prior n ctx hc rest hprior hfault
      obtain ⟨r, hinit, hok⟩ := @runIn_dropIndexInit std fuel out tableName indexName keyAttrs _ _ _
        st _ ctx hrun
      match r, hok with
      | .error e', _ => exact ⟨_, ctx, hinit, rfl, rfl⟩
    · obtain ⟨r, ctx', hrun, hresult⟩ := @spec_dropLoop missingOk false names ctx hc
      obtain ⟨r₁, hinit, hok⟩ := @runIn_dropIndexInit std fuel out tableName indexName keyAttrs _ _ _
        st r ctx' hrun
      match r, r₁, hok, hresult with
      | .error e, _, _, ⟨prior, n, rest, heq, hfault, _⟩ =>
        have hn : n ∈ names := by
          rw [heq]
          simp
        rcases hfault with hambiguous | ⟨hok, hmissing | hmem⟩
        · exact absurd hambiguous (Catalog.not_ambiguous_of_length (hone n hn).1)
        · obtain ⟨t, ht⟩ := List.exists_mem_of_ne_nil _ ((honce hok).2 n hn)
          rw [hmissing t ht] at ht
          exact absurd ht (hone n hn).2
        · have hnodup := (honce hok).1
          rw [heq, List.nodup_append] at hnodup
          exact absurd rfl (hnodup.2.2 n hmem n List.mem_cons_self)
      | .ok b, .ok st', _, ⟨_, hdropped⟩ =>
        exact ⟨_, ctx', hinit, hdropped.exactly hc fun n hn => (hone n hn).2⟩

end Statement

/-! ## Samples -/

/-- A table `t` with an index `i`. -/
def indexedContext : ExecutorContext where
  catalog :=
    { nextTableOid := 2
      nextIndexOid := 2
      tables := [(1, smallTable ["a"])]
      tableNames := [("t", 1)]
      indexes :=
        [(1, { keySchema := Schema.new [.new "a" .integer, .new "a" .integer], name := "i",
               tableName := "t", oid := 1, keyAttrs := [0, 0] })]
      indexNames := [("t", [("i", 1)])] }

/-- The sample catalog has a history. -/
lemma history_indexedContext : CatalogHistory indexedContext.catalog := by
  have htable : CatalogHistory
      { nextTableOid := 2, tables := [(1, smallTable ["a"])], tableNames := [("t", 1)] } :=
    @CatalogHistory.createTable {} _ "t" (smallTable ["a"]).schema
      (.ok (some (smallTable ["a"]))) .empty rfl
  exact @CatalogHistory.createIndex { catalog := _ } _ 0 "i" "t" [0, 0] (.ok (some 1)) htable rfl

/-- `DROP INDEX i` drops the index. -/
theorem dropsAllOrNothing_single :
    DropsAllOrNothing default 0 (Schema.new []) "" "" [] ["i"] false indexedContext :=
  (dropsAllOrNothing_iff history_indexedContext).2 (.inr (by decide))

/-- `DROP INDEX i, j` drops the index `i` and throws, since there is no index `j`. -/
theorem not_dropsAllOrNothing_missing :
    CatalogHistory indexedContext.catalog ∧
      ¬ DropsAllOrNothing default 0 (Schema.new []) "" "" [] ["i", "j"] false indexedContext := by
  refine ⟨history_indexedContext, fun hall => ?_⟩
  obtain ⟨r, ctx', hrun, hleft⟩ := hall ⟨(), [], 0⟩
  cases hrun
  exact absurd hleft.1 (by decide)

end OneBase
