import OneBase.Execution.HeapDatabase
import OneBase.Execution.InsertFrom
import OneBase.Execution.UpdateStatement

set_option relaxedAutoImplicit false
set_option autoImplicit false

/-!
# Modifications of a database of heaps

What the loops of `INSERT`, `DELETE` and `UPDATE` make of the rows of all tables, whatever the rows
are. The table that is read may be the one that gets the rows.

## Main definitions

* `OneBase.InsertedBytes` — the bytes that `INSERT` may store.
* `OneBase.RowsStored` — the database while `INSERT` goes on.
* `OneBase.RowsGone` — the database while `DELETE` goes on.

## Main results

* `OneBase.HeapDatabase.insertLoop`, `OneBase.HeapDatabase.deleteLoop`,
  `OneBase.HeapDatabase.updateLoop` — the loops.
-/

namespace OneBase

open Exec TableHeap

/-! ## One row -/

section Row

variable {ctx ctx' : ExecutorContext} {pages : ℕ → Pages} {oid fuel : ℕ} {info : TableInfo}
  {oids : List ℕ} {row : Row} {count count' : ℤ} {b : List UInt8}
  {change : ℕ → Cpp (IndexInfo → IndexInfo)}

/-- The loop over the indexes leaves the tables alone. -/
lemma HeapDatabase.maintainIndexes (h : HeapDatabase ctx pages) (hnodup : oids.Nodup)
    (hret : Returns (OneBase.maintainIndexes oids change) ctx () ctx') :
    HeapDatabase ctx' pages ∧
      ∀ oid, ctx'.catalog.getTable oid = ctx.catalog.getTable oid := by
  obtain ⟨hmaintained, hctx'⟩ := returns_maintainIndexes hnodup hret
  have htables : ∀ oid, ctx'.catalog.getTable oid = ctx.catalog.getTable oid := by
    intro oid
    rw [hmaintained.others]
    rfl
  refine ⟨⟨fun oid info hinfo => ?_, fun oid info oid' info' hinfo hinfo' => ?_⟩, htables⟩
  · have htable := h.table oid info ((htables oid).symm.trans hinfo)
    rw [hctx']
    exact ⟨htable.ready, htable.frames, htable.holds⟩
  · exact h.apart oid info oid' info' ((htables oid).symm.trans hinfo)
      ((htables oid').symm.trans hinfo')

/-- The body of the loop of `INSERT`, if it returns: the table has one row more, or no page has room
for the row.

**Proof sketch.** `InsertTuple` refuses bytes that an empty page has no room for, and an empty row is
none. What it stores lies on a page, under a row id that no row had. -/
lemma HeapDatabase.insertRow (h : HeapDatabase ctx pages) (hnodup : oids.Nodup)
    (hinfo : ctx.catalog.getTable oid = some info)
    (hret : Returns (OneBase.insertRow fuel info oids count row) ctx count' ctx') :
    ∃ pages', HeapDatabase ctx' (Function.update pages oid pages') ∧
      (∀ oid', ctx'.catalog.getTable oid' = ctx.catalog.getTable oid') ∧
      (liveRows pages' = liveRows (pages oid) ∧ ¬ IsStored (bytesOf row.1) ∨
        IsStored (bytesOf row.1) ∧ ∃ rid before after, liveRows (pages oid) = before ++ after ∧
          rid ∉ (before ++ after).map Prod.fst ∧
          liveRows pages' = before ++ (rid, bytesOf row.1) :: after) := by
  have htable := h.table oid info hinfo
  obtain ⟨r, c₁, hinsert, hret₁⟩ := returns_bind.1 hret
  obtain ⟨bpm, hrun, rfl⟩ := returns_ofProgram.1 hinsert
  obtain ⟨pages', hinserts⟩ := htable.holds.inserts_of_run htable.ready hrun
  have htable' : HeapTable { ctx with bpm := bpm } info pages' :=
    ⟨hinserts.frame.ready, htable.frames, hinserts.holds⟩
  have hinserted : HeapDatabase { ctx with bpm := bpm } (Function.update pages oid pages') := by
    refine h.modified hinfo (fun _ => rfl) htable' hinserts.frame fun q hq => ?_
    rcases hinserts.pages_eq with heq | ⟨heq, -⟩
    · rw [heq] at hq
      exact .inl hq
    · rw [heq, List.mem_append, List.mem_singleton] at hq
      exact hq
  have hrows : liveRows pages' = liveRows (pages oid) ∧ ¬ IsStored (bytesOf row.1) ∨
      IsStored (bytesOf row.1) ∧ ∃ rid before after, liveRows (pages oid) = before ++ after ∧
        rid ∉ (before ++ after).map Prod.fst ∧
        liveRows pages' = before ++ (rid, bytesOf row.1) :: after := by
    have hgrows := hinserts.grows
    have hnodup' := nodup_liveRows hinserts.holds.nodup
    have hroom : ∀ r ∈ liveRows pages', r.2.length + 20 ≤ pageSize :=
      fun r hr => (htable'.length_le hr).2
    generalize liveRows (pages oid) = l at hgrows
    generalize liveRows pages' = l' at hgrows hnodup' hroom
    cases hgrows with
    | refused hlarge => exact .inl ⟨rfl, fun hstored => by have := hstored.2; omega⟩
    | @inserted rid before after =>
      by_cases hnil : bytesOf row.1 = []
      · exact .inl ⟨by rw [if_pos hnil, List.append_nil], fun hstored => hstored.1 hnil⟩
      · rw [if_neg hnil] at hnodup' hroom
        have hassoc : before ++ [(rid, bytesOf row.1)] ++ after =
            before ++ (rid, bytesOf row.1) :: after := by simp
        have hstored : IsStored (bytesOf row.1) := ⟨hnil, hroom (rid, bytesOf row.1) (by simp)⟩
        rw [hassoc, List.map_append, List.map_cons, List.nodup_middle, List.nodup_cons,
          ← List.map_append] at hnodup'
        exact .inr ⟨hstored, rid, before, after, rfl, hnodup'.1, by rw [if_neg hnil, hassoc]⟩
  cases r with
  | none =>
    obtain ⟨-, rfl⟩ := returns_pure.1 hret₁
    exact ⟨pages', hinserted, fun _ => rfl, hrows⟩
  | some rid =>
    obtain ⟨n, c₂, hcount, hret₂⟩ := returns_bind.1 hret₁
    obtain ⟨-, rfl⟩ := returns_ofCpp.1 hcount
    obtain ⟨⟨⟩, c₃, hloop, hret₃⟩ := returns_bind.1 hret₂
    obtain ⟨-, rfl⟩ := returns_pure.1 hret₃
    obtain ⟨hdatabase, htables⟩ := hinserted.maintainIndexes hnodup hloop
    exact ⟨pages', hdatabase, htables, hrows⟩

/-- The body of the loop of `DELETE`, if it returns: the table has one row less. -/
lemma HeapDatabase.deleteRow (h : HeapDatabase ctx pages) (hnodup : oids.Nodup)
    (hinfo : ctx.catalog.getTable oid = some info) (hrow : (row.2, b) ∈ liveRows (pages oid))
    (hret : Returns (OneBase.deleteRow info oids count row) ctx count' ctx') :
    ∃ pages', HeapDatabase ctx' (Function.update pages oid pages') ∧
      (∀ oid', ctx'.catalog.getTable oid' = ctx.catalog.getTable oid') ∧
      liveRows pages' = setRow row.2 [] (liveRows (pages oid)) := by
  have htable := h.table oid info hinfo
  obtain ⟨before, after, hrows⟩ := List.append_of_mem hrow
  obtain ⟨bpm, pages', hrun, hholds, hrows', hpages, hframe⟩ :=
    htable.holds.deleteTuple htable.ready htable.frames hrows
  obtain ⟨⟨⟩, c₁, hdelete, hret₁⟩ := returns_bind.1 hret
  obtain ⟨bpm', hrun', rfl⟩ := returns_ofProgram.1 hdelete
  obtain ⟨-, rfl⟩ := Prod.mk.inj (Option.some.inj (hrun.symm.trans hrun'))
  obtain ⟨n, c₂, hcount, hret₂⟩ := returns_bind.1 hret₁
  obtain ⟨-, rfl⟩ := returns_ofCpp.1 hcount
  obtain ⟨⟨⟩, c₃, hloop, hret₃⟩ := returns_bind.1 hret₂
  obtain ⟨-, rfl⟩ := returns_pure.1 hret₃
  have hdeleted : HeapDatabase { ctx with bpm := bpm } (Function.update pages oid pages') := by
    refine h.modified hinfo (fun _ => rfl) ⟨hframe.ready, htable.frames, hholds⟩ hframe
      fun q hq => .inl ?_
    rwa [hpages] at hq
  obtain ⟨hdatabase, htables⟩ := hdeleted.maintainIndexes hnodup hloop
  refine ⟨pages', hdatabase, htables, ?_⟩
  have hrids := nodup_liveRows htable.holds.nodup
  rw [hrows] at hrids ⊢
  rw [hrows', setRow_middle hrids, if_pos rfl, List.append_nil]

end Row

/-! ## `INSERT` -/

/-- The bytes that `INSERT` may store: those of what its child reads of the rows `start`, and, if
the child reads the table that gets the rows, those of what it reads of such rows, once they are
stored. -/
inductive InsertedBytes (read : RID × List UInt8 → Cpp (Option Tuple))
    (start : List (RID × List UInt8)) (again : Prop) : List UInt8 → Prop
  | row {r : RID × List UInt8} {made : Tuple} (hr : r ∈ start)
      (hread : read r = pure (some made)) : InsertedBytes read start again (bytesOf made)
  | again {rid : RID} {b : List UInt8} {made : Tuple} (hagain : again) (hstored : IsStored b)
      (hb : InsertedBytes read start again b) (hread : read (rid, b) = pure (some made)) :
      InsertedBytes read start again (bytesOf made)

/-- The database while `INSERT` goes on. Its child began with the rows `start` ahead of it, and has
`ahead` ahead of it now. -/
structure RowsStored (ctx : ExecutorContext) (pages : ℕ → Pages) (oid : ℕ)
    (read : RID × List UInt8 → Cpp (Option Tuple)) (start : List (RID × List UInt8)) (again : Prop)
    (ctx' : ExecutorContext) (pages' : ℕ → Pages) (ahead : List (RID × List UInt8)) : Prop where
  database : HeapDatabase ctx' pages'
  tables : ∀ oid', ctx'.catalog.getTable oid' = ctx.catalog.getTable oid'
  others : ∀ oid' ≠ oid, pages' oid' = pages oid'
  kept : ∀ r ∈ liveRows (pages oid), r ∈ liveRows (pages' oid)
  stored : ∀ r ∈ liveRows (pages' oid), r ∈ liveRows (pages oid) ∨
    IsStored r.2 ∧ InsertedBytes read start again r.2
  origin : ∀ r ∈ ahead, r ∈ start ∨ again ∧ IsStored r.2 ∧ InsertedBytes read start again r.2
  done : ∀ r ∈ start, r ∈ ahead ∨ ∀ made, read r = pure (some made) → IsStored (bytesOf made) →
    ∃ rid, (rid, bytesOf made) ∈ liveRows (pages' oid) ∧
      (rid, bytesOf made) ∉ liveRows (pages oid)

section Insert

variable {σ : Type} {next : σ → Exec (Option Row × σ)} {source : TableInfo}
  {read : RID × List UInt8 → Cpp (Option Tuple)}
  {J : σ → List (RID × List UInt8) → List (RID × List UInt8) → Prop}
  {ctx c ctx' : ExecutorContext} {pages pages' : ℕ → Pages} {oid sourceOid fuel n : ℕ}
  {info : TableInfo} {oids : List ℕ} {row : Row} {count count' : ℤ} {again : Prop} {st st' : σ}
  {start ahead ahead' skipped rest : List (RID × List UInt8)} {r : RID × List UInt8} {p : Pages}

/-- The bytes of a row that is read are those that `INSERT` may store. -/
lemma RowsStored.insertedBytes {made : Tuple}
    (h : RowsStored ctx pages oid read start again c pages' ahead) (hr : r ∈ ahead)
    (hread : read r = pure (some made)) : InsertedBytes read start again (bytesOf made) := by
  rcases h.origin r hr with hstart | ⟨hagain, hstored, hb⟩
  · exact .row hstart hread
  · exact .again hagain hstored hb hread

/-- A round of the loop, for a row that no page has room for. -/
lemma RowsStored.skip
    (h : RowsStored ctx pages oid read start again c pages' (skipped ++ r :: rest))
    (hskipped : ∀ x ∈ skipped, read x = pure none) (hread : read r = pure (some row.1))
    (hdatabase : HeapDatabase ctx' (Function.update pages' oid p))
    (htables : ∀ oid', ctx'.catalog.getTable oid' = c.catalog.getTable oid')
    (hrows : liveRows p = liveRows (pages' oid)) (hlarge : ¬ IsStored (bytesOf row.1)) :
    RowsStored ctx pages oid read start again ctx' (Function.update pages' oid p) rest where
  database := hdatabase
  tables := fun oid' => (htables oid').trans (h.tables oid')
  others := fun oid' hne => (Function.update_of_ne hne ..).trans (h.others oid' hne)
  kept := by
    rw [Function.update_self, hrows]
    exact h.kept
  stored := by
    rw [Function.update_self, hrows]
    exact h.stored
  origin := fun x hx => h.origin x (List.mem_append_right _ (List.mem_cons_of_mem r hx))
  done := by
    rw [Function.update_self, hrows]
    intro x hx
    rcases h.done x hx with hahead | hdone
    · rcases List.mem_append.1 hahead with hskip | hcons
      · refine .inr fun made hmade => ?_
        cases (hskipped x hskip).symm.trans hmade
      · rcases List.mem_cons.1 hcons with rfl | hrest
        · refine .inr fun made hmade hstored => ?_
          cases hread.symm.trans hmade
          exact absurd hstored hlarge
        · exact .inl hrest
    · exact .inr hdone

/-- A round of the loop, for a row that is stored. -/
lemma RowsStored.store {rid : RID} {before after : List (RID × List UInt8)}
    (h : RowsStored ctx pages oid read start again c pages' (skipped ++ r :: rest))
    (hskipped : ∀ x ∈ skipped, read x = pure none) (hread : read r = pure (some row.1))
    (hdatabase : HeapDatabase ctx' (Function.update pages' oid p))
    (htables : ∀ oid', ctx'.catalog.getTable oid' = c.catalog.getTable oid')
    (hstored : IsStored (bytesOf row.1)) (hrows : liveRows (pages' oid) = before ++ after)
    (hnew : rid ∉ (before ++ after).map Prod.fst)
    (hrows' : liveRows p = before ++ (rid, bytesOf row.1) :: after)
    (hrest : ∀ x ∈ rest, x ∈ ahead')
    (hahead' : ∀ x ∈ ahead', (again ∧ x = (rid, bytesOf row.1)) ∨ x ∈ rest) :
    RowsStored ctx pages oid read start again ctx' (Function.update pages' oid p) ahead' := by
  have hbytes : InsertedBytes read start again (bytesOf row.1) :=
    h.insertedBytes (List.mem_append_right _ List.mem_cons_self) hread
  have hmem : ∀ x, x ∈ liveRows p ↔ x = (rid, bytesOf row.1) ∨ x ∈ liveRows (pages' oid) := by
    intro x
    rw [hrows, hrows', List.mem_append, List.mem_cons, List.mem_append]
    exact or_left_comm
  have hfresh : (rid, bytesOf row.1) ∉ liveRows (pages oid) := by
    intro hold
    have hlive := h.kept _ hold
    rw [hrows] at hlive
    exact hnew (List.mem_map_of_mem hlive)
  exact
    { database := hdatabase
      tables := fun oid' => (htables oid').trans (h.tables oid')
      others := fun oid' hne => (Function.update_of_ne hne ..).trans (h.others oid' hne)
      kept := by
        intro x hx
        rw [Function.update_self]
        exact (hmem x).2 (.inr (h.kept x hx))
      stored := by
        intro x hx
        rw [Function.update_self] at hx
        rcases (hmem x).1 hx with rfl | hx
        · exact .inr ⟨hstored, hbytes⟩
        · exact h.stored x hx
      origin := by
        intro x hx
        rcases hahead' x hx with ⟨hagain, rfl⟩ | hx
        · exact .inr ⟨hagain, hstored, hbytes⟩
        · exact h.origin x (List.mem_append_right _ (List.mem_cons_of_mem r hx))
      done := by
        intro x hx
        rw [Function.update_self]
        rcases h.done x hx with hahead | hdone
        · rcases List.mem_append.1 hahead with hskip | hcons
          · refine .inr fun made hmade => ?_
            cases (hskipped x hskip).symm.trans hmade
          · rcases List.mem_cons.1 hcons with rfl | hx
            · refine .inr fun made hmade _ => ?_
              cases hread.symm.trans hmade
              exact ⟨rid, (hmem _).2 (.inl rfl), hfresh⟩
            · exact .inl (hrest x hx)
        · refine .inr fun made hmade hroom => ?_
          obtain ⟨rid', hlive, hold⟩ := hdone made hmade hroom
          exact ⟨rid', (hmem _).2 (.inr hlive), hold⟩ }

/-- A round of the loop of `INSERT`.

**Proof sketch.** If the row is stored in the table that the child reads, then the child may have it
ahead. -/
lemma RowsStored.insertRow
    (h : RowsStored ctx pages oid read start (sourceOid = oid) c pages' (skipped ++ r :: rest))
    (hnodup : oids.Nodup) (hinfo : ctx.catalog.getTable oid = some info)
    (hwalks : Walks next source read J) (hJ : J st rest (liveRows (pages' sourceOid)))
    (hskipped : ∀ x ∈ skipped, read x = pure none) (hread : read r = pure (some row.1))
    (hret : Returns (OneBase.insertRow fuel info oids count row) c count' ctx') :
    ∃ pages'' ahead', RowsStored ctx pages oid read start (sourceOid = oid) ctx' pages'' ahead' ∧
      J st ahead' (liveRows (pages'' sourceOid)) := by
  obtain ⟨p, hdatabase, htables, hrows⟩ :=
    h.database.insertRow hnodup ((h.tables oid).trans hinfo) hret
  rcases hrows with ⟨hrows, hlarge⟩ | ⟨hroom, rid, before, after, hrows, hnew, hrows'⟩
  · refine ⟨_, rest, h.skip hskipped hread hdatabase htables hrows hlarge, ?_⟩
    by_cases hsource : sourceOid = oid
    · rw [hsource] at hJ ⊢
      rwa [Function.update_self, hrows]
    · rwa [Function.update_of_ne hsource]
  · by_cases hsource : sourceOid = oid
    · rw [hsource, hrows] at hJ
      obtain ⟨ahead', hJ', hrest, hahead'⟩ :=
        hwalks.inserted st rest before after (rid, bytesOf row.1) hJ hnew
      refine ⟨_, ahead', h.store hskipped hread hdatabase htables hroom hrows hnew hrows' hrest
        fun x hx => (hahead' x hx).imp_left fun heq => ⟨hsource, heq⟩, ?_⟩
      rw [hsource, Function.update_self, hrows']
      exact hJ'
    · refine ⟨_, rest, h.store hskipped hread hdatabase htables hroom hrows hnew hrows' (fun x hx => hx)
        fun x hx => .inr hx, ?_⟩
      rwa [Function.update_of_ne hsource]

/-- The loop of `INSERT`.

**Proof sketch.** A round returns the first of the rows ahead that the child makes something of, and
leaves those behind it ahead, with the stored row where the child reads its own table. -/
lemma HeapDatabase.insertLoop (h : HeapDatabase ctx pages) (hnodup : oids.Nodup)
    (hinfo : ctx.catalog.getTable oid = some info)
    (hsource : ctx.catalog.getTable sourceOid = some source) (hwalks : Walks next source read J)
    (hJ : J st start (liveRows (pages sourceOid)))
    (hret : Returns (forEachRow next (OneBase.insertRow fuel info oids) n st count) ctx
      (st', count') ctx') :
    ∃ pages', RowsStored ctx pages oid read start (sourceOid = oid) ctx' pages' [] := by
  refine forEachRow_rule
    (I := fun st _ c => ∃ pages' ahead,
      RowsStored ctx pages oid read start (sourceOid = oid) c pages' ahead ∧
        J st ahead (liveRows (pages' sourceOid)))
    (Q := fun _ _ c => ∃ pages', RowsStored ctx pages oid read start (sourceOid = oid) c pages' [])
    ?_ ?_ ⟨pages, start, ?_, hJ⟩ hret
  · rintro st acc c row st' c' acc' c'' ⟨pages', ahead, hstored, hJ⟩ hnext hbody
    have htable := hstored.database.table sourceOid source ((hstored.tables sourceOid).trans hsource)
    obtain ⟨rfl, rest, hscan, hJ'⟩ := hwalks.returns _ _ _ _ _ _ _ htable hJ hnext
    obtain ⟨skipped, r, rfl, hskipped, hread, -⟩ := Scans.some_iff.1 hscan
    exact hstored.insertRow hnodup hinfo hwalks hJ' hskipped hread hbody
  · rintro st acc c st' c' ⟨pages', ahead, hstored, hJ⟩ hnext
    have htable := hstored.database.table sourceOid source ((hstored.tables sourceOid).trans hsource)
    obtain ⟨rfl, rest, hscan, -⟩ := hwalks.returns _ _ _ _ _ _ _ htable hJ hnext
    obtain ⟨-, hnone⟩ := Scans.none_iff.1 hscan
    refine ⟨pages', hstored.database, hstored.tables, hstored.others, hstored.kept, hstored.stored,
      nofun, fun x hx => .inr ?_⟩
    rcases hstored.done x hx with hahead | hdone
    · intro made hmade
      cases (hnone x hahead).symm.trans hmade
    · exact hdone
  · exact ⟨h, fun _ => rfl, fun _ _ => rfl, fun r hr => hr, fun r hr => .inl hr,
      fun r hr => .inl hr, fun r hr => .inl hr⟩

end Insert

/-! ## `DELETE` -/

/-- The database while `DELETE` goes on. -/
structure RowsGone (ctx : ExecutorContext) (pages : ℕ → Pages) (oid : ℕ) (ctx' : ExecutorContext)
    (pages' : ℕ → Pages) : Prop where
  database : HeapDatabase ctx' pages'
  tables : ∀ oid', ctx'.catalog.getTable oid' = ctx.catalog.getTable oid'
  others : ∀ oid' ≠ oid, pages' oid' = pages oid'
  left : ∀ r ∈ liveRows (pages' oid), r ∈ liveRows (pages oid)

section Delete

variable {σ : Type} {next : σ → Exec (Option Row × σ)}
  {read : RID × List UInt8 → Cpp (Option Tuple)}
  {J : σ → List (RID × List UInt8) → List (RID × List UInt8) → Prop}
  {ctx ctx' : ExecutorContext} {pages : ℕ → Pages} {oid n : ℕ} {info : TableInfo} {oids : List ℕ}
  {count count' : ℤ} {st st' : σ} {start : List (RID × List UInt8)}

/-- The loop of `DELETE`. -/
lemma HeapDatabase.deleteLoop (h : HeapDatabase ctx pages) (hnodup : oids.Nodup)
    (hinfo : ctx.catalog.getTable oid = some info) (hwalks : Walks next info read J)
    (hJ : J st start (liveRows (pages oid)))
    (hret : Returns (forEachRow next (OneBase.deleteRow info oids) n st count) ctx (st', count')
      ctx') : ∃ pages', RowsGone ctx pages oid ctx' pages' := by
  refine forEachRow_rule
    (I := fun st _ c => ∃ pages' ahead, RowsGone ctx pages oid c pages' ∧
      J st ahead (liveRows (pages' oid)))
    (Q := fun _ _ c => ∃ pages', RowsGone ctx pages oid c pages') ?_ ?_
    ⟨pages, start, ⟨h, fun _ => rfl, fun _ _ => rfl, fun r hr => hr⟩, hJ⟩ hret
  · rintro st acc c row st' c' acc' c'' ⟨pages', ahead, hgone, hJ⟩ hnext hbody
    have hinfo' := (hgone.tables oid).trans hinfo
    have htable := hgone.database.table oid info hinfo'
    obtain ⟨rfl, rest, hscan, hJ'⟩ := hwalks.returns _ _ _ _ _ _ _ htable hJ hnext
    obtain ⟨skipped, r, rfl, -, -, hrid⟩ := Scans.some_iff.1 hscan
    have hr : (row.2, r.2) ∈ liveRows (pages' oid) := by
      rw [hrid]
      exact hwalks.subset _ _ _ hJ r (by simp)
    obtain ⟨p, hdatabase, htables, hrows⟩ := hgone.database.deleteRow hnodup hinfo' hr hbody
    refine ⟨_, rest, ⟨hdatabase, fun oid' => (htables oid').trans (hgone.tables oid'),
      fun oid' hne => (Function.update_of_ne hne ..).trans (hgone.others oid' hne), ?_⟩, ?_⟩
    · rw [Function.update_self, hrows]
      intro x hx
      rcases mem_setRow_iff.1 hx with ⟨hx, -⟩ | ⟨-, hne, -⟩
      · exact hgone.left x hx
      · exact absurd rfl hne
    · rw [Function.update_self, hrows, hrid]
      exact hwalks.replaced _ _ _ _ _ hJ' (hwalks.notMem_rest hJ)
  · rintro st acc c st' c' ⟨pages', ahead, hgone, hJ⟩ hnext
    have htable := hgone.database.table oid info ((hgone.tables oid).trans hinfo)
    obtain ⟨rfl, -⟩ := hwalks.returns _ _ _ _ _ _ _ htable hJ hnext
    exact ⟨pages', hgone⟩

end Delete

/-! ## `UPDATE` -/

section Update

variable {σ : Type} {next : σ → Exec (Option Row × σ)}
  {J : σ → List Row → List (RID × List UInt8) → Prop} {ctx ctx' : ExecutorContext}
  {pages : ℕ → Pages} {oid n : ℕ} {info : TableInfo} {oids : List ℕ}
  {updateExprs : List Expression} {childSchema : Schema} {count count' : ℤ} {st st' : σ}
  {rs : List Replacement}

/-- The loop of `UPDATE`, if its updates take only bytes that are free. -/
lemma HeapDatabase.updateLoop (h : HeapDatabase ctx pages) (hnodup : oids.Nodup)
    (hinfo : ctx.catalog.getTable oid = some info) (hreplays : Replays next info J)
    (hJ : J st (rs.map fun r => (r.scanned, r.rid)) (liveRows (pages oid)))
    (hstored : ∀ r ∈ rs, (r.rid, r.old) ∈ liveRows (pages oid))
    (hevaluated : ∀ r ∈ rs, evaluateRow updateExprs childSchema r.scanned = pure r.updated)
    (hrids : (rs.map Replacement.rid).Nodup) (horderly : Orderly (freeSpace ctx.bpm) rs)
    (hret : Returns (forEachRow next (updateRow updateExprs childSchema info oids) n st count) ctx
      (st', count') ctx') :
    ∃ pages', HeapDatabase ctx' (Function.update pages oid pages') ∧
      (∀ oid', ctx'.catalog.getTable oid' = ctx.catalog.getTable oid') ∧
      liveRows pages' = replaceRows (accepted (freeSpace ctx.bpm) rs) (liveRows (pages oid)) := by
  obtain ⟨pages', htable, -, -, hrows, -, hplace, htables⟩ := (h.table oid info hinfo).updateLoop
    hnodup hreplays hJ hstored hevaluated hrids horderly hret
  refine ⟨pages', h.modified hinfo htables htable hplace.frame fun q hq => .inl ?_, htables, hrows⟩
  rwa [hplace.pages_eq] at hq

end Update

end OneBase
