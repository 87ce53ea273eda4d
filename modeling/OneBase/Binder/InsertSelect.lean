import OneBase.Binder.GroupedAnswers
import OneBase.Execution.InsertFrom
import OneBase.Execution.Typing

set_option relaxedAutoImplicit false
set_option autoImplicit false

/-!
# The `SELECT` of an `INSERT`

The binder does not bind the `SELECT` of an `INSERT` with its own branch for `SELECT`. It makes a
scan of the table with the predicate of the `WHERE` clause, and looks neither at the targets nor at
the `ORDER BY` and `LIMIT` clauses. The statement stores the rows of its `SELECT` if the targets are
the columns of the scanned table, the `LIMIT` lets all rows pass, and the other table reads the bytes
of these rows as they are.

## Main definitions

* `OneBase.SelectStmt.inserted` — the rows that the statement inserts.
* `OneBase.StoresSelected` — it inserts the rows of its `SELECT`, or throws.
* `OneBase.TableInfo.Keeps` — the table reads a row back from its bytes.
* `OneBase.SelectStmt.KeepsRows` — the other clauses keep the rows.

## Main results

* `OneBase.InsertSource.storesSelected_iff` — the statement, with one standard library.
* `OneBase.storesSelected_of_keepsRows` — when the statement stores the rows of its `SELECT`.
* `OneBase.not_storesSelected_swapped` — a statement whose columns are swapped.
-/

namespace OneBase

open Exec TableHeap

/-- A table, and another one that a `SELECT` reads, with its rows. -/
structure InsertSource (ctx : ExecutorContext) (target source : TableInfo) (oids : List ℕ)
    (pages sourcePages : Pages) (rows : List Tuple) : Prop extends
    Inserting ctx target source oids pages sourcePages where
  registered : ctx.catalog.getTable target.oid = some target
  sourceRegistered : ctx.catalog.getTable source.oid = some source
  contents : ∃ out, scanRows (scanRow .null source.schema) (liveRows sourcePages) = pure out ∧
    out.map Prod.fst = rows

namespace SelectStmt

variable (stof : String → Cpp (BitVec 32)) (tableAlias : String) (info : TableInfo)
  (select : SelectStmt)

/-- A row, if it satisfies the `WHERE` clause. -/
def pick (tuple : Tuple) : Cpp (Option Tuple) := do
  let keep ← select.chooses stof tableAlias info tuple
  pure (if keep then some tuple else none)

/-- The rows that `INSERT` inserts into a table with lookup indexes on the columns `attrs`: those
that satisfy the `WHERE` clause. It stops where the clause does, or where a row has no key. -/
def inserted (schema : Schema) (attrs : List ℕ) (rows : List Tuple) : Cpp (List Tuple) :=
  insertAll (select.pick stof tableAlias info) schema attrs rows

/-- A target is a star, or the targets are the columns of the table in their order. -/
def TakesColumns : Prop :=
  select.targetList.any ResTarget.isStar = true ∨
    List.Forall₂ (fun res i => res.isRegular = true ∧ ∃ type,
      bindExpression stof [⟨tableAlias, info, 0⟩] res.val = pure (.columnValue 0 i type))
      select.targetList (List.range info.schema.getColumnCount)

/-- The `ORDER BY` keys compare these rows. -/
def ComparesRows (chosen : List Tuple) : Prop :=
  ∀ orderBys, select.sortClause.mapM (bindSortBy stof [⟨tableAlias, info, 0⟩]) = pure orderBys →
    StrictWeakOrderOn chosen (compareRows info.schema orderBys)

end SelectStmt

/-- The table reads the row back from its bytes: the values have the types of its columns, each of
them but the last takes the bytes of its column, and a page has room for the row. -/
structure TableInfo.Keeps (info : TableInfo) (tuple : Tuple) : Prop where
  types : HasTypes info.schema.types tuple.values
  aligned : Aligned tuple.values
  nonempty : tuple.values ≠ []
  room : encodedSize tuple.values + 20 ≤ pageSize

/-- The clauses at which `INSERT` does not look keep the chosen rows, and the table that gets these
rows reads them back. -/
structure SelectStmt.KeepsRows (stof : String → Cpp (BitVec 32)) (tableAlias : String)
    (info target : TableInfo) (select : SelectStmt) (chosen : List Tuple) : Prop where
  plain : select.targetList.any ResTarget.isAggregate = false
  targets : select.TakesColumns stof tableAlias info
  limit : LetsPass select.limitCount chosen.length
  ordered : select.ComparesRows stof tableAlias info chosen
  columns : ∃ cols, target.schema = .new cols
  rows : ∀ tuple ∈ chosen, target.Keeps tuple

/-- What a statement without aggregates that stores the rows of its `SELECT` has in common with one
whose clauses keep the rows, if pages have room for the chosen rows. -/
structure SelectStmt.SuitsRows (stof : String → Cpp (BitVec 32)) (tableAlias : String)
    (info target : TableInfo) (select : SelectStmt) (chosen : List Tuple) : Prop where
  ordered : select.ComparesRows stof tableAlias info chosen
  limit : (∀ tuple ∈ chosen, IsStored (bytesOf tuple)) → LetsPass select.limitCount chosen.length
  types : (∀ tuple ∈ chosen, IsStored (bytesOf tuple)) →
    select.targetList.any ResTarget.isStar = true → target.schema.columns.length < 2 ^ 32 →
    ∀ tuple ∈ chosen, HasTypes target.schema.types tuple.values
  width : (∀ tuple ∈ chosen, IsStored (bytesOf tuple)) → chosen ≠ [] →
    select.targetList.any ResTarget.isStar = false →
    select.targetList.filter ResTarget.isRegular ≠ [] →
    (select.targetList.filter ResTarget.isRegular).length = target.schema.getColumnCount

/-- The values that a table with this schema reads from the bytes of a row. -/
def storedValues (schema : Schema) (b : List UInt8) : Cpp (List Value) :=
  columnValues { data := b } schema

/-- The statement with this plan throws an exception, or its `SELECT` returns rows and the statement
adds rows to the table, of which the table reads the values of these rows. -/
def StoresSelected (std : StandardLibrary) (stof : String → Cpp (BitVec 32)) (ctx : ExecutorContext)
    (select : SelectStmt) (target : TableInfo) (pages : Pages) (plan : PlanNode) : Prop :=
  (∃ fuel₀, ∀ fuel ≥ fuel₀, ∃ e ctx',
    runIn (executePlan std fuel plan) ctx = some (.error e, ctx')) ∨
  ∃ selectPlan result,
    (bindQuery stof ctx.catalog (.success [.selectStmt select])).Returns selectPlan ∧
    Completes std selectPlan ctx result ctx ∧
    ∃ fuel₀, ∀ fuel ≥ fuel₀, ∃ tuple ctx' pages' added stored,
      Returns (executePlan std fuel plan) ctx [tuple] ctx' ∧
      Holds ctx'.bpm.content target.table pages' ∧
      ((liveRows pages').map Prod.snd).Perm ((liveRows pages).map Prod.snd ++ added) ∧
      added.mapM (storedValues target.schema) = pure stored ∧
      stored.Perm (result.map Tuple.values)

/-! ## The plan -/

section Plan

variable {stof : String → Cpp (BitVec 32)} {catalog : Catalog} {select : SelectStmt}
  {target source : TableInfo} {name tableName : String} {plan : PlanNode} {predicate : Expression}

/-- The plan of the statement. -/
lemma exists_insertPlan (htarget : tableNamed catalog tableName = some target)
    (hname : tableNamed catalog name = some source)
    (hfrom : select.fromClause = [.rangeVar ⟨name, none⟩])
    (hbind : bindInsert stof catalog tableName (some select) = pure plan) :
    ∃ predicate, bindExpression stof [⟨name, source, 0⟩] select.whereClause = pure predicate ∧
      plan = .insert countSchema (.seqScan source.schema source.oid predicate) target.oid := by
  have htable : lookupTable catalog tableName = pure target := Cpp.result_eq_some.1 htarget
  have hsource : lookupTable catalog name = pure source := Cpp.result_eq_some.1 hname
  unfold bindInsert at hbind
  rw [htable, pure_bind] at hbind
  dsimp only at hbind
  rw [hfrom, if_neg (by simp), List.foldlM_cons, bindSource, hsource, pure_bind] at hbind
  obtain ⟨sub, hsub, hbind⟩ := Cpp.bind_eq_pure.1 hbind
  obtain ⟨step, hstep, hnil⟩ := Cpp.bind_eq_pure.1 hsub
  obtain ⟨predicate, hpredicate, hscan⟩ := Cpp.bind_eq_pure.1 hstep
  cases hscan
  cases hnil
  cases hbind
  exact ⟨predicate, hpredicate, rfl⟩

/-- The `WHERE` clause is evaluated as its predicate. -/
lemma chooses_eq
    (h : bindExpression stof [⟨name, source, 0⟩] select.whereClause = pure predicate)
    (tuple : Tuple) : select.chooses stof name source tuple =
      accepts predicate fun e => e.evaluate tuple source.schema := by
  unfold SelectStmt.chooses
  cases hnull : select.whereClause.isNull with
  | true =>
    have hwhere : select.whereClause = .null := by
      revert hnull
      cases select.whereClause <;> simp [Node.isNull]
    rw [hwhere, bindExpression] at h
    cases h
    rfl
  | false =>
    rw [if_neg Bool.false_ne_true, h, pure_bind]

end Plan

/-! ## The loop -/

/-- A loop over the same elements in another order collects the same results in another order. -/
lemma Cpp.exists_perm_of_mapM {α β : Type} {f : α → Cpp β} {l l' : List α} {out : List β}
    (hperm : l'.Perm l) (h : l.mapM f = pure out) :
    ∃ out', l'.mapM f = pure out' ∧ out'.Perm out := by
  obtain ⟨out', hforall, hout⟩ := List.perm_comp_forall₂ hperm (Cpp.mapM_eq_pure.1 h)
  exact ⟨out', Cpp.mapM_eq_pure.2 hforall, hout⟩

section Loop

variable {stof : String → Cpp (BitVec 32)} {select : SelectStmt} {source : TableInfo}
  {name : String} {predicate : Expression} {schema : Schema} {attrs : List ℕ}
  {r : RID × List UInt8} {tuple : Tuple} {live : List (RID × List UInt8)} {out : List Row}

/-- A scan makes the same row of the bytes, whatever its predicate is. -/
lemma scanRow_eq (h : scanRow .null schema r = pure (some tuple)) (predicate : Expression) :
    scanRow predicate schema r =
      (accepts predicate fun e => e.evaluate (rawTuple r) schema) >>= fun keep =>
        pure (if keep then some tuple else none) := by
  unfold scanRow
  refine bind_congr fun keep => ?_
  cases keep with
  | false => rfl
  | true => exact h

/-- The loop over the bytes of the rows is the loop over the rows. -/
lemma insertAll_scanRow
    (h : bindExpression stof [⟨name, source, 0⟩] select.whereClause = pure predicate)
    (hout : scanRows (scanRow .null source.schema) live = pure out) :
    insertAll (scanRow predicate source.schema) schema attrs live =
      select.inserted stof name source schema attrs (out.map Prod.fst) := by
  unfold SelectStmt.inserted
  induction live generalizing out with
  | nil =>
    cases hout
    rfl
  | cons r live ih =>
    obtain ⟨o, ho, hrest⟩ := Cpp.bind_eq_pure.1 hout
    obtain ⟨out', hout', heq⟩ := Cpp.bind_eq_pure.1 hrest
    obtain ⟨tuple, rfl, hvalues, -⟩ := scanRow_null ho
    cases heq
    have hread : scanRow predicate source.schema r = select.pick stof name source tuple := by
      rw [scanRow_eq ho predicate]
      unfold SelectStmt.pick
      rw [chooses_eq h]
      unfold accepts
      dsimp only
      rw [evaluate_rawTuple (bindExpression_refersTo h) hvalues]
    show insertAll _ schema attrs (r :: live) = insertAll _ schema attrs (tuple :: out'.map Prod.fst)
    rw [insertAll, insertAll, hread, ih hout']

/-- The rows that are inserted satisfy the clause, which can be evaluated on all of them. -/
lemma inserted_spec {rows chosen : List Tuple}
    (h : select.inserted stof name source schema attrs rows = pure chosen) :
    chosen = select.chosen stof name source rows ∧
      ∀ tuple ∈ rows, ∃ keep, select.chooses stof name source tuple = pure keep := by
  induction rows generalizing chosen with
  | nil =>
    cases h
    exact ⟨rfl, nofun⟩
  | cons tuple rows ih =>
    obtain ⟨o, ho, hrest⟩ := Cpp.bind_eq_pure.1 h
    obtain ⟨keep, hkeep, hpick⟩ := Cpp.bind_eq_pure.1 ho
    cases hpick
    have hchosen : select.chosen stof name source (tuple :: rows) =
        if keep then tuple :: select.chosen stof name source rows
        else select.chosen stof name source rows := by
      unfold SelectStmt.chosen
      rw [List.filter_cons, hkeep]
      cases keep <;> rfl
    cases keep with
    | false =>
      obtain ⟨hchosen', hall⟩ := ih hrest
      refine ⟨hchosen'.trans hchosen.symm, fun t ht => ?_⟩
      rcases List.mem_cons.1 ht with rfl | ht
      · exact ⟨false, hkeep⟩
      · exact hall t ht
    | true =>
      obtain ⟨-, -, hrest⟩ := Cpp.bind_eq_pure.1 hrest
      obtain ⟨rest, hinserted, hcons⟩ := Cpp.bind_eq_pure.1 hrest
      cases hcons
      obtain ⟨rfl, hall⟩ := ih hinserted
      refine ⟨hchosen.symm, fun t ht => ?_⟩
      rcases List.mem_cons.1 ht with rfl | ht
      · exact ⟨true, hkeep⟩
      · exact hall t ht

end Loop

/-! ## The statement -/

section Statement

variable {std : StandardLibrary} {stof : String → Cpp (BitVec 32)} {ctx : ExecutorContext}
  {select : SelectStmt} {target source : TableInfo} {name tableName : String} {oids : List ℕ}
  {pages sourcePages : Pages} {rows chosen : List Tuple} {plan selectPlan base : PlanNode}
  {predicate : Expression} {orderBys : List (Bool × Expression)} {targets : Targets}

/-- The source table holds its rows. -/
lemma InsertSource.tableContents (h : InsertSource ctx target source oids pages sourcePages rows) :
    TableContents ctx source rows := by
  obtain ⟨out, hout, hrows⟩ := h.contents
  exact ⟨h.sourceRegistered, sourcePages, out, h.scanned, hout, hrows⟩

/-- The engine follows the loop over the rows. -/
lemma InsertSource.follows (h : InsertSource ctx target source oids pages sourcePages rows)
    (hids : ctx.bpm.nextPageId + (liveRows sourcePages).length < 2 ^ 31)
    (hpredicate : bindExpression stof [⟨name, source, 0⟩] select.whereClause = pure predicate) :
    ∃ fuel₀, ∀ fuel ≥ fuel₀, Follows (executePlan std fuel
        (.insert countSchema (.seqScan source.schema source.oid predicate) target.oid)) ctx
      (select.inserted stof name source target.schema (ctx.catalog.lookupColumns oids) rows)
      fun tuples result ctx' => ∃ tuple pages', result = [tuple] ∧
        RowsInserted target source oids tuples ctx pages sourcePages ctx' pages' := by
  obtain ⟨out, hout, rfl⟩ := h.contents
  refine ⟨pages.length + sourcePages.length + (liveRows sourcePages).length + 2,
    fun fuel hfuel => ?_⟩
  have hnext := h.grown.holds.chain.lt_next h.grown.ready
  have hpos : 0 ≤ ctx.bpm.nextPageId := h.grown.ready.next_nonneg
  have hinit := @HeapTable.returns_seqScanInit ctx source sourcePages predicate fuel source.oid
    source.schema h.scanned h.sourceRegistered (by omega) {}
  have hloop := @Inserting.follows_loop ctx target source oids pages sourcePages fuel fuel 0
    predicate [] (liveRows sourcePages) (ctx.catalog.lookupColumns oids) h.toInserting rfl rfl
    (by omega) (by omega) (by omega) hids (by lia) (by omega)
  rw [insertAll_scanRow hpredicate hout] at hloop
  refine (follows_execute_modification (by omega) hinit h.registered h.indexes.listed
    hloop).mono ?_
  rintro tuples result ctx' - ⟨out', tuple, ⟨pages', hinserted⟩, rfl⟩
  exact ⟨tuple, pages', rfl, hinserted⟩

/-- What the statement does, with one standard library: it throws, or it stores the chosen rows, and
the values that the table reads of these must be those of the `SELECT`.

**Proof sketch.** The engine follows the loop over the rows. If this stores rows, the heap has them
besides those that it had, so that they are the added ones up to their order. -/
lemma InsertSource.storesSelected_iff
    (h : InsertSource ctx target source oids pages sourcePages rows)
    (hids : ctx.bpm.nextPageId + (liveRows sourcePages).length < 2 ^ 31)
    (hpredicate : bindExpression stof [⟨name, source, 0⟩] select.whereClause = pure predicate) :
    StoresSelected std stof ctx select target pages
        (.insert countSchema (.seqScan source.schema source.oid predicate) target.oid) ↔
      (∃ e, select.inserted stof name source target.schema (ctx.catalog.lookupColumns oids) rows =
        throw e) ∨
      ∃ chosen, select.inserted stof name source target.schema (ctx.catalog.lookupColumns oids)
          rows = pure chosen ∧
        ∃ selectPlan result,
          (bindQuery stof ctx.catalog (.success [.selectStmt select])).Returns selectPlan ∧
          Completes std selectPlan ctx result ctx ∧
          ∃ stored, (storedBytes chosen).mapM (storedValues target.schema) = pure stored ∧
            stored.Perm (result.map Tuple.values) := by
  obtain ⟨fuel₀, hfollows⟩ := @InsertSource.follows std _ _ _ _ _ _ _ _ _ _ _ h hids hpredicate
  match hinserted : select.inserted stof name source target.schema
      (ctx.catalog.lookupColumns oids) rows with
  | none =>
    rw [hinserted] at hfollows
    constructor
    · rintro (⟨fuel₁, hthrows⟩ | ⟨_, _, -, -, fuel₁, hreturns⟩)
      · obtain ⟨e, ctx', hrun⟩ := hthrows (fuel₀ + fuel₁) (by omega)
        have hnone : runIn _ ctx = none := hfollows (fuel₀ + fuel₁) (by omega)
        rw [hrun] at hnone
        cases hnone
      · obtain ⟨tuple, ctx', pages', added, stored, hret, -⟩ := hreturns (fuel₀ + fuel₁) (by omega)
        have hnone : runIn _ ctx = none := hfollows (fuel₀ + fuel₁) (by omega)
        rw [show runIn _ ctx = _ from hret] at hnone
        cases hnone
    · rintro (⟨e, hcontra⟩ | ⟨chosen, hcontra, -⟩) <;> cases hcontra
  | some (.error e) =>
    rw [hinserted] at hfollows
    exact iff_of_true (.inl ⟨fuel₀, fun fuel hfuel => ⟨e, hfollows fuel hfuel⟩⟩) (.inl ⟨e, rfl⟩)
  | some (.ok chosen) =>
    rw [hinserted] at hfollows
    constructor
    · rintro (⟨fuel₁, hthrows⟩ | ⟨selectPlan, result, hbind, hcompletes, fuel₁, hreturns⟩)
      · obtain ⟨e, ctx', hrun⟩ := hthrows (fuel₀ + fuel₁) (by omega)
        obtain ⟨a, c, hret, -⟩ := hfollows (fuel₀ + fuel₁) (by omega)
        have heq := hrun.symm.trans hret
        cases heq
      · right
        refine ⟨chosen, rfl, selectPlan, result, hbind, hcompletes, ?_⟩
        obtain ⟨tuple, ctx', pages', added, stored, hret, hholds, hadded, hstored, hperm⟩ :=
          hreturns (fuel₀ + fuel₁) (by omega)
        obtain ⟨a, c, hret', _, pages'', -, hinserted'⟩ := hfollows (fuel₀ + fuel₁) (by omega)
        obtain ⟨-, rfl⟩ := hret.unique hret'
        have hlive := hholds.chain.liveRows_eq hinserted'.inserting.grown.holds.chain
        rw [hlive] at hadded
        -- the heap determines the added bytes up to their order
        have hbytes := (List.perm_append_left_iff _).1 (hinserted'.rows.symm.trans hadded)
        obtain ⟨stored', hstored', hperm'⟩ := Cpp.exists_perm_of_mapM hbytes hstored
        exact ⟨stored', hstored', hperm'.trans hperm⟩
    · rintro (⟨e, hcontra⟩ | ⟨chosen', heq, selectPlan, result, hbind, hcompletes, stored, hstored,
        hperm⟩)
      · cases hcontra
      · cases heq
        right
        refine ⟨selectPlan, result, hbind, hcompletes, fuel₀, fun fuel hfuel => ?_⟩
        obtain ⟨a, c, hret, tuple, pages', rfl, hinserted'⟩ := hfollows fuel hfuel
        exact ⟨tuple, c, pages', _, stored, hret, hinserted'.inserting.grown.holds,
          hinserted'.rows, hstored, hperm⟩

end Statement

/-! ## The rows that the table reads -/

section Stored

variable {schema : Schema} {cols : List Column} {target : TableInfo} {live : List (RID × List UInt8)}
  {out : List Row} {tuple : Tuple} {chosen : List Tuple}

/-- The bytes of a row of a scan are those of its values. -/
lemma ofValues_of_scanRows (h : scanRows (scanRow .null schema) live = pure out) :
    ∀ row ∈ out, ∃ made, Tuple.ofValues row.1.values = pure made ∧ row.1.data = made.data := by
  induction live generalizing out with
  | nil =>
    cases h
    exact fun row hrow => absurd hrow List.not_mem_nil
  | cons r live ih =>
    obtain ⟨o, ho, hrest⟩ := Cpp.bind_eq_pure.1 h
    obtain ⟨out', hout', heq⟩ := Cpp.bind_eq_pure.1 hrest
    obtain ⟨tuple, rfl, -⟩ := scanRow_null ho
    cases heq
    intro row hrow
    rcases List.mem_cons.1 hrow with rfl | hrow
    · unfold scanRow at ho
      rw [show accepts .null _ = pure true from rfl, pure_bind, if_pos rfl] at ho
      obtain ⟨values, -, hmake⟩ := Cpp.bind_eq_pure.1 ho
      obtain ⟨made, hmade, hpure⟩ := Cpp.bind_eq_pure.1 hmake
      cases hpure
      refine ⟨made, ?_, rfl⟩
      show Tuple.ofValues made.values = pure made
      rw [values_of_ofValues hmade, hmade]
    · exact ih hout' row hrow

/-- The rows of the table are those of their values. -/
lemma InsertSource.ofValues_row {ctx : ExecutorContext} {source : TableInfo} {oids : List ℕ}
    {pages sourcePages : Pages} {rows : List Tuple}
    (h : InsertSource ctx target source oids pages sourcePages rows) (htuple : tuple ∈ rows) :
    ∃ made, Tuple.ofValues tuple.values = pure made ∧ tuple.data = made.data := by
  obtain ⟨out, hout, rfl⟩ := h.contents
  obtain ⟨row, hrow, rfl⟩ := List.mem_map.1 htuple
  exact ofValues_of_scanRows hout row hrow

/-- A table reads one value for each of its columns, of its type. -/
lemma hasTypes_storedValues {b : List UInt8} {values : List Value}
    (hcount : schema.columns.length < 2 ^ 32) (h : storedValues schema b = pure values) :
    HasTypes schema.types values := by
  refine hasTypes_columnValues hcount (fun i column v hcolumn hv => ?_) h
  unfold Tuple.getValueAt Schema.getColumn at hv
  simp only [List.getElem?_nil, hcolumn] at hv
  exact hasType_deserializeFrom hv

/-- The values of a row that a table keeps match the columns of the table. -/
lemma TableInfo.Keeps.matches (h : target.Keeps tuple) (hschema : target.schema = .new cols) :
    Matches cols tuple.values := by
  have htypes := h.types
  unfold HasTypes at htypes
  rw [hschema, types_new, List.forall₂_map_left_iff] at htypes
  exact htypes.imp fun c v hv => ⟨hv.1.symm, hv.2⟩

/-- A row that a table keeps is one of the encodings of its values, and stored.

**Proof sketch.** No value has the type `INVALID`, of which no row can be made, and the row is
short. -/
lemma TableInfo.Keeps.bytes_eq (h : target.Keeps tuple) {made : Tuple}
    (hmade : Tuple.ofValues tuple.values = pure made) (hdata : tuple.data = made.data) :
    bytesOf tuple = tuple.values.flatMap Value.encoding ∧ IsStored (bytesOf tuple) := by
  have hroom := h.room
  unfold pageSize at hroom
  have hvalid : ∀ v ∈ tuple.values, v.getTypeId ≠ .invalid ∧ v.encodedSize < 2 ^ 32 := by
    intro v hv
    obtain ⟨i, hi⟩ := List.mem_iff_getElem?.1 hv
    have := encodedSize_split hi
    exact ⟨fun htype => ofValues_invalid hv htype made hmade, by omega⟩
  rw [ofValues_eq hvalid] at hmade
  obtain rfl := Except.ok.inj (Option.some.inj hmade)
  have hbytes : bytesOf tuple = tuple.values.flatMap Value.encoding := by
    unfold bytesOf Tuple.getLength
    rw [hdata, length_flatMap_encoding, Nat.mod_eq_of_lt (by omega), ← length_flatMap_encoding,
      List.take_length]
  refine ⟨hbytes, fun hnil => ?_, ?_⟩
  · obtain ⟨v, hv⟩ := List.exists_mem_of_ne_nil _ h.nonempty
    obtain ⟨i, hi⟩ := List.mem_iff_getElem?.1 hv
    have hsplit := encodedSize_split hi
    have hpos := v.encodedSize_pos (hvalid v hv).1
    rw [← length_flatMap_encoding, ← hbytes, hnil, List.length_nil] at hsplit
    omega
  · rw [hbytes, length_flatMap_encoding]
    exact h.room

/-- A table reads the rows that it keeps from their bytes.

**Proof sketch.** The row matches the columns of the table and is aligned, so each column is read
where its value lies. -/
lemma TableInfo.Keeps.storedValues_eq (h : target.Keeps tuple) {made : Tuple}
    (hschema : target.schema = .new cols) (hmade : Tuple.ofValues tuple.values = pure made)
    (hdata : tuple.data = made.data) (hlength : tuple.values.length < 2 ^ 32) :
    storedValues target.schema (bytesOf tuple) = pure tuple.values := by
  have hroom := h.room
  unfold pageSize at hroom
  have hmatches := h.matches hschema
  have hcount : target.schema.getColumnCount = tuple.values.length := by
    have hlen := h.types.length_eq
    unfold Schema.types at hlen
    rw [List.length_map] at hlen
    unfold Schema.getColumnCount
    rw [hlen, Nat.mod_eq_of_lt hlength]
  have htypes : ∀ c ∈ cols, c.type ≠ .invalid := by
    intro c hc
    obtain ⟨i, hi, rfl⟩ := List.mem_iff_getElem.1 hc
    have hi' : i < tuple.values.length := hmatches.length_eq ▸ hi
    obtain ⟨htype, -⟩ := (List.forall₂_iff_get.1 hmatches).2 i hi hi'
    rw [List.get_eq_getElem, List.get_eq_getElem] at htype
    rw [htype]
    exact fun hinvalid => ofValues_invalid (List.getElem_mem hi') hinvalid made hmade
  have hround := roundTrip_of_aligned h.aligned hmatches htypes (by omega)
  unfold storedValues columnValues
  rw [hcount, Cpp.mapM_eq_pure, List.forall₂_iff_get]
  refine ⟨List.length_range, fun i hi hi' => ?_⟩
  rw [List.get_eq_getElem, List.get_eq_getElem, List.getElem_range]
  have hread := hround i _ (List.getElem?_eq_getElem hi')
  unfold readBack at hread
  rw [hmade, pure_bind, ← hschema] at hread
  unfold bytesOf Tuple.getLength
  rw [hdata]
  exact hread

/-- The rows that the table keeps are stored, and read back. -/
lemma mapM_storedValues (hschema : target.schema = .new cols)
    (hkeeps : ∀ tuple ∈ chosen, target.Keeps tuple)
    (hmade : ∀ tuple ∈ chosen, ∃ made, Tuple.ofValues tuple.values = pure made ∧
      tuple.data = made.data)
    (hlength : ∀ tuple ∈ chosen, tuple.values.length < 2 ^ 32) :
    (storedBytes chosen).mapM (storedValues target.schema) = pure (chosen.map Tuple.values) := by
  have hstored : storedBytes chosen = chosen.map bytesOf := by
    unfold storedBytes
    rw [List.filter_eq_self]
    intro b hb
    obtain ⟨tuple, htuple, rfl⟩ := List.mem_map.1 hb
    obtain ⟨made, hmade, hdata⟩ := hmade tuple htuple
    exact decide_eq_true ((hkeeps tuple htuple).bytes_eq hmade hdata).2
  rw [hstored, Cpp.mapM_eq_pure, List.forall₂_map_left_iff, List.forall₂_map_right_iff,
    List.forall₂_same]
  intro tuple htuple
  obtain ⟨made, hmade, hdata⟩ := hmade tuple htuple
  exact (hkeeps tuple htuple).storedValues_eq hschema hmade hdata (hlength tuple htuple)

end Stored

/-! ## The rows that the `SELECT` returns -/

section Selected

variable {std : StandardLibrary} {stof : String → Cpp (BitVec 32)} {ctx : ExecutorContext}
  {select : SelectStmt} {target source : TableInfo} {name : String} {oids : List ℕ}
  {pages sourcePages : Pages} {rows chosen sorted result : List Tuple} {selectPlan : PlanNode}
  {targets : Targets} {tableAlias : String} {info : TableInfo}

/-- The projection of a statement that takes the columns of the table keeps the values of the rows.

**Proof sketch.** With a star there is no projection. Otherwise its expressions are the columns of
the table in their order, so that it makes each row again of its values. -/
lemma SelectStmt.TakesColumns.projected (h : select.TakesColumns stof tableAlias info)
    (hbinds : targets.Binds stof [⟨tableAlias, info, 0⟩] select.targetList)
    (hread : ∀ tuple ∈ sorted, tuple.IsRead info.schema) :
    ∃ result, OneBase.projected targets.projection info.schema sorted = pure result ∧
      result.map Tuple.values = sorted.map Tuple.values := by
  unfold OneBase.projected Targets.projection
  rw [hbinds.isStar]
  rcases h with hstar | hcolumns
  · rw [hstar, if_pos rfl, if_pos rfl]
    exact ⟨sorted, rfl, rfl⟩
  by_cases hnil : (if select.targetList.any ResTarget.isStar then [] else targets.outputExprs) = []
  · rw [if_pos hnil]
    exact ⟨sorted, rfl, rfl⟩
  have hregular : select.targetList.filter ResTarget.isRegular = select.targetList := by
    rw [List.filter_eq_self]
    intro res hres
    obtain ⟨i, hi, rfl⟩ := List.mem_iff_getElem.1 hres
    exact ((List.forall₂_iff_get.1 hcolumns).2 i hi (hcolumns.length_eq ▸ hi)).1
  have houtputs := hbinds.outputs
  rw [hregular] at houtputs
  have hmade : ∀ tuple ∈ sorted, ∃ made,
      evaluateRow targets.outputExprs info.schema tuple = pure made ∧
        made.values = tuple.values := by
    intro tuple htuple
    have hvalues : (targets.outputExprs.mapM fun expr => expr.evaluate tuple info.schema) =
        pure tuple.values := by
      rw [← (hread tuple htuple).columnValues]
      refine Cpp.mapM_eq_of_forall₂ (List.forall₂_iff_get.2
        ⟨houtputs.length_eq.symm.trans hcolumns.length_eq, fun i hi hi' => ?_⟩)
      have hi'' : i < select.targetList.length := houtputs.length_eq ▸ hi
      obtain ⟨-, type, htype⟩ := (List.forall₂_iff_get.1 hcolumns).2 i hi'' hi'
      have hexpr := (List.forall₂_iff_get.1 houtputs).2 i hi'' hi
      rw [Except.ok.inj (Option.some.inj (hexpr.symm.trans htype))]
      rfl
    obtain ⟨made, hmade, hsame⟩ := exists_ofValues_iff.2 (hread tuple htuple).writes
    exact ⟨made, by unfold evaluateRow; rw [hvalues, pure_bind, hmade], hsame⟩
  have hstar : select.targetList.any ResTarget.isStar = false := by
    by_contra hstar
    rw [Bool.not_eq_false] at hstar
    rw [if_pos hstar] at hnil
    exact hnil rfl
  rw [if_neg hnil, if_neg (by rw [hstar]; exact Bool.false_ne_true)]
  obtain ⟨result, hresult⟩ := Cpp.exists_mapM fun tuple htuple =>
    (hmade tuple htuple).imp fun made hmade => hmade.1
  refine ⟨result, hresult, ?_⟩
  rw [← List.forall₂_eq_eq_eq, List.forall₂_map_left_iff, List.forall₂_map_right_iff]
  refine List.Forall₂.flip (((List.forall₂_and_left _ _).2
    ⟨fun _ hmem => hmem, Cpp.mapM_eq_pure.1 hresult⟩).imp ?_)
  rintro tuple made ⟨htuple, hevaluate⟩
  obtain ⟨made', hmade', hsame⟩ := hmade tuple htuple
  obtain rfl := Except.ok.inj (Option.some.inj (hevaluate.symm.trans hmade'))
  exact hsame

/-- The number of the values of a projected row, and of the rows. -/
lemma length_of_projected {outputExprs : List Expression} {schema : Schema}
    (h : projected outputExprs schema sorted = pure result) :
    result.length = sorted.length ∧
      (outputExprs ≠ [] → ∀ made ∈ result, made.values.length = outputExprs.length) := by
  unfold projected at h
  split_ifs at h with hnil
  · obtain rfl := Except.ok.inj (Option.some.inj h)
    exact ⟨rfl, fun hne => absurd hnil hne⟩
  · have hforall := Cpp.mapM_eq_pure.1 h
    refine ⟨hforall.length_eq.symm, fun _ made hmade => ?_⟩
    obtain ⟨i, hi, rfl⟩ := List.mem_iff_getElem.1 hmade
    have hrow := (List.forall₂_iff_get.1 hforall).2 i (hforall.length_eq ▸ hi) hi
    obtain ⟨values, hvalues, hmake⟩ := Cpp.bind_eq_pure.1 hrow
    rw [List.get_eq_getElem] at hmake
    rw [values_of_ofValues hmake]
    exact (Cpp.mapM_eq_pure.1 hvalues).length_eq.symm

/-- What a `SELECT` without aggregates returns, and what holds of it with every standard library. -/
structure SelectRuns (stof : String → Cpp (BitVec 32)) (ctx : ExecutorContext) (name : String)
    (source : TableInfo) (select : SelectStmt) (chosen : List Tuple) (selectPlan : PlanNode)
    (targets : Targets) (orderBys : List (Bool × Expression)) : Prop where
  binds : targets.Binds stof [⟨name, source, 0⟩] select.targetList
  sorts : select.sortClause.mapM (bindSortBy stof [⟨name, source, 0⟩]) = pure orderBys
  completes : ∀ std result, Completes std selectPlan ctx result ctx ↔
    ∃ sorted, sortedBy std source.schema orderBys chosen = pure sorted ∧
      projected targets.projection source.schema (limitedTo select.limitCount sorted) = pure result

/-- A `SELECT` without aggregates sorts and limits the chosen rows, and projects them. -/
lemma exists_selectRuns (hcontents : TableContents ctx source rows)
    (hfrom : select.fromClause = [.rangeVar ⟨name, none⟩])
    (hname : tableNamed ctx.catalog name = some source)
    (hbind : bindSelect stof ctx.catalog select = pure selectPlan)
    (hchooses : ∀ tuple ∈ rows, ∃ keep, select.chooses stof name source tuple = pure keep)
    (hplain : select.targetList.any ResTarget.isAggregate = false) :
    ∃ targets orderBys, SelectRuns stof ctx name source select
      (select.chosen stof name source rows) selectPlan targets orderBys := by
  obtain ⟨base, targets, orderBys, hwhere, htargets, horderBys, hplan⟩ :=
    SelectStmt.exists_tablePlan hfrom hname hbind
  have halias : RangeVar.getAlias ⟨name, none⟩ = name := rfl
  rw [halias] at hwhere htargets horderBys hplan
  have hbinds := bindTarget_spec htargets
  obtain ⟨⟨predicate, rfl⟩, -⟩ := @hasOutcome_where _ _ _ _ _ default _ _ hcontents hwhere hchooses
  rw [hbinds.hasAggregates, hplain, if_neg Bool.false_ne_true] at hplan
  exact ⟨targets, orderBys, hbinds, horderBys, fun std result =>
    completes_projected_iff (@hasOutcome_where _ _ _ _ _ std _ _ hcontents hwhere hchooses).2 rfl
      hplan⟩

/-- If the clauses keep the rows, the `SELECT` returns rows of the same values.

**Proof sketch.** The keys can be compared, so the sort leaves the rows in some order. The `LIMIT`
lets all of them pass, and the projection keeps their values. -/
lemma SelectRuns.of_keepsRows {orderBys : List (Bool × Expression)}
    (h : SelectRuns stof ctx name source select chosen selectPlan targets orderBys)
    (hkeeps : select.KeepsRows stof name source target chosen)
    (hread : ∀ tuple ∈ chosen, tuple.IsRead source.schema) (std : StandardLibrary) :
    ∃ result, Completes std selectPlan ctx result ctx ∧
      (chosen.map Tuple.values).Perm (result.map Tuple.values) := by
  obtain ⟨sorted, hsort, hperm⟩ : ∃ sorted,
      sortedBy std source.schema orderBys chosen = pure sorted ∧ sorted.Perm chosen :=
    forall_sortedBy_iff.2 ⟨hkeeps.ordered orderBys h.sorts, fun _ hsorted => hsorted.perm⟩ std
  have hall : limitedTo select.limitCount sorted = sorted := by
    rw [limitedTo_eq_self_iff, hperm.length_eq]
    exact hkeeps.limit
  obtain ⟨result, hrows, hvalues⟩ := hkeeps.targets.projected h.binds
    fun tuple htuple => hread tuple (hperm.subset htuple)
  refine ⟨result, (h.completes std result).2 ⟨sorted, hsort, by rwa [hall]⟩, ?_⟩
  rw [hvalues]
  exact (hperm.symm.map _)

/-- If the table reads the values of the returned rows, the clauses suit the rows.

**Proof sketch.** The sort returns with every standard library, so the keys can be compared. If all
chosen rows are stored, there are as many returned rows as chosen ones. The table reads values of the
types of its columns, one for each of them. -/
lemma SelectRuns.suitsRows {orderBys : List (Bool × Expression)}
    (h : SelectRuns stof ctx name source select chosen selectPlan targets orderBys)
    (hall : ∀ std, ∃ result, Completes std selectPlan ctx result ctx ∧
      ∃ stored, (storedBytes chosen).mapM (storedValues target.schema) = pure stored ∧
        stored.Perm (result.map Tuple.values)) :
    select.SuitsRows stof name source target chosen := by
  have hsorts : ∀ std, ∃ sorted, sortedBy std source.schema orderBys chosen = pure sorted ∧
      ∃ result, projected targets.projection source.schema
          (limitedTo select.limitCount sorted) = pure result ∧
        ∃ stored, (storedBytes chosen).mapM (storedValues target.schema) = pure stored ∧
          stored.Perm (result.map Tuple.values) := by
    intro std
    obtain ⟨result, hcompletes, hstored⟩ := hall std
    obtain ⟨sorted, hsort, hrows⟩ := (h.completes std result).1 hcompletes
    exact ⟨sorted, hsort, result, hrows, hstored⟩
  obtain ⟨hweak, hany⟩ := forall_sortedBy_iff.1 hsorts
  have hexists : ∃ sorted, MaySort source.schema orderBys chosen sorted := by
    obtain ⟨sorted, -, hsorted⟩ := forall_sortedBy_iff.2 ⟨hweak, fun _ hsorted => hsorted⟩ default
    exact ⟨sorted, hsorted⟩
  obtain ⟨sorted, hsorted⟩ := hexists
  obtain ⟨result, hrows, stored, hstored, hperm⟩ := hany sorted hsorted
  obtain ⟨hlength, hwidth⟩ := length_of_projected hrows
  have hcount : (∀ tuple ∈ chosen, IsStored (bytesOf tuple)) →
      limitedTo select.limitCount sorted = sorted := by
    intro hfits
    have hbytes : storedBytes chosen = chosen.map bytesOf := by
      unfold storedBytes
      rw [List.filter_eq_self]
      intro b hb
      obtain ⟨tuple, htuple, rfl⟩ := List.mem_map.1 hb
      exact decide_eq_true (hfits tuple htuple)
    have hlen := hperm.length_eq
    rw [← (Cpp.mapM_eq_pure.1 hstored).length_eq, hbytes, List.length_map, List.length_map, hlength,
      ← hsorted.perm.length_eq] at hlen
    exact (limitedTo_sublist _ _).eq_of_length hlen.symm
  have hreads : ∀ made ∈ result, ∃ b, storedValues target.schema b = pure made.values := by
    intro made hmade
    have hmem := hperm.symm.subset (List.mem_map_of_mem hmade)
    obtain ⟨i, hi, hget⟩ := List.mem_iff_getElem.1 hmem
    have hforall := Cpp.mapM_eq_pure.1 hstored
    have hread := (List.forall₂_iff_get.1 hforall).2 i (hforall.length_eq ▸ hi) hi
    rw [List.get_eq_getElem, List.get_eq_getElem, hget] at hread
    exact ⟨_, hread⟩
  refine ⟨fun orderBys' horderBys => ?_, fun hfits => ?_, fun hfits hstar hcolumns tuple htuple => ?_,
    fun hfits hne hstar hregular => ?_⟩
  · obtain rfl := Except.ok.inj (Option.some.inj (h.sorts.symm.trans horderBys))
    exact hweak
  · rw [← hsorted.perm.length_eq, ← limitedTo_eq_self_iff]
    exact hcount hfits
  · -- with a star there is no projection
    have hprojection : targets.projection = [] := by
      unfold Targets.projection
      rw [h.binds.isStar, hstar, if_pos rfl]
    unfold projected at hrows
    rw [hprojection, if_pos rfl, hcount hfits] at hrows
    obtain rfl := Except.ok.inj (Option.some.inj hrows)
    obtain ⟨b, hb⟩ := hreads tuple (hsorted.perm.symm.subset htuple)
    exact hasTypes_storedValues hcolumns hb
  · have hprojection : targets.projection = targets.outputExprs := by
      unfold Targets.projection
      rw [h.binds.isStar, hstar, if_neg Bool.false_ne_true]
    have hsome : result ≠ [] := by
      rw [← List.length_pos_iff, hlength, hcount hfits, hsorted.perm.length_eq]
      exact List.length_pos_iff.2 hne
    obtain ⟨made, hmade⟩ := List.exists_mem_of_ne_nil _ hsome
    obtain ⟨b, hb⟩ := hreads made hmade
    have houtputs := h.binds.outputs.length_eq
    rw [hprojection] at hwidth
    rw [houtputs, ← hwidth (fun hnil => hregular ?_) made hmade,
      ← (Cpp.mapM_eq_pure.1 hb).length_eq, List.length_range]
    rw [hnil, List.length_nil] at houtputs
    exact List.eq_nil_of_length_eq_zero houtputs

end Selected

/-! ## The statement stores the rows of its `SELECT` -/

section Stores

variable {stof : String → Cpp (BitVec 32)} {ctx : ExecutorContext} {select : SelectStmt}
  {target source : TableInfo} {name tableName : String} {oids : List ℕ}
  {pages sourcePages : Pages} {rows : List Tuple} {plan : PlanNode}

/-- **`INSERT` from a `SELECT` on another table.** The statement stores the rows of its `SELECT` or
throws, whatever the standard library does, if its loop throws, or its `SELECT` is accepted and the
clauses at which the binder does not look keep the chosen rows. Conversely, if it does and has no
aggregate, these clauses suit the chosen rows.

**Proof sketch.** The statement stores the bytes of the chosen rows. The table reads the rows that it
keeps back from these bytes, and the `SELECT` returns them in some order. -/
theorem storesSelected_of_keepsRows {rest : List Statement}
    (haccepts : (bindQuery stof ctx.catalog
      (.success (.insertStmt tableName (some select) :: rest))).Returns plan)
    (hfrom : select.fromClause = [.rangeVar ⟨name, none⟩])
    (htarget : tableNamed ctx.catalog tableName = some target)
    (hname : tableNamed ctx.catalog name = some source)
    (h : InsertSource ctx target source oids pages sourcePages rows)
    (hids : ctx.bpm.nextPageId + (liveRows sourcePages).length < 2 ^ 31) :
    (((∃ e, select.inserted stof name source target.schema (ctx.catalog.lookupColumns oids) rows =
        throw e) ∨
      ∃ chosen, select.inserted stof name source target.schema (ctx.catalog.lookupColumns oids)
          rows = pure chosen ∧
        (∃ selectPlan,
          (bindQuery stof ctx.catalog (.success [.selectStmt select])).Returns selectPlan) ∧
        select.KeepsRows stof name source target chosen) →
      ∀ std, StoresSelected std stof ctx select target pages plan) ∧
    ((∀ std, StoresSelected std stof ctx select target pages plan) →
      (∃ e, select.inserted stof name source target.schema (ctx.catalog.lookupColumns oids) rows =
        throw e) ∨
      ∃ chosen, select.inserted stof name source target.schema (ctx.catalog.lookupColumns oids)
          rows = pure chosen ∧
        (∃ selectPlan,
          (bindQuery stof ctx.catalog (.success [.selectStmt select])).Returns selectPlan) ∧
        (select.targetList.any ResTarget.isAggregate = false →
          select.SuitsRows stof name source target chosen)) := by
  obtain ⟨predicate, hpredicate, rfl⟩ := exists_insertPlan htarget hname hfrom haccepts
  have hiff := fun std : StandardLibrary =>
    @InsertSource.storesSelected_iff std _ _ _ _ _ _ _ _ _ _ _ h hids hpredicate
  have hcontents := h.tableContents
  constructor
  · rintro (hthrows | ⟨chosen, hchosen, ⟨selectPlan, hbind⟩, hkeeps⟩) std
    · exact (hiff std).2 (.inl hthrows)
    · obtain ⟨rfl, hchooses⟩ := inserted_spec hchosen
      obtain ⟨targets, orderBys, hruns⟩ :=
        exists_selectRuns hcontents hfrom hname hbind hchooses hkeeps.plain
      have hrow : ∀ tuple ∈ select.chosen stof name source rows, tuple ∈ rows :=
        fun tuple htuple => List.mem_of_mem_filter htuple
      obtain ⟨cols, hcols⟩ := hkeeps.columns
      obtain ⟨result, hcompletes, hperm⟩ := hruns.of_keepsRows hkeeps
        (fun tuple htuple => hcontents.isRead tuple (hrow tuple htuple)) std
      refine (hiff std).2 (.inr ⟨_, hchosen, selectPlan, result, hbind, hcompletes, _,
        mapM_storedValues hcols hkeeps.rows (fun tuple htuple => h.ofValues_row (hrow tuple htuple))
          fun tuple htuple => ?_, hperm⟩)
      rw [(hcontents.isRead tuple (hrow tuple htuple)).length]
      exact Nat.mod_lt _ (by omega)
  · intro hall
    rcases (hiff default).1 (hall default) with hthrows | ⟨chosen, hchosen, selectPlan, -, hbind, -⟩
    · exact .inl hthrows
    · obtain ⟨rfl, hchooses⟩ := inserted_spec hchosen
      refine .inr ⟨_, hchosen, ⟨selectPlan, hbind⟩, fun hplain => ?_⟩
      obtain ⟨targets, orderBys, hruns⟩ :=
        exists_selectRuns hcontents hfrom hname hbind hchooses hplain
      refine hruns.suitsRows fun std => ?_
      rcases (hiff std).1 (hall std) with ⟨e, he⟩ | ⟨chosen', hchosen', plan', result, hbind', hrest⟩
      · rw [hchosen] at he
        cases he
      · obtain rfl := Except.ok.inj (Option.some.inj (hchosen.symm.trans hchosen'))
        obtain rfl := Except.ok.inj (Option.some.inj (Eq.trans hbind.symm hbind'))
        exact ⟨result, hrest⟩

end Stores

/-! ## Two tables of pairs -/

/-- The table `s` or `t` with the columns `a` and `b`, each with a page of its own. -/
def pairTable (name : String) (oid : ℕ) : TableInfo :=
  { smallTable ["a", "b"] with name := name, oid := oid, table := ⟨oid - 1⟩ }

/-- The database of `s`, which has the row `1, 2`, and of `t`, which has none. -/
def pairContext : ExecutorContext where
  catalog :=
    { nextTableOid := 3
      tables := [(1, pairTable "s" 1), (2, pairTable "t" 2)]
      tableNames := [("s", 1), ("t", 2)] }
  bpm := storeOf [[rowBytes [1, 2]], []]

/-- The row of `s`. -/
def pairRow : Tuple := parsedTuple 2 (⟨0, 0⟩, rowBytes [1, 2])

/-- `SELECT targets FROM s`. -/
def selectFromPairs (targetList : List ResTarget) : SelectStmt where
  targetList := targetList
  fromClause := [.rangeVar ⟨"s", none⟩]

/-- The sample: a table with one row of two integers, and an empty one of the same shape. -/
lemma insertSource_pairContext :
    InsertSource pairContext (pairTable "t" 2) (pairTable "s" 1) [] [(1, [])]
      [(0, [some (rowBytes [1, 2])])] [pairRow] where
  grown := by
    have hrows : ([[rowBytes [1, 2]], []] : List (List (List UInt8)))[1]? = some [] := rfl
    exact ⟨ready_storeOf _, le_top, holds_storeOf hrows (by decide)⟩
  scanned := by
    have hrows : ([[rowBytes [1, 2]], []] : List (List (List UInt8)))[0]? =
      some [rowBytes [1, 2]] := rfl
    exact ⟨ready_storeOf _, le_top, holds_storeOf hrows (by decide)⟩
  apart := by decide
  twoFrames := le_top
  indexes := ⟨rfl, List.nodup_nil, by simp⟩
  registered := rfl
  sourceRegistered := rfl
  contents := ⟨_, rfl, rfl⟩

/-- Without a `WHERE` clause the row is inserted as it is, whatever the targets. -/
lemma inserted_selectFromPairs (targetList : List ResTarget) :
    (selectFromPairs targetList).inserted (fun _ => Cpp.undefined) "s" (pairTable "s" 1)
      (pairTable "t" 2).schema [] [pairRow] = pure [pairRow] := rfl

/-- A table of pairs keeps the row of `s`. -/
lemma keeps_pairRow : (pairTable "t" 2).Keeps pairRow where
  types := .cons ⟨rfl, rfl⟩ (.cons ⟨rfl, rfl⟩ .nil)
  aligned := by decide
  nonempty := by decide
  room := by decide

/-- `INSERT INTO t SELECT * FROM s` stores the row of `s`. -/
theorem storesSelected_star :
    ∃ plan, (bindQuery (fun _ => Cpp.undefined) pairContext.catalog
        (.success [.insertStmt "t" (some (selectFromPairs [{ val := .aStar }]))])).Returns plan ∧
      ∀ std, StoresSelected std (fun _ => Cpp.undefined) pairContext
        (selectFromPairs [{ val := .aStar }]) (pairTable "t" 2) [(1, [])] plan := by
  obtain ⟨plan, hplan⟩ := Cpp.exists_of_isSome
    (show (bindQuery (fun _ => Cpp.undefined) pairContext.catalog
      (.success [.insertStmt "t" (some (selectFromPairs [{ val := .aStar }]))])).result.isSome =
        true by decide +kernel)
  refine ⟨plan, hplan, (@storesSelected_of_keepsRows (fun _ => Cpp.undefined) pairContext _ _ _
    "s" "t" [] _ _ [pairRow] plan [] hplan rfl rfl rfl insertSource_pairContext (by decide)).1 ?_⟩
  refine .inr ⟨[pairRow], inserted_selectFromPairs _, Cpp.exists_of_isSome (by decide +kernel), ?_⟩
  exact
    { plain := rfl
      targets := .inl rfl
      limit := nofun
      ordered := by
        intro orderBys horderBys
        cases horderBys
        exact strictWeakOrderOn_of_false fun _ _ _ _ => rfl
      columns := ⟨_, rfl⟩
      rows := fun tuple htuple => List.mem_singleton.1 htuple ▸ keeps_pairRow }

/-- `INSERT INTO t SELECT b, a FROM s` stores the row of `s` as it is, and not with its columns
swapped. -/
theorem not_storesSelected_swapped :
    let select := selectFromPairs [{ val := columnNode "b" }, { val := columnNode "a" }]
    InsertSource pairContext (pairTable "t" 2) (pairTable "s" 1) [] [(1, [])]
        [(0, [some (rowBytes [1, 2])])] [pairRow] ∧
      ∃ plan, (bindQuery (fun _ => Cpp.undefined) pairContext.catalog
          (.success [.insertStmt "t" (some select)])).Returns plan ∧
        ∀ std, ¬ StoresSelected std (fun _ => Cpp.undefined) pairContext select (pairTable "t" 2)
          [(1, [])] plan := by
  intro select
  have h := insertSource_pairContext
  obtain ⟨plan, hplan⟩ := Cpp.exists_of_isSome
    (show (bindQuery (fun _ => Cpp.undefined) pairContext.catalog
      (.success [.insertStmt "t" (some select)])).result.isSome = true by decide +kernel)
  refine ⟨h, plan, hplan, fun std hstores => ?_⟩
  obtain ⟨predicate, hpredicate, rfl⟩ := @exists_insertPlan (fun _ => Cpp.undefined)
    pairContext.catalog select (pairTable "t" 2) (pairTable "s" 1) "s" "t" plan rfl rfl rfl hplan
  rcases (h.storesSelected_iff (by decide) hpredicate).1 hstores with
    ⟨e, he⟩ | ⟨chosen, hchosen, selectPlan, result, hbind, hcompletes, stored, hstored, hperm⟩
  · cases (inserted_selectFromPairs _).symm.trans he
  · obtain rfl : [pairRow] = chosen :=
      Except.ok.inj (Option.some.inj ((inserted_selectFromPairs _).symm.trans hchosen))
    obtain ⟨base, targets, orderBys, hwhere, htargets, horderBys, hshape⟩ :=
      @SelectStmt.exists_tablePlan (fun _ => Cpp.undefined) (pairTable "s" 1) select ⟨"s", none⟩
        pairContext.catalog selectPlan rfl rfl hbind
    obtain ⟨⟨predicate, rfl⟩, hscan⟩ := @hasOutcome_where _ _ _ _ _ std _ _ h.tableContents hwhere
      fun tuple _ => ⟨true, rfl⟩
    cases horderBys
    cases htargets
    rw [if_neg Bool.false_ne_true] at hshape
    obtain ⟨sorted, hsort, hrows⟩ := (completes_projected_iff hscan rfl hshape).1 hcompletes
    cases hsort
    cases hrows
    -- `t` reads the row `1, 2`
    have hread : ((storedBytes [pairRow]).mapM (storedValues (pairTable "t" 2).schema)).result =
        some [[Value.ofInt 1, Value.ofInt 2]] := by decide +kernel
    rw [hstored] at hread
    obtain rfl := Option.some.inj hread
    revert hperm
    decide +kernel

end OneBase
