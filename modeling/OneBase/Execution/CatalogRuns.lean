import OneBase.Catalog.Calls
import OneBase.Execution.ExecutorFactory

set_option relaxedAutoImplicit false
set_option autoImplicit false

/-!
# The catalog over a run

No statement leaves the catalog inconsistent, whether it returns, throws or has modified only some
of its rows.

## Main definitions

* `OneBase.Exec.Leads`, `OneBase.Exec.Keeps` — what a computation makes of the catalog.
* `OneBase.ReachableCatalog` — the catalogs of runs of tables that are created and plans that are
  executed.

## Main results

* `OneBase.keeps_executePlan` — no plan leaves the catalog inconsistent.
* `OneBase.consistent_of_reachable` — no run does.
-/

namespace OneBase

open Exec

namespace Exec

variable {α β : Type} {P Q R : Catalog → Prop} {x : Exec α} {f : α → Exec β}

/-- Where `P` holds of the catalog before, `Q` holds afterwards, also if an exception is thrown. -/
def Leads (P Q : Catalog → Prop) (x : Exec α) : Prop :=
  ∀ ctx r ctx', runIn x ctx = some (r, ctx') → P ctx.catalog → Q ctx'.catalog

/-- The computation keeps the catalog consistent. -/
abbrev Keeps (x : Exec α) : Prop := Leads Catalog.Consistent Catalog.Consistent x

/-- The rule of the sequence. -/
lemma Leads.bind (hx : Leads P R x) (hthrow : ∀ c, R c → Q c)
    (hf : ∀ ctx a ctx', Returns x ctx a ctx' → Leads R Q (f a)) : Leads P Q (x >>= f) := by
  intro ctx r ctx' h hP
  rw [runIn_bind] at h
  obtain ⟨⟨r₁, ctx₁⟩, hrun, hrest⟩ := Option.bind_eq_some_iff.1 h
  have hR := hx ctx r₁ ctx₁ hrun hP
  cases r₁ with
  | ok a => exact hf ctx a ctx₁ hrun ctx₁ r ctx' hrest hR
  | error e =>
    obtain ⟨-, rfl⟩ := Prod.mk.inj (Option.some.inj hrest)
    exact hthrow _ hR

/-- A sequence that keeps an invariant. -/
lemma Leads.seq (hx : Leads P P x) (hf : ∀ a, Leads P P (f a)) : Leads P P (x >>= f) :=
  hx.bind (fun _ h => h) fun _ a _ _ => hf a

/-- Returning a result keeps every property of the catalog. -/
lemma leads_pure (a : α) : Leads P P (pure a : Exec α) := by
  intro ctx r ctx' h hP
  obtain ⟨-, rfl⟩ := Prod.mk.inj (Option.some.inj h)
  exact hP

/-- Throwing keeps every property of the catalog. -/
lemma leads_throw (e : Exception) : Leads P P (throw e : Exec α) := by
  intro ctx r ctx' h hP
  obtain ⟨-, rfl⟩ := Prod.mk.inj (Option.some.inj h)
  exact hP

/-- Undefined behaviour comes to no catalog. -/
lemma leads_undefined : Leads P Q (undefined : Exec α) := by
  intro ctx r ctx' h
  cases h

/-- A computation without the context keeps every property of the catalog. -/
lemma leads_ofCpp (x : Cpp α) : Leads P P (ofCpp x) := by
  intro ctx r ctx' h hP
  obtain ⟨r₁, -, heq⟩ := Option.map_eq_some_iff.1 h
  obtain ⟨-, rfl⟩ := Prod.mk.inj heq
  exact hP

/-- A program on the buffer pool keeps every property of the catalog. -/
lemma leads_ofProgram (p : Effect.Program (PoolCall TablePage) α) : Leads P P (ofProgram p) := by
  intro ctx r ctx' h hP
  obtain ⟨r₁, -, heq⟩ := Option.map_eq_some_iff.1 h
  obtain ⟨-, rfl⟩ := Prod.mk.inj heq
  exact hP

/-- So does a program on the buffer pool that may throw. -/
lemma leads_ofThrowing (p : Effect.Program (PoolCall TablePage) (Except Exception α)) :
    Leads P P (ofThrowing p) :=
  (leads_ofProgram p).seq fun r =>
    match r with
    | .ok a => leads_pure a
    | .error e => leads_throw e

/-- Using a pointer keeps every property of the catalog. -/
lemma leads_deref (o : Option α) : Leads P P (deref o) := by
  cases o with
  | none => exact leads_undefined
  | some a => exact leads_pure a

/-- A change of the catalog leads from `P` to `Q` if the changed catalog does. -/
lemma leads_modifyCatalog {g : Catalog → Catalog} (hg : ∀ c, P c → Q (g c)) :
    Leads P Q (modifyCatalog g) := by
  intro ctx r ctx' h hP
  obtain ⟨-, rfl⟩ := Prod.mk.inj (Option.some.inj h)
  exact hg _ hP

/-- What is done with a catalog that was read does not depend on it. -/
lemma leads_getCatalog_seq {f : Catalog → Exec β} (hf : ∀ c, Leads P P (f c)) :
    Leads P P (getCatalog >>= f) := by
  intro ctx r ctx' h hP
  exact hf ctx.catalog ctx r ctx' h hP

/-- A loop keeps what every round of it keeps. -/
lemma leads_foldlM {γ : Type} {g : β → γ → Exec β} (hg : ∀ b c, Leads P P (g b c)) (l : List γ)
    (b : β) : Leads P P (l.foldlM g b) := by
  induction l generalizing b with
  | nil => exact leads_pure b
  | cons c l ih =>
    rw [List.foldlM_cons]
    exact (hg b c).seq ih

/-- The same for a loop without a result. -/
lemma leads_forM {γ : Type} {g : γ → Exec Unit} (hg : ∀ c, Leads P P (g c)) (l : List γ) :
    Leads P P (l.forM g) := by
  induction l with
  | nil => exact leads_pure ()
  | cons c l ih =>
    exact (hg c).seq fun _ => ih

/-- A loop over the rows of a child keeps what the child and the body keep.

**Proof sketch.** Induction on the fuel: a round is a call of the child and, if it returns a row,
the body and the rest of the loop. -/
lemma leads_forEachRow {σ : Type} {next : σ → Exec (Option Row × σ)} {body : β → Row → Exec β}
    (hnext : ∀ st, Leads P P (next st)) (hbody : ∀ b row, Leads P P (body b row)) (fuel : ℕ)
    (st : σ) (b : β) : Leads P P (forEachRow next body fuel st b) := by
  induction fuel generalizing st b with
  | zero => exact leads_undefined
  | succ fuel ih =>
    rw [forEachRow]
    refine (hnext st).seq fun r => ?_
    obtain ⟨row, st'⟩ := r
    cases row with
    | none => exact leads_pure _
    | some row => exact (hbody b row).seq fun acc => ih st' acc

end Exec

/-! ## The catalog's own operations -/

/-- `CREATE TABLE`. -/
lemma keeps_createTable (tableName : String) (schema : Schema) :
    Keeps (Catalog.createTable tableName schema) := by
  intro ctx r ctx' hrun hc
  rw [Catalog.runIn_createTable] at hrun
  obtain ⟨⟨⟨r, c'⟩, bpm⟩, hcall, heq⟩ := Option.map_eq_some_iff.1 hrun
  obtain ⟨rfl, rfl⟩ := Prod.mk.inj heq
  have hgiven : ctx.catalog.giveTableOid.Consistent := hc.addOids _ le_rfl
  rcases Catalog.createTableOn_cases hcall with ⟨-, rfl⟩ | ⟨-, ⟨e, -, rfl⟩ | ⟨info, -, rfl, -⟩⟩
  · exact hc
  · exact hgiven
  · exact hgiven.addTable info.name info

/-- `CREATE INDEX`. -/
lemma keeps_createIndex (fuel : ℕ) (indexName tableName : String) (keyAttrs : List ℕ) :
    Keeps (Catalog.createIndex fuel indexName tableName keyAttrs) := by
  intro ctx r ctx' hrun hc
  rw [Catalog.runIn_createIndex] at hrun
  obtain ⟨⟨⟨r, c'⟩, bpm⟩, hcall, heq⟩ := Option.map_eq_some_iff.1 hrun
  obtain ⟨rfl, rfl⟩ := Prod.mk.inj heq
  rcases Catalog.createIndexOn_cases hcall with ⟨-, rfl⟩ | ⟨e, -, rfl, -⟩ |
    ⟨tableInfo, -, -, ⟨e, -, rfl⟩ | ⟨info, -, rfl, hoid, -, -, hkey⟩⟩
  · exact hc
  · exact hc
  · exact hc.awaits.toConsistent
  · have hawaits : ctx.catalog.giveIndexOid.Awaits info.oid := by
      rw [hoid]
      exact hc.awaits
    exact Catalog.Consistent.addIndex hawaits info.tableName info.name hkey

/-! ## The executors -/

/-- Neither `Init` nor `Next` leaves the catalog inconsistent. -/
structure Executor.KeepsCatalog (ex : Executor) : Prop where
  init : ∀ st, Keeps (ex.init st)
  next : ∀ st, Keeps (ex.next st)

section Executors

variable {std : StandardLibrary} {fuel : ℕ} {outputSchema : Schema} {child left right : Executor}

/-- Returning the next of the rows computed in `Init` keeps the catalog consistent. -/
lemma keeps_nextResult {σ : Type} (st : Materialized σ) : Keeps (nextResult st) := by
  unfold nextResult
  split
  · exact leads_pure _
  · exact leads_pure _

/-- A call of a sequential scan keeps the catalog consistent: it only reads the pages, and evaluates
the predicate on one row after the other. -/
lemma keeps_seqScanNext (predicate : Expression) (n : ℕ) (st : SeqScanState) :
    Keeps (seqScanNext fuel predicate n st) := by
  induction n generalizing st with
  | zero => exact leads_undefined
  | succ n ih =>
    rw [seqScanNext]
    split_ifs
    · exact leads_pure _
    · refine (leads_deref _).seq fun tableInfo => (leads_ofThrowing _).seq fun rawTuple =>
        (leads_ofProgram _).seq fun iter => (leads_ofCpp _).seq fun accepted => ?_
      split_ifs
      · exact (leads_ofCpp _).seq fun values => (leads_ofCpp _).seq fun tuple => leads_pure _
      · exact ih _

/-- A sequential scan keeps the catalog consistent. -/
lemma keepsCatalog_seqScan (tableOid : ℕ) (predicate : Expression) :
    (seqScanExecutor fuel outputSchema tableOid predicate).KeepsCatalog where
  init := fun _ => leads_getCatalog_seq fun _ => (leads_deref _).seq fun _ =>
    (leads_ofProgram _).seq fun _ => leads_pure _
  next := fun st => keeps_seqScanNext predicate fuel st

/-- An index scan keeps the catalog consistent: it looks up the index and changes nothing. -/
lemma keepsCatalog_indexScan (tableOid indexOid : ℕ) (lookupKey : Expression) :
    (indexScanExecutor outputSchema tableOid indexOid lookupKey).KeepsCatalog where
  init := fun _ => leads_getCatalog_seq fun catalog => (leads_ofCpp _).seq fun rawKey =>
    (leads_deref _).seq fun indexInfo => leads_pure _
  next := by
    intro st
    cases hrid : st.matchingRids[st.cursor]? with
    | none =>
      simp only [indexScanExecutor, hrid]
      exact leads_pure _
    | some rid =>
      simp only [indexScanExecutor, hrid]
      exact (leads_deref _).seq fun tableInfo => (leads_ofThrowing _).seq fun tuple => leads_pure _

/-- The changes of an index leave its key. -/
def KeepsKey (change : Cpp (IndexInfo → IndexInfo)) : Prop :=
  ∀ f, change = pure f → ∀ i, (f i).supportsPointLookup = i.supportsPointLookup ∧
    (f i).keyAttrs = i.keyAttrs

/-- Removing an entry leaves the kind of the index and its key attributes. -/
lemma IndexInfo.removeEntry_key (i : IndexInfo) (key : ℤ) (rid : RID) :
    (i.removeEntry key rid).supportsPointLookup = i.supportsPointLookup ∧
      (i.removeEntry key rid).keyAttrs = i.keyAttrs := by
  unfold removeEntry
  split <;> exact ⟨rfl, rfl⟩

/-- The loop over the indexes, if no change of one of them breaks the invariant. -/
lemma leads_maintainIndexes {P : Catalog → Prop} (indexes : List ℕ)
    {change : ℕ → Cpp (IndexInfo → IndexInfo)}
    (hchange : ∀ attr f, change attr = pure f → ∀ c oid, P c → P (c.modifyIndex oid f)) :
    Leads P P (maintainIndexes indexes change) := by
  refine leads_forM (fun oid => ?_) indexes
  refine leads_getCatalog_seq fun catalog => (leads_deref _).seq fun indexInfo => ?_
  split_ifs
  · refine (leads_ofCpp _).seq fun attr => ?_
    refine Leads.bind (leads_ofCpp _) (fun _ h => h) fun _ f _ hf => ?_
    exact leads_modifyCatalog fun c hc => hchange attr f (returns_ofCpp.1 hf).1 c oid hc
  · exact leads_pure _

/-- Changes that keep the keys of the indexes keep the catalog consistent. -/
lemma keeps_maintainIndexes (indexes : List ℕ) {change : ℕ → Cpp (IndexInfo → IndexInfo)}
    (hchange : ∀ attr, KeepsKey (change attr)) : Keeps (maintainIndexes indexes change) :=
  leads_maintainIndexes indexes fun attr f hf _ oid hc => hc.modifyIndex oid (hchange attr f hf)

/-- A round of `INSERT` keeps what filing an entry under any key keeps.

**Proof sketch.** The row is inserted into the heap, which does not touch the catalog, and then
every index of the table is changed in turn. -/
lemma leads_insertRow {P : Catalog → Prop}
    (hP : ∀ c oid key rid, P c → P (c.modifyIndex oid fun i => i.insertEntry key rid))
    (tableInfo : TableInfo) (indexes : List ℕ) (count : ℤ) (row : Row) :
    Leads P P (insertRow fuel tableInfo indexes count row) := by
  refine (leads_ofProgram _).seq fun rid => ?_
  cases rid with
  | none => exact leads_pure _
  | some newRid =>
    refine (leads_ofCpp _).seq fun count => Leads.seq ?_ fun _ => leads_pure _
    refine leads_maintainIndexes indexes fun attr f hf c oid hc => ?_
    obtain ⟨key, -, hf⟩ := Cpp.bind_eq_pure.1 hf
    cases hf
    exact hP c oid key newRid hc

/-- A round of `DELETE` keeps what removing any entry keeps. -/
lemma leads_deleteRow {P : Catalog → Prop}
    (hP : ∀ c oid key rid, P c → P (c.modifyIndex oid fun i => i.removeEntry key rid))
    (tableInfo : TableInfo) (indexes : List ℕ) (count : ℤ) (row : Row) :
    Leads P P (deleteRow tableInfo indexes count row) := by
  refine (leads_ofProgram _).seq fun _ => (leads_ofCpp _).seq fun count =>
    Leads.seq ?_ fun _ => leads_pure _
  refine leads_maintainIndexes indexes fun attr f hf c oid hc => ?_
  obtain ⟨key, -, hf⟩ := Cpp.bind_eq_pure.1 hf
  cases hf
  exact hP c oid key row.2 hc

/-- A round of `INSERT` keeps the catalog consistent. -/
lemma keeps_insertRow (tableInfo : TableInfo) (indexes : List ℕ) (count : ℤ) (row : Row) :
    Keeps (insertRow fuel tableInfo indexes count row) :=
  leads_insertRow (fun _ oid _ _ hc => hc.modifyIndex oid fun _ => ⟨rfl, rfl⟩) _ _ _ _

/-- A round of `DELETE` keeps the catalog consistent. -/
lemma keeps_deleteRow (tableInfo : TableInfo) (indexes : List ℕ) (count : ℤ) (row : Row) :
    Keeps (deleteRow tableInfo indexes count row) :=
  leads_deleteRow (fun _ oid key rid hc => hc.modifyIndex oid fun i => i.removeEntry_key key rid)
    _ _ _ _

/-- A round of `UPDATE` keeps the catalog consistent: the entry of the old row is removed, and that
of the new row is filed. -/
lemma keeps_updateRow (updateExprs : List Expression) (childSchema : Schema)
    (tableInfo : TableInfo) (indexes : List ℕ) (count : ℤ) (row : Row) :
    Keeps (updateRow updateExprs childSchema tableInfo indexes count row) := by
  refine (leads_ofCpp _).seq fun newTuple => (leads_ofProgram _).seq fun _ =>
    (leads_ofCpp _).seq fun count => Leads.seq ?_ fun _ => leads_pure _
  refine keeps_maintainIndexes indexes fun attr f hf => ?_
  obtain ⟨oldKey, -, hf⟩ := Cpp.bind_eq_pure.1 hf
  obtain ⟨newKey, -, hf⟩ := Cpp.bind_eq_pure.1 hf
  cases hf
  exact fun i => i.removeEntry_key oldKey row.2

/-- A modification keeps the catalog consistent if its child and its body do. -/
lemma keepsCatalog_modification (tableOid : ℕ) {body : TableInfo → List ℕ → ℤ → Row → Exec ℤ}
    (h : child.KeepsCatalog) (hbody : ∀ info indexes count row, Keeps (body info indexes count row)) :
    (modificationExecutor fuel outputSchema child tableOid body).KeepsCatalog where
  init := fun st => (h.init st.child).seq fun _ => leads_pure _
  next := by
    intro st
    dsimp only [modificationExecutor]
    by_cases hdone : st.done = true
    · rw [if_pos hdone]
      exact leads_pure _
    · rw [if_neg hdone]
      exact leads_getCatalog_seq fun catalog => (leads_deref _).seq fun tableInfo =>
        (leads_ofCpp _).seq fun indexes =>
          (leads_forEachRow h.next (hbody tableInfo indexes) _ _ _).seq fun _ =>
            (leads_ofCpp _).seq fun tuple => leads_pure _

/-- A nested-loop join keeps the catalog consistent if its children do. -/
lemma keepsCatalog_nestedLoopJoin (predicate : Expression) (hleft : left.KeepsCatalog)
    (hright : right.KeepsCatalog) :
    (nestedLoopJoinExecutor fuel outputSchema left right predicate).KeepsCatalog where
  init := fun _ => (hleft.init _).seq fun _ =>
    (leads_forEachRow hleft.next (fun _ _ => (hright.init _).seq fun _ =>
      leads_forEachRow hright.next (fun _ _ => leads_ofCpp _) _ _ _) _ _ _).seq fun _ => leads_pure _
  next := keeps_nextResult

/-- A hash join keeps the catalog consistent if its children do. -/
lemma keepsCatalog_hashJoin (leftKeyExpr rightKeyExpr : Expression) (hleft : left.KeepsCatalog)
    (hright : right.KeepsCatalog) :
    (hashJoinExecutor fuel outputSchema left right leftKeyExpr rightKeyExpr).KeepsCatalog where
  init := fun _ => (hleft.init _).seq fun _ => (hright.init _).seq fun _ =>
    (leads_forEachRow hright.next (fun _ _ => leads_ofCpp _) _ _ _).seq fun _ =>
      (leads_forEachRow hleft.next (fun _ _ => leads_ofCpp _) _ _ _).seq fun _ => leads_pure _
  next := keeps_nextResult

/-- An aggregation keeps the catalog consistent if its child does. -/
lemma keepsCatalog_aggregation (groupBys aggregates : List Expression)
    (aggTypes : List AggregationType) (h : child.KeepsCatalog) :
    (aggregationExecutor std fuel outputSchema child groupBys aggregates aggTypes).KeepsCatalog where
  init := fun _ => (h.init _).seq fun _ =>
    (leads_forEachRow h.next (fun _ _ => leads_ofCpp _) _ _ _).seq fun _ =>
      (leads_ofCpp _).seq fun _ => leads_pure _
  next := keeps_nextResult

/-- A sort keeps the catalog consistent if its child does. -/
lemma keepsCatalog_sort (orderBys : List (Bool × Expression)) (h : child.KeepsCatalog) :
    (sortExecutor std fuel outputSchema child orderBys).KeepsCatalog where
  init := fun _ => (h.init _).seq fun _ =>
    (leads_forEachRow h.next (fun _ _ => leads_pure _) _ _ _).seq fun _ =>
      (leads_ofCpp _).seq fun _ => leads_pure _
  next := keeps_nextResult

/-- A limit keeps the catalog consistent if its child does. -/
lemma keepsCatalog_limit (limit : ℕ) (h : child.KeepsCatalog) :
    (limitExecutor outputSchema child limit).KeepsCatalog where
  init := fun st => (h.init _).seq fun _ => leads_pure _
  next := by
    intro st
    dsimp only [limitExecutor]
    by_cases hlimit : limit ≤ st.2
    · rw [if_pos hlimit]
      exact leads_pure _
    · rw [if_neg hlimit]
      refine (h.next _).seq fun r => ?_
      match r with
      | (some row, childState) => exact leads_pure _
      | (none, childState) => exact leads_pure _

/-- A projection keeps the catalog consistent if its child does. -/
lemma keepsCatalog_projection (expressions : List Expression) (h : child.KeepsCatalog) :
    (projectionExecutor outputSchema child expressions).KeepsCatalog where
  init := h.init
  next := by
    intro st
    refine (h.next st).seq fun r => ?_
    match r with
    | (some row, childState) => exact (leads_ofCpp _).seq fun tuple => leads_pure _
    | (none, childState) => exact leads_pure _

/-- A round of `DROP INDEX` keeps the catalog consistent: it drops one index, or none. -/
lemma keeps_dropNamedIndex (missingOk removedAny : Bool) (indexName : String) :
    Keeps (dropNamedIndex missingOk removedAny indexName) := by
  refine leads_getCatalog_seq fun catalog => (leads_ofCpp _).seq fun matched => ?_
  split_ifs
  · exact leads_pure _
  · exact leads_throw _
  · exact (leads_modifyCatalog fun c hc => hc.dropIndex indexName matched).seq fun _ => leads_pure _

/-- The utilities keep the catalog consistent: two of them create and drop indexes, and the others
only read. -/
lemma keepsCatalog_utility (utilityType : UtilityType) (tableName indexName : String)
    (keyAttrs : List ℕ) (objectNames : List String) (missingOk : Bool) :
    (utilityExecutor std fuel outputSchema utilityType tableName indexName keyAttrs objectNames
      missingOk).KeepsCatalog where
  init := by
    refine fun _ => Leads.seq ?_ fun _ => leads_pure _
    unfold utilityRows
    cases utilityType with
    | createIndex =>
      refine (keeps_createIndex fuel indexName tableName keyAttrs).seq fun o => ?_
      cases o with
      | none => exact leads_throw _
      | some oid => exact (leads_ofCpp _).seq fun row => leads_pure _
    | dropIndex =>
      exact (leads_foldlM (keeps_dropNamedIndex missingOk) objectNames false).seq fun _ =>
        (leads_ofCpp _).seq fun row => leads_pure _
    | showTables =>
      exact leads_getCatalog_seq fun catalog => (leads_ofCpp _).seq fun tables => leads_ofCpp _
    | showIndexes =>
      exact leads_getCatalog_seq fun catalog => (leads_ofCpp _).seq fun indexes => leads_ofCpp _
    | showSchema =>
      refine leads_getCatalog_seq fun catalog => (leads_ofCpp _).seq fun o => ?_
      cases o with
      | none => exact leads_throw _
      | some tableInfo => exact leads_ofCpp _
  next := keeps_nextResult

/-- No executor leaves the catalog inconsistent. -/
lemma keepsCatalog_createExecutor (std : StandardLibrary) (fuel : ℕ) (plan : PlanNode) :
    (createExecutor std fuel plan).KeepsCatalog := by
  induction plan with
  | null => exact ⟨fun _ => leads_undefined, fun _ => leads_undefined⟩
  | seqScan _ tableOid predicate => exact keepsCatalog_seqScan tableOid predicate
  | indexScan _ tableOid indexOid lookupKey _ =>
    exact keepsCatalog_indexScan tableOid indexOid lookupKey
  | insert _ _ tableOid ih => exact keepsCatalog_modification tableOid ih keeps_insertRow
  | delete _ _ tableOid ih => exact keepsCatalog_modification tableOid ih keeps_deleteRow
  | update _ _ tableOid updateExprs ih =>
    exact keepsCatalog_modification tableOid ih (keeps_updateRow updateExprs _)
  | nestedLoopJoin _ _ _ predicate ihleft ihright =>
    exact keepsCatalog_nestedLoopJoin predicate ihleft ihright
  | hashJoin _ _ _ leftKeyExpr rightKeyExpr ihleft ihright =>
    exact keepsCatalog_hashJoin leftKeyExpr rightKeyExpr ihleft ihright
  | aggregation _ _ groupBys aggregates aggTypes ih =>
    exact keepsCatalog_aggregation groupBys aggregates aggTypes ih
  | sort _ _ orderBys ih => exact keepsCatalog_sort orderBys ih
  | limit _ _ n ih => exact keepsCatalog_limit n ih
  | projection _ _ expressions ih => exact keepsCatalog_projection expressions ih
  | utility _ utilityType tableName indexName keyAttrs objectNames missingOk =>
    exact keepsCatalog_utility utilityType tableName indexName keyAttrs objectNames missingOk

/-- No plan leaves the catalog inconsistent. -/
lemma keeps_executePlan (std : StandardLibrary) (fuel : ℕ) (plan : PlanNode) :
    Keeps (executePlan std fuel plan) := by
  have h := keepsCatalog_createExecutor std fuel plan
  exact (h.init _).seq fun st =>
    (leads_forEachRow h.next (fun _ _ => leads_pure _) _ _ _).seq fun _ => leads_pure _

end Executors

/-! ## Runs -/

/-- The catalogs after tables were created and plans were executed, whether the calls returned or
threw. Pages may change in between. -/
inductive ReachableCatalog (std : StandardLibrary) : Catalog → Prop
  | empty : ReachableCatalog std {}
  | createTable {ctx ctx' : ExecutorContext} {tableName : String} {schema : Schema}
      {r : Except Exception (Option TableInfo)} (hctx : ReachableCatalog std ctx.catalog)
      (hrun : runIn (Catalog.createTable tableName schema) ctx = some (r, ctx')) :
      ReachableCatalog std ctx'.catalog
  | executePlan {ctx ctx' : ExecutorContext} {fuel : ℕ} {plan : PlanNode}
      {r : Except Exception (List Tuple)} (hctx : ReachableCatalog std ctx.catalog)
      (hrun : runIn (OneBase.executePlan std fuel plan) ctx = some (r, ctx')) :
      ReachableCatalog std ctx'.catalog

/-- **Consistency.** No run leaves the catalog inconsistent. -/
lemma consistent_of_reachable {std : StandardLibrary} {c : Catalog} (h : ReachableCatalog std c) :
    c.Consistent := by
  induction h with
  | empty => exact Catalog.consistent_empty
  | createTable _ hrun ih => exact keeps_createTable _ _ _ _ _ hrun ih
  | executePlan _ hrun ih => exact keeps_executePlan std _ _ _ _ _ hrun ih

end OneBase
