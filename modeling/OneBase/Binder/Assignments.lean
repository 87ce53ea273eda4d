import OneBase.Binder.Totality
import OneBase.Execution.ExecutorFactory
import OneBase.Execution.SmallTables

set_option relaxedAutoImplicit false
set_option autoImplicit false

/-!
# The assignments of an `UPDATE`

The binder files the bound expressions of the `SET` clause under their names and then looks each
column of the table up there; `UpdateExecutor` evaluates the expression of every column on the row
that it read. So all assignments happen at once. A name that no column has is looked up by nobody:
its assignment is dropped, where `BindExpression` throws for a column that does not exist.

## Main definitions

* `OneBase.updateStatement` — the statement.
* `OneBase.PlanNode.newTuple` — the tuple that `UpdateExecutor` passes to `UpdateTuple`.
* `OneBase.assignedValue` — the value that the statement assigns to a column.
* `OneBase.AssignsColumns` — assignments to unknown columns are rejected, the others happen at once.

## Main results

* `OneBase.values_newTuple` — the values of the tuple, column by column.
* `OneBase.assignsColumns_iff` — the statements whose assignments are treated so.
-/

namespace OneBase

open Exec

variable {stof : String → Cpp (BitVec 32)} {catalog : Catalog} {relname : String}
  {info : TableInfo} {sets : List (String × Node)} {whereClause : Node}

/-- `UPDATE relname SET .. WHERE ..`; the grammar gives each assignment a name. -/
def updateStatement (relname : String) (sets : List (String × Node)) (whereClause : Node) :
    Statement :=
  .updateStmt relname (sets.map fun set => { name := some set.1, val := set.2 }) whereClause

/-- The columns that the loops over the schema visit. -/
def Schema.visited (s : Schema) : List Column := s.columns.take s.getColumnCount

/-- The tuple that `UpdateExecutor` makes for a row of its child. -/
def PlanNode.newTuple (plan : PlanNode) (old : Tuple) : Cpp Tuple :=
  match plan with
  | .update _ child _ updateExprs => evaluateRow updateExprs child.getOutputSchema old
  | _ => Cpp.undefined

/-- In the body of its loop `UpdateExecutor` passes this tuple to `UpdateTuple`, with the place of
the row. -/
lemma returns_updateRow {out : Schema} {child : PlanNode} {tableOid : ℕ}
    {updateExprs : List Expression} {std : StandardLibrary} {fuel : ℕ} {tableInfo : TableInfo}
    {indexes : List ℕ} {count count' : ℤ} {row : Row} {ctx ctx' : ExecutorContext}
    (h : Returns (updateRow updateExprs (createExecutor std fuel child).outputSchema tableInfo
      indexes count row) ctx count' ctx') :
    ∃ newTuple ok ctx₁, (PlanNode.update out child tableOid updateExprs).newTuple row.1 =
        pure newTuple ∧
      Returns (ofProgram (TableHeap.updateTuple row.2 newTuple)) ctx ok ctx₁ := by
  unfold updateRow at h
  rw [outputSchema_createExecutor] at h
  obtain ⟨newTuple, c, hnew, hrest⟩ := returns_bind.1 h
  obtain ⟨hvalues, rfl⟩ := returns_ofCpp.1 hnew
  obtain ⟨ok, ctx₁, hupdate, -⟩ := returns_bind.1 hrest
  exact ⟨newTuple, ok, ctx₁, hvalues, hupdate⟩

/-- What the statement means for column `i`: the value of its expression on the old row, if it is
assigned to, and else the old value. -/
def assignedValue (stof : String → Cpp (BitVec 32)) (relname : String) (info : TableInfo)
    (sets : List (String × Node)) (old : Tuple) (i : ℕ) (column : Column) : Cpp Value :=
  match sets.lookup column.name with
  | some val => do
    let expr ← bindExpression stof [⟨relname, info, 0⟩] val
    expr.evaluate old info.schema
  | none => old.getValueAt info.schema i

/-- The names of the `SET` clause are columns of the table. -/
def KnownColumns (info : TableInfo) (sets : List (String × Node)) : Prop :=
  ∀ set ∈ sets, ∃ column ∈ info.schema.visited, column.name = set.1

/-- `HandleQuery` on a statement, up to the text of the answer. -/
def executeStatement (std : StandardLibrary) (fuel : ℕ) (stof : String → Cpp (BitVec 32))
    (stmt : Statement) : Exec (List Tuple) := do
  let catalog ← getCatalog
  let plan ← ofCpp (prepare stof catalog stmt)
  executePlan std fuel plan

/-- The binder throws, and the statement changes nothing. -/
def Rejects (stof : String → Cpp (BitVec 32)) (catalog : Catalog) (stmt : Statement) : Prop :=
  ∃ e, bindQuery stof catalog (.success [stmt]) = throw e ∧
    ∀ std fuel ctx, ctx.catalog = catalog →
      runIn (executeStatement std fuel stof stmt) ctx = some (.error e, ctx)

/-- If a name of the `SET` clause is not a column of the table, then the statement is rejected.
Otherwise the tuple for each row has, in each column, the value that the statement means. -/
def AssignsColumns (stof : String → Cpp (BitVec 32)) (catalog : Catalog) (relname : String)
    (info : TableInfo) (sets : List (String × Node)) (whereClause : Node) : Prop :=
  (¬ KnownColumns info sets →
    Rejects stof catalog (updateStatement relname sets whereClause)) ∧
  (KnownColumns info sets → ∀ plan old newTuple,
    prepare stof catalog (updateStatement relname sets whereClause) = pure plan →
    plan.newTuple old = pure newTuple →
      newTuple.values.length = info.schema.visited.length ∧
        ∀ i column, info.schema.visited[i]? = some column →
          ∃ v, newTuple.values[i]? = some v ∧
            assignedValue stof relname info sets old i column = pure v)

/-! ## Binding the statement -/

/-- A statement that the binder throws at is rejected. -/
lemma rejects_iff {stmt : Statement} :
    Rejects stof catalog stmt ↔ ∃ e, bindQuery stof catalog (.success [stmt]) = throw e := by
  constructor
  · rintro ⟨e, he, -⟩
    exact ⟨e, he⟩
  · rintro ⟨e, he⟩
    refine ⟨e, he, ?_⟩
    rintro std fuel ctx rfl
    have hprepare : prepare stof ctx.catalog stmt = throw e := by
      rw [prepare, he]
      rfl
    show runIn (ofCpp (prepare stof ctx.catalog stmt) >>= executePlan std fuel) ctx = _
    rw [hprepare]
    rfl

/-- `set_exprs` after these bound expressions have been filed in it. -/
def fileExprs (setExprs : String → Option Expression) (sets : List (String × Node))
    (exprs : List Expression) : String → Option Expression :=
  ((sets.map Prod.fst).zip exprs).foldl (fun f x => Function.update f x.1 (some x.2)) setExprs

/-- The loop over the `SET` clause binds the expressions in turn. -/
lemma foldlM_bindSet {scopes : List TableScope} (setExprs : String → Option Expression) :
    ((sets.map fun set => ({ name := some set.1, val := set.2 } : ResTarget)).foldlM
        (bindSet stof scopes) setExprs) = (do
      let exprs ← sets.mapM fun set => bindExpression stof scopes set.2
      pure (fileExprs setExprs sets exprs)) := by
  induction sets generalizing setExprs with
  | nil => rfl
  | cons set sets ih =>
    rw [List.map_cons, List.foldlM_cons, List.mapM_cons]
    show (bindExpression stof scopes set.2 >>= fun expr => _) >>= _ = _
    simp only [bind_assoc, pure_bind, ih]
    rfl

/-- The expressions that are bound, in this order. -/
def boundNodes (sets : List (String × Node)) (whereClause : Node) : List Node :=
  sets.map Prod.snd ++ [whereClause]

/-- `BindQuery` of an `UPDATE` binds the new values and the `WHERE` clause in the scope of the
table, and plans a scan of it under an update whose expressions are looked up by the column names.
-/
lemma bindUpdate_eq (hinfo : catalog.getTableByName relname = pure (some info)) :
    bindQuery stof catalog (.success [updateStatement relname sets whereClause]) = (do
      let exprs ← sets.mapM fun set => bindExpression stof [⟨relname, info, 0⟩] set.2
      let predicate ← bindExpression stof [⟨relname, info, 0⟩] whereClause
      pure (.update countSchema (.seqScan info.schema info.oid predicate) info.oid
        (info.schema.visited.mapIdx (updateExpr (fileExprs (fun _ => none) sets exprs))))) := by
  show bindUpdate stof catalog relname _ whereClause = _
  unfold bindUpdate lookupTable
  rw [hinfo, pure_bind, pure_bind]
  dsimp only
  rw [foldlM_bindSet, bind_assoc]
  rfl

/-- The binding of the statement throws where the binding of its expressions does. -/
lemma bindUpdate_eq_throw (hinfo : catalog.getTableByName relname = pure (some info))
    (e : Exception) :
    bindQuery stof catalog (.success [updateStatement relname sets whereClause]) = throw e ↔
      (boundNodes sets whereClause).mapM (bindExpression stof [⟨relname, info, 0⟩]) = throw e := by
  have hpure : ∀ {α : Type} (a : α), (pure a : Cpp α) ≠ throw e := by
    intro α a h
    cases h
  unfold boundNodes
  rw [bindUpdate_eq hinfo, List.mapM_append, List.mapM_map, List.mapM_cons, List.mapM_nil]
  simp only [bind_assoc, pure_bind, Cpp.bind_eq_throw, hpure, and_false, exists_false, or_false]
  rfl

/-! ## The assigned values -/

/-- Each name is filed with its own expression. -/
lemma fileExprs_lookup {scopes : List TableScope} {exprs : List Expression}
    (h : List.Forall₂ (fun set expr => bindExpression stof scopes set.2 = pure expr) sets exprs)
    (hnodup : (sets.map Prod.fst).Nodup) (setExprs : String → Option Expression) (name : String) :
    match sets.lookup name with
    | some val => ∃ expr, fileExprs setExprs sets exprs name = some expr ∧
        bindExpression stof scopes val = pure expr
    | none => fileExprs setExprs sets exprs name = setExprs name := by
  induction h generalizing setExprs with
  | nil => rfl
  | @cons set expr sets exprs hexpr hrest ih =>
    rw [List.map_cons, List.nodup_cons] at hnodup
    have htail := ih hnodup.2 (Function.update setExprs set.1 (some expr))
    rw [List.lookup_cons]
    by_cases hname : name = set.1
    · have hlookup : sets.lookup name = none := by
        rw [List.lookup_eq_none_iff]
        intro s hs
        rw [bne_iff_ne, hname]
        exact fun heq => hnodup.1 (heq ▸ List.mem_map_of_mem hs)
      rw [hlookup] at htail
      rw [beq_iff_eq.2 hname]
      refine ⟨expr, ?_, hexpr⟩
      subst hname
      exact htail.trans (Function.update_self _ _ _)
    · rw [beq_false_of_ne hname]
      cases hlookup : sets.lookup name with
      | some val =>
        rw [hlookup] at htail
        exact htail
      | none =>
        rw [hlookup] at htail
        exact htail.trans (Function.update_of_ne hname _ _)

/-- The expression that is evaluated for a column gives the value that the statement means. -/
lemma evaluate_updateExpr {exprs : List Expression}
    (h : List.Forall₂ (fun set expr => bindExpression stof [⟨relname, info, 0⟩] set.2 = pure expr)
      sets exprs)
    (hnodup : (sets.map Prod.fst).Nodup) (old : Tuple) (i : ℕ) (column : Column) :
    (updateExpr (fileExprs (fun _ => none) sets exprs) i column).evaluate old info.schema =
      assignedValue stof relname info sets old i column := by
  have hfiled := fileExprs_lookup h hnodup (fun _ => none) column.name
  unfold assignedValue updateExpr
  cases hlookup : sets.lookup column.name with
  | some val =>
    rw [hlookup] at hfiled
    obtain ⟨expr, hexpr, hbind⟩ := hfiled
    rw [hexpr, Option.getD_some]
    dsimp only
    rw [hbind, pure_bind]
  | none =>
    rw [hlookup] at hfiled
    rw [hfiled]
    rfl

/-- The rules of the optimizer keep the schema of the rows. -/
lemma getOutputSchema_applyRules {catalog : Option Catalog} {plan plan' : PlanNode}
    (h : applyRules catalog plan = pure plan') : plan'.getOutputSchema = plan.getOutputSchema := by
  obtain ⟨scan, hscan, hplan⟩ := Cpp.bind_eq_pure.1 h
  have hjoin : (optimizeNLJToHashJoin scan).getOutputSchema = scan.getOutputSchema := by
    unfold optimizeNLJToHashJoin
    split
    · split <;> rfl
    · rfl
  cases hplan
  rw [hjoin]
  unfold optimizeSeqScanToIndexScan at hscan
  split at hscan
  · split at hscan
    · obtain ⟨indexes, -, hscan⟩ := Cpp.bind_eq_pure.1 hscan
      obtain ⟨o, -, hscan⟩ := Cpp.bind_eq_pure.1 hscan
      cases o <;> cases hscan <;> rfl
    · cases hscan
      rfl
  · cases hscan
    rfl

/-- The optimizer does not touch the expressions, and the child still returns rows of the table. -/
lemma newTuple_of_prepare (hinfo : catalog.getTableByName relname = pure (some info))
    {plan : PlanNode}
    (h : prepare stof catalog (updateStatement relname sets whereClause) = pure plan) :
    ∃ exprs, List.Forall₂
        (fun set expr => bindExpression stof [⟨relname, info, 0⟩] set.2 = pure expr) sets exprs ∧
      ∀ old, plan.newTuple old = evaluateRow
        (info.schema.visited.mapIdx (updateExpr (fileExprs (fun _ => none) sets exprs)))
        info.schema old := by
  obtain ⟨bound, hbound, hoptimize⟩ := Cpp.bind_eq_pure.1 h
  rw [bindUpdate_eq hinfo] at hbound
  obtain ⟨exprs, hexprs, hbound⟩ := Cpp.bind_eq_pure.1 hbound
  obtain ⟨predicate, -, hbound⟩ := Cpp.bind_eq_pure.1 hbound
  cases hbound
  refine ⟨exprs, Cpp.mapM_eq_pure.1 hexprs, ?_⟩
  obtain ⟨child, hchild, hplan⟩ := Cpp.bind_eq_pure.1 hoptimize
  have hschema : child.getOutputSchema = info.schema := getOutputSchema_applyRules hchild
  cases hplan
  intro old
  rw [← hschema]
  rfl

/-- The tuple that `UpdateExecutor` passes on has, in each column, the value that the statement
means on the old row. -/
lemma values_newTuple (hinfo : catalog.getTableByName relname = pure (some info))
    (hnodup : (sets.map Prod.fst).Nodup) {plan : PlanNode} {old newTuple : Tuple}
    (hplan : prepare stof catalog (updateStatement relname sets whereClause) = pure plan)
    (hnew : plan.newTuple old = pure newTuple) :
    newTuple.values.length = info.schema.visited.length ∧
      ∀ i column, info.schema.visited[i]? = some column →
        ∃ v, newTuple.values[i]? = some v ∧
          assignedValue stof relname info sets old i column = pure v := by
  obtain ⟨exprs, hexprs, heq⟩ := newTuple_of_prepare hinfo hplan
  rw [heq] at hnew
  obtain ⟨values, hvalues, htuple⟩ := Cpp.bind_eq_pure.1 hnew
  rw [values_of_ofValues htuple]
  have hforall := Cpp.mapM_eq_pure.1 hvalues
  refine ⟨by rw [← hforall.length_eq, List.length_mapIdx], fun i column hcolumn => ?_⟩
  obtain ⟨hi, rfl⟩ := List.getElem?_eq_some_iff.1 hcolumn
  have hlen : i < values.length := by rwa [← hforall.length_eq, List.length_mapIdx]
  have hget := (List.forall₂_iff_get.1 hforall).2 i (by rwa [List.length_mapIdx]) hlen
  rw [List.get_eq_getElem, List.getElem_mapIdx, evaluate_updateExpr hexprs hnodup] at hget
  exact ⟨values[i], List.getElem?_eq_getElem hlen, hget⟩

/-- **The assignments of an `UPDATE`.** They are treated as they should iff all of them are to
columns of the table, or the binder throws at one of the expressions of the statement. -/
theorem assignsColumns_iff (hinfo : catalog.getTableByName relname = pure (some info))
    (hnodup : (sets.map Prod.fst).Nodup) :
    AssignsColumns stof catalog relname info sets whereClause ↔
      KnownColumns info sets ∨
        ∃ e, (boundNodes sets whereClause).mapM (bindExpression stof [⟨relname, info, 0⟩]) =
          throw e := by
  have hrejects : Rejects stof catalog (updateStatement relname sets whereClause) ↔
      ∃ e, (boundNodes sets whereClause).mapM (bindExpression stof [⟨relname, info, 0⟩]) =
        throw e := by
    rw [rejects_iff]
    exact exists_congr (bindUpdate_eq_throw hinfo)
  unfold AssignsColumns
  rw [hrejects]
  constructor
  · rintro ⟨hunknown, -⟩
    exact or_iff_not_imp_left.2 hunknown
  · intro h
    refine ⟨or_iff_not_imp_left.1 h, fun _ plan old newTuple hplan hnew => ?_⟩
    exact values_newTuple hinfo hnodup hplan hnew

/-- `UPDATE t SET a = b, b = a` exchanges the columns. -/
theorem assignsColumns_swap :
    AssignsColumns (fun _ => Cpp.undefined) (smallContext ["a", "b"] [] none).catalog "t"
      (smallTable ["a", "b"]) [("a", .columnRef [.string "b"]), ("b", .columnRef [.string "a"])]
      .null := by
  refine (assignsColumns_iff rfl (by decide)).2 (.inl ?_)
  unfold KnownColumns
  decide

/-- `UPDATE t SET c = 1` is not rejected, although `t` has no column `c`. -/
theorem not_assignsColumns_unknown :
    ¬ AssignsColumns (fun _ => Cpp.undefined) (smallContext ["a", "b"] [] none).catalog "t"
      (smallTable ["a", "b"]) [("c", .aConst (.integer 1))] .null := by
  rintro ⟨hunknown, -⟩
  have hnot : ¬ KnownColumns (smallTable ["a", "b"]) [("c", .aConst (.integer 1))] := by
    unfold KnownColumns
    decide
  obtain ⟨e, he, -⟩ := hunknown hnot
  cases he

end OneBase
