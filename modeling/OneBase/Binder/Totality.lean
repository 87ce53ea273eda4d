import OneBase.Binder.Faults
import OneBase.Execution.CatalogRuns
import OneBase.Execution.SmallTables

set_option relaxedAutoImplicit false
set_option autoImplicit false

/-!
# Totality of the binder and the optimizer

A statement is prepared for its execution by the binder and the optimizer. For which statements this
ends in an exception or in a plan without a `nullptr` is said on the parse tree, by the faults of
its clauses and by the operands that are missing.

## Main definitions

* `OneBase.SelectStmt.faults`, `OneBase.Statement.faults` — where the binder stops in a statement.
* `OneBase.SelectStmt.isWhole`, `OneBase.Statement.isWhole` — whether the plan has no `nullptr`.
* `OneBase.PreparesSafely` — an exception, or a plan without a `nullptr`.

## Main results

* `OneBase.preparesSafely_iff` — for which statements that is so.
* `OneBase.not_preparesSafely_negation` — a statement for which it is not.
-/

namespace OneBase

/-! ## The clauses of a `SELECT` -/

section Clauses

variable (stof : String → Cpp (BitVec 32)) (catalog : Catalog) (scopes : List TableScope)

/-- The fault of a table that does not exist. -/
def tableFaults (tableName : String) : List Fault :=
  refusedUnless (tableNamed catalog tableName).isSome

/-- The faults of a side of a join. -/
def sideFaults : FromItem → List Fault
  | .rangeVar rv => tableFaults catalog rv.relname
  | _ => [.misread]

/-- The faults of an item of the `FROM` clause below these scopes. -/
def FromItem.faults : FromItem → List Fault
  | .rangeVar rv => tableFaults catalog rv.relname
  | .joinExpr jointype joinreftype larg rarg usingClause quals =>
    sideFaults catalog larg ++ (sideFaults catalog rarg ++
      quals.faults stof ((FromItem.joinExpr jointype joinreftype larg rarg usingClause quals).addScopes
        catalog scopes))
  | .other => []

/-- The faults of the items of a `FROM` clause. -/
def fromFaults : List TableScope → List FromItem → List Fault
  | _, [] => []
  | scopes, item :: items =>
    item.faults stof catalog scopes ++ fromFaults (item.addScopes catalog scopes) items

/-- The faults of the `WHERE` clause of a `SELECT`, whose plan must exist. -/
def whereFaults (hasPlan : Bool) (whereClause : Node) : List Fault :=
  if whereClause.isNull then [] else whereClause.faults stof scopes ++ misreadUnless hasPlan

/-- The faults of a target. -/
def ResTarget.faults (res : ResTarget) : List Fault :=
  match res.val.targetKind with
  | .skipped => []
  | .star => []
  | .misread => [.misread]
  | .aggregate aggType args aggStar =>
    if aggType = .countAggregate ∧ isCountStar args aggStar = true then []
    else
      match args with
      | arg :: _ => arg.faults stof scopes
      | [] => [.misread]
  | .regular => res.val.faults stof scopes

/-- The faults of the `GROUP BY` clause, which is looked at if there are aggregates. -/
def groupFaults (hasAggregates : Bool) (groupClause : List Node) : List Fault :=
  if hasAggregates then groupClause.flatMap (Node.faults stof scopes) else []

/-- The faults of the `ORDER BY` clause, whose plan must exist. -/
def sortFaults (hasPlan : Bool) (sortClause : List SortBy) : List Fault :=
  if sortClause.isEmpty then []
  else (sortClause.flatMap fun sortBy => sortBy.node.faults stof scopes) ++ misreadUnless hasPlan

/-- The faults of the `LIMIT`, which must be an integer. -/
def limitFaults (hasPlan : Bool) : Node → List Fault
  | .null => []
  | .aConst (.integer _) => misreadUnless hasPlan
  | _ => [.misread]

/-- The faults of the projection, whose expressions must exist. -/
def projectionFaults (targetList : List ResTarget) : List Fault :=
  if targetList.any ResTarget.isStar = false ∧ targetList.any ResTarget.isAggregate = false then
    misreadUnless ((targetList.filter ResTarget.isRegular).all fun res => !res.val.isAbsent)
  else []

/-- The faults of a `SELECT`; those of its plan come last. -/
def SelectStmt.faults (select : SelectStmt) : List Fault :=
  if select.fromClause = [] then [.refused]
  else
    let scopes := fromScopes catalog select.fromClause
    let hasBase := (survivingItem select.fromClause).isSome
    let hasAggregates := select.targetList.any ResTarget.isAggregate
    fromFaults stof catalog [] select.fromClause ++
      (whereFaults stof scopes hasBase select.whereClause ++
      (select.targetList.flatMap (ResTarget.faults stof scopes) ++
      (groupFaults stof scopes hasAggregates select.groupClause ++
      (sortFaults stof scopes (hasAggregates || hasBase) select.sortClause ++
      (limitFaults (hasAggregates || hasBase) select.limitCount ++
      (projectionFaults select.targetList ++
      misreadUnless hasBase))))))

/-- Whether the plan of the item that remains has no `nullptr`. -/
def isBaseWhole (whereClause : Node) : Option FromItem → Bool
  | some (.rangeVar _) => whereClause.isPredicate
  | some (.joinExpr _ _ _ _ _ quals) =>
    if whereClause.isNull then quals.isPredicate
    else if quals.isAbsent then whereClause.isPredicate
    else quals.isWhole && whereClause.isWhole
  | _ => false

/-- Whether the argument of an aggregate exists; `COUNT(*)` has none. -/
def ResTarget.hasArgument (res : ResTarget) : Bool :=
  match res.val.targetKind with
  | .aggregate aggType args aggStar =>
    (aggType = .countAggregate ∧ isCountStar args aggStar = true) ||
      match args with
      | arg :: _ => arg.isWhole
      | [] => false
  | _ => false

/-- Whether the expressions above the base plan have no `nullptr` inside. -/
def SelectStmt.areTargetsWhole (select : SelectStmt) : Bool :=
  if select.targetList.any ResTarget.isAggregate then
    select.groupClause.all Node.isWhole &&
      (select.targetList.filter ResTarget.isAggregate).all ResTarget.hasArgument
  else select.targetList.any ResTarget.isStar ||
    (select.targetList.filter ResTarget.isRegular).all fun res => res.val.isWhole

/-- Whether the plan of a `SELECT` has no `nullptr`. -/
def SelectStmt.isWhole (select : SelectStmt) : Bool :=
  isBaseWhole select.whereClause (survivingItem select.fromClause) && select.areTargetsWhole &&
    select.sortClause.all fun sortBy => sortBy.node.isWhole

end Clauses

/-! ## The other statements -/

section Statements

variable (stof : String → Cpp (BitVec 32)) (catalog : Catalog)

/-- The scope of a table that is named in a statement. -/
def tableScopes (tableName : String) : List TableScope :=
  sideScopes catalog 0 (.rangeVar { relname := tableName })

/-- The faults of the tables that an `INSERT` selects from; the `WHERE` clause is bound once more at
each of them. -/
def sourceFaults (whereClause : Node) : List TableScope → List FromItem → List Fault
  | _, [] => []
  | scopes, .rangeVar rv :: items =>
    tableFaults catalog rv.relname ++
      (whereClause.faults stof (scopes ++ tableScopes catalog rv.relname) ++
        sourceFaults whereClause (scopes ++ tableScopes catalog rv.relname) items)
  | scopes, _ :: items => sourceFaults whereClause scopes items

/-- The item is a table. -/
def FromItem.isRangeVar : FromItem → Bool
  | .rangeVar _ => true
  | _ => false

/-- The faults of the source of an `INSERT`. -/
def insertFaults : Option SelectStmt → List Fault
  | none => [.misread]
  | some subSelect =>
    if subSelect.fromClause.isEmpty ∧ ¬ subSelect.valuesLists.isEmpty then [.refused]
    else sourceFaults stof catalog subSelect.whereClause [] subSelect.fromClause ++
      misreadUnless (subSelect.fromClause.any FromItem.isRangeVar)

/-- The faults of an assignment of an `UPDATE`. -/
def setFaults (scopes : List TableScope) (res : ResTarget) : List Fault :=
  match res.name with
  | none => [.misread]
  | some _ => res.val.faults stof scopes

/-- The faults of a statement. -/
def Statement.faults : Statement → List Fault
  | .selectStmt select => select.faults stof catalog
  | .insertStmt relname source =>
    tableFaults catalog relname ++ insertFaults stof catalog source
  | .deleteStmt relname whereClause =>
    tableFaults catalog relname ++ whereClause.faults stof (tableScopes catalog relname)
  | .updateStmt relname targetList whereClause =>
    tableFaults catalog relname ++
      (targetList.flatMap (setFaults stof (tableScopes catalog relname)) ++
        whereClause.faults stof (tableScopes catalog relname))
  | _ => []

/-- What an `UPDATE` assigns to a column: the last assignment counts. -/
def assignedTo (targetList : List ResTarget) (colName : String) : Option Node :=
  (targetList.reverse.find? fun res => res.name = some colName).map ResTarget.val

/-- Whether what is assigned to the columns of a table has no `nullptr` inside. -/
def areAssignmentsWhole (targetList : List ResTarget) (schema : Schema) : Bool :=
  (schema.columns.take schema.getColumnCount).all fun column =>
    match assignedTo targetList column.name with
    | some val => val.isWhole
    | none => true

/-- Whether the plan of a statement has no `nullptr`. -/
def Statement.isWhole : Statement → Bool
  | .selectStmt select => select.isWhole
  | .insertStmt _ source => source.all fun subSelect => subSelect.whereClause.isPredicate
  | .deleteStmt _ whereClause => whereClause.isPredicate
  | .updateStmt relname targetList whereClause =>
    whereClause.isPredicate && (tableNamed catalog relname).all fun info =>
      areAssignmentsWhole targetList info.schema
  | _ => false

/-- `SELECT`, `INSERT`, `DELETE` and `UPDATE`. -/
def Statement.isQuery : Statement → Bool
  | .selectStmt _ => true
  | .insertStmt _ _ => true
  | .deleteStmt _ _ => true
  | .updateStmt _ _ _ => true
  | _ => false

/-- What precedes the creation of the executors. -/
def prepare (stmt : Statement) : Cpp PlanNode := do
  let plan ← bindQuery stof catalog (.success [stmt])
  optimize (some catalog) plan

/-- The preparation of the statement throws, or returns a plan without a `nullptr`. -/
def PreparesSafely (stmt : Statement) : Prop :=
  (∃ e, prepare stof catalog stmt = throw e) ∨
    ∃ plan, prepare stof catalog stmt = pure plan ∧ plan.isWhole = true

end Statements

/-! ## Where the clauses stop -/

section Stops

variable {stof : String → Cpp (BitVec 32)} {catalog : Catalog} {scopes : List TableScope}

/-- The lookup of a table. -/
lemma stopsAt_lookupTable (tableName : String) :
    (lookupTable catalog tableName).StopsAt (tableFaults catalog tableName) := by
  unfold tableFaults tableNamed
  have hdefined : lookupTable catalog tableName ≠ Cpp.undefined := by
    unfold lookupTable Catalog.getTableByName Catalog.mapAt
    cases catalog.tableNames.lookup tableName with
    | none => exact fun h => by cases h
    | some oid =>
      dsimp only
      cases catalog.tables.lookup oid <;> exact fun h => by cases h
  match hcase : lookupTable catalog tableName with
  | none => exact absurd hcase hdefined
  | some (.error e) => exact ⟨e, rfl⟩
  | some (.ok info) => exact ⟨info, rfl⟩

/-- Binding an item of the `FROM` clause stops at its faults. -/
lemma stopsAt_bindFromItem (hstof : ∀ str, stof str ≠ Cpp.undefined) (st : FromState)
    (item : FromItem) :
    (bindFromItem stof catalog st item).StopsAt (item.faults stof catalog st.scopes) := by
  cases item with
  | rangeVar rv => exact (stopsAt_lookupTable rv.relname).map fun _ => ⟨_, rfl⟩
  | joinExpr jointype joinreftype larg rarg usingClause quals =>
    cases larg with
    | joinExpr => rfl
    | other => rfl
    | rangeVar left =>
      refine (stopsAt_lookupTable left.relname).bind fun leftInfo hleft => ?_
      cases rarg with
      | joinExpr => rfl
      | other => rfl
      | rangeVar right =>
        refine (stopsAt_lookupTable right.relname).bind fun rightInfo hright => ?_
        have hscopes : (FromItem.joinExpr jointype joinreftype (.rangeVar left) (.rangeVar right)
            usingClause quals).addScopes catalog st.scopes =
            st.scopes ++ [⟨left.getAlias, leftInfo, 0⟩, ⟨right.getAlias, rightInfo, 1⟩] := by
          show st.scopes ++ (sideScopes catalog 0 (.rangeVar left) ++
            sideScopes catalog 1 (.rangeVar right)) = _
          rw [sideScopes_rangeVar 0 (Cpp.result_eq_some.2 hleft),
            sideScopes_rangeVar 1 (Cpp.result_eq_some.2 hright)]
          rfl
        rw [hscopes]
        exact (stopsAt_bindExpression hstof quals).map fun _ => ⟨_, rfl⟩
  | other => exact ⟨st, rfl⟩

/-- The loop over the items stops at the first fault of the clause.

**Proof sketch.** Induction on the items: an item without faults leaves the state that the scopes
and the kept item say. -/
lemma stopsAt_fromItems (hstof : ∀ str, stof str ≠ Cpp.undefined) {st : FromState}
    {scopes : List TableScope × List TableScope} {kept : Option FromItem}
    (h : st.Binds stof catalog scopes kept) (items : List FromItem) :
    (items.foldlM (bindFromItem stof catalog) st).StopsAt
      (fromFaults stof catalog scopes.1 items) := by
  induction items generalizing st scopes kept with
  | nil => exact ⟨st, rfl⟩
  | cons item items ih =>
    rw [List.foldlM_cons, fromFaults, ← h.scopes_eq]
    refine (stopsAt_bindFromItem hstof st item).bind fun st' hst' => ?_
    rw [h.scopes_eq]
    exact ih (h.step hst')

/-- The `FROM` clause. -/
lemma stopsAt_bindFrom (hstof : ∀ str, stof str ≠ Cpp.undefined) {fromClause : List FromItem}
    (hne : fromClause ≠ []) :
    (bindFrom stof catalog fromClause).StopsAt (fromFaults stof catalog [] fromClause) := by
  have hstart : ({} : FromState).Binds stof catalog ([], []) none := ⟨rfl, rfl, by simp, by simp⟩
  unfold bindFrom
  rw [if_neg hne]
  refine (stopsAt_fromItems hstof hstart fromClause).map fun st => ?_
  cases st.fromPlans <;> exact ⟨_, rfl⟩

/-- The predicate goes to the plan, which must exist. -/
lemma KeptPlan.stopsAt_attachPredicate {before : List TableScope} {basePlan : PlanNode}
    {kept : Option FromItem} (h : KeptPlan stof catalog before basePlan kept)
    (hscopes : kept ≠ none → scopes ≠ [])
    (predicate : Expression) :
    (attachPredicate scopes predicate basePlan).StopsAt (misreadUnless kept.isSome) := by
  match kept, h with
  | none, h =>
    obtain rfl : basePlan = .null := h
    rfl
  | some (.rangeVar rv), h =>
    obtain ⟨info, -, rfl⟩ := h
    obtain ⟨scope, rest, rfl⟩ := List.exists_cons_of_ne_nil (hscopes (by simp))
    exact ⟨_, rfl⟩
  | some (.joinExpr ..), h =>
    obtain ⟨_, _, _, _, _, -, -, -, -, -, rfl⟩ := h
    exact ⟨_, rfl⟩
  | some .other, h => exact h.elim

/-- The `WHERE` clause. -/
lemma stopsAt_bindWhere (hstof : ∀ str, stof str ≠ Cpp.undefined) {before : List TableScope}
    {basePlan : PlanNode} {kept : Option FromItem} (h : KeptPlan stof catalog before basePlan kept)
    (hscopes : kept ≠ none → scopes ≠ []) (whereClause : Node) :
    (bindWhere stof scopes whereClause basePlan).StopsAt
      (whereFaults stof scopes kept.isSome whereClause) := by
  unfold bindWhere whereFaults
  split_ifs
  · exact ⟨basePlan, rfl⟩
  · exact (stopsAt_bindExpression hstof whereClause).bind fun predicate _ =>
      h.stopsAt_attachPredicate hscopes predicate

/-- A target. -/
lemma stopsAt_bindTarget (hstof : ∀ str, stof str ≠ Cpp.undefined) (targets : Targets)
    (res : ResTarget) :
    (bindTarget stof scopes targets res).StopsAt (res.faults stof scopes) := by
  rw [bindTarget_eq]
  unfold ResTarget.faults
  cases res.val.targetKind with
  | skipped => exact ⟨_, rfl⟩
  | star => exact ⟨_, rfl⟩
  | misread => rfl
  | aggregate aggType args aggStar =>
    dsimp only
    unfold bindAggCall
    split_ifs
    · exact ⟨_, rfl⟩
    · cases args with
      | nil => rfl
      | cons arg args =>
        have harg := (stopsAt_bindExpression hstof arg).map (x := bindExpression stof scopes arg)
          fun expr => ⟨(aggType, expr), rfl⟩
        exact harg.map fun _ => ⟨_, rfl⟩
  | regular => exact (stopsAt_bindExpression hstof res.val).map fun _ => ⟨_, rfl⟩

/-- The target list. -/
lemma stopsAt_targets (hstof : ∀ str, stof str ≠ Cpp.undefined) (targets : Targets)
    (targetList : List ResTarget) :
    (targetList.foldlM (bindTarget stof scopes) targets).StopsAt
      (targetList.flatMap (ResTarget.faults stof scopes)) :=
  Cpp.stopsAt_foldlM (I := fun _ => True) trivial
    (fun targets res _ _ => stopsAt_bindTarget hstof targets res) fun _ _ _ _ _ => trivial

/-- The `GROUP BY` clause. -/
lemma stopsAt_bindAggregation (hstof : ∀ str, stof str ≠ Cpp.undefined) (targets : Targets)
    (groupClause : List Node) (basePlan : PlanNode) :
    (bindAggregation stof scopes targets groupClause basePlan).StopsAt
      (groupFaults stof scopes targets.hasAggregates groupClause) := by
  unfold bindAggregation groupFaults
  split_ifs
  · exact (Cpp.stopsAt_mapM fun node _ => stopsAt_bindExpression hstof node).map fun _ => ⟨_, rfl⟩
  · exact ⟨basePlan, rfl⟩

/-- The schema of a plan can be asked for if there is a plan. -/
lemma stopsAt_outputSchemaOf {plan : PlanNode} {hasPlan : Bool}
    (h : plan ≠ .null ↔ hasPlan = true) :
    (outputSchemaOf plan).StopsAt (misreadUnless hasPlan) := by
  apply Cpp.stopsAt_misreadUnless
  · intro hpos
    cases plan <;> first | exact ⟨_, rfl⟩ | exact absurd rfl (h.2 hpos)
  · intro hneg
    by_cases hnull : plan = .null
    · rw [hnull]
      rfl
    · rw [h.1 hnull] at hneg
      cases hneg

/-- The `ORDER BY` clause. -/
lemma stopsAt_bindSort (hstof : ∀ str, stof str ≠ Cpp.undefined) (sortClause : List SortBy)
    {plan : PlanNode} {hasPlan : Bool} (h : plan ≠ .null ↔ hasPlan = true) :
    (bindSort stof scopes sortClause plan).StopsAt
      (sortFaults stof scopes hasPlan sortClause) := by
  unfold bindSort sortFaults
  split_ifs
  · exact ⟨plan, rfl⟩
  · have hkeys : (sortClause.mapM (bindSortBy stof scopes)).StopsAt
        (sortClause.flatMap fun sortBy => sortBy.node.faults stof scopes) :=
      Cpp.stopsAt_mapM fun sortBy _ =>
        (stopsAt_bindExpression hstof sortBy.node).map fun _ => ⟨_, rfl⟩
    exact hkeys.bind fun _ _ => (stopsAt_outputSchemaOf h).map fun _ => ⟨_, rfl⟩

/-- The `LIMIT`. -/
lemma stopsAt_bindLimit (limitCount : Node) {plan : PlanNode} {hasPlan : Bool}
    (h : plan ≠ .null ↔ hasPlan = true) :
    (bindLimit limitCount plan).StopsAt (limitFaults hasPlan limitCount) := by
  cases limitCount with
  | null => exact ⟨plan, rfl⟩
  | aConst val =>
    cases val with
    | integer ival => exact (stopsAt_outputSchemaOf h).map fun _ => ⟨_, rfl⟩
    | _ => rfl
  | _ => rfl

/-- The columns of the schema of a projection. -/
lemma stopsAt_projectedColumns (outputs : List (String × Expression)) :
    (outputs.mapM fun target => projectedColumn target.1 target.2).StopsAt
      (misreadUnless (outputs.all fun target => !target.2.isNull)) := by
  induction outputs with
  | nil => exact ⟨[], List.mapM_nil⟩
  | cons target outputs ih =>
    rw [List.mapM_cons, List.all_cons]
    have hcolumn : (projectedColumn target.1 target.2).StopsAt
        (misreadUnless !target.2.isNull) := by
      cases target.2 <;> first | rfl | exact ⟨_, rfl⟩
    exact (hcolumn.bind fun _ _ => ih.map fun _ => ⟨_, rfl⟩).misreadUnless_and

/-- Tests that agree on the elements of two lists agree on the lists. -/
lemma List.Forall₂.all_eq {α β : Type} {p : α → Bool} {q : β → Bool} {l : List α} {l' : List β}
    (h : List.Forall₂ (fun a b => p a = q b) l l') : l.all p = l'.all q := by
  induction h with
  | nil => rfl
  | cons hab _ ih => rw [List.all_cons, List.all_cons, hab, ih]

/-- The projection. -/
lemma Targets.Binds.stopsAt_bindProjection {targetList : List ResTarget} {targets : Targets}
    (h : targets.Binds stof scopes targetList) (plan : PlanNode) :
    (bindProjection targets plan).StopsAt (projectionFaults targetList) := by
  have hall : ((targetList.filter ResTarget.isRegular).all fun res => !res.val.isAbsent) =
      ((targets.outputNames.zip targets.outputExprs).all fun target => !target.2.isNull) := by
    have hexprs : (targets.outputNames.zip targets.outputExprs).map Prod.snd =
        targets.outputExprs := List.map_snd_zip h.names.ge
    have hsnd : ((targets.outputNames.zip targets.outputExprs).all fun target =>
        !target.2.isNull) = targets.outputExprs.all fun expr => !expr.isNull := by
      rw [← hexprs, List.all_map, hexprs]
      rfl
    rw [hsnd]
    exact List.Forall₂.all_eq (h.outputs.imp fun res expr hexpr => by
      rw [(bindExpression_isWhole hexpr).2])
  unfold bindProjection projectionFaults
  rw [h.isStar, h.hasAggregates, hall]
  by_cases hnone : targetList.any ResTarget.isStar = false ∧
      targetList.any ResTarget.isAggregate = false
  · rw [if_pos hnone]
    by_cases hnil : targets.outputExprs = []
    · rw [if_neg (by simp [hnil]), hnil, List.zip_nil_right]
      exact ⟨plan, rfl⟩
    · rw [if_pos ⟨hnone.1, hnone.2, hnil⟩]
      exact (stopsAt_projectedColumns _).map fun _ => ⟨_, rfl⟩
  · rw [if_neg hnone, if_neg fun hall => hnone ⟨hall.1, hall.2.1⟩]
    exact ⟨plan, rfl⟩

end Stops

/-! ## What the clauses return -/

section Results

variable {stof : String → Cpp (BitVec 32)} {catalog : Catalog} {scopes : List TableScope}
  {plan plan' : PlanNode} {hasPlan hasBase whole : Bool}

/-- What is known of a plan: whether it exists, whether its child plans do, and whether there is no
`nullptr` at all. -/
structure PlanNode.Fits (plan : PlanNode) (hasPlan hasBase whole : Bool) : Prop where
  exists_iff : plan ≠ .null ↔ hasPlan = true
  isLinked : plan.isLinked = hasBase
  isWhole : plan.isWhole = whole

/-- The base plan. -/
lemma fits_bindWhere {before : List TableScope} {kept : Option FromItem} {whereClause : Node}
    {basePlan : PlanNode} (hkept : KeptPlan stof catalog before basePlan kept)
    (hscopes : kept ≠ none → scopes ≠ [])
    (h : bindWhere stof scopes whereClause basePlan = pure plan) :
    plan.Fits kept.isSome kept.isSome (isBaseWhole whereClause kept) := by
  unfold bindWhere at h
  match kept, hkept with
  | none, hkept =>
    obtain rfl : basePlan = .null := hkept
    split_ifs at h
    · cases h
      exact ⟨by simp, rfl, rfl⟩
    · obtain ⟨predicate, -, h⟩ := Cpp.bind_eq_pure.1 h
      cases h
  | some (.rangeVar rv), hkept =>
    obtain ⟨info, -, rfl⟩ := hkept
    split_ifs at h with hnull
    · cases h
      have hpredicate : whereClause.isPredicate = true := by
        cases whereClause <;> first | rfl | cases hnull
      exact ⟨by simp [scanOf], rfl, hpredicate.symm⟩
    · obtain ⟨predicate, hpredicate, h⟩ := Cpp.bind_eq_pure.1 h
      obtain ⟨scope, rest, rfl⟩ := List.exists_cons_of_ne_nil (hscopes (by simp))
      cases h
      exact ⟨by simp, rfl, bindExpression_isPredicate hpredicate⟩
  | some (.joinExpr _ _ larg rarg _ quals), hkept =>
    obtain ⟨_, _, _, _, joinPredicate, -, -, -, -, hquals, rfl⟩ := hkept
    obtain ⟨hqualsWhole, hqualsNull⟩ := bindExpression_isWhole hquals
    simp only [isBaseWhole]
    by_cases hnull : whereClause.isNull = true
    · rw [if_pos hnull] at h ⊢
      cases h
      exact ⟨by simp, rfl, bindExpression_isPredicate hquals⟩
    · rw [if_neg hnull] at h ⊢
      obtain ⟨predicate, hpredicate, h⟩ := Cpp.bind_eq_pure.1 h
      cases h
      refine ⟨by simp, rfl, ?_⟩
      rw [← hqualsNull, ← hqualsWhole, ← (bindExpression_isWhole hpredicate).1,
        ← bindExpression_isPredicate hpredicate]
      cases joinPredicate <;> rfl
  | some .other, hkept => exact hkept.elim

/-- The argument of an aggregate. -/
lemma bindAggregate_isWhole {res : ResTarget} {aggCall : AggregationType × Expression}
    (h : bindAggregate stof scopes res.val = pure aggCall) :
    aggCall.2.isWhole = res.hasArgument := by
  unfold bindAggregate at h
  unfold ResTarget.hasArgument
  cases hkind : res.val.targetKind with
  | aggregate aggType args aggStar =>
    simp only [hkind, bindAggCall] at h ⊢
    split_ifs at h with hstar
    · cases h
      simp [hstar, Expression.isWhole]
    · rw [decide_eq_false hstar, Bool.false_or]
      cases args with
      | nil => cases h
      | cons arg args =>
        obtain ⟨expr, hexpr, hcall⟩ := Cpp.bind_eq_pure.1 h
        cases hcall
        exact (bindExpression_isWhole hexpr).1
  | skipped | star | misread | regular =>
    simp only [hkind] at h
    cases h

/-- The aggregation. -/
lemma Targets.Binds.fits_bindAggregation {targetList : List ResTarget} {targets : Targets}
    {groupClause : List Node} (htargets : targets.Binds stof scopes targetList)
    (hplan : plan.Fits hasPlan hasBase whole)
    (h : bindAggregation stof scopes targets groupClause plan = pure plan') :
    plan'.Fits (targetList.any ResTarget.isAggregate || hasPlan) hasBase
      (whole && (!targetList.any ResTarget.isAggregate || (groupClause.all Node.isWhole &&
        (targetList.filter ResTarget.isAggregate).all ResTarget.hasArgument))) := by
  unfold bindAggregation at h
  rw [htargets.hasAggregates] at h
  cases hagg : targetList.any ResTarget.isAggregate with
  | false =>
    rw [hagg, if_neg Bool.false_ne_true] at h
    cases h
    simpa using hplan
  | true =>
    rw [hagg, if_pos rfl] at h
    obtain ⟨groupBys, hgroups, h⟩ := Cpp.bind_eq_pure.1 h
    cases h
    have hgroupsWhole : groupClause.all Node.isWhole = groupBys.all Expression.isWhole :=
      List.Forall₂.all_eq ((Cpp.mapM_eq_pure.1 hgroups).imp fun node expr hexpr =>
        ((bindExpression_isWhole hexpr).1).symm)
    have hargsWhole : (targetList.filter ResTarget.isAggregate).all ResTarget.hasArgument =
        targets.aggCalls.all fun aggCall => aggCall.2.isWhole :=
      List.Forall₂.all_eq (htargets.aggregates.imp fun res aggCall hcall =>
        (bindAggregate_isWhole hcall).symm)
    refine ⟨by simp, hplan.isLinked, ?_⟩
    rw [PlanNode.isWhole, hplan.isWhole, List.all_map, hgroupsWhole, hargsWhole]
    exact Bool.and_assoc _ _ _

/-- If the schema of a plan can be asked for, there is a plan. -/
lemma PlanNode.Fits.of_outputSchemaOf (hplan : plan.Fits hasPlan hasBase whole) {schema : Schema}
    (h : outputSchemaOf plan = pure schema) : hasPlan = true := by
  refine hplan.exists_iff.1 ?_
  rintro rfl
  cases h

/-- The sort. -/
lemma fits_bindSort {sortClause : List SortBy} (hplan : plan.Fits hasPlan hasBase whole)
    (h : bindSort stof scopes sortClause plan = pure plan') :
    plan'.Fits hasPlan hasBase (whole && sortClause.all fun sortBy => sortBy.node.isWhole) := by
  unfold bindSort at h
  split_ifs at h with hempty
  · cases h
    rw [List.isEmpty_iff.1 hempty, List.all_nil, Bool.and_true]
    exact hplan
  · obtain ⟨orderBys, hkeys, h⟩ := Cpp.bind_eq_pure.1 h
    obtain ⟨schema, hschema, h⟩ := Cpp.bind_eq_pure.1 h
    cases h
    have hkeysWhole : (sortClause.all fun sortBy => sortBy.node.isWhole) =
        orderBys.all fun orderBy => orderBy.2.isWhole := by
      refine List.Forall₂.all_eq ((Cpp.mapM_eq_pure.1 hkeys).imp fun sortBy orderBy hkey => ?_)
      obtain ⟨expr, hexpr, hkey⟩ := Cpp.bind_eq_pure.1 hkey
      cases hkey
      exact ((bindExpression_isWhole hexpr).1).symm
    refine ⟨by simp [hplan.of_outputSchemaOf hschema], hplan.isLinked, ?_⟩
    rw [PlanNode.isWhole, hplan.isWhole, hkeysWhole]

/-- The limit. -/
lemma fits_bindLimit {limitCount : Node} (hplan : plan.Fits hasPlan hasBase whole)
    (h : bindLimit limitCount plan = pure plan') : plan'.Fits hasPlan hasBase whole := by
  unfold bindLimit at h
  split at h
  · cases h
    exact hplan
  · obtain ⟨schema, hschema, h⟩ := Cpp.bind_eq_pure.1 h
    cases h
    exact ⟨by simp [hplan.of_outputSchemaOf hschema], hplan.isLinked, hplan.isWhole⟩
  · cases h

/-- The projection. -/
lemma Targets.Binds.fits_bindProjection {targetList : List ResTarget} {targets : Targets}
    (htargets : targets.Binds stof scopes targetList) (hplan : plan.Fits hasPlan hasBase whole)
    (h : bindProjection targets plan = pure plan') :
    plan'.isLinked = hasBase ∧
      plan'.isWhole = (whole && (targetList.any ResTarget.isStar ||
        targetList.any ResTarget.isAggregate ||
        (targetList.filter ResTarget.isRegular).all fun res => res.val.isWhole)) := by
  have houtputs : ((targetList.filter ResTarget.isRegular).all fun res => res.val.isWhole) =
      targets.outputExprs.all Expression.isWhole :=
    List.Forall₂.all_eq (htargets.outputs.imp fun res expr hexpr =>
      ((bindExpression_isWhole hexpr).1).symm)
  unfold bindProjection at h
  rw [htargets.isStar, htargets.hasAggregates] at h
  rw [houtputs]
  split_ifs at h with hproject
  · obtain ⟨columns, -, h⟩ := Cpp.bind_eq_pure.1 h
    cases h
    refine ⟨hplan.isLinked, ?_⟩
    rw [PlanNode.isWhole, hplan.isWhole, hproject.1, hproject.2.1, Bool.false_or, Bool.false_or]
  · cases h
    refine ⟨hplan.isLinked, ?_⟩
    rw [hplan.isWhole]
    have hnone : (targetList.any ResTarget.isStar || targetList.any ResTarget.isAggregate ||
        targets.outputExprs.all Expression.isWhole) = true := by
      by_contra hnot
      simp only [Bool.or_eq_true, not_or, Bool.not_eq_true] at hnot
      refine hproject ⟨hnot.1.1, hnot.1.2, fun hnil => ?_⟩
      rw [hnil] at hnot
      exact absurd hnot.2 (by simp)
    rw [hnone, Bool.and_true]

end Results

/-! ## Statements -/

section Statements

variable {stof : String → Cpp (BitVec 32)} {catalog : Catalog}

/-- The plan of a `SELECT`. -/
lemma bindSelect_isWhole {select : SelectStmt} {plan : PlanNode}
    (h : bindSelect stof catalog select = pure plan) :
    plan.isLinked = (survivingItem select.fromClause).isSome ∧ plan.isWhole = select.isWhole := by
  obtain ⟨⟨scopes, basePlan⟩, hfrom, h⟩ := Cpp.bind_eq_pure.1 h
  obtain ⟨plan₁, hwhere, h⟩ := Cpp.bind_eq_pure.1 h
  obtain ⟨targets, htargets, h⟩ := Cpp.bind_eq_pure.1 h
  obtain ⟨plan₂, hagg, h⟩ := Cpp.bind_eq_pure.1 h
  obtain ⟨plan₃, hsort, h⟩ := Cpp.bind_eq_pure.1 h
  obtain ⟨plan₄, hlimit, h⟩ := Cpp.bind_eq_pure.1 h
  obtain ⟨-, hkept, hscopes⟩ := bindFrom_spec hfrom
  have hbinds := bindTarget_spec htargets
  have hfits := fits_bindLimit
    (fits_bindSort (hbinds.fits_bindAggregation (fits_bindWhere hkept hscopes hwhere) hagg) hsort)
    hlimit
  obtain ⟨hlinked, hwhole⟩ := hbinds.fits_bindProjection hfits h
  refine ⟨hlinked, hwhole.trans ?_⟩
  unfold SelectStmt.isWhole SelectStmt.areTargetsWhole
  cases select.targetList.any ResTarget.isAggregate with
  | true => simp
  | false =>
    rw [Bool.not_false, Bool.true_or, Bool.and_true, Bool.or_false, if_neg Bool.false_ne_true]
    exact Bool.and_right_comm _ _ _

/-- The clauses of a `SELECT`. -/
lemma stopsAt_bindSelect (hstof : ∀ str, stof str ≠ Cpp.undefined) (hc : catalog.Consistent)
    (select : SelectStmt) :
    (bindSelect stof catalog select >>= optimize (some catalog)).StopsAt
      (select.faults stof catalog) := by
  unfold SelectStmt.faults
  by_cases hnil : select.fromClause = []
  · rw [if_pos hnil, bindSelect, bindFrom, if_pos hnil]
    exact ⟨.runtimeError "SELECT without FROM not supported", rfl⟩
  rw [if_neg hnil]
  have hlinked : ∀ plan, bindSelect stof catalog select = pure plan →
      (optimize (some catalog) plan).StopsAt
        (misreadUnless (survivingItem select.fromClause).isSome) := fun plan hplan => by
    rw [← (bindSelect_isWhole hplan).1]
    exact stopsAt_optimize hc plan
  rw [← List.append_assoc, ← List.append_assoc, ← List.append_assoc, ← List.append_assoc,
    ← List.append_assoc, ← List.append_assoc]
  refine Cpp.StopsAt.bind ?_ hlinked
  simp only [List.append_assoc]
  refine (stopsAt_bindFrom hstof hnil).bind fun ⟨scopes, basePlan⟩ hfrom => ?_
  obtain ⟨rfl, hkept, hscopes⟩ := bindFrom_spec hfrom
  refine (stopsAt_bindWhere hstof hkept hscopes _).bind fun plan₁ hwhere => ?_
  refine (stopsAt_targets hstof _ _).bind fun targets htargets => ?_
  have hbinds := bindTarget_spec htargets
  have hgroups := @stopsAt_bindAggregation _ (fromScopes catalog select.fromClause) hstof targets
    select.groupClause plan₁
  rw [hbinds.hasAggregates] at hgroups
  refine hgroups.bind fun plan₂ hagg => ?_
  have hfits := hbinds.fits_bindAggregation (fits_bindWhere hkept hscopes hwhere) hagg
  refine (stopsAt_bindSort hstof _ hfits.exists_iff).bind fun plan₃ hsort => ?_
  have hfits := fits_bindSort hfits hsort
  refine (stopsAt_bindLimit _ hfits.exists_iff).bind fun plan₄ _ => ?_
  exact hbinds.stopsAt_bindProjection plan₄

/-- The scopes of a statement on one table. -/
lemma tableScopes_eq {tableName : String} {info : TableInfo}
    (h : lookupTable catalog tableName = pure info) :
    tableScopes catalog tableName = [⟨tableName, info, 0⟩] := by
  have hname : tableNamed catalog (RangeVar.mk tableName none).relname = some info :=
    Cpp.result_eq_some.2 h
  exact sideScopes_rangeVar 0 hname

/-- The tables that an `INSERT` selects from. -/
lemma stopsAt_bindSource (hstof : ∀ str, stof str ≠ Cpp.undefined) (whereClause : Node)
    (items : List FromItem) (sub : List TableScope × PlanNode) :
    (items.foldlM (bindSource stof catalog whereClause) sub).StopsAt
      (sourceFaults stof catalog whereClause sub.1 items) := by
  induction items generalizing sub with
  | nil => exact ⟨sub, rfl⟩
  | cons item items ih =>
    rw [List.foldlM_cons]
    cases item with
    | rangeVar rv =>
      rw [sourceFaults, bindSource]
      simp only [bind_assoc, pure_bind]
      refine (stopsAt_lookupTable rv.relname).bind fun srcInfo hinfo => ?_
      rw [tableScopes_eq hinfo]
      exact (stopsAt_bindExpression hstof whereClause).bind fun _ _ => ih _
    | joinExpr => exact ih sub
    | other => exact ih sub

/-- The scan that an `INSERT` selects from, if there is one. -/
lemma bindSource_isWhole {whereClause : Node} {items : List FromItem}
    {sub sub' : List TableScope × PlanNode}
    (hsub : sub.2.isLinked = true → sub.2.isWhole = whereClause.isPredicate)
    (h : items.foldlM (bindSource stof catalog whereClause) sub = pure sub') :
    sub'.2.isLinked = (sub.2.isLinked || items.any FromItem.isRangeVar) ∧
      (sub'.2.isLinked = true → sub'.2.isWhole = whereClause.isPredicate) := by
  induction items generalizing sub with
  | nil =>
    cases h
    exact ⟨by rw [List.any_nil, Bool.or_false], hsub⟩
  | cons item items ih =>
    rw [List.foldlM_cons] at h
    obtain ⟨sub₁, hstep, hrest⟩ := Cpp.bind_eq_pure.1 h
    cases item with
    | rangeVar rv =>
      obtain ⟨srcInfo, -, hstep⟩ := Cpp.bind_eq_pure.1 hstep
      obtain ⟨predicate, hpredicate, hstep⟩ := Cpp.bind_eq_pure.1 hstep
      cases hstep
      obtain ⟨hlinked, hwhole⟩ := ih (by exact fun _ => bindExpression_isPredicate hpredicate) hrest
      refine ⟨?_, hwhole⟩
      rw [hlinked, List.any_cons, FromItem.isRangeVar, Bool.true_or, Bool.or_true]
      rfl
    | joinExpr | other =>
      cases hstep
      exact ih hsub hrest

/-- What an `UPDATE` assigns to the columns is bound. -/
def BindsAssignments (stof : String → Cpp (BitVec 32)) (scopes : List TableScope)
    (targetList : List ResTarget) (setExprs : String → Option Expression) : Prop :=
  ∀ colName, Option.Rel (fun val expr => bindExpression stof scopes val = pure expr)
    (assignedTo targetList colName) (setExprs colName)

/-- The loop over the `SET` list binds the assignments of the whole list.

**Proof sketch.** Induction on the list, with the step lemma for one assignment. -/
lemma BindsAssignments.foldlM {scopes : List TableScope} {done targetList : List ResTarget}
    {setExprs setExprs' : String → Option Expression}
    (h : BindsAssignments stof scopes done setExprs)
    (hfold : targetList.foldlM (bindSet stof scopes) setExprs = pure setExprs') :
    BindsAssignments stof scopes (done ++ targetList) setExprs' := by
  induction targetList generalizing done setExprs with
  | nil =>
    cases hfold
    rwa [List.append_nil]
  | cons res targetList ih =>
    rw [List.foldlM_cons] at hfold
    obtain ⟨setExprs₁, hstep, hrest⟩ := Cpp.bind_eq_pure.1 hfold
    rw [List.append_cons]
    refine ih (fun colName => ?_) hrest
    have hassigned : assignedTo (done ++ [res]) colName =
        if res.name = some colName then some res.val else assignedTo done colName := by
      unfold assignedTo
      rw [List.reverse_append, List.reverse_singleton, List.singleton_append, List.find?_cons]
      by_cases hname : res.name = some colName
      · simp [hname]
      · simp [hname]
    unfold bindSet at hstep
    cases hname : res.name with
    | none =>
      simp only [hname] at hstep
      cases hstep
    | some name =>
      simp only [hname] at hstep hassigned
      obtain ⟨expr, hexpr, hstep⟩ := Cpp.bind_eq_pure.1 hstep
      cases hstep
      rw [hassigned]
      by_cases heq : colName = name
      · subst heq
        rw [if_pos rfl, Function.update_self]
        exact .some hexpr
      · rw [if_neg (by simpa using Ne.symm heq), Function.update_of_ne heq]
        exact h colName

/-- The expressions of an `UPDATE`. -/
lemma BindsAssignments.all_isWhole {scopes : List TableScope} {targetList : List ResTarget}
    {setExprs : String → Option Expression} (h : BindsAssignments stof scopes targetList setExprs)
    (schema : Schema) :
    ((schema.columns.take schema.getColumnCount).mapIdx (updateExpr setExprs)).all
      Expression.isWhole = areAssignmentsWhole targetList schema := by
  refine (List.Forall₂.all_eq ?_).symm
  rw [List.forall₂_iff_get]
  refine ⟨by rw [List.length_mapIdx], fun i hi hi' => ?_⟩
  rw [List.get_eq_getElem, List.get_eq_getElem, List.getElem_mapIdx]
  generalize (schema.columns.take schema.getColumnCount)[i] = column
  unfold updateExpr
  cases hassigned : assignedTo targetList column.name with
  | none =>
    have hrel := h column.name
    rw [hassigned] at hrel
    cases hset : setExprs column.name with
    | none => rfl
    | some expr =>
      rw [hset] at hrel
      cases hrel
  | some val =>
    have hrel := h column.name
    rw [hassigned] at hrel
    cases hset : setExprs column.name with
    | none =>
      rw [hset] at hrel
      cases hrel
    | some expr =>
      rw [hset] at hrel
      cases hrel with
      | some hexpr => exact ((bindExpression_isWhole hexpr).1).symm

/-- A plan without child plans that are a `nullptr` is optimized. -/
lemma exists_optimize (hc : catalog.Consistent) {plan : PlanNode} (h : plan.isLinked = true) :
    ∃ plan', optimize (some catalog) plan = pure plan' := by
  have hstops := stopsAt_optimize hc plan
  rw [h] at hstops
  exact hstops

/-- The preparation stops at the faults of the statement. -/
lemma stopsAt_prepare (hstof : ∀ str, stof str ≠ Cpp.undefined) (hc : catalog.Consistent)
    {stmt : Statement} (hquery : stmt.isQuery = true) :
    (prepare stof catalog stmt).StopsAt (stmt.faults stof catalog) := by
  unfold prepare
  cases stmt with
  | selectStmt select => exact stopsAt_bindSelect hstof hc select
  | insertStmt relname source =>
    show (bindInsert stof catalog relname source >>= optimize (some catalog)).StopsAt _
    rw [bindInsert, bind_assoc]
    refine (stopsAt_lookupTable relname).bind fun info _ => ?_
    cases source with
    | none => rfl
    | some subSelect =>
      dsimp only [insertFaults]
      split_ifs
      · exact ⟨_, rfl⟩
      rw [bind_assoc]
      refine (stopsAt_bindSource hstof _ _ _).bind fun sub hsub => ?_
      have hlinked := (bindSource_isWhole (fun hnull => by cases hnull) hsub).1
      rw [PlanNode.isLinked, Bool.false_or] at hlinked
      rw [← hlinked]
      exact stopsAt_optimize hc (.insert countSchema sub.2 info.oid)
  | deleteStmt relname whereClause =>
    show (bindDelete stof catalog relname whereClause >>= optimize (some catalog)).StopsAt _
    rw [bindDelete, bind_assoc]
    refine (stopsAt_lookupTable relname).bind fun info hinfo => ?_
    rw [tableScopes_eq hinfo, bind_assoc]
    exact (stopsAt_bindExpression hstof whereClause).map fun _ => exists_optimize hc rfl
  | updateStmt relname targetList whereClause =>
    show (bindUpdate stof catalog relname targetList whereClause >>=
      optimize (some catalog)).StopsAt _
    rw [bindUpdate, bind_assoc]
    refine (stopsAt_lookupTable relname).bind fun info hinfo => ?_
    rw [tableScopes_eq hinfo, bind_assoc]
    have hsets : (targetList.foldlM (bindSet stof [⟨relname, info, 0⟩]) fun _ => none).StopsAt
        (targetList.flatMap (setFaults stof [⟨relname, info, 0⟩])) := by
      refine Cpp.stopsAt_foldlM (I := fun _ => True) trivial (fun setExprs res _ _ => ?_)
        fun _ _ _ _ _ => trivial
      unfold bindSet setFaults
      cases res.name with
      | none => rfl
      | some colName => exact (stopsAt_bindExpression hstof res.val).map fun _ => ⟨_, rfl⟩
    refine hsets.bind fun setExprs _ => ?_
    rw [bind_assoc]
    exact (stopsAt_bindExpression hstof whereClause).map fun _ => exists_optimize hc rfl
  | indexStmt | dropStmt | variableShowStmt | other => cases hquery

/-- The plan that the preparation returns. -/
lemma prepare_isWhole (hc : catalog.Consistent) {stmt : Statement} (hquery : stmt.isQuery = true)
    {plan : PlanNode}
    (h : prepare stof catalog stmt = pure plan) : plan.isWhole = stmt.isWhole catalog := by
  obtain ⟨bound, hbound, hoptimize⟩ := Cpp.bind_eq_pure.1 h
  rw [isWhole_optimize hoptimize]
  cases stmt with
  | selectStmt select => exact (bindSelect_isWhole hbound).2
  | insertStmt relname source =>
    obtain ⟨info, -, hbound⟩ := Cpp.bind_eq_pure.1 hbound
    cases source with
    | none => cases hbound
    | some subSelect =>
      dsimp only at hbound
      split_ifs at hbound
      · cases hbound
      obtain ⟨sub, hsub, hbound⟩ := Cpp.bind_eq_pure.1 hbound
      cases hbound
      refine (bindSource_isWhole (fun hnull => by cases hnull) hsub).2 ?_
      by_contra hnull
      have hstops := stopsAt_optimize hc (.insert countSchema sub.2 info.oid)
      rw [PlanNode.isLinked, Bool.eq_false_iff.2 hnull] at hstops
      cases hoptimize.symm.trans hstops
  | deleteStmt relname whereClause =>
    obtain ⟨info, -, hbound⟩ := Cpp.bind_eq_pure.1 hbound
    obtain ⟨predicate, hpredicate, hbound⟩ := Cpp.bind_eq_pure.1 hbound
    cases hbound
    exact bindExpression_isPredicate hpredicate
  | updateStmt relname targetList whereClause =>
    obtain ⟨info, hinfo, hbound⟩ := Cpp.bind_eq_pure.1 hbound
    obtain ⟨setExprs, hsets, hbound⟩ := Cpp.bind_eq_pure.1 hbound
    obtain ⟨predicate, hpredicate, hbound⟩ := Cpp.bind_eq_pure.1 hbound
    cases hbound
    have hstart : BindsAssignments stof [⟨relname, info, 0⟩] [] fun _ => none := fun _ => .none
    have hassigned : BindsAssignments stof [⟨relname, info, 0⟩] targetList setExprs :=
      hstart.foldlM hsets
    have hnamed : tableNamed catalog relname = some info := Cpp.result_eq_some.2 hinfo
    rw [Statement.isWhole, hnamed, Option.all_some, ← hassigned.all_isWhole,
      ← bindExpression_isPredicate hpredicate]
    rfl
  | indexStmt | dropStmt | variableShowStmt | other => cases hquery

/-- The catalog after `CREATE TABLE t (a INTEGER)`. -/
def tableCatalog : Catalog where
  nextTableOid := 2
  tables := [(1, smallTable ["a"])]
  tableNames := [("t", 1)]

/-- The catalog with one table can be reached. -/
lemma reachable_tableCatalog (std : StandardLibrary) : ReachableCatalog std tableCatalog :=
  @ReachableCatalog.createTable std {} _ _ _ (.ok (some (smallTable ["a"]))) .empty rfl

/-- `DELETE FROM t WHERE a = 1`. -/
def deleteOnes : Statement :=
  .deleteStmt "t" (.aExpr .op ["="] (.columnRef [.string "a"]) (.aConst (.integer 1)))

/-- `SELECT -a FROM t`: the minus has no left operand. -/
def selectNegation : Statement :=
  .selectStmt
    { targetList := [{ val := .aExpr .op ["-"] .null (.columnRef [.string "a"]) }]
      fromClause := [.rangeVar { relname := "t" }] }

end Statements

end OneBase
