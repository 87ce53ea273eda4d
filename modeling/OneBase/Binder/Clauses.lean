import OneBase.Binder.Binder

set_option relaxedAutoImplicit false
set_option autoImplicit false

/-!
# What the clauses are bound to

The loop over the `fromClause` replaces its plan as it goes: the first table after the last join
remains, or else the last join. The loop over the `targetList` sorts the targets into stars,
aggregates and other expressions.

## Main definitions

* `OneBase.fromScopes`, `OneBase.survivingItem` — the scopes of a `FROM` clause, and the item whose
  plan remains.
* `OneBase.TargetKind` — what a target is to the binder.
* `OneBase.Targets.Binds` — what the loop over the targets leaves.

## Main results

* `OneBase.bindFrom_spec` — the plan of a `FROM` clause.
* `OneBase.bindTarget_spec` — the targets that a `SELECT` is bound to.
-/

namespace OneBase

variable {stof : String → Cpp (BitVec 32)} {catalog : Catalog}

/-! ## The `FROM` clause -/

/-- The table of this name. -/
def tableNamed (catalog : Catalog) (tableName : String) : Option TableInfo :=
  (lookupTable catalog tableName).result

/-- The scope of a table. -/
def sideScopes (catalog : Catalog) (tupleIdx : ℕ) : FromItem → List TableScope
  | .rangeVar rv =>
    match tableNamed catalog rv.relname with
    | some info => [⟨rv.getAlias, info, tupleIdx⟩]
    | none => []
  | _ => []

/-- The scopes with those of one more item. -/
def FromItem.addScopes (catalog : Catalog) (scopes : List TableScope) : FromItem → List TableScope
  | .joinExpr _ _ larg rarg _ _ =>
    scopes ++ (sideScopes catalog 0 larg ++ sideScopes catalog 1 rarg)
  | item => scopes ++ sideScopes catalog (scopes.length % 2 ^ 32) item

/-- The scopes of a `FROM` clause. -/
def fromScopes (catalog : Catalog) (fromClause : List FromItem) : List TableScope :=
  fromClause.foldl (FromItem.addScopes catalog) []

/-- The scopes, and those before the last join, with one more item. -/
def FromItem.addJoinScopes (catalog : Catalog) (scopes : List TableScope × List TableScope)
    (item : FromItem) : List TableScope × List TableScope :=
  (item.addScopes catalog scopes.1,
    match item with
    | .joinExpr .. => scopes.1
    | _ => scopes.2)

/-- The scopes before the last join of a `FROM` clause. -/
def joinScopes (catalog : Catalog) (fromClause : List FromItem) : List TableScope :=
  (fromClause.foldl (FromItem.addJoinScopes catalog) ([], [])).2

/-- The item whose plan remains after one more item. -/
def keepItem : Option FromItem → FromItem → Option FromItem
  | some (.rangeVar rv), .rangeVar _ => some (.rangeVar rv)
  | _, .rangeVar rv => some (.rangeVar rv)
  | _, .joinExpr jointype joinreftype larg rarg usingClause quals =>
    some (.joinExpr jointype joinreftype larg rarg usingClause quals)
  | kept, .other => kept

/-- The item whose plan remains: the first table after the last join, or else the last join. -/
def survivingItem (fromClause : List FromItem) : Option FromItem := fromClause.foldl keepItem none

/-- The scan of a table, or a `nullptr`. -/
def scanOf (info : TableInfo) : PlanNode := .seqScan info.schema info.oid .null

/-- The plan is that of this item, where a join comes after these scopes. -/
def FromItem.PlannedAs (stof : String → Cpp (BitVec 32)) (catalog : Catalog)
    (scopes : List TableScope) (plan : PlanNode) : FromItem → Prop
  | .rangeVar rv => ∃ info, tableNamed catalog rv.relname = some info ∧ plan = scanOf info
  | .joinExpr _ _ larg rarg _ quals =>
    ∃ left right leftInfo rightInfo joinPredicate,
      larg = .rangeVar left ∧ rarg = .rangeVar right ∧
      tableNamed catalog left.relname = some leftInfo ∧
      tableNamed catalog right.relname = some rightInfo ∧
      bindExpression stof (scopes ++ [⟨left.getAlias, leftInfo, 0⟩, ⟨right.getAlias, rightInfo, 1⟩])
        quals = pure joinPredicate ∧
      plan = .nestedLoopJoin
        (collectAllColumns
          (scopes ++ [⟨left.getAlias, leftInfo, 0⟩, ⟨right.getAlias, rightInfo, 1⟩]))
        (scanOf leftInfo) (scanOf rightInfo) joinPredicate
  | .other => False

/-- The plan is that of the item that remains, if there is one. -/
def KeptPlan (stof : String → Cpp (BitVec 32)) (catalog : Catalog) (scopes : List TableScope)
    (plan : PlanNode) : Option FromItem → Prop
  | none => plan = .null
  | some item => item.PlannedAs stof catalog scopes plan

/-- The plan that the loop has so far. -/
def FromState.plan (st : FromState) : PlanNode := st.fromPlans.headD st.basePlan

/-- The loop has the scopes and the plan of these items. -/
structure FromState.Binds (stof : String → Cpp (BitVec 32)) (catalog : Catalog) (st : FromState)
    (scopes : List TableScope × List TableScope) (kept : Option FromItem) : Prop where
  scopes_eq : st.scopes = scopes.1
  keptPlan : KeptPlan stof catalog scopes.2 st.plan kept
  fromPlans_iff : st.fromPlans ≠ [] ↔ ∃ rv, kept = some (.rangeVar rv)
  scopes_ne_nil : kept ≠ none → st.scopes ≠ []

/-- An item that is asked for its table is one. -/
lemma asRangeVar_eq {item : FromItem} {rv : RangeVar} (h : asRangeVar item = pure rv) :
    item = .rangeVar rv := by
  cases item with
  | rangeVar rv' =>
    cases h
    rfl
  | joinExpr => cases h
  | other => cases h

/-- The scopes of a table in a join: the table under its alias. -/
lemma sideScopes_rangeVar {rv : RangeVar} {info : TableInfo} (tupleIdx : ℕ)
    (h : tableNamed catalog rv.relname = some info) :
    sideScopes catalog tupleIdx (.rangeVar rv) = [⟨rv.getAlias, info, tupleIdx⟩] := by
  unfold sideScopes
  simp only [h]

/-- A round of the loop. -/
lemma FromState.Binds.step {st st' : FromState} {scopes : List TableScope × List TableScope}
    {kept : Option FromItem} {item : FromItem} (h : st.Binds stof catalog scopes kept)
    (hstep : bindFromItem stof catalog st item = pure st') :
    st'.Binds stof catalog (item.addJoinScopes catalog scopes) (keepItem kept item) := by
  obtain ⟨scopes, before⟩ := scopes
  obtain ⟨rfl, hplan, hplans, hscopes_ne⟩ := h
  cases item with
  | rangeVar rv =>
    obtain ⟨info, hinfo, hst'⟩ := Cpp.bind_eq_pure.1 hstep
    have hnamed : tableNamed catalog rv.relname = some info := Cpp.result_eq_some.2 hinfo
    cases hst'
    have hscopes : (FromItem.rangeVar rv).addScopes catalog st.scopes =
        st.scopes ++ [⟨rv.getAlias, info, st.scopes.length % 2 ^ 32⟩] :=
      congrArg (st.scopes ++ ·) (sideScopes_rangeVar _ hnamed)
    by_cases htable : ∃ rv', kept = some (.rangeVar rv')
    · obtain ⟨rv', rfl⟩ := htable
      obtain ⟨plan, plans, hcons⟩ := List.exists_cons_of_ne_nil (hplans.2 ⟨rv', rfl⟩)
      refine ⟨hscopes.symm, ?_, by simp [keepItem], by simp⟩
      simpa [keepItem, FromState.plan, hcons, FromItem.addJoinScopes] using hplan
    · have hnil : st.fromPlans = [] := by
        by_contra hne
        exact htable (hplans.1 hne)
      have hkeep : keepItem kept (.rangeVar rv) = some (.rangeVar rv) := by
        unfold keepItem
        split <;> simp_all
      refine ⟨hscopes.symm, ?_, by simp [hkeep], by simp⟩
      rw [hkeep]
      exact ⟨info, hnamed, by simp [FromState.plan, hnil, scanOf]⟩
  | joinExpr jointype joinreftype larg rarg usingClause quals =>
    obtain ⟨left, hleft, hstep⟩ := Cpp.bind_eq_pure.1 hstep
    obtain ⟨leftInfo, hleftInfo, hstep⟩ := Cpp.bind_eq_pure.1 hstep
    obtain ⟨right, hright, hstep⟩ := Cpp.bind_eq_pure.1 hstep
    obtain ⟨rightInfo, hrightInfo, hstep⟩ := Cpp.bind_eq_pure.1 hstep
    obtain ⟨joinPredicate, hquals, hst'⟩ := Cpp.bind_eq_pure.1 hstep
    cases hst'
    obtain rfl := asRangeVar_eq hleft
    obtain rfl := asRangeVar_eq hright
    have hleftNamed : tableNamed catalog left.relname = some leftInfo :=
      Cpp.result_eq_some.2 hleftInfo
    have hrightNamed : tableNamed catalog right.relname = some rightInfo :=
      Cpp.result_eq_some.2 hrightInfo
    have hkeep : keepItem kept (.joinExpr jointype joinreftype (.rangeVar left) (.rangeVar right)
        usingClause quals) = some (.joinExpr jointype joinreftype (.rangeVar left)
          (.rangeVar right) usingClause quals) := by
      unfold keepItem
      split <;> simp_all
    refine ⟨?_, ?_, by simp [hkeep], by simp⟩
    · show _ = st.scopes ++ (sideScopes catalog 0 (.rangeVar left) ++
        sideScopes catalog 1 (.rangeVar right))
      rw [sideScopes_rangeVar _ hleftNamed, sideScopes_rangeVar _ hrightNamed]
      rfl
    · rw [hkeep]
      exact ⟨left, right, leftInfo, rightInfo, joinPredicate, rfl, rfl, hleftNamed,
        hrightNamed, hquals, rfl⟩
  | other =>
    cases hstep
    refine ⟨?_, ?_, ?_, ?_⟩
    · simp [FromItem.addJoinScopes, FromItem.addScopes, sideScopes]
    · simpa [keepItem, FromItem.addJoinScopes] using hplan
    · simpa [keepItem] using hplans
    · simpa [keepItem] using hscopes_ne

/-- The loop over the items of the `FROM` clause binds what the scopes and the kept item say.

**Proof sketch.** Induction on the items, with the step lemma for one item. -/
lemma FromState.Binds.foldlM {st st' : FromState} {scopes : List TableScope × List TableScope}
    {kept : Option FromItem} {items : List FromItem} (h : st.Binds stof catalog scopes kept)
    (hfold : items.foldlM (bindFromItem stof catalog) st = pure st') :
    st'.Binds stof catalog (items.foldl (FromItem.addJoinScopes catalog) scopes)
      (items.foldl keepItem kept) := by
  induction items generalizing st scopes kept with
  | nil =>
    cases hfold
    exact h
  | cons item items ih =>
    rw [List.foldlM_cons] at hfold
    obtain ⟨st₁, hstep, hrest⟩ := Cpp.bind_eq_pure.1 hfold
    exact ih (h.step hstep) hrest

/-- The scopes that the loop collects are those of the clause. -/
lemma fromScopes_eq (catalog : Catalog) (fromClause : List FromItem) :
    (fromClause.foldl (FromItem.addJoinScopes catalog) ([], [])).1 =
      fromScopes catalog fromClause := by
  have hfold : ∀ scopes : List TableScope × List TableScope,
      (fromClause.foldl (FromItem.addJoinScopes catalog) scopes).1 =
        fromClause.foldl (FromItem.addScopes catalog) scopes.1 := by
    induction fromClause with
    | nil => exact fun _ => rfl
    | cons item items ih => exact fun scopes => ih (item.addJoinScopes catalog scopes)
  exact hfold ([], [])

/-- The plan of a `FROM` clause is that of one of its items. -/
lemma bindFrom_spec {fromClause : List FromItem} {scopes : List TableScope} {basePlan : PlanNode}
    (h : bindFrom stof catalog fromClause = pure (scopes, basePlan)) :
    scopes = fromScopes catalog fromClause ∧
      KeptPlan stof catalog (joinScopes catalog fromClause) basePlan
        (survivingItem fromClause) ∧
      (survivingItem fromClause ≠ none → scopes ≠ []) := by
  unfold bindFrom at h
  split at h
  · cases h
  obtain ⟨st, hst, hplan⟩ := Cpp.bind_eq_pure.1 h
  have hstart : ({} : FromState).Binds stof catalog ([], []) none := ⟨rfl, rfl, by simp, by simp⟩
  have hbinds := hstart.foldlM hst
  have heq : st.scopes = scopes ∧ st.plan = basePlan := by
    unfold FromState.plan
    split at hplan
    · rename_i plan plans hcons
      cases hplan
      exact ⟨rfl, by rw [hcons]; rfl⟩
    · rename_i hnil
      cases hplan
      exact ⟨rfl, by rw [hnil]; rfl⟩
  obtain ⟨rfl, rfl⟩ := heq
  exact ⟨hbinds.scopes_eq.trans (fromScopes_eq catalog fromClause), hbinds.keptPlan,
    hbinds.scopes_ne_nil⟩

/-! ## The target list -/

/-- What a target is to the binder. -/
inductive TargetKind
  | skipped
  | star
  | misread
  | aggregate (aggType : AggregationType) (args : List Node) (aggStar : Bool)
  | regular

/-- The kind of a target, by its `val`. -/
def Node.targetKind : Node → TargetKind
  | .null => .skipped
  | .aStar => .star
  | .columnRef [] => .misread
  | .columnRef (.aStar :: _) => .star
  | .funcCall funcname args aggStar =>
    match funcname.getLast? with
    | none => .misread
    | some fname =>
      match aggregateNamed (lowerCopy fname) with
      | some aggType => .aggregate aggType args aggStar
      | none => .regular
  | _ => .regular

/-- The target is a star. -/
def ResTarget.isStar (res : ResTarget) : Bool :=
  match res.val.targetKind with
  | .star => true
  | _ => false

/-- The target is an aggregate. -/
def ResTarget.isAggregate (res : ResTarget) : Bool :=
  match res.val.targetKind with
  | .aggregate .. => true
  | _ => false

/-- The target is another expression. -/
def ResTarget.isRegular (res : ResTarget) : Bool :=
  match res.val.targetKind with
  | .regular => true
  | _ => false

section Targets

variable (stof) (scopes : List TableScope)

/-- The binding of a target that is an aggregate. -/
def bindAggregate (val : Node) : Cpp (AggregationType × Expression) :=
  match val.targetKind with
  | .aggregate aggType args aggStar => bindAggCall stof scopes aggType args aggStar
  | _ => Cpp.undefined

/-- `BindTarget` tells by the kind of a target what to do with it. -/
lemma bindTarget_eq (targets : Targets) (res : ResTarget) :
    bindTarget stof scopes targets res =
      match res.val.targetKind with
      | .skipped => pure targets
      | .star => pure { targets with isStar := true }
      | .misread => Cpp.undefined
      | .aggregate aggType args aggStar => do
        let aggCall ← bindAggCall stof scopes aggType args aggStar
        pure { targets with hasAggregates := true, aggCalls := targets.aggCalls ++ [aggCall] }
      | .regular => bindRegular stof scopes targets res := by
  obtain ⟨name, val⟩ := res
  unfold bindTarget
  cases val with
  | columnRef fields =>
    match fields with
    | [] => rfl
    | .aStar :: _ => rfl
    | .string _ :: _ => rfl
  | funcCall funcname args aggStar =>
    unfold Node.targetKind
    dsimp only
    cases funcname.getLast? with
    | none => rfl
    | some fname =>
      dsimp only
      cases aggregateNamed (lowerCopy fname) <;> rfl
  | _ => rfl

/-- The loop over these targets leaves the bindings of its aggregates and of its other
expressions. -/
structure Targets.Binds (targetList : List ResTarget) (targets : Targets) : Prop where
  outputs : List.Forall₂ (fun res expr => bindExpression stof scopes res.val = pure expr)
    (targetList.filter ResTarget.isRegular) targets.outputExprs
  names : targets.outputNames.length = targets.outputExprs.length
  aggregates : List.Forall₂ (fun res aggCall => bindAggregate stof scopes res.val = pure aggCall)
    (targetList.filter ResTarget.isAggregate) targets.aggCalls
  hasAggregates : targets.hasAggregates = targetList.any ResTarget.isAggregate
  isStar : targets.isStar = targetList.any ResTarget.isStar

variable {stof scopes}

/-- A round of the loop. -/
lemma Targets.Binds.step {done : List ResTarget} {targets targets' : Targets} {res : ResTarget}
    (h : targets.Binds stof scopes done)
    (hstep : bindTarget stof scopes targets res = pure targets') :
    targets'.Binds stof scopes (done ++ [res]) := by
  rw [bindTarget_eq] at hstep
  cases hkind : res.val.targetKind with
  | skipped =>
    simp only [hkind] at hstep
    cases hstep
    exact ⟨by simpa [ResTarget.isRegular, hkind] using h.outputs, h.names,
      by simpa [ResTarget.isAggregate, hkind] using h.aggregates,
      by simpa [ResTarget.isAggregate, hkind] using h.hasAggregates,
      by simpa [ResTarget.isStar, hkind] using h.isStar⟩
  | star =>
    simp only [hkind] at hstep
    cases hstep
    exact ⟨by simpa [ResTarget.isRegular, hkind] using h.outputs, h.names,
      by simpa [ResTarget.isAggregate, hkind] using h.aggregates,
      by simpa [ResTarget.isAggregate, hkind] using h.hasAggregates,
      by simp [ResTarget.isStar, hkind]⟩
  | misread =>
    simp only [hkind] at hstep
    cases hstep
  | aggregate aggType args aggStar =>
    simp only [hkind] at hstep
    obtain ⟨aggCall, hcall, htargets⟩ := Cpp.bind_eq_pure.1 hstep
    cases htargets
    have hbind : bindAggregate stof scopes res.val = pure aggCall := by
      unfold bindAggregate
      rw [hkind]
      exact hcall
    have haggregates := List.rel_append h.aggregates (.cons hbind .nil)
    exact ⟨by simpa [ResTarget.isRegular, hkind] using h.outputs, h.names,
      by simpa [ResTarget.isAggregate, hkind] using haggregates,
      by simp [ResTarget.isAggregate, hkind],
      by simpa [ResTarget.isStar, hkind] using h.isStar⟩
  | regular =>
    simp only [hkind] at hstep
    obtain ⟨expr, hexpr, htargets⟩ := Cpp.bind_eq_pure.1 hstep
    cases htargets
    have houtputs := List.rel_append h.outputs (.cons hexpr .nil)
    exact ⟨by simpa [ResTarget.isRegular, hkind] using houtputs, by simp [h.names],
      by simpa [ResTarget.isAggregate, hkind] using h.aggregates,
      by simpa [ResTarget.isAggregate, hkind] using h.hasAggregates,
      by simpa [ResTarget.isStar, hkind] using h.isStar⟩

/-- The loop over the targets binds them all.

**Proof sketch.** Induction on the targets, with the step lemma for one target. -/
lemma Targets.Binds.foldlM {done targetList : List ResTarget} {targets targets' : Targets}
    (h : targets.Binds stof scopes done)
    (hfold : targetList.foldlM (bindTarget stof scopes) targets = pure targets') :
    targets'.Binds stof scopes (done ++ targetList) := by
  induction targetList generalizing done targets with
  | nil =>
    cases hfold
    rwa [List.append_nil]
  | cons res targetList ih =>
    rw [List.foldlM_cons] at hfold
    obtain ⟨targets₁, hstep, hrest⟩ := Cpp.bind_eq_pure.1 hfold
    rw [List.append_cons]
    exact ih (h.step hstep) hrest

/-- The targets of a `SELECT`. -/
lemma bindTarget_spec {targetList : List ResTarget} {targets : Targets}
    (h : targetList.foldlM (bindTarget stof scopes) {} = pure targets) :
    targets.Binds stof scopes targetList := by
  have hstart : ({} : Targets).Binds stof scopes [] := ⟨.nil, rfl, .nil, rfl, rfl⟩
  exact hstart.foldlM h

end Targets

end OneBase
