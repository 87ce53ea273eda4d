import OneBase.Catalog.Catalog
import OneBase.Execution.Plans

set_option relaxedAutoImplicit false
set_option autoImplicit false

/-!
# The optimizer

`optimizer/optimizer.cpp`. An operand that is a `nullptr` fails the `dynamic_cast`s, and a child
plan that is one may not be visited.

## Main definitions

* `OneBase.optimizeSeqScanToIndexScan`, `OneBase.optimizeNLJToHashJoin` — the rules.
* `OneBase.optimize` — the rules on a whole plan, from its leaves on.

## Main results

* `OneBase.optimizeSeqScanToIndexScan_eq`, `OneBase.optimizeNLJToHashJoin_eq` — the plans that the
  rules replace.
-/

namespace OneBase

/-- The column and the constant of an equality of the two, in either order. -/
def lookupOperands : Expression → Option (ℕ × Expression)
  | .comparison (.columnValue _ colIdx _) (.constantValue val) .equal =>
    some (colIdx, .constantValue val)
  | .comparison (.constantValue val) (.columnValue _ colIdx _) .equal =>
    some (colIdx, .constantValue val)
  | _ => none

/-- The first of these indexes that looks up this column. -/
def findLookupIndex (catalog : Catalog) (indexedCol : ℕ) : List ℕ → Cpp (Option ℕ)
  | [] => pure none
  | oid :: oids =>
    match catalog.getIndex oid with
    | none => Cpp.undefined
    | some indexInfo =>
      if indexInfo.supportsPointLookup then do
        let attr ← indexInfo.getLookupAttr
        if attr = indexedCol then pure (some indexInfo.oid)
        else findLookupIndex catalog indexedCol oids
      else findLookupIndex catalog indexedCol oids

/-- `OptimizeSeqScanToIndexScan`; `catalog_` may be a `nullptr`. -/
def optimizeSeqScanToIndexScan (catalog : Option Catalog) (plan : PlanNode) : Cpp PlanNode :=
  match catalog, plan with
  | some catalog, .seqScan outputSchema tableOid predicate =>
    match lookupOperands predicate, catalog.getTable tableOid with
    | some (indexedCol, lookupKey), some tableInfo => do
      let indexes ← catalog.getTableIndexes tableInfo.name
      match ← findLookupIndex catalog indexedCol indexes with
      | some indexOid =>
        pure (.indexScan outputSchema tableOid indexOid lookupKey predicate)
      | none => pure plan
    | _, _ => pure plan
  | _, _ => pure plan

/-- The keys of the left and of the right row in an equality of a column of each, in either
order. The keys refer to a single row. -/
def joinKeys : Expression → Option (Expression × Expression)
  | .comparison (.columnValue l lCol lType) (.columnValue r rCol rType) .equal =>
    if l = 0 ∧ r = 1 then some (.columnValue 0 lCol lType, .columnValue 0 rCol rType)
    else if l = 1 ∧ r = 0 then some (.columnValue 0 rCol rType, .columnValue 0 lCol lType)
    else none
  | _ => none

/-- `OptimizeNLJToHashJoin`. -/
def optimizeNLJToHashJoin (plan : PlanNode) : PlanNode :=
  match plan with
  | .nestedLoopJoin outputSchema left right predicate =>
    match joinKeys predicate with
    | some (leftKeyExpr, rightKeyExpr) =>
      .hashJoin outputSchema left right leftKeyExpr rightKeyExpr
    | none => plan
  | _ => plan

/-- The rules on one node. -/
def applyRules (catalog : Option Catalog) (plan : PlanNode) : Cpp PlanNode := do
  let plan ← optimizeSeqScanToIndexScan catalog plan
  pure (optimizeNLJToHashJoin plan)

/-- `Optimize`: the children first, then the rules. -/
def optimize (catalog : Option Catalog) : PlanNode → Cpp PlanNode
  | .null => Cpp.undefined
  | .insert out child tableOid => do
    let child ← optimize catalog child
    applyRules catalog (.insert out child tableOid)
  | .delete out child tableOid => do
    let child ← optimize catalog child
    applyRules catalog (.delete out child tableOid)
  | .update out child tableOid updateExprs => do
    let child ← optimize catalog child
    applyRules catalog (.update out child tableOid updateExprs)
  | .nestedLoopJoin out left right predicate => do
    let left ← optimize catalog left
    let right ← optimize catalog right
    applyRules catalog (.nestedLoopJoin out left right predicate)
  | .hashJoin out left right leftKeyExpr rightKeyExpr => do
    let left ← optimize catalog left
    let right ← optimize catalog right
    applyRules catalog (.hashJoin out left right leftKeyExpr rightKeyExpr)
  | .aggregation out child groupBys aggregates aggTypes => do
    let child ← optimize catalog child
    applyRules catalog (.aggregation out child groupBys aggregates aggTypes)
  | .sort out child orderBys => do
    let child ← optimize catalog child
    applyRules catalog (.sort out child orderBys)
  | .limit out child n => do
    let child ← optimize catalog child
    applyRules catalog (.limit out child n)
  | .projection out child expressions => do
    let child ← optimize catalog child
    applyRules catalog (.projection out child expressions)
  | plan => applyRules catalog plan

/-! ## The plans that the rules replace -/

section Rules

variable {predicate lookupKey : Expression} {colIdx : ℕ} {leftKeyExpr rightKeyExpr : Expression}

/-- The lookup operands are those of an equality of a column and a constant. -/
lemma lookupOperands_eq (h : lookupOperands predicate = some (colIdx, lookupKey)) :
    ∃ tupleIdx type val, lookupKey = .constantValue val ∧
      (predicate = .comparison (.columnValue tupleIdx colIdx type) (.constantValue val) .equal ∨
        predicate =
          .comparison (.constantValue val) (.columnValue tupleIdx colIdx type) .equal) := by
  unfold lookupOperands at h
  split at h
  · rename_i tupleIdx col type val
    obtain ⟨rfl, rfl⟩ := Prod.mk.inj (Option.some.inj h)
    exact ⟨tupleIdx, type, val, rfl, .inl rfl⟩
  · rename_i val tupleIdx col type
    obtain ⟨rfl, rfl⟩ := Prod.mk.inj (Option.some.inj h)
    exact ⟨tupleIdx, type, val, rfl, .inr rfl⟩
  · cases h

/-- The index that is found looks up the column. -/
lemma findLookupIndex_eq {catalog : Catalog} {oids : List ℕ} {indexOid : ℕ}
    (h : findLookupIndex catalog colIdx oids = pure (some indexOid)) :
    ∃ oid ∈ oids, ∃ i, catalog.getIndex oid = some i ∧ i.supportsPointLookup = true ∧
      i.getLookupAttr = pure colIdx ∧ indexOid = i.oid := by
  induction oids with
  | nil => cases h
  | cons oid oids ih =>
    rw [findLookupIndex] at h
    have htail : ∀ {P : ℕ → Prop}, (∃ oid' ∈ oids, P oid') → ∃ oid' ∈ oid :: oids, P oid' := by
      rintro P ⟨oid', hmem, hP⟩
      exact ⟨oid', List.mem_cons_of_mem oid hmem, hP⟩
    split at h
    · cases h
    rename_i i hi
    split at h
    · rename_i hlookup
      obtain ⟨attr, hattr, hrest⟩ := Cpp.bind_eq_pure.1 h
      split at hrest
      · rename_i heq
        subst heq
        cases hrest
        exact ⟨oid, List.mem_cons_self, i, hi, hlookup, hattr, rfl⟩
      · exact htail (ih hrest)
    · exact htail (ih h)

/-- A scan that becomes an index scan compares a column with a constant, and one of the indexes of
the table looks up the column. -/
lemma optimizeSeqScanToIndexScan_eq {catalog : Catalog} {outputSchema : Schema}
    {tableOid indexOid : ℕ}
    (h : optimizeSeqScanToIndexScan (some catalog) (.seqScan outputSchema tableOid predicate) =
      pure (.indexScan outputSchema tableOid indexOid lookupKey predicate)) :
    ∃ colIdx tableInfo indexes, lookupOperands predicate = some (colIdx, lookupKey) ∧
      catalog.getTable tableOid = some tableInfo ∧
      catalog.getTableIndexes tableInfo.name = pure indexes ∧
      findLookupIndex catalog colIdx indexes = pure (some indexOid) := by
  unfold optimizeSeqScanToIndexScan at h
  simp only at h
  split at h
  · rename_i colIdx key tableInfo hoperands htable
    obtain ⟨indexes, hindexes, hrest⟩ := Cpp.bind_eq_pure.1 h
    obtain ⟨o, ho, hplan⟩ := Cpp.bind_eq_pure.1 hrest
    cases o with
    | none => cases hplan
    | some oid =>
      cases hplan
      exact ⟨colIdx, tableInfo, indexes, hoperands, htable, hindexes, ho⟩
  · cases h

/-- The join keys are those of an equality of a left and a right column. -/
lemma joinKeys_eq (h : joinKeys predicate = some (leftKeyExpr, rightKeyExpr)) :
    ∃ lCol lType rCol rType, leftKeyExpr = .columnValue 0 lCol lType ∧
      rightKeyExpr = .columnValue 0 rCol rType ∧
      (predicate = .comparison (.columnValue 0 lCol lType) (.columnValue 1 rCol rType) .equal ∨
        predicate =
          .comparison (.columnValue 1 rCol rType) (.columnValue 0 lCol lType) .equal) := by
  unfold joinKeys at h
  split at h
  · rename_i l lCol lType r rCol rType
    split_ifs at h with hlr hrl
    · obtain ⟨rfl, rfl⟩ := hlr
      obtain ⟨rfl, rfl⟩ := Prod.mk.inj (Option.some.inj h)
      exact ⟨lCol, lType, rCol, rType, rfl, rfl, .inl rfl⟩
    · obtain ⟨rfl, rfl⟩ := hrl
      obtain ⟨rfl, rfl⟩ := Prod.mk.inj (Option.some.inj h)
      exact ⟨rCol, rType, lCol, lType, rfl, rfl, .inr rfl⟩
  · cases h

/-- A plan that becomes a hash join is a nested-loop join with join keys. -/
lemma optimizeNLJToHashJoin_eq {plan left right : PlanNode} {outputSchema : Schema}
    (h : optimizeNLJToHashJoin plan =
      .hashJoin outputSchema left right leftKeyExpr rightKeyExpr) :
    plan = .hashJoin outputSchema left right leftKeyExpr rightKeyExpr ∨
      ∃ predicate, plan = .nestedLoopJoin outputSchema left right predicate ∧
        joinKeys predicate = some (leftKeyExpr, rightKeyExpr) := by
  unfold optimizeNLJToHashJoin at h
  split at h
  · rename_i out l r predicate
    split at h
    · rename_i lk rk hkeys
      obtain ⟨rfl, rfl, rfl, rfl, rfl⟩ := PlanNode.hashJoin.inj h
      exact .inr ⟨predicate, rfl, hkeys⟩
    · cases h
  · exact .inl h

end Rules

end OneBase
