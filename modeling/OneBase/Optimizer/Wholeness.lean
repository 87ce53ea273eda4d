import OneBase.Catalog.Consistency
import OneBase.Common.Faults
import OneBase.Optimizer.Optimizer

set_option relaxedAutoImplicit false
set_option autoImplicit false

/-!
# Null pointers in plans

An operand or a child plan that is a `nullptr` is followed at the latest when the plan is executed;
only the predicate of a scan or of a join may be absent. The optimizer follows the child plans and
introduces no `nullptr`.

## Main definitions

* `OneBase.Expression.isWhole`, `OneBase.PlanNode.isWhole` — no operand is a `nullptr`.
* `OneBase.PlanNode.isLinked` — no child plan is one.

## Main results

* `OneBase.stopsAt_optimize`, `OneBase.isWhole_optimize` — the optimizer on such a plan.
-/

namespace OneBase

/-- The expression exists, and so do its operands. -/
def Expression.isWhole : Expression → Bool
  | null => false
  | columnValue _ _ _ => true
  | constantValue _ => true
  | comparison left right _ => left.isWhole && right.isWhole
  | arithmetic left right _ => left.isWhole && right.isWhole
  | logic left right _ => left.isWhole && right.isWhole

/-- Whether this is the `nullptr`. -/
def Expression.isNull : Expression → Bool
  | null => true
  | _ => false

/-- There is no predicate, or a whole one. -/
def Expression.isPredicate (expr : Expression) : Bool := expr.isNull || expr.isWhole

/-- No child plan is a `nullptr`. -/
def PlanNode.isLinked : PlanNode → Bool
  | null => false
  | seqScan _ _ _ => true
  | indexScan _ _ _ _ _ => true
  | insert _ child _ => child.isLinked
  | delete _ child _ => child.isLinked
  | update _ child _ _ => child.isLinked
  | nestedLoopJoin _ left right _ => left.isLinked && right.isLinked
  | hashJoin _ left right _ _ => left.isLinked && right.isLinked
  | aggregation _ child _ _ _ => child.isLinked
  | sort _ child _ => child.isLinked
  | limit _ child _ => child.isLinked
  | projection _ child _ => child.isLinked
  | utility _ _ _ _ _ _ _ => true

/-- No child plan and no operand is a `nullptr`. -/
def PlanNode.isWhole : PlanNode → Bool
  | null => false
  | seqScan _ _ predicate => predicate.isPredicate
  | indexScan _ _ _ lookupKey predicate => lookupKey.isWhole && predicate.isPredicate
  | insert _ child _ => child.isWhole
  | delete _ child _ => child.isWhole
  | update _ child _ updateExprs => child.isWhole && updateExprs.all Expression.isWhole
  | nestedLoopJoin _ left right predicate =>
    left.isWhole && right.isWhole && predicate.isPredicate
  | hashJoin _ left right leftKeyExpr rightKeyExpr =>
    left.isWhole && right.isWhole && leftKeyExpr.isWhole && rightKeyExpr.isWhole
  | aggregation _ child groupBys aggregates _ =>
    child.isWhole && groupBys.all Expression.isWhole && aggregates.all Expression.isWhole
  | sort _ child orderBys => child.isWhole && orderBys.all fun orderBy => orderBy.2.isWhole
  | limit _ child _ => child.isWhole
  | projection _ child expressions => child.isWhole && expressions.all Expression.isWhole
  | utility _ _ _ _ _ _ _ => true

/-! ## The rules -/

section Rules

variable {catalog : Catalog} {plan plan' : PlanNode}

/-- The indexes of a table can be looked through. -/
lemma exists_findLookupIndex (hc : catalog.Consistent) (indexedCol : ℕ) {oids : List ℕ}
    (h : ∀ oid ∈ oids, ∃ i, catalog.getIndex oid = some i) :
    ∃ o, findLookupIndex catalog indexedCol oids = pure o := by
  induction oids with
  | nil => exact ⟨none, rfl⟩
  | cons oid oids ih =>
    obtain ⟨i, hi⟩ := h oid List.mem_cons_self
    have hrest := ih fun oid' hmem => h oid' (List.mem_cons_of_mem oid hmem)
    rw [findLookupIndex]
    simp only [hi]
    split_ifs with hlookup
    · obtain ⟨attr, hattr⟩ := hc.getLookupAttr hi hlookup
      rw [hattr, pure_bind]
      split_ifs
      · exact ⟨_, rfl⟩
      · exact hrest
    · exact hrest

/-- The rule for scans makes a plan of every plan, in a consistent catalog: the index that it finds
is there. -/
lemma exists_optimizeSeqScanToIndexScan (hc : catalog.Consistent) (plan : PlanNode) :
    ∃ plan', optimizeSeqScanToIndexScan (some catalog) plan = pure plan' := by
  unfold optimizeSeqScanToIndexScan
  cases plan with
  | seqScan outputSchema tableOid predicate =>
    dsimp only
    split
    · rename_i indexedCol _ tableInfo _ _
      obtain ⟨oids, hoids, hexist⟩ := hc.getTableIndexes tableInfo.name
      obtain ⟨o, ho⟩ := exists_findLookupIndex hc indexedCol hexist
      rw [hoids, pure_bind, ho, pure_bind]
      cases o <;> exact ⟨_, rfl⟩
    · exact ⟨_, rfl⟩
  | _ => exact ⟨_, rfl⟩

/-- The rule for scans keeps a plan whole: the index scan has the constant of the comparison as its
key. -/
lemma isWhole_optimizeSeqScanToIndexScan
    (h : optimizeSeqScanToIndexScan (some catalog) plan = pure plan') :
    plan'.isWhole = plan.isWhole := by
  unfold optimizeSeqScanToIndexScan at h
  split at h
  · split at h
    · rename_i hoperands _
      obtain ⟨indexes, -, h⟩ := Cpp.bind_eq_pure.1 h
      obtain ⟨o, -, h⟩ := Cpp.bind_eq_pure.1 h
      cases o with
      | none =>
        cases h
        rfl
      | some indexOid =>
        cases h
        obtain ⟨_, _, _, rfl, rfl | rfl⟩ := lookupOperands_eq hoperands <;> rfl
    · cases h
      rfl
  · cases h
    rfl

/-- The rule for joins keeps a plan whole: the keys of the hash join are the operands of the
condition. -/
lemma isWhole_optimizeNLJToHashJoin (plan : PlanNode) :
    (optimizeNLJToHashJoin plan).isWhole = plan.isWhole := by
  unfold optimizeNLJToHashJoin
  split
  · split
    · rename_i hkeys
      obtain ⟨_, _, _, _, rfl, rfl, rfl | rfl⟩ := joinKeys_eq hkeys <;>
        simp [PlanNode.isWhole, Expression.isWhole, Expression.isPredicate, Expression.isNull]
    · rfl
  · rfl

/-- The rules make a plan of every plan. -/
lemma exists_applyRules (hc : catalog.Consistent) (plan : PlanNode) :
    ∃ plan', applyRules (some catalog) plan = pure plan' := by
  obtain ⟨plan', hplan'⟩ := exists_optimizeSeqScanToIndexScan hc plan
  refine ⟨optimizeNLJToHashJoin plan', ?_⟩
  unfold applyRules
  rw [hplan', pure_bind]

/-- The rules keep a plan whole. -/
lemma isWhole_applyRules (h : applyRules (some catalog) plan = pure plan') :
    plan'.isWhole = plan.isWhole := by
  obtain ⟨plan₁, hscan, hjoin⟩ := Cpp.bind_eq_pure.1 h
  cases hjoin
  rw [isWhole_optimizeNLJToHashJoin, isWhole_optimizeSeqScanToIndexScan hscan]

end Rules

/-! ## The optimizer -/

section Optimize

variable {catalog : Catalog}

/-- The optimizer stops at a child plan that is a `nullptr`. -/
lemma stopsAt_optimize (hc : catalog.Consistent) (plan : PlanNode) :
    (optimize (some catalog) plan).StopsAt (misreadUnless plan.isLinked) := by
  have hone : ∀ {child : PlanNode} (f : PlanNode → PlanNode),
      (optimize (some catalog) child).StopsAt (misreadUnless child.isLinked) →
      (optimize (some catalog) child >>= fun child => applyRules (some catalog) (f child)).StopsAt
        (misreadUnless child.isLinked) :=
    fun f hchild => hchild.map fun child => exists_applyRules hc (f child)
  have htwo : ∀ {left right : PlanNode} (f : PlanNode → PlanNode → PlanNode),
      (optimize (some catalog) left).StopsAt (misreadUnless left.isLinked) →
      (optimize (some catalog) right).StopsAt (misreadUnless right.isLinked) →
      (optimize (some catalog) left >>= fun left =>
        optimize (some catalog) right >>= fun right =>
          applyRules (some catalog) (f left right)).StopsAt
        (misreadUnless (left.isLinked && right.isLinked)) := by
    intro left right f hleft hright
    have hboth := hleft.bind fun l _ => hright.map fun r => exists_applyRules hc (f l r)
    exact hboth.misreadUnless_and
  induction plan with
  | null => rfl
  | seqScan outputSchema tableOid predicate => exact exists_applyRules hc _
  | indexScan outputSchema tableOid indexOid lookupKey predicate => exact exists_applyRules hc _
  | insert outputSchema child tableOid ih => exact hone (.insert outputSchema · tableOid) ih
  | delete outputSchema child tableOid ih => exact hone (.delete outputSchema · tableOid) ih
  | update outputSchema child tableOid updateExprs ih =>
    exact hone (.update outputSchema · tableOid updateExprs) ih
  | nestedLoopJoin outputSchema left right predicate ihleft ihright =>
    exact htwo (.nestedLoopJoin outputSchema · · predicate) ihleft ihright
  | hashJoin outputSchema left right leftKeyExpr rightKeyExpr ihleft ihright =>
    exact htwo (.hashJoin outputSchema · · leftKeyExpr rightKeyExpr) ihleft ihright
  | aggregation outputSchema child groupBys aggregates aggTypes ih =>
    exact hone (.aggregation outputSchema · groupBys aggregates aggTypes) ih
  | sort outputSchema child orderBys ih => exact hone (.sort outputSchema · orderBys) ih
  | limit outputSchema child n ih => exact hone (.limit outputSchema · n) ih
  | projection outputSchema child expressions ih =>
    exact hone (.projection outputSchema · expressions) ih
  | utility => exact exists_applyRules hc _

/-- The optimizer neither introduces nor removes a `nullptr`. -/
lemma isWhole_optimize {plan plan' : PlanNode} (h : optimize (some catalog) plan = pure plan') :
    plan'.isWhole = plan.isWhole := by
  induction plan generalizing plan' with
  | null => cases h
  | seqScan | indexScan | utility => exact isWhole_applyRules h
  | insert _ _ _ ih | delete _ _ _ ih | update _ _ _ _ ih | aggregation _ _ _ _ _ ih
  | sort _ _ _ ih | limit _ _ _ ih | projection _ _ _ ih =>
    obtain ⟨child', hchild, hrules⟩ := Cpp.bind_eq_pure.1 h
    rw [isWhole_applyRules hrules]
    simp only [PlanNode.isWhole, ih hchild]
  | nestedLoopJoin _ _ _ _ ihleft ihright | hashJoin _ _ _ _ _ ihleft ihright =>
    obtain ⟨left', hleft, h⟩ := Cpp.bind_eq_pure.1 h
    obtain ⟨right', hright, hrules⟩ := Cpp.bind_eq_pure.1 h
    rw [isWhole_applyRules hrules]
    simp only [PlanNode.isWhole, ihleft hleft, ihright hright]

end Optimize

end OneBase
