import OneBase.Execution.Typing
import OneBase.Optimizer.Optimizer

set_option relaxedAutoImplicit false
set_option autoImplicit false

/-!
# The optimizer on whole plans

`Optimize` goes through a plan from its leaves on. Where it replaces no scan, it turns joins into
hash joins, at any depth. The rows of the children of a join must have keys of one type, and since a
hash join starts its right child even if there is nothing on the left, that child must have rows to
give. A plan may be replaced in a larger one by a plan that denotes at least the same.

## Main definitions

* `OneBase.PlanNode.RefinedBy` — a plan that denotes what another one denotes.
* `OneBase.PlanNode.KeepsScans` — no scan of the plan is replaced.
* `OneBase.PlanNode.KeysFit` — the joins that are replaced have keys.

## Main results

* `OneBase.RefinedBy.nestedLoopJoin` and so on — the operators are monotone.
* `OneBase.hashJoinTuples_eq` — the two joins on given rows.
* `OneBase.refinedBy_optimize` — the optimized plan denotes exactly what the plan denotes.
* `OneBase.completes_optimize` — and the engine returns it.
-/

namespace OneBase

open Exec

/-- The other plan has the same columns, and denotes the rows that this one denotes. -/
def PlanNode.RefinedBy (std : StandardLibrary) (ctx : ExecutorContext) (plan plan' : PlanNode) :
    Prop :=
  plan'.getOutputSchema = plan.getOutputSchema ∧
    ∀ rows done, DenotesRows std ctx plan rows done → DenotesRows std ctx plan' rows done

/-- `OptimizeSeqScanToIndexScan` leaves the scans of the plan as they are. -/
def PlanNode.KeepsScans (catalog : Option Catalog) : PlanNode → Prop
  | .seqScan out oid predicate =>
    optimizeSeqScanToIndexScan catalog (.seqScan out oid predicate) =
      pure (.seqScan out oid predicate)
  | .nestedLoopJoin _ left right _ | .hashJoin _ left right _ _ =>
    left.KeepsScans catalog ∧ right.KeepsScans catalog
  | .aggregation _ child _ _ _ | .sort _ child _ | .limit _ child _ | .projection _ child _ =>
    child.KeepsScans catalog
  | _ => True

/-- The plan denotes rows, and each of them has a key of this type. -/
def KeyedBy (std : StandardLibrary) (ctx : ExecutorContext) (plan : PlanNode)
    (keyExpr : Expression) (type : TypeId) : Prop :=
  ∃ rows, DenotesRows std ctx plan rows true ∧ ∀ row ∈ rows, ∃ v,
    keyExpr.evaluate row.1 plan.getOutputSchema = pure v ∧ v.HasType type

/-- Where a join is replaced, the rows of its children have keys of one type. -/
def PlanNode.KeysFit (std : StandardLibrary) (ctx : ExecutorContext) : PlanNode → Prop
  | .nestedLoopJoin _ left right predicate =>
    left.KeysFit std ctx ∧ right.KeysFit std ctx ∧
      ∀ leftKeyExpr rightKeyExpr, joinKeys predicate = some (leftKeyExpr, rightKeyExpr) →
        ∃ type, Value.IsKeyType type ∧ KeyedBy std ctx left leftKeyExpr type ∧
          KeyedBy std ctx right rightKeyExpr type
  | .hashJoin _ left right _ _ => left.KeysFit std ctx ∧ right.KeysFit std ctx
  | .aggregation _ child _ _ _ | .sort _ child _ | .limit _ child _ | .projection _ child _ =>
    child.KeysFit std ctx
  | _ => True

/-! ## Refinement -/

namespace PlanNode.RefinedBy

variable {std : StandardLibrary} {ctx : ExecutorContext} {out : Schema}
  {plan child child' left left' right right' : PlanNode}
  {predicate leftKeyExpr rightKeyExpr : Expression}
  {groupBys aggregates expressions : List Expression} {aggTypes : List AggregationType}
  {orderBys : List (Bool × Expression)} {n : ℕ}

/-- A plan refines itself. -/
lemma refl (plan : PlanNode) : RefinedBy std ctx plan plan := ⟨rfl, fun _ _ h => h⟩

/-- A refinement of a refinement is one. -/
lemma trans {plan' plan'' : PlanNode} (h : RefinedBy std ctx plan plan')
    (h' : RefinedBy std ctx plan' plan'') : RefinedBy std ctx plan plan'' :=
  ⟨h'.1.trans h.1, fun rows done hrows => h'.2 rows done (h.2 rows done hrows)⟩

/-- A nested-loop join of refined children. -/
lemma nestedLoopJoin (hl : RefinedBy std ctx left left') (hr : RefinedBy std ctx right right') :
    RefinedBy std ctx (.nestedLoopJoin out left right predicate)
      (.nestedLoopJoin out left' right' predicate) := by
  refine ⟨rfl, fun rows done h => ?_⟩
  cases h with
  | nestedLoopJoin hleft hright htuples hrows =>
    rw [← hl.1, ← hr.1] at htuples
    exact .nestedLoopJoin (hl.2 _ _ hleft) (fun hne => hr.2 _ _ (hright hne)) htuples hrows

/-- A hash join of refined children. -/
lemma hashJoin (hl : RefinedBy std ctx left left') (hr : RefinedBy std ctx right right') :
    RefinedBy std ctx (.hashJoin out left right leftKeyExpr rightKeyExpr)
      (.hashJoin out left' right' leftKeyExpr rightKeyExpr) := by
  refine ⟨rfl, fun rows done h => ?_⟩
  cases h with
  | hashJoin hleft hright htuples hrows =>
    rw [← hl.1, ← hr.1] at htuples
    exact .hashJoin (hl.2 _ _ hleft) (hr.2 _ _ hright) htuples hrows

/-- An aggregation of a refined child. -/
lemma aggregation (hc : RefinedBy std ctx child child') :
    RefinedBy std ctx (.aggregation out child groupBys aggregates aggTypes)
      (.aggregation out child' groupBys aggregates aggTypes) := by
  refine ⟨rfl, fun rows done h => ?_⟩
  cases h with
  | aggregation hchild htuples hrows =>
    rw [← hc.1] at htuples
    exact .aggregation (hc.2 _ _ hchild) htuples hrows

/-- A sort of a refined child. -/
lemma sort (hc : RefinedBy std ctx child child') :
    RefinedBy std ctx (.sort out child orderBys) (.sort out child' orderBys) := by
  refine ⟨rfl, fun rows done h => ?_⟩
  cases h with
  | sort hchild htuples hrows =>
    rw [← hc.1] at htuples
    exact .sort (hc.2 _ _ hchild) htuples hrows

/-- A limit of a refined child. -/
lemma limit (hc : RefinedBy std ctx child child') :
    RefinedBy std ctx (.limit out child n) (.limit out child' n) := by
  refine ⟨rfl, fun rows done h => ?_⟩
  cases h with
  | limit hchild hle hdone => exact .limit (hc.2 _ _ hchild) hle hdone

/-- A projection of a refined child. -/
lemma projection (hc : RefinedBy std ctx child child') :
    RefinedBy std ctx (.projection out child expressions) (.projection out child' expressions) := by
  refine ⟨rfl, fun rows done h => ?_⟩
  cases h with
  | projection hchild hrows =>
    rw [← hc.1] at hrows
    exact .projection (hc.2 _ _ hchild) hrows

end PlanNode.RefinedBy

/-! ## The two joins -/

section Joins

variable {L R : List Row} {predicate leftKeyExpr rightKeyExpr : Expression}
  {leftSchema rightSchema : Schema} {leftTuple rightTuple : Tuple} {v w : Value} {type : TypeId}

/-- The predicate of a join that is replaced compares the texts of two keys of one type. -/
lemma accepts_eq_of_hasType (hkeys : joinKeys predicate = some (leftKeyExpr, rightKeyExpr))
    (htype : Value.IsKeyType type) (hl : leftKeyExpr.evaluate leftTuple leftSchema = pure v)
    (hv : v.HasType type) (hr : rightKeyExpr.evaluate rightTuple rightSchema = pure w)
    (hw : w.HasType type) :
    accepts predicate (fun e => e.evaluateJoin leftTuple leftSchema rightTuple rightSchema) =
      pure (decide (v.toBytes = w.toBytes)) := by
  have hvkey : Value.IsKeyType v.getTypeId := by rwa [hv.1]
  have hwkey : Value.IsKeyType w.getTypeId := by rwa [hw.1]
  have hreturns : ∃ b, accepts predicate (fun e =>
      e.evaluateJoin leftTuple leftSchema rightTuple rightSchema) = pure b := by
    obtain ⟨lCol, lType, rCol, rType, rfl, rfl, rfl | rfl⟩ := joinKeys_eq hkeys
    · change leftTuple.getValueAt leftSchema lCol = pure v at hl
      change rightTuple.getValueAt rightSchema rCol = pure w at hr
      refine ⟨decide (v.payload = w.payload), ?_⟩
      simp [accepts, Expression.evaluateJoin, Expression.evaluateWith, ComparisonType.perform, hl,
        hr, Value.compareEquals_eq (hv.1.trans hw.1.symm) hvkey, Expression.holds, Value.ofBool,
        Value.getAsBoolean]
    · change leftTuple.getValueAt leftSchema lCol = pure v at hl
      change rightTuple.getValueAt rightSchema rCol = pure w at hr
      refine ⟨decide (w.payload = v.payload), ?_⟩
      simp [accepts, Expression.evaluateJoin, Expression.evaluateWith, ComparisonType.perform, hl,
        hr, Value.compareEquals_eq (hw.1.trans hv.1.symm) hwkey, Expression.holds, Value.ofBool,
        Value.getAsBoolean]
  obtain ⟨b, hb⟩ := hreturns
  rw [hb, accepts_joinKeys hkeys hl hv.2 hvkey hr hw.2 hwkey hb]

/-- The inner loop goes through the rows that have the key of the left row. -/
lemma foldlM_joinPair_eq {text : Row → List UInt8} {key : List UInt8} (acc : List Tuple)
    (haccepts : ∀ row ∈ R, accepts predicate (fun e =>
      e.evaluateJoin leftTuple leftSchema row.1 rightSchema) = pure (decide (text row = key))) :
    R.foldlM (joinPair predicate leftSchema rightSchema leftTuple) acc =
      (rowsWithKey text R key).foldlM (fun acc rightTuple => do
        let out ← joinRow leftSchema rightSchema leftTuple rightTuple
        pure (acc ++ [out])) acc := by
  induction R generalizing acc with
  | nil => rfl
  | cons row R ih =>
    have htail := fun acc => ih acc fun r hr => haccepts r (List.mem_cons_of_mem _ hr)
    rw [List.foldlM_cons, joinPair, haccepts row List.mem_cons_self, pure_bind]
    by_cases hkey : text row = key
    · have hrows : rowsWithKey text (row :: R) key = row.1 :: rowsWithKey text R key := by
        simp [rowsWithKey, hkey]
      rw [hrows, List.foldlM_cons, decide_eq_true hkey, if_pos rfl]
      congr 1
      funext acc
      exact htail acc
    · have hrows : rowsWithKey text (row :: R) key = rowsWithKey text R key := by
        simp [rowsWithKey, hkey]
      rw [hrows, decide_eq_false hkey, if_neg Bool.false_ne_true, pure_bind]
      exact htail acc

/-- On rows with keys of one type, the two joins are the same computation. -/
lemma hashJoinTuples_eq (hkeys : joinKeys predicate = some (leftKeyExpr, rightKeyExpr))
    (htype : Value.IsKeyType type)
    (hL : ∀ row ∈ L, ∃ v, leftKeyExpr.evaluate row.1 leftSchema = pure v ∧ v.HasType type)
    (hR : ∀ row ∈ R, ∃ v, rightKeyExpr.evaluate row.1 rightSchema = pure v ∧ v.HasType type) :
    hashJoinTuples leftKeyExpr rightKeyExpr leftSchema rightSchema L R =
      nestedLoopTuples predicate leftSchema rightSchema L R := by
  choose! lv hlv hltype using hL
  choose! rv hrv hrtype using hR
  have hrtext : ∀ row ∈ R, hashKey rightKeyExpr rightSchema row.1 = pure (rv row).toBytes := by
    intro row hrow
    rw [hashKey, hrv row hrow, pure_bind]
  have hbuild : R.foldlM (buildRow rightKeyExpr rightSchema) (fun _ => []) =
      pure (rowsWithKey (fun row => (rv row).toBytes) R) := foldlM_buildRow hrtext
  rw [hashJoinTuples, hbuild, pure_bind, nestedLoopTuples]
  generalize ([] : List Tuple) = acc
  induction L generalizing acc with
  | nil => rfl
  | cons l L ih =>
    have hl := hlv l List.mem_cons_self
    have hinner : probeRow leftKeyExpr leftSchema rightSchema
        (rowsWithKey (fun row => (rv row).toBytes) R) acc l =
          R.foldlM (joinPair predicate leftSchema rightSchema l.1) acc := by
      rw [probeRow, hashKey, hl, pure_bind, pure_bind]
      refine (foldlM_joinPair_eq acc fun r hr => ?_).symm
      rw [accepts_eq_of_hasType hkeys htype hl (hltype l List.mem_cons_self) (hrv r hr)
        (hrtype r hr)]
      exact congrArg pure (decide_eq_decide.2 eq_comm)
    rw [List.foldlM_cons, List.foldlM_cons, hinner]
    congr 1
    funext acc
    exact ih (fun row hrow => hlv row (List.mem_cons_of_mem l hrow))
      (fun row hrow => hltype row (List.mem_cons_of_mem l hrow)) acc

end Joins

/-! ## The rules -/

section Rules

variable {catalog : Option Catalog} {plan plan' child left left' right right' : PlanNode}
  {std : StandardLibrary} {ctx ctx' : ExecutorContext} {out : Schema} {rows : List Row}
  {predicate keyExpr : Expression}

/-- A plan that is neither a scan nor a join is left alone. -/
lemma applyRules_eq (hscan : optimizeSeqScanToIndexScan catalog plan = pure plan)
    (hjoin : optimizeNLJToHashJoin plan = plan) : applyRules catalog plan = pure plan := by
  rw [applyRules, hscan, pure_bind, hjoin]

/-- Only scans are replaced by index scans. -/
lemma optimizeSeqScanToIndexScan_of_ne
    (h : ∀ out oid predicate, plan ≠ .seqScan out oid predicate) :
    optimizeSeqScanToIndexScan catalog plan = pure plan := by
  unfold optimizeSeqScanToIndexScan
  split
  · exact absurd rfl (h _ _ _)
  · rfl

/-- The rows of a well-typed plan have the keys that it can compute. -/
lemma keyedBy_of_wellTyped (htyped : plan.wellTyped ctx.catalog = true)
    (hkey : keyExpr.checks (rowScope plan.getOutputSchema.types) = true)
    (harith : keyExpr.hasArithmetic = false) (h : DenotesRows std ctx plan rows true) :
    KeyedBy std ctx plan keyExpr keyExpr.getReturnType :=
  ⟨rows, h, fun row hrow =>
    Expression.exists_value (h.hasTypes htyped row hrow) _ hkey harith⟩

/-- A join and what the optimizer makes of it refine each other. -/
lemma refinedBy_optimizeNLJToHashJoin
    (hkeys : ∀ leftKeyExpr rightKeyExpr, joinKeys predicate = some (leftKeyExpr, rightKeyExpr) →
      ∃ type, Value.IsKeyType type ∧ KeyedBy std ctx left leftKeyExpr type ∧
        KeyedBy std ctx right rightKeyExpr type) :
    PlanNode.RefinedBy std ctx (.nestedLoopJoin out left right predicate)
        (optimizeNLJToHashJoin (.nestedLoopJoin out left right predicate)) ∧
      PlanNode.RefinedBy std ctx (optimizeNLJToHashJoin (.nestedLoopJoin out left right predicate))
        (.nestedLoopJoin out left right predicate) := by
  cases hjoin : joinKeys predicate with
  | none =>
    rw [optimizeNLJToHashJoin, hjoin]
    exact ⟨.refl _, .refl _⟩
  | some keys =>
    obtain ⟨leftKeyExpr, rightKeyExpr⟩ := keys
    obtain ⟨type, htype, ⟨L, hL, hLkeys⟩, ⟨R, hR, hRkeys⟩⟩ := hkeys _ _ hjoin
    have heq := hashJoinTuples_eq hjoin htype hLkeys hRkeys
    rw [optimizeNLJToHashJoin, hjoin]
    refine ⟨⟨rfl, fun rows done h => ?_⟩, ⟨rfl, fun rows done h => ?_⟩⟩
    · cases h with
      | @nestedLoopJoin _ _ _ _ L' R' _ tuples _ hl hr htuples hrows =>
        obtain rfl := hl.unique hL
        refine .hashJoin hL hR (heq.trans ?_) hrows
        -- The right rows matter only if there is a row on the left.
        by_cases hne : L' = []
        · subst hne
          exact htuples
        · rw [← (hr hne).unique hR]
          exact htuples
    · cases h with
      | hashJoin hl hr htuples hrows =>
        obtain rfl := hl.unique hL
        obtain rfl := hr.unique hR
        exact .nestedLoopJoin hL (fun _ => hR) (heq.symm.trans htuples) hrows

/-- The keys of a refined plan have the type of the keys of the plan. -/
lemma KeyedBy.of_refinedBy {type : TypeId} (h : KeyedBy std ctx plan keyExpr type)
    (hplan : PlanNode.RefinedBy std ctx plan plan') : KeyedBy std ctx plan' keyExpr type := by
  obtain ⟨rows, hrows, hkeys⟩ := h
  refine ⟨rows, hplan.2 rows true hrows, ?_⟩
  rw [hplan.1]
  exact hkeys

/-- **The optimizer preserves meaning.** Where it replaces no scan, and the joins that it replaces
have keys, the optimized plan denotes exactly what the plan denotes, for plans of any shape.

**Proof sketch.** Induction on the plan. The children and what the optimizer makes of them refine
each other by the induction hypothesis, and so do the operators on them. -/
lemma refinedBy_optimize (hplan : plan.isQuery = true) (hscans : plan.KeepsScans catalog)
    (hkeys : plan.KeysFit std ctx) (hopt : optimize catalog plan = pure plan') :
    plan'.isQuery = true ∧ PlanNode.RefinedBy std ctx plan plan' ∧
      PlanNode.RefinedBy std ctx plan' plan := by
  induction plan generalizing plan' with
  | seqScan out oid predicate =>
    change applyRules catalog (.seqScan out oid predicate) = pure plan' at hopt
    rw [applyRules_eq hscans rfl] at hopt
    cases hopt
    exact ⟨rfl, .refl _, .refl _⟩
  | indexScan out oid indexOid lookupKey predicate =>
    change applyRules catalog (.indexScan out oid indexOid lookupKey predicate) = pure plan' at hopt
    rw [applyRules_eq (optimizeSeqScanToIndexScan_of_ne (by simp)) rfl] at hopt
    cases hopt
    exact ⟨rfl, .refl _, .refl _⟩
  | nestedLoopJoin out left right predicate ihl ihr =>
    obtain ⟨hl, hr⟩ := (Bool.and_eq_true _ _).mp hplan
    obtain ⟨hfitl, hfitr, hjoin⟩ := hkeys
    obtain ⟨left', hleft, hopt⟩ := Cpp.bind_eq_pure.1 hopt
    obtain ⟨right', hright, hopt⟩ := Cpp.bind_eq_pure.1 hopt
    obtain ⟨hl', hL, hL'⟩ := ihl hl hscans.1 hfitl hleft
    obtain ⟨hr', hR, hR'⟩ := ihr hr hscans.2 hfitr hright
    rw [applyRules, optimizeSeqScanToIndexScan_of_ne (by simp), pure_bind] at hopt
    cases hopt
    obtain ⟨hto, hfrom⟩ := @refinedBy_optimizeNLJToHashJoin left' right' std ctx out predicate
      fun leftKeyExpr rightKeyExpr hexprs => by
        obtain ⟨type, htype, hlkey, hrkey⟩ := hjoin leftKeyExpr rightKeyExpr hexprs
        exact ⟨type, htype, hlkey.of_refinedBy hL, hrkey.of_refinedBy hR⟩
    refine ⟨?_, (PlanNode.RefinedBy.nestedLoopJoin hL hR).trans hto,
      hfrom.trans (.nestedLoopJoin hL' hR')⟩
    unfold optimizeNLJToHashJoin
    simp only
    split <;> exact (Bool.and_eq_true _ _).mpr ⟨hl', hr'⟩
  | hashJoin out left right leftKey rightKey ihl ihr =>
    obtain ⟨hl, hr⟩ := (Bool.and_eq_true _ _).mp hplan
    obtain ⟨left', hleft, hopt⟩ := Cpp.bind_eq_pure.1 hopt
    obtain ⟨right', hright, hopt⟩ := Cpp.bind_eq_pure.1 hopt
    obtain ⟨hl', hL, hL'⟩ := ihl hl hscans.1 hkeys.1 hleft
    obtain ⟨hr', hR, hR'⟩ := ihr hr hscans.2 hkeys.2 hright
    rw [applyRules_eq (optimizeSeqScanToIndexScan_of_ne (by simp)) rfl] at hopt
    cases hopt
    exact ⟨(Bool.and_eq_true _ _).mpr ⟨hl', hr'⟩, .hashJoin hL hR, .hashJoin hL' hR'⟩
  | aggregation out child groupBys aggregates aggTypes ih =>
    obtain ⟨child', hchild, hopt⟩ := Cpp.bind_eq_pure.1 hopt
    obtain ⟨hc', hC, hC'⟩ := ih hplan hscans hkeys hchild
    rw [applyRules_eq (optimizeSeqScanToIndexScan_of_ne (by simp)) rfl] at hopt
    cases hopt
    exact ⟨hc', .aggregation hC, .aggregation hC'⟩
  | sort out child orderBys ih =>
    obtain ⟨child', hchild, hopt⟩ := Cpp.bind_eq_pure.1 hopt
    obtain ⟨hc', hC, hC'⟩ := ih hplan hscans hkeys hchild
    rw [applyRules_eq (optimizeSeqScanToIndexScan_of_ne (by simp)) rfl] at hopt
    cases hopt
    exact ⟨hc', .sort hC, .sort hC'⟩
  | limit out child n ih =>
    obtain ⟨child', hchild, hopt⟩ := Cpp.bind_eq_pure.1 hopt
    obtain ⟨hc', hC, hC'⟩ := ih hplan hscans hkeys hchild
    rw [applyRules_eq (optimizeSeqScanToIndexScan_of_ne (by simp)) rfl] at hopt
    cases hopt
    exact ⟨hc', .limit hC, .limit hC'⟩
  | projection out child expressions ih =>
    obtain ⟨child', hchild, hopt⟩ := Cpp.bind_eq_pure.1 hopt
    obtain ⟨hc', hC, hC'⟩ := ih hplan hscans hkeys hchild
    rw [applyRules_eq (optimizeSeqScanToIndexScan_of_ne (by simp)) rfl] at hopt
    cases hopt
    exact ⟨hc', .projection hC, .projection hC'⟩
  | null | insert | delete | update | utility => cases hplan

/-- The engine returns the same rows, in the same order, for a plan and for what the optimizer makes
of it, or for neither. -/
theorem completes_optimize (hplan : plan.isQuery = true) (hctx : ctx.Scannable)
    (hscans : plan.KeepsScans catalog) (hkeys : plan.KeysFit std ctx)
    (hopt : optimize catalog plan = pure plan') (result : List Tuple) :
    Completes std plan ctx result ctx' ↔ Completes std plan' ctx result ctx' := by
  obtain ⟨hplan', hto, hfrom⟩ := refinedBy_optimize hplan hscans hkeys hopt
  rw [completes_iff_exists_denotes hplan hctx, completes_iff_exists_denotes hplan' hctx]
  refine and_congr_right fun _ => exists_congr fun rows => and_congr_left fun _ => ?_
  exact ⟨hto.2 rows true, hfrom.2 rows true⟩

end Rules

/-- The scan of a table of integers. -/
def smallScan : PlanNode := .seqScan (smallTable ["x"]).schema 1 .null

/-- The join of the table with itself on `x = x`. -/
def selfJoin : PlanNode :=
  .nestedLoopJoin (smallTable ["x", "y"]).schema smallScan smallScan
    (.comparison (.columnValue 0 0 .integer) (.columnValue 1 0 .integer) .equal)

/-- It is replaced by a hash join, which returns what it returns. -/
theorem completes_optimize_selfJoin :
    ∃ result, Completes default selfJoin (smallContext ["x"] [[1], [2]] none) result
        (smallContext ["x"] [[1], [2]] none) ∧
      Completes default
        (.hashJoin (smallTable ["x", "y"]).schema smallScan smallScan (.columnValue 0 0 .integer)
          (.columnValue 0 0 .integer)) (smallContext ["x"] [[1], [2]] none) result
        (smallContext ["x"] [[1], [2]] none) := by
  have hctx : (smallContext ["x"] [[1], [2]] none).Scannable :=
    scannable_smallContext (by decide) (by decide)
  have hokScan : (runIn (executePlan default 5 smallScan)
      (smallContext ["x"] [[1], [2]] none)).map (fun r => r.1.isOk) = some true := by
    decide +kernel
  have hokJoin : (runIn (executePlan default 5 selfJoin)
      (smallContext ["x"] [[1], [2]] none)).map (fun r => r.1.isOk) = some true := by
    decide +kernel
  obtain ⟨rows, hrows⟩ := exists_denotes_of_isOk rfl hctx hokScan
  obtain ⟨out, hout⟩ := exists_denotes_of_isOk rfl hctx hokJoin
  have hkeyed := keyedBy_of_wellTyped
    (show smallScan.wellTyped (smallContext ["x"] [[1], [2]] none).catalog = true by decide)
    (show (Expression.columnValue 0 0 .integer).checks _ = true by decide) rfl hrows
  have hfit : selfJoin.KeysFit default (smallContext ["x"] [[1], [2]] none) := by
    refine ⟨trivial, trivial, fun leftKeyExpr rightKeyExpr hkeys => ?_⟩
    cases hkeys
    exact ⟨_, .inl rfl, hkeyed, hkeyed⟩
  have hscans : selfJoin.KeepsScans none := ⟨rfl, rfl⟩
  have hcompletes : Completes default selfJoin (smallContext ["x"] [[1], [2]] none)
      (out.map Prod.fst) (smallContext ["x"] [[1], [2]] none) := hout.completes
  exact ⟨_, hcompletes, (completes_optimize rfl hctx hscans hfit rfl _).1 hcompletes⟩

end OneBase
