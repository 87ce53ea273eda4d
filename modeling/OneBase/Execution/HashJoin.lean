import OneBase.Execution.Results
import OneBase.Optimizer.Optimizer

set_option relaxedAutoImplicit false
set_option autoImplicit false

/-!
# The hash join does what the nested-loop join does

Both joins are folds over the rows of their children. A pair of rows passes the predicate iff the
texts of its keys are equal, so the rows that the hash table holds for a key are those that the
inner loop finds, in the same order.

## Main definitions

* `OneBase.HasKey` — a row whose key is not null and has a type with faithful texts.

## Main results

* `OneBase.returns_nestedLoopJoin`, `OneBase.returns_hashJoin` — the joins as folds.
* `OneBase.hashJoin_of_nestedLoopJoin` — the rewrite of a nested-loop join to a hash join.
-/

namespace OneBase

open Exec

/-- The key of the row is not null, and an `INTEGER`, a `BOOLEAN` or a `VARCHAR`. -/
def HasKey (keyExpr : Expression) (schema : Schema) (tuple : Tuple) : Prop :=
  ∃ v, keyExpr.evaluate tuple schema = pure v ∧ v.isNull = false ∧ Value.IsKeyType v.getTypeId

section Joins

variable {outputSchema : Schema} {left right : Executor} {ctx ctx' : ExecutorContext}
  {L R : List Row} {predicate leftKeyExpr rightKeyExpr : Expression} {fuel : ℕ}
  {rows : List Tuple}

/-- The inner loop is a fold over the right rows. -/
lemma returns_innerLoop (hright : right.Yields ctx R) {leftSchema : Schema} {row : Row}
    {acc acc' : right.State × List Tuple}
    (h : Returns (innerLoop fuel predicate leftSchema right acc row) ctx acc' ctx') :
    ctx' = ctx ∧
      R.foldlM (joinPair predicate leftSchema right.outputSchema row.1) acc.2 = pure acc'.2 := by
  obtain ⟨rs, rs', hinit, hemits⟩ := hright acc.1
  obtain ⟨st, c, hst, hloop⟩ := returns_bind.1 h
  obtain ⟨rfl, rfl⟩ := hst.unique hinit
  obtain ⟨-, -, rfl, hfold⟩ := (forEachRow_ofCpp hemits).1 hloop
  exact ⟨rfl, hfold⟩

/-- The outer loop is a fold over the left rows. -/
lemma returns_outerLoop (hright : right.Yields ctx R) {leftSchema : Schema}
    {acc acc' : right.State × List Tuple}
    (h : Returns (L.foldlM (innerLoop fuel predicate leftSchema right) acc) ctx acc' ctx') :
    L.foldlM (fun acc l => R.foldlM (joinPair predicate leftSchema right.outputSchema l.1) acc)
      acc.2 = pure acc'.2 := by
  induction L generalizing acc with
  | nil =>
    obtain ⟨rfl, -⟩ := returns_pure.1 h
    rfl
  | cons l L ih =>
    rw [List.foldlM_cons] at h ⊢
    obtain ⟨mid, c, hinner, hrest⟩ := returns_bind.1 h
    obtain ⟨rfl, hfold⟩ := returns_innerLoop hright hinner
    exact Cpp.bind_eq_pure.2 ⟨mid.2, hfold, ih hrest⟩

/-- The nested-loop join is a fold over the pairs of rows. -/
lemma returns_nestedLoopJoin (hleft : left.Yields ctx L) (hright : right.Yields ctx R)
    (h : Returns (execute fuel (nestedLoopJoinExecutor fuel outputSchema left right predicate)) ctx
      rows ctx') :
    ctx' = ctx ∧ L.foldlM (fun acc l =>
      R.foldlM (joinPair predicate left.outputSchema right.outputSchema l.1) acc) [] =
        pure rows := by
  have hcursor : ∀ st c, Returns ((nestedLoopJoinExecutor fuel outputSchema left right
      predicate).init (nestedLoopJoinExecutor fuel outputSchema left right predicate).fresh)
      ctx st c → st.cursor = 0 := by
    intro st c hst
    obtain ⟨ls, c₁, -, hst⟩ := returns_bind.1 hst
    obtain ⟨⟨ls', rs', rows'⟩, c₂, -, hst⟩ := returns_bind.1 hst
    obtain ⟨rfl, -⟩ := returns_pure.1 hst
    rfl
  obtain ⟨st, hinit, -, rfl⟩ := (returns_execute_nextResult hcursor).1 h
  obtain ⟨ls, ls', hlinit, hlemits⟩ := hleft left.fresh
  obtain ⟨ls₀, c₁, hls, hrest⟩ := returns_bind.1 hinit
  obtain ⟨rfl, rfl⟩ := hls.unique hlinit
  obtain ⟨⟨s, acc⟩, c₂, hloop, hpure⟩ := returns_bind.1 hrest
  obtain ⟨rfl, rfl⟩ := returns_pure.1 hpure
  have hbody : ∀ acc row b c, row ∈ L →
      Returns (innerLoop fuel predicate left.outputSchema right acc row) c₁ b c → c = c₁ :=
    fun acc row b c _ hret => (returns_innerLoop hright hret).1
  obtain ⟨-, -, rfl, hfold⟩ := (forEachRow_emits hlemits hbody).1 hloop
  exact ⟨rfl, returns_outerLoop hright hfold⟩

/-- The hash join builds its table from the right rows, and probes it with the left ones. -/
lemma returns_hashJoin (hleft : left.Yields ctx L) (hright : right.Yields ctx R)
    {table : HashTable}
    (hbuild : R.foldlM (buildRow rightKeyExpr right.outputSchema) (fun _ => []) = pure table)
    (hprobe : L.foldlM (probeRow leftKeyExpr left.outputSchema right.outputSchema table) [] =
      pure rows) (hL : L.length < fuel) (hR : R.length < fuel) (hrows : rows.length < fuel) :
    Returns (execute fuel
      (hashJoinExecutor fuel outputSchema left right leftKeyExpr rightKeyExpr)) ctx rows ctx := by
  unfold hashJoinExecutor
  rw [returns_execute_nextResult]
  · obtain ⟨ls, ls', hlinit, hlemits⟩ := hleft left.fresh
    obtain ⟨rs, rs', hrinit, hremits⟩ := hright right.fresh
    refine ⟨{ children := (ls', rs'), resultTuples := rows }, ?_, hrows, rfl⟩
    refine returns_bind.2 ⟨ls, ctx, hlinit, returns_bind.2 ⟨rs, ctx, hrinit, ?_⟩⟩
    refine returns_bind.2 ⟨(rs', table), ctx, ?_, ?_⟩
    · exact (forEachRow_ofCpp hremits).2 ⟨hR, rfl, rfl, hbuild⟩
    · refine returns_bind.2 ⟨(ls', rows), ctx, ?_, returns_pure.2 ⟨rfl, rfl⟩⟩
      exact (forEachRow_ofCpp hlemits).2 ⟨hL, rfl, rfl, hprobe⟩
  · intro st c hst
    obtain ⟨ls, c₁, -, hst⟩ := returns_bind.1 hst
    obtain ⟨rs, c₂, -, hst⟩ := returns_bind.1 hst
    obtain ⟨⟨rs', table'⟩, c₃, -, hst⟩ := returns_bind.1 hst
    obtain ⟨⟨ls', rows'⟩, c₄, -, hst⟩ := returns_bind.1 hst
    obtain ⟨rfl, -⟩ := returns_pure.1 hst
    rfl

/-! ## Equal keys -/

variable {v w : Value} {leftTuple rightTuple : Tuple} {leftSchema rightSchema : Schema} {b : Bool}

/-- An equality of two keys that returns compares their texts. -/
lemma holds_compareEquals (hv : v.isNull = false) (hw : w.isNull = false)
    (hkey : Value.IsKeyType v.getTypeId)
    (h : (do
      let value ← v.compareEquals w
      Expression.holds value) = (pure b : Cpp Bool)) :
    b = decide (v.toBytes = w.toBytes) := by
  obtain ⟨value, hvalue, hholds⟩ := Cpp.bind_eq_pure.1 h
  have htype := (Value.compareWith_returns hvalue).1
  rw [Value.compareEquals_eq htype hkey] at hvalue
  cases hvalue
  have hb : Expression.holds (Value.ofBool (decide (v.payload = w.payload))) =
      pure (decide (v.payload = w.payload)) := rfl
  rw [hb] at hholds
  have htext := Value.toBytes_inj htype hkey hv hw
  cases hholds
  exact decide_eq_decide.2 htext.symm

/-- A pair of rows that the predicate decides passes it iff the texts of its keys are equal. -/
lemma accepts_joinKeys (hkeys : joinKeys predicate = some (leftKeyExpr, rightKeyExpr))
    (hl : leftKeyExpr.evaluate leftTuple leftSchema = pure v) (hv : v.isNull = false)
    (hvkey : Value.IsKeyType v.getTypeId)
    (hr : rightKeyExpr.evaluate rightTuple rightSchema = pure w) (hw : w.isNull = false)
    (hwkey : Value.IsKeyType w.getTypeId)
    (h : accepts predicate (fun e => e.evaluateJoin leftTuple leftSchema rightTuple rightSchema) =
      pure b) :
    b = decide (v.toBytes = w.toBytes) := by
  obtain ⟨lCol, lType, rCol, rType, rfl, rfl, rfl | rfl⟩ := joinKeys_eq hkeys
  · change leftTuple.getValueAt leftSchema lCol = pure v at hl
    change rightTuple.getValueAt rightSchema rCol = pure w at hr
    have heval : accepts (.comparison (.columnValue 0 lCol lType) (.columnValue 1 rCol rType)
        .equal) (fun e => e.evaluateJoin leftTuple leftSchema rightTuple rightSchema) =
        (do
          let l ← leftTuple.getValueAt leftSchema lCol
          let r ← rightTuple.getValueAt rightSchema rCol
          let value ← l.compareEquals r
          Expression.holds value) := by
      simp [accepts, Expression.evaluateJoin, Expression.evaluateWith, ComparisonType.perform]
    rw [heval, hl, hr, pure_bind, pure_bind] at h
    exact holds_compareEquals hv hw hvkey h
  · change leftTuple.getValueAt leftSchema lCol = pure v at hl
    change rightTuple.getValueAt rightSchema rCol = pure w at hr
    have heval : accepts (.comparison (.columnValue 1 rCol rType) (.columnValue 0 lCol lType)
        .equal) (fun e => e.evaluateJoin leftTuple leftSchema rightTuple rightSchema) =
        (do
          let r ← rightTuple.getValueAt rightSchema rCol
          let l ← leftTuple.getValueAt leftSchema lCol
          let value ← r.compareEquals l
          Expression.holds value) := by
      simp [accepts, Expression.evaluateJoin, Expression.evaluateWith, ComparisonType.perform]
    rw [heval, hr, hl, pure_bind, pure_bind] at h
    rw [holds_compareEquals hw hv hwkey h]
    exact decide_eq_decide.2 eq_comm

/-! ## The rows under a key -/

variable {text : Row → List UInt8} {table : HashTable}

/-- The rows whose key has this text. -/
def rowsWithKey (text : Row → List UInt8) (rows : List Row) (key : List UInt8) : List Tuple :=
  (rows.filter fun row => decide (text row = key)).map Prod.fst

/-- The hash table files each row under the text of its key. -/
lemma foldlM_buildRow
    (htext : ∀ row ∈ R, hashKey rightKeyExpr rightSchema row.1 = pure (text row)) :
    R.foldlM (buildRow rightKeyExpr rightSchema) table =
      pure fun key => table key ++ rowsWithKey text R key := by
  induction R generalizing table with
  | nil => simp [rowsWithKey]
  | cons row R ih =>
    have hhead := htext row List.mem_cons_self
    have htail : ∀ row ∈ R, hashKey rightKeyExpr rightSchema row.1 = pure (text row) :=
      fun row hrow => htext row (List.mem_cons_of_mem _ hrow)
    rw [List.foldlM_cons, buildRow, hhead, pure_bind, pure_bind, ih htail]
    congr 1
    funext key
    by_cases hkey : text row = key
    · subst hkey
      simp [rowsWithKey]
    · simp [rowsWithKey, hkey, Ne.symm hkey]

/-- The inner loop joins the left row with the rows that have its key. -/
lemma foldlM_joinPair {key : List UInt8} {acc acc' : List Tuple}
    (haccepts : ∀ row ∈ R, ∀ b, accepts predicate (fun e =>
      e.evaluateJoin leftTuple leftSchema row.1 rightSchema) = pure b → b = decide (text row = key))
    (h : R.foldlM (joinPair predicate leftSchema rightSchema leftTuple) acc = pure acc') :
    (rowsWithKey text R key).foldlM (fun acc rightTuple => do
      let out ← joinRow leftSchema rightSchema leftTuple rightTuple
      pure (acc ++ [out])) acc = (pure acc' : Cpp (List Tuple)) := by
  induction R generalizing acc with
  | nil => exact h
  | cons row R ih =>
    rw [List.foldlM_cons] at h
    obtain ⟨mid, hmid, hrest⟩ := Cpp.bind_eq_pure.1 h
    obtain ⟨b, hb, hpair⟩ := Cpp.bind_eq_pure.1 hmid
    have htail := ih (fun row hrow => haccepts row (List.mem_cons_of_mem _ hrow)) hrest
    rw [haccepts row List.mem_cons_self b hb] at hpair
    by_cases hkey : text row = key
    · rw [decide_eq_true hkey, if_pos rfl] at hpair
      have hrows : rowsWithKey text (row :: R) key = row.1 :: rowsWithKey text R key := by
        simp [rowsWithKey, hkey]
      rw [hrows, List.foldlM_cons, hpair, pure_bind]
      exact htail
    · rw [decide_eq_false hkey, if_neg (by simp)] at hpair
      cases hpair
      have hrows : rowsWithKey text (row :: R) key = rowsWithKey text R key := by
        simp [rowsWithKey, hkey]
      rw [hrows]
      exact htail

/-- Where the nested loops give these rows, so does probing the table. -/
lemma foldlM_probeRow {leftText : Row → List UInt8}
    (hleft : ∀ row ∈ L, hashKey leftKeyExpr leftSchema row.1 = pure (leftText row))
    (haccepts : ∀ l ∈ L, ∀ r ∈ R, ∀ b, accepts predicate (fun e =>
      e.evaluateJoin l.1 leftSchema r.1 rightSchema) = pure b → b = decide (text r = leftText l))
    {acc acc' : List Tuple}
    (h : L.foldlM (fun acc l => R.foldlM (joinPair predicate leftSchema rightSchema l.1) acc) acc =
      pure acc') :
    L.foldlM (probeRow leftKeyExpr leftSchema rightSchema (rowsWithKey text R)) acc =
      pure acc' := by
  induction L generalizing acc with
  | nil => exact h
  | cons l L ih =>
    rw [List.foldlM_cons] at h ⊢
    obtain ⟨mid, hmid, hrest⟩ := Cpp.bind_eq_pure.1 h
    refine Cpp.bind_eq_pure.2 ⟨mid, ?_, ?_⟩
    · rw [probeRow, hleft l List.mem_cons_self, pure_bind]
      exact foldlM_joinPair (haccepts l List.mem_cons_self) hmid
    · exact ih (fun row hrow => hleft row (List.mem_cons_of_mem _ hrow))
        (fun l hl => haccepts l (List.mem_cons_of_mem _ hl)) hrest

/-- **The hash-join rewrite.** For a nested-loop join that the optimizer replaces, and children
whose rows all have a key that is not null and is an `INTEGER`, a `BOOLEAN` or a `VARCHAR`: when
the nested-loop join returns its rows, the hash join returns the same rows in the same order. -/
theorem hashJoin_of_nestedLoopJoin {leftPlan rightPlan : PlanNode}
    (hopt : optimizeNLJToHashJoin (.nestedLoopJoin outputSchema leftPlan rightPlan predicate) =
      .hashJoin outputSchema leftPlan rightPlan leftKeyExpr rightKeyExpr)
    (hleft : left.Yields ctx L) (hright : right.Yields ctx R)
    (hL : ∀ row ∈ L, HasKey leftKeyExpr left.outputSchema row.1)
    (hR : ∀ row ∈ R, HasKey rightKeyExpr right.outputSchema row.1)
    (h : Returns (execute fuel (nestedLoopJoinExecutor fuel outputSchema left right predicate)) ctx
      rows ctx') :
    ∃ fuel₀, ∀ n ≥ fuel₀, Returns (execute n
      (hashJoinExecutor n outputSchema left right leftKeyExpr rightKeyExpr)) ctx rows ctx' := by
  have hkeys : joinKeys predicate = some (leftKeyExpr, rightKeyExpr) := by
    rcases optimizeNLJToHashJoin_eq hopt with hcontra | ⟨p, hp, hkeys⟩
    · cases hcontra
    · obtain ⟨-, -, -, rfl⟩ := PlanNode.nestedLoopJoin.inj hp
      exact hkeys
  choose! lv hlv hlnull hlkey using hL
  choose! rv hrv hrnull hrkey using hR
  obtain ⟨rfl, hfold⟩ := returns_nestedLoopJoin hleft hright h
  have hltext : ∀ row ∈ L, hashKey leftKeyExpr left.outputSchema row.1 =
      pure (lv row).toBytes := by
    intro row hrow
    rw [hashKey, hlv row hrow, pure_bind]
  have hrtext : ∀ row ∈ R, hashKey rightKeyExpr right.outputSchema row.1 =
      pure (rv row).toBytes := by
    intro row hrow
    rw [hashKey, hrv row hrow, pure_bind]
  have hbuild : R.foldlM (buildRow rightKeyExpr right.outputSchema) (fun _ => []) =
      pure (rowsWithKey (fun row => (rv row).toBytes) R) := foldlM_buildRow hrtext
  have haccepts : ∀ l ∈ L, ∀ r ∈ R, ∀ b, accepts predicate (fun e =>
      e.evaluateJoin l.1 left.outputSchema r.1 right.outputSchema) = pure b →
        b = decide ((rv r).toBytes = (lv l).toBytes) := by
    intro l hl r hr b hb
    rw [accepts_joinKeys hkeys (hlv l hl) (hlnull l hl) (hlkey l hl) (hrv r hr) (hrnull r hr)
      (hrkey r hr) hb]
    exact decide_eq_decide.2 eq_comm
  have hprobe := foldlM_probeRow hltext haccepts hfold
  refine ⟨L.length + R.length + rows.length + 1, fun n hn => ?_⟩
  exact returns_hashJoin hleft hright hbuild hprobe (by omega) (by omega) (by omega)

end Joins

/-! ## A run -/

/-- The first column of a row of integers is an integer. -/
lemma hasKey_intRow (schema : Schema) (i : BitVec 32) :
    HasKey (.columnValue 0 0 .integer) schema (intRow i) :=
  ⟨Value.ofInt i, rfl, rfl, .inl rfl⟩

/-- The join of `1, 2` with `2, 2` on `right = left`. -/
theorem hashJoin_of_nestedLoopJoin_sample :
    ∃ fuel₀, ∀ n ≥ fuel₀, Returns (execute n
      (hashJoinExecutor n (Schema.new [])
        (rowsExecutor (Schema.new [.new "a" .integer]) [intRow 1, intRow 2])
        (rowsExecutor (Schema.new [.new "b" .integer]) [intRow 2, intRow 2])
        (.columnValue 0 0 .integer) (.columnValue 0 0 .integer))) {}
      [{ data := [2, 0, 0, 0, 2, 0, 0, 0], values := [Value.ofInt 2, Value.ofInt 2] },
        { data := [2, 0, 0, 0, 2, 0, 0, 0], values := [Value.ofInt 2, Value.ofInt 2] }] {} := by
  have hopt : optimizeNLJToHashJoin (.nestedLoopJoin (Schema.new []) .null .null
      (.comparison (.columnValue 1 0 .integer) (.columnValue 0 0 .integer) .equal)) =
      .hashJoin (Schema.new []) .null .null (.columnValue 0 0 .integer)
        (.columnValue 0 0 .integer) := rfl
  have hrun : Returns (execute 4 (nestedLoopJoinExecutor 4 (Schema.new [])
      (rowsExecutor (Schema.new [.new "a" .integer]) [intRow 1, intRow 2])
      (rowsExecutor (Schema.new [.new "b" .integer]) [intRow 2, intRow 2])
      (.comparison (.columnValue 1 0 .integer) (.columnValue 0 0 .integer) .equal))) {}
      [{ data := [2, 0, 0, 0, 2, 0, 0, 0], values := [Value.ofInt 2, Value.ofInt 2] },
        { data := [2, 0, 0, 0, 2, 0, 0, 0], values := [Value.ofInt 2, Value.ofInt 2] }] {} := rfl
  refine hashJoin_of_nestedLoopJoin hopt (yields_rowsExecutor _ _ _) (yields_rowsExecutor _ _ _)
    ?_ ?_ hrun
  · intro row hrow
    obtain ⟨tuple, htuple, rfl⟩ := List.mem_map.1 hrow
    rcases List.mem_cons.1 htuple with rfl | htuple
    · exact hasKey_intRow _ 1
    · obtain rfl := List.mem_singleton.1 htuple
      exact hasKey_intRow _ 2
  · intro row hrow
    obtain ⟨tuple, htuple, rfl⟩ := List.mem_map.1 hrow
    have htwo : tuple = intRow 2 := by simpa using htuple
    rw [htwo]
    exact hasKey_intRow _ 2

end OneBase
