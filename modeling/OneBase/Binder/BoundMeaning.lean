import OneBase.Binder.NamedMeaning
import OneBase.Execution.SmallTables

set_option relaxedAutoImplicit false
set_option autoImplicit false

/-!
# What a bound expression evaluates to

Over one table: the value of the bound expression on a row, against the value that SQL assigns to
the tree. They are the same iff the evaluation comes to no missing operand and to no overflow, and
the tree means the same when its operators are read by their names.

## Main definitions

* `OneBase.MeansSame` — the binding of a tree throws, or its evaluation does, or it returns what
  the tree means.

## Main results

* `OneBase.meansSame_iff_byName` — the trees that are bound to what they mean.
-/

namespace OneBase

/-- A value of the engine. -/
def SqlValue.ofValue (v : Value) : SqlValue := if v.isNull then .null else .datum v.payload

/-- What the columns of a table hold on a row, the first column of a name for the name. -/
def sqlColumn (scope : TableScope) (row : Tuple) (tableQualifier colName : String) :
    Option Payload :=
  if tableQualifier = "" ∨ tableQualifier = scope.tableAlias then
    (findColumn scope.info.schema colName).bind fun found =>
      (row.getValueAt scope.info.schema found.1).result.map Value.payload
  else none

/-- The columns of the row can be read: each has a value, which is not NULL, or the reading
throws. -/
def ReadsRow (schema : Schema) (row : Tuple) : Prop :=
  ∀ i < schema.getColumnCount, ∃ value, Yields value (row.getValueAt schema i)

section Trees

variable (stof : String → Cpp (BitVec 32)) (scope : TableScope) (row : Tuple)

/-- What the tree means on the row. -/
def sqlValue (node : Node) : Option SqlValue := sqlMeaning stof (sqlColumn scope row) node

/-- The binder refuses the tree, or the evaluation throws, or it returns what the tree means. -/
def MeansSame (node : Node) : Prop :=
  (∃ e, bindExpression stof [scope] node = throw e) ∨
    ∃ expr, bindExpression stof [scope] node = pure expr ∧
      ((∃ e, expr.evaluate row scope.info.schema = throw e) ∨
        ∃ v, expr.evaluate row scope.info.schema = pure v ∧
          sqlValue stof scope row node = some (.ofValue v))

end Trees

/-! ## Trees -/

section Trees

variable {stof : String → Cpp (BitVec 32)} {scope : TableScope} {row : Tuple} {node : Node}

/-- The binding of a name over one table. -/
lemma resolveColumn_single (colName tableQualifier : String) :
    resolveColumn colName tableQualifier [scope] =
      if tableQualifier = "" ∨ tableQualifier = scope.tableAlias then
        match findColumn scope.info.schema colName with
        | some (i, type) => pure (scope.tupleIdx, i, type)
        | none => resolveColumn colName tableQualifier []
      else resolveColumn colName tableQualifier [] := by
  by_cases hqualifier : tableQualifier = "" ∨ tableQualifier = scope.tableAlias
  · rw [if_pos hqualifier]
    exact if_neg (by tauto)
  · rw [if_neg hqualifier]
    exact if_pos (by tauto)

/-- No name is lost on a row whose columns can be read. -/
def noneLost (_ _ : String) : Prop := False

/-- Rows that come from a page have no NULLs. -/
lemma readsRow_of_values_eq_nil {schema : Schema} {row : Tuple} (hrow : row.values = [])
    (hread : ∀ i < schema.getColumnCount, row.getValueAt schema i ≠ Cpp.undefined) :
    ReadsRow schema row := by
  intro i hi
  have hdefined := hread i hi
  cases hvalue : row.getValueAt schema i with
  | none => exact absurd hvalue hdefined
  | some r =>
    cases r with
    | error e => exact ⟨none, e, rfl⟩
    | ok v =>
      refine ⟨some v.payload, ?_⟩
      have hnull : v.isNull = false := by
        unfold Tuple.getValueAt at hvalue
        rw [hrow, List.getElem?_nil] at hvalue
        cases hcolumn : schema.getColumn i with
        | none =>
          rw [hcolumn] at hvalue
          cases hvalue
        | some column =>
          rw [hcolumn] at hvalue
          exact Value.isNull_deserializeFrom hvalue
      obtain ⟨payload, isNull⟩ := v
      obtain rfl : isNull = false := hnull
      rfl

/-- Where the columns can be read, a name has the value of its column. -/
lemma readsNames_of_readsRow (hrow : ReadsRow scope.info.schema row) :
    ReadsNames [scope] (sqlColumn scope row) noneLost
      (fun _ colIdx => row.getValueAt scope.info.schema colIdx) := by
  intro colName tableQualifier
  refine .inr ⟨id, sqlColumn scope row tableQualifier colName, rfl, ?_⟩
  unfold sqlColumn
  rw [resolveColumn_single]
  split_ifs with hqualifier
  · cases hfound : findColumn scope.info.schema colName with
    | none => exact ⟨_, rfl⟩
    | some found =>
      obtain ⟨i, type⟩ := found
      obtain ⟨value, hvalue⟩ := hrow i (findColumn_spec hfound).1
      show Yields ((row.getValueAt scope.info.schema i).result.map Value.payload)
        (row.getValueAt scope.info.schema i)
      cases value with
      | none =>
        obtain ⟨e, he⟩ := hvalue
        rw [he]
        exact ⟨e, rfl⟩
      | some p =>
        rw [yields_some.1 hvalue]
        rfl
  · exact ⟨_, rfl⟩

/-- The binder misreads nothing that the grammar makes: every fault is an exception. -/
lemma Node.IsParsed.misread_notMem_faults (hnode : node.IsParsed) :
    Fault.misread ∉ node.faults stof [scope] := by
  have hrefused : ∀ b, Fault.misread ∉ refusedUnless b := by
    intro b
    cases b <;> simp [refusedUnless]
  induction hnode with
  | @columnRef names hnames =>
    rw [faults, columnRefFaults]
    rcases names with - | ⟨first, - | ⟨second, - | ⟨third, rest⟩⟩⟩
    · exact absurd rfl hnames
    · exact hrefused _
    · exact hrefused _
    · exact hrefused _
  | @starRef names =>
    rw [faults, columnRefFaults]
    rcases names with - | ⟨first, - | ⟨second, - | ⟨third, rest⟩⟩⟩
    · exact List.not_mem_nil
    · exact List.not_mem_nil
    · exact hrefused _
    · exact hrefused _
  | @constant val _ =>
    rw [faults]
    cases val with
    | float str => exact hrefused _
    | _ => simp [Constant.faults]
  | @aExpr kind opName names lexpr rexpr _ _ ihleft ihright =>
    have hoperand : ∀ operand : Node,
        (operand.isNull = false → Fault.misread ∉ operand.faults stof [scope]) →
          Fault.misread ∉ operand.faults stof [scope] := by
      intro operand ih
      cases operand with
      | null => simp [faults]
      | _ => exact ih rfl
    rw [faults, List.mem_append, List.mem_append, not_or, not_or]
    exact ⟨hoperand lexpr ihleft, hoperand rexpr ihright, hrefused _⟩
  | @boolExpr boolop arg args _ _ iharg ihargs =>
    have hargs : ∀ rest : List Node, (∀ x ∈ rest, Fault.misread ∉ x.faults stof [scope]) →
        Fault.misread ∉ argFaults stof [scope] rest := by
      intro rest hrest
      induction rest with
      | nil => simp [argFaults]
      | cons x rest ih =>
        rw [argFaults, List.mem_append, not_or]
        exact ⟨hrest x List.mem_cons_self, ih fun y hy => hrest y (List.mem_cons_of_mem x hy)⟩
    have hall := hargs (arg :: args) fun x hx => by
      rcases List.mem_cons.1 hx with rfl | hx
      · exact iharg
      · exact ihargs x hx
    cases boolop with
    | not => simp [faults]
    | _ =>
      rw [faults, List.isEmpty_cons, if_neg Bool.false_ne_true]
      exact hall
  | funcCall | aStar | other => simp [faults]

/-- A bound tree means the same iff it comes to no fault and its reading by names, unless it means
nothing, means what the tree means. -/
lemma EvaluatesAs.meansSame_iff {expr : Expression}
    (hbind : bindExpression stof [scope] node = pure expr)
    (h : EvaluatesAs stof (sqlColumn scope row) noneLost
      (fun _ colIdx => row.getValueAt scope.info.schema colIdx) node expr) :
    MeansSame stof scope row node ↔
      ¬ node.ReachesFault stof (sqlColumn scope row) noneLost ∧
        (namedMeaning stof (sqlColumn scope row) node = none ∨
          namedMeaning stof (sqlColumn scope row) node = sqlValue stof scope row node) := by
  have hmeans : MeansSame stof scope row node ↔
      (∃ e, expr.evaluate row scope.info.schema = throw e) ∨
        ∃ v, expr.evaluate row scope.info.schema = pure v ∧
          sqlValue stof scope row node = some (.ofValue v) := by
    constructor
    · rintro (⟨e, he⟩ | ⟨expr', hexpr, hvalue⟩)
      · cases he.symm.trans hbind
      · obtain rfl := Except.ok.inj (Option.some.inj (hexpr.symm.trans hbind))
        exact hvalue
    · exact fun hvalue => .inr ⟨expr, hbind, hvalue⟩
  rw [hmeans]
  rcases h with ⟨hfault, hundefined⟩ | ⟨hno, value, hmeaning, hyields⟩
  · have hexpr : expr.evaluate row scope.info.schema = Cpp.undefined := hundefined
    rw [hexpr]
    refine iff_of_false ?_ fun hright => hright.1 hfault
    rintro (⟨e, he⟩ | ⟨v, hv, -⟩)
    · cases he
    · cases hv
  · have hexpr : Yields value (expr.evaluate row scope.info.schema) := hyields
    rw [hmeaning]
    cases value with
    | none => exact iff_of_true (.inl hexpr) ⟨hno, .inl rfl⟩
    | some p =>
      rw [yields_some.1 hexpr]
      constructor
      · rintro (⟨e, he⟩ | ⟨v, hv, hvalue⟩)
        · cases he
        · cases hv
          exact ⟨hno, .inr hvalue.symm⟩
      · rintro ⟨-, hnone | hsame⟩
        · cases hnone
        · exact .inr ⟨_, rfl, hsame.symm⟩

/-- **The trees that are bound to what they mean.** On a row of the table, a tree is refused, or its
evaluation throws, or it returns the value that SQL assigns to the tree, iff the binder refuses
something in it, or the evaluation comes to no missing operand and no overflow and the tree read by
the names of its operators means nothing, so that the evaluation throws, or means what the tree
means. Of trees of plain nodes the reading keeps the meaning.

**Proof sketch.** The binder stops at the first thing it refuses. Otherwise the bound expression
evaluates to what the reading by names means. -/
theorem meansSame_iff_byName (stof : String → Cpp (BitVec 32)) (scope : TableScope)
    (row : Tuple) (node : Node) (hstof : ∀ str, stof str ≠ Cpp.undefined)
    (hrow : ReadsRow scope.info.schema row) (hnode : node.IsParsed) :
    (MeansSame stof scope row node ↔
      node.faults stof [scope] ≠ [] ∨
        (¬ node.ReachesFault stof (sqlColumn scope row) noneLost ∧
          (namedMeaning stof (sqlColumn scope row) node = none ∨
            namedMeaning stof (sqlColumn scope row) node = sqlValue stof scope row node))) ∧
      ((∀ s ∈ node.subexpressions, s.IsPlain) →
        namedMeaning stof (sqlColumn scope row) node = sqlValue stof scope row node) := by
  refine ⟨?_, fun hplain => (hnode.keptByName hplain).1⟩
  have hstops := @stopsAt_bindExpression stof [scope] hstof node
  have hmisread := @Node.IsParsed.misread_notMem_faults stof scope node hnode
  match hfaults : node.faults stof [scope] with
  | [] =>
    rw [hfaults] at hstops
    obtain ⟨expr, hbind⟩ := hstops
    have hiff := (hnode.evaluatesAs (readsNames_of_readsRow hrow) hbind).meansSame_iff hbind
    rw [hiff]
    exact (or_iff_right fun h => h rfl).symm
  | .refused :: rest =>
    rw [hfaults] at hstops
    exact iff_of_true (.inl hstops) (.inl (List.cons_ne_nil _ rest))
  | .misread :: rest =>
    rw [hfaults] at hmisread
    exact absurd List.mem_cons_self hmisread

end Trees

/-! ## A table of one column -/

/-- The table `t` with the column `a`. -/
def smallScope : TableScope := ⟨"t", smallTable ["a"], 0⟩

/-- A row with this value. -/
def smallRow (i : BitVec 32) : Tuple := { data := rowBytes [i] }

/-- `std::stof` on texts that are no numbers. -/
def stofNothing (_ : String) : Cpp (BitVec 32) := throw (.logicError "stof")

/-- The value of the small row is read, as an integer. -/
lemma readsRow_smallRow (i : BitVec 32) : ReadsRow smallScope.info.schema (smallRow i) := by
  intro j hj
  have hcount : smallScope.info.schema.getColumnCount = 1 := by decide
  obtain rfl : j = 0 := by omega
  have hread : (smallRow i).getValueAt smallScope.info.schema 0 =
      Value.deserializeFrom (rowBytes [i]) .integer := rfl
  obtain ⟨v, hv⟩ : ∃ v, (smallRow i).getValueAt smallScope.info.schema 0 = pure v := by
    rw [hread]
    exact ⟨_, rfl⟩
  refine ⟨some v.payload, ?_⟩
  rw [hread] at hv
  obtain ⟨payload, isNull⟩ := v
  obtain rfl : isNull = false := Value.isNull_deserializeFrom hv
  exact hread.trans hv

/-- `a = 1 AND a < 2`. -/
def plainTree : Node :=
  .boolExpr .and
    [.aExpr .op ["="] (.columnRef [.string "a"]) (.aConst (.integer 1)),
      .aExpr .op ["<"] (.columnRef [.string "a"]) (.aConst (.integer 2))]

/-- `1 / 0 = 2147483647 + 1`. -/
def guardedTree : Node :=
  .aExpr .op ["="] (.aExpr .op ["/"] (.aConst (.integer 1)) (.aConst (.integer 0)))
    (.aExpr .op ["+"] (.aConst (.integer 2147483647)) (.aConst (.integer 1)))

/-- `a = 1 AND a < 2` has its value, and the division in `1 / 0 = 2147483647 + 1` throws before the
evaluation comes to the overflow. -/
theorem meansSame_plainTree :
    (plainTree.IsParsed ∧ MeansSame stofNothing smallScope (smallRow 1) plainTree) ∧
      (guardedTree.IsParsed ∧ MeansSame stofNothing smallScope (smallRow 1) guardedTree) := by
  have hcolumn : Node.IsParsed (.columnRef [.string "a"]) :=
    Node.IsParsed.columnRef (List.cons_ne_nil "a" [])
  have hconstant : ∀ ival : BitVec 64, -2 ^ 31 ≤ ival.toInt ∧ ival.toInt < 2 ^ 31 →
      Node.IsParsed (.aConst (.integer ival)) := by
    intro ival hrange
    refine .constant fun ival' h => ?_
    cases h
    exact hrange
  have hplain : plainTree.IsParsed := by
    refine .boolExpr (.aExpr (fun _ => hcolumn) fun _ => hconstant 1 (by decide)) fun arg harg => ?_
    obtain rfl := List.mem_singleton.1 harg
    exact .aExpr (fun _ => hcolumn) fun _ => hconstant 2 (by decide)
  have hguarded : guardedTree.IsParsed :=
    .aExpr (fun _ => .aExpr (fun _ => hconstant 1 (by decide)) fun _ => hconstant 0 (by decide))
      fun _ => .aExpr (fun _ => hconstant 2147483647 (by decide)) fun _ => hconstant 1 (by decide)
  have hstof : ∀ str, stofNothing str ≠ Cpp.undefined := fun str h => by cases h
  have hiff := meansSame_iff_byName stofNothing smallScope (smallRow 1) plainTree hstof
    (readsRow_smallRow 1) hplain
  -- the division by zero means nothing
  have hdivision : namedMeaning stofNothing (sqlColumn smallScope (smallRow 1))
      (.aExpr .op ["/"] (.aConst (.integer 1)) (.aConst (.integer 0))) = none := by
    rw [namedMeaning, Node.byName, Node.byName_aConst, Node.byName_aConst, sqlMeaning, sqlMeaning,
      sqlMeaning]
    decide
  refine ⟨⟨hplain, hiff.1.2 (.inr ⟨?_, .inr (hiff.2 ?_)⟩)⟩, hguarded,
    (meansSame_iff_byName stofNothing smallScope (smallRow 1) guardedTree hstof
      (readsRow_smallRow 1) hguarded).1.2 (.inr ⟨?_, .inl ?_⟩)⟩
  · have hequal : PlainOp.named "=" = some (.comparison .equal) := by decide
    have hless : PlainOp.named "<" = some (.comparison .lessThan) := by decide
    simp [plainTree, Node.ReachesFault, ArgsReachFault, ChainReachesFault, hequal, hless,
      PlainOp.Overflows, noneLost]
  · simp [plainTree, Node.subexpressions, argSubexpressions, Node.IsPlain]
  · have hdivide : PlainOp.named "/" = some (.arithmetic .divide) := by decide
    rw [guardedTree, Node.ReachesFault, hdivision, Node.ReachesFault]
    rintro ((hleft | ⟨x, hx, hright | ⟨y, hy, op, hop, hover⟩⟩) | ⟨x, hx, -⟩)
    · simp only [Node.ReachesFault] at hleft
    · simp only [Node.ReachesFault] at hright
    · obtain rfl := Option.some.inj (hop.symm.trans hdivide)
      rw [namedMeaning, Node.byName_aConst, sqlMeaning] at hx hy
      cases hx
      cases hy
      exact absurd hover.2 (by decide)
    · cases hx
  · rw [guardedTree, namedMeaning, Node.byName, sqlMeaning]
    exact (congrArg (Option.bind · _) hdivision).trans rfl

/-- `a IS DISTINCT FROM 1` is true of the row where `a` is 1. -/
theorem not_meansSame_distinct :
    ¬ ∀ (row : Tuple) (node : Node), ReadsRow smallScope.info.schema row → node.IsParsed →
      MeansSame stofNothing smallScope row node := by
  intro h
  have hparsed : Node.IsParsed
      (.aExpr .distinct ["="] (.columnRef [.string "a"]) (.aConst (.integer 1))) := by
    refine .aExpr (fun _ => Node.IsParsed.columnRef (List.cons_ne_nil "a" [])) fun _ => ?_
    refine .constant fun ival h => ?_
    cases h
    decide
  rcases h (smallRow 1) _ (readsRow_smallRow 1) hparsed with ⟨e, he⟩ | ⟨expr, hbind, hvalue⟩
  · cases he
  · cases hbind
    rcases hvalue with ⟨e, he⟩ | ⟨v, hv, hmeaning⟩
    · cases he
    · cases hv
      simp [sqlValue, sqlMeaning] at hmeaning
      revert hmeaning
      decide

end OneBase
