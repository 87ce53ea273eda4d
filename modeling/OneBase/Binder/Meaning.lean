import OneBase.Binder.Binder
import OneBase.Execution.IntegerTables

set_option relaxedAutoImplicit false
set_option autoImplicit false

/-!
# The meaning of expressions

Expressions over the columns of a table of integers, built from constants, operators, `AND` and
`OR`, denote an integer or a truth value. What they denote is said on the parse tree, without the
binder; the binder turns such a tree into one that evaluates to the value that it denotes.

## Main definitions

* `OneBase.Datum` — integers and truth values.
* `OneBase.meaning` — what an expression denotes on a row; none for an error or an overflow.
* `OneBase.IsPlain` — the expressions over the columns of a table.

## Main results

* `OneBase.IsPlain.bindExpression` — the binder preserves the meaning.
-/

namespace OneBase

/-! ## Data and operators -/

/-- An `int32_t`, or a truth value. -/
inductive Datum
  | int (i : BitVec 32)
  | bool (b : Bool)
  deriving DecidableEq, Repr

namespace Datum

/-- The integer `i`, if an `int32_t` can hold it. -/
def ofExact (i : ℤ) : Option Datum :=
  if -2 ^ 31 ≤ i ∧ i < 2 ^ 31 then some (int (BitVec.ofInt 32 i)) else none

/-- The value of the engine. -/
def toValue : Datum → Value
  | int i => Value.ofInt i
  | bool b => Value.ofBool b

end Datum

/-- Comparisons: integers by their order, truth values for equality only. -/
def ComparisonType.apply : ComparisonType → Datum → Datum → Option Datum
  | .equal, .int a, .int b => some (.bool (decide (a.toInt = b.toInt)))
  | .equal, .bool a, .bool b => some (.bool (a == b))
  | .notEqual, .int a, .int b => some (.bool (decide (a.toInt ≠ b.toInt)))
  | .notEqual, .bool a, .bool b => some (.bool (a != b))
  | .lessThan, .int a, .int b => some (.bool (decide (a.toInt < b.toInt)))
  | .lessThanOrEqual, .int a, .int b => some (.bool (decide (a.toInt ≤ b.toInt)))
  | .greaterThan, .int a, .int b => some (.bool (decide (a.toInt > b.toInt)))
  | .greaterThanOrEqual, .int a, .int b => some (.bool (decide (a.toInt ≥ b.toInt)))
  | _, _, _ => none

/-- Arithmetic: exact, on integers, with division towards zero. A remainder needs its quotient. -/
def ArithmeticType.apply : ArithmeticType → Datum → Datum → Option Datum
  | .plus, .int a, .int b => Datum.ofExact (a.toInt + b.toInt)
  | .minus, .int a, .int b => Datum.ofExact (a.toInt - b.toInt)
  | .multiply, .int a, .int b => Datum.ofExact (a.toInt * b.toInt)
  | .divide, .int a, .int b => if b = 0 then none else Datum.ofExact (a.toInt.tdiv b.toInt)
  | .modulo, .int a, .int b =>
    if b = 0 then none
    else do
      let _ ← Datum.ofExact (a.toInt.tdiv b.toInt)
      Datum.ofExact (a.toInt.tmod b.toInt)
  | _, _, _ => none

/-- `AND` and `OR`. -/
def LogicType.apply : LogicType → Datum → Datum → Option Datum
  | .and, .bool a, .bool b => some (.bool (a && b))
  | .or, .bool a, .bool b => some (.bool (a || b))
  | _, _, _ => none

/-- On the values of data a logic operator has the value of its result. -/
lemma LogicType.result_perform (logicType : LogicType) (x y : Datum) :
    (logicType.perform x.toValue y.toValue).result = (logicType.apply x y).map Datum.toValue := by
  cases logicType <;> cases x <;> cases y <;> rfl

/-- The binary operators. -/
inductive PlainOp
  | comparison (compType : ComparisonType)
  | arithmetic (arithType : ArithmeticType)
  deriving DecidableEq, Repr

namespace PlainOp

/-- The operators and their names. -/
def table : List (String × PlainOp) :=
  [("=", comparison .equal), ("<>", comparison .notEqual), ("!=", comparison .notEqual),
    ("<", comparison .lessThan), ("<=", comparison .lessThanOrEqual),
    (">", comparison .greaterThan), (">=", comparison .greaterThanOrEqual),
    ("+", arithmetic .plus), ("-", arithmetic .minus), ("*", arithmetic .multiply),
    ("/", arithmetic .divide), ("%", arithmetic .modulo)]

/-- The operator of this name. -/
def named (name : String) : Option PlainOp := table.lookup name

/-- What the operator computes. -/
def apply : PlainOp → Datum → Datum → Option Datum
  | comparison compType => compType.apply
  | arithmetic arithType => arithType.apply

/-- The expression of the operator. -/
def expression : PlainOp → Expression → Expression → Expression
  | comparison compType, left, right => .comparison left right compType
  | arithmetic arithType, left, right => .arithmetic left right arithType

/-- The operation on values. -/
def perform : PlainOp → Value → Value → Cpp Value
  | comparison compType => compType.perform
  | arithmetic arithType => arithType.perform

/-- The binder knows the operators. -/
lemma operatorExpression_eq {name : String} {op : PlainOp} (h : named name = some op)
    (left right : Expression) :
    operatorExpression name left right = pure (op.expression left right) := by
  obtain ⟨before, after, htable, -⟩ := List.lookup_eq_some_iff.1 h
  have hmem : (name, op) ∈ table := by
    rw [htable]
    simp
  have hall : ∀ entry ∈ table,
      operatorExpression entry.1 left right = pure (entry.2.expression left right) := by
    simp [table, operatorExpression, expression]
  exact hall _ hmem

/-- The value of an operator comes from the values of its operands, the left one first. -/
lemma evaluateWith_expression (op : PlainOp) (left right : Expression)
    (column : ℕ → ℕ → Cpp Value) : (op.expression left right).evaluateWith column =
      left.evaluateWith column >>= fun l => right.evaluateWith column >>= op.perform l := by
  cases op <;> rfl

/-- The exact integer, as a value. -/
lemma result_intResult (i : ℤ) :
    (Value.intResult i).result = (Datum.ofExact i).map Datum.toValue := by
  unfold Value.intResult Datum.ofExact
  split_ifs <;> rfl

/-- A quotient of two `int32_t` overflows in one case only. -/
lemma quotient_in_range {a b : BitVec 32} (hb : b.toInt ≠ 0) :
    (-2 ^ 31 ≤ a.toInt.tdiv b.toInt ∧ a.toInt.tdiv b.toInt < 2 ^ 31) ↔
      ¬ (a.toInt = -2 ^ 31 ∧ b.toInt = -1) := by
  have hlow : -2 ^ 32 ≤ 2 * a.toInt := BitVec.le_two_mul_toInt
  have hhigh : 2 * a.toInt < 2 ^ 32 := BitVec.two_mul_toInt_lt
  constructor
  · rintro ⟨-, hlt⟩ ⟨ha, hb'⟩
    rw [ha, hb'] at hlt
    exact absurd hlt (by decide)
  · intro hnot
    have habs : (a.toInt.tdiv b.toInt).natAbs = a.toInt.natAbs / b.toInt.natAbs :=
      Int.natAbs_tdiv _ _
    by_cases hminus : b.toInt = -1
    · rw [hminus, Int.tdiv_neg, Int.tdiv_one]
      omega
    by_cases hone : b.toInt = 1
    · rw [hone, Int.tdiv_one]
      omega
    · have hdiv : a.toInt.natAbs / b.toInt.natAbs ≤ a.toInt.natAbs / 2 :=
        Nat.div_le_div_left (by omega) (by omega)
      omega

/-- The operations on values compute the operators. -/
lemma result_perform (op : PlainOp) (x y : Datum) :
    (op.perform x.toValue y.toValue).result = (op.apply x y).map Datum.toValue := by
  have hzero : ∀ b : BitVec 32, b.toInt = 0 ↔ b = 0 := fun b => by
    rw [← BitVec.toInt_zero, BitVec.toInt_inj]
    rfl
  cases op with
  | comparison compType => cases compType <;> cases x <;> cases y <;> rfl
  | arithmetic arithType =>
    cases x with
    | bool a => cases arithType <;> cases y <;> rfl
    | int a =>
      cases y with
      | bool b => cases arithType <;> rfl
      | int b =>
        cases arithType with
        | plus => exact result_intResult _
        | minus => exact result_intResult _
        | multiply => exact result_intResult _
        | divide =>
          show Cpp.result (if b.toInt = 0 then _ else _) =
            Option.map _ (if b = 0 then none else _)
          by_cases hb : b = 0
          · rw [if_pos ((hzero b).2 hb), if_pos hb]
            rfl
          · rw [if_neg (mt (hzero b).1 hb), if_neg hb]
            exact result_intResult _
        | modulo =>
          show Cpp.result (if b.toInt = 0 then _ else if a.toInt = -2 ^ 31 ∧ b.toInt = -1 then _
            else _) = Option.map _ (if b = 0 then none else _)
          by_cases hb : b = 0
          · rw [if_pos ((hzero b).2 hb), if_pos hb]
            rfl
          · have hrange := quotient_in_range (a := a) (mt (hzero b).1 hb)
            rw [if_neg (mt (hzero b).1 hb), if_neg hb]
            by_cases hover : a.toInt = -2 ^ 31 ∧ b.toInt = -1
            · have hnone : Datum.ofExact (a.toInt.tdiv b.toInt) = none :=
                if_neg fun h => hrange.1 h hover
              rw [if_pos hover, hnone]
              rfl
            · have hsome : Datum.ofExact (a.toInt.tdiv b.toInt) =
                  some (.int (BitVec.ofInt 32 (a.toInt.tdiv b.toInt))) := if_pos (hrange.2 hover)
              rw [if_neg hover, hsome]
              exact result_intResult _

end PlainOp

/-! ## Expressions -/

mutual

/-- What an expression denotes, where `column` says what the columns hold, by qualifier and name.
Both operands of an operator and all those of `AND` and `OR` must denote something. -/
def meaning (column : String → String → Option Datum) : Node → Option Datum
  | .columnRef [.string colName] => column "" colName
  | .columnRef [.string tableQualifier, .string colName] => column tableQualifier colName
  | .aConst (.integer ival) => Datum.ofExact ival.toInt
  | .aExpr .op [name] lexpr rexpr => do
    let op ← PlainOp.named name
    let l ← meaning column lexpr
    let r ← meaning column rexpr
    op.apply l r
  | .boolExpr .and args => (truths column args).map fun bs => .bool (bs.all id)
  | .boolExpr .or args => (truths column args).map fun bs => .bool (bs.any id)
  | _ => none

/-- The truth values that expressions denote. -/
def truths (column : String → String → Option Datum) : List Node → Option (List Bool)
  | [] => some []
  | arg :: args => do
    match ← meaning column arg with
    | .bool b => (truths column args).map (b :: ·)
    | .int _ => none

end

/-- What the columns of a table hold on a row of integers: the first column of that name. -/
def columnDatum (tableAlias : String) (schema : Schema) (b : List UInt8)
    (tableQualifier colName : String) : Option Datum :=
  if tableQualifier = "" ∨ tableQualifier = tableAlias then
    (findColumn schema colName).map fun found => .int (integerAt b found.1)
  else none

/-- Expressions over the columns of a table, with constants, binary operators, `AND` and `OR`. The
scanner makes integer constants of those numbers only that an `int32_t` can hold. -/
inductive IsPlain (tableAlias : String) (schema : Schema) : Node → Prop
  | column {colName : String} {found : ℕ × TypeId} (hfound : findColumn schema colName = some found) :
      IsPlain tableAlias schema (.columnRef [.string colName])
  | qualified {tableQualifier colName : String} {found : ℕ × TypeId}
      (hqualifier : tableQualifier = "" ∨ tableQualifier = tableAlias)
      (hfound : findColumn schema colName = some found) :
      IsPlain tableAlias schema (.columnRef [.string tableQualifier, .string colName])
  | constant {ival : BitVec 64} (hrange : -2 ^ 31 ≤ ival.toInt ∧ ival.toInt < 2 ^ 31) :
      IsPlain tableAlias schema (.aConst (.integer ival))
  | op {name : String} {op : PlainOp} {lexpr rexpr : Node} (hop : PlainOp.named name = some op)
      (hleft : IsPlain tableAlias schema lexpr) (hright : IsPlain tableAlias schema rexpr) :
      IsPlain tableAlias schema (.aExpr .op [name] lexpr rexpr)
  | bool {boolop : BoolExprType} {first second : Node} {args : List Node} (hboolop : boolop ≠ .not)
      (hfirst : IsPlain tableAlias schema first)
      (hargs : ∀ arg ∈ second :: args, IsPlain tableAlias schema arg) :
      IsPlain tableAlias schema (.boolExpr boolop (first :: second :: args))

/-- On every row the expression evaluates to what the tree denotes. -/
def Means (tableAlias : String) (schema : Schema) (expr : Expression) (node : Node) : Prop :=
  ∀ (column : ℕ → ℕ → Cpp Value) (b : List UInt8),
    (∀ tupleIdx, ∀ i < schema.getColumnCount,
      column tupleIdx i = pure (Value.ofInt (integerAt b i))) →
    (expr.evaluateWith column).result =
      (meaning (columnDatum tableAlias schema b) node).map Datum.toValue

/-! ## `AND` and `OR` -/

section Chains

variable {column : String → String → Option Datum} {args : List Node}

/-- A step of a chain of operands. -/
def chainStep (logicType : LogicType) (column : String → String → Option Datum) (acc : Datum)
    (arg : Node) : Option Datum := do
  let x ← meaning column arg
  logicType.apply acc x

/-- The truth value of a chain of operands. -/
def LogicType.fold : LogicType → List Bool → Bool
  | .and, bs => bs.all id
  | .or, bs => bs.any id

/-- A chain of operands that starts from a truth value folds the truth values of the operands. -/
lemma foldlM_chainStep (logicType : LogicType) (acc : Bool) :
    args.foldlM (chainStep logicType column) (.bool acc) =
      (truths column args).map fun bs => .bool (logicType.fold (acc :: bs)) := by
  induction args generalizing acc with
  | nil => cases logicType <;> simp [truths, LogicType.fold]
  | cons arg args ih =>
    rw [List.foldlM_cons, truths, chainStep]
    cases harg : meaning column arg with
    | none => rfl
    | some x =>
      cases x with
      | int i => cases logicType <;> rfl
      | bool b =>
        have hstep : logicType.apply (.bool acc) (.bool b) =
            some (.bool (logicType.fold [acc, b])) := by
          cases logicType <;> simp [LogicType.apply, LogicType.fold]
        have hfold : ∀ bs, logicType.fold (logicType.fold [acc, b] :: bs) =
            logicType.fold (acc :: b :: bs) := by
          intro bs
          cases logicType <;> simp [LogicType.fold, Bool.and_assoc, Bool.or_assoc]
        simp only [Option.bind_eq_bind, Option.bind_some, hstep, ih, hfold, Option.map_map]
        rfl

/-- A chain of two or more operands denotes the truth value of all of them. -/
lemma chain_eq (logicType : LogicType) (first second : Node) :
    (meaning column first).bind (fun x => (second :: args).foldlM (chainStep logicType column) x) =
      (truths column (first :: second :: args)).map fun bs => .bool (logicType.fold bs) := by
  rw [truths]
  cases meaning column first with
  | none => rfl
  | some x =>
    cases x with
    | bool b =>
      rw [Option.bind_some, foldlM_chainStep]
      simp only [Option.bind_eq_bind, Option.bind_some, Option.map_map]
      rfl
    | int i =>
      rw [Option.bind_some, List.foldlM_cons, chainStep]
      cases meaning column second with
      | none => rfl
      | some y => cases logicType <;> rfl

end Chains

/-! ## The binder -/

section Binding

variable {stof : String → Cpp (BitVec 32)} {tableAlias : String} {info : TableInfo}
  {tupleIdx : ℕ} {node : Node}

/-- The binder turns the expression into one that means the same. -/
def Binds (stof : String → Cpp (BitVec 32)) (tableAlias : String) (info : TableInfo)
    (tupleIdx : ℕ) (node : Node) : Prop :=
  ∃ expr, bindExpression stof [⟨tableAlias, info, tupleIdx⟩] node = pure expr ∧ expr ≠ .null ∧
    Means tableAlias info.schema expr node

/-- The loop over the operands. -/
lemma exists_bindChain (logicType : LogicType) {args : List Node}
    (hargs : ∀ arg ∈ args, Binds stof tableAlias info tupleIdx arg) (result : Expression)
    (hresult : result ≠ .null) :
    ∃ expr, bindChain stof [⟨tableAlias, info, tupleIdx⟩] logicType result args = pure expr ∧
      expr ≠ .null ∧
      ∀ (column : ℕ → ℕ → Cpp Value) (b : List UInt8),
        (∀ tupleIdx, ∀ i < info.schema.getColumnCount,
          column tupleIdx i = pure (Value.ofInt (integerAt b i))) →
        ∀ m : Option Datum, (result.evaluateWith column).result = m.map Datum.toValue →
          (expr.evaluateWith column).result =
            (m.bind fun x => args.foldlM
              (chainStep logicType (columnDatum tableAlias info.schema b)) x).map
              Datum.toValue := by
  induction args generalizing result with
  | nil =>
    refine ⟨result, rfl, hresult, fun column b _ m hm => ?_⟩
    rw [hm]
    cases m <;> rfl
  | cons arg args ih =>
    obtain ⟨right, hright, -, hmeans⟩ := hargs arg List.mem_cons_self
    obtain ⟨expr, hexpr, hne, hrest⟩ := ih (fun x hx => hargs x (List.mem_cons_of_mem arg hx))
      (.logic result right logicType) (by simp)
    refine ⟨expr, ?_, hne, fun column b hcolumn m hm => ?_⟩
    · rw [bindChain, hright, pure_bind]
      exact hexpr
    · rw [hrest column b hcolumn
        (m.bind fun x => chainStep logicType (columnDatum tableAlias info.schema b) x arg)]
      · cases m <;> rfl
      · rw [Expression.evaluateWith]
        simp only [Cpp.result_bind, hm, hmeans column b hcolumn]
        cases m with
        | none => rfl
        | some x =>
          simp only [Option.map_some, Option.bind_some, chainStep, Option.bind_eq_bind]
          cases meaning (columnDatum tableAlias info.schema b) arg with
          | none => rfl
          | some y => exact logicType.result_perform x y

/-- A name that the table has is bound to its first column of that name. -/
lemma binds_column {fields : List Field} {colName tableQualifier : String} {found : ℕ × TypeId}
    (hnames : columnRefNames fields = pure (some (colName, tableQualifier)))
    (hqualifier : tableQualifier = "" ∨ tableQualifier = tableAlias)
    (hfound : findColumn info.schema colName = some found)
    (hmeaning : ∀ column, meaning column (.columnRef fields) = column tableQualifier colName) :
    Binds stof tableAlias info tupleIdx (.columnRef fields) := by
  obtain ⟨i, type⟩ := found
  have hresolve : resolveColumn colName tableQualifier [⟨tableAlias, info, tupleIdx⟩] =
      pure (tupleIdx, i, type) := by
    rw [resolveColumn, if_neg (by tauto)]
    simp only [hfound]
  refine ⟨.columnValue tupleIdx i type, ?_, by simp, fun column b hcolumn => ?_⟩
  · rw [bindExpression, bindColumnRef, hnames, pure_bind]
    simp only [hresolve, pure_bind]
  · rw [hmeaning, Expression.evaluateWith, hcolumn tupleIdx i (findColumn_spec hfound).1,
      columnDatum, if_pos hqualifier, hfound]
    rfl

/-- An operator is bound to its expression. -/
lemma binds_op {name : String} {op : PlainOp} {lexpr rexpr : Node}
    (hop : PlainOp.named name = some op) (hleft : Binds stof tableAlias info tupleIdx lexpr)
    (hright : Binds stof tableAlias info tupleIdx rexpr) :
    Binds stof tableAlias info tupleIdx (.aExpr .op [name] lexpr rexpr) := by
  obtain ⟨left, hl, -, hlmeans⟩ := hleft
  obtain ⟨right, hr, -, hrmeans⟩ := hright
  refine ⟨op.expression left right, ?_, by cases op <;> simp [PlainOp.expression], ?_⟩
  · rw [bindExpression, hl, pure_bind, hr, pure_bind]
    exact op.operatorExpression_eq hop left right
  · intro column b hcolumn
    rw [op.evaluateWith_expression, meaning, hop]
    simp only [Cpp.result_bind, hlmeans column b hcolumn, hrmeans column b hcolumn,
      Option.bind_eq_bind, Option.bind_some]
    cases meaning (columnDatum tableAlias info.schema b) lexpr with
    | none => rfl
    | some x =>
      cases meaning (columnDatum tableAlias info.schema b) rexpr with
      | none => rfl
      | some y => exact op.result_perform x y

/-- `AND` and `OR` are bound to a chain. -/
lemma binds_bool {boolop : BoolExprType} {first second : Node} {args : List Node}
    (hboolop : boolop ≠ .not) (hfirst : Binds stof tableAlias info tupleIdx first)
    (hargs : ∀ arg ∈ second :: args, Binds stof tableAlias info tupleIdx arg) :
    Binds stof tableAlias info tupleIdx (.boolExpr boolop (first :: second :: args)) := by
  obtain ⟨result, hbind, hne, hmeans⟩ := hfirst
  have hchain : ∀ logicType : LogicType,
      (∀ column, meaning column (.boolExpr boolop (first :: second :: args)) =
        (truths column (first :: second :: args)).map fun bs => .bool (logicType.fold bs)) →
      bindExpression stof [⟨tableAlias, info, tupleIdx⟩]
          (.boolExpr boolop (first :: second :: args)) =
        bindBoolExpr stof [⟨tableAlias, info, tupleIdx⟩] logicType (first :: second :: args) →
      Binds stof tableAlias info tupleIdx (.boolExpr boolop (first :: second :: args)) := by
    intro logicType hmeaning hbool
    obtain ⟨expr, hexpr, hexprne, hvalue⟩ := exists_bindChain logicType hargs result hne
    refine ⟨expr, ?_, hexprne, fun column b hcolumn => ?_⟩
    · rw [hbool, bindBoolExpr, hbind, pure_bind]
      exact hexpr
    · rw [hvalue column b hcolumn _ (hmeans column b hcolumn), chain_eq, hmeaning]
  cases boolop with
  | and => exact hchain .and (fun column => by rw [meaning]; rfl) (by rw [bindExpression])
  | or => exact hchain .or (fun column => by rw [meaning]; rfl) (by rw [bindExpression])
  | not => exact absurd rfl hboolop

/-- **The binder preserves the meaning** of the expressions over the columns of a table. -/
lemma IsPlain.binds (h : IsPlain tableAlias info.schema node) :
    Binds stof tableAlias info tupleIdx node := by
  induction h with
  | @column colName found hfound =>
    exact binds_column rfl (.inl rfl) hfound fun column => by rw [meaning]
  | @qualified tableQualifier colName found hqualifier hfound =>
    exact binds_column rfl hqualifier hfound fun column => by rw [meaning]
  | @constant ival hrange =>
    refine ⟨.constantValue { payload := .integer (ival.setWidth 32) }, by rw [bindExpression]; rfl,
      by simp, fun column b _ => ?_⟩
    have hcast : BitVec.ofInt 32 ival.toInt = ival.setWidth 32 :=
      BitVec.signExtend_eq_setWidth_of_le ival (by omega)
    rw [meaning, Datum.ofExact, if_pos hrange, hcast]
    rfl
  | op hop _ _ ihleft ihright => exact binds_op hop ihleft ihright
  | bool hboolop _ _ ihfirst ihargs => exact binds_bool hboolop ihfirst ihargs

end Binding

end OneBase
