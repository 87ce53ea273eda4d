import OneBase.Binder.SqlMeaning

set_option relaxedAutoImplicit false
set_option autoImplicit false

/-!
# Trees read by the names of their operators

The binder does not look at the kind of an operator node: it takes the first part of the name for a
plain operator. It skips an `AND` or `OR` of a single operand, and takes a column reference of more
than two parts for one to the empty name. The tree that comes out of this reading is said here on
the parse tree, and so is where its evaluation meets undefined behaviour. An expression that is
bound evaluates to what SQL means by the tree that was read.

## Main definitions

* `OneBase.Node.IsParsed` — the trees of the grammar.
* `OneBase.Node.byName` — a tree as the binder reads it.
* `OneBase.Node.ReachesFault` — the evaluation comes to a missing operand, or to an overflow.
* `OneBase.Node.IsPlain` — the nodes that the reading leaves as they are.

## Main results

* `OneBase.Node.IsParsed.evaluatesAs` — what a bound expression evaluates to.
* `OneBase.Node.IsParsed.keptByName` — the trees whose meaning the reading keeps.
-/

namespace OneBase

/-- The trees that the grammar makes of column references, which may end in a star, of constants,
operators of every kind, `AND`, `OR` and `NOT`, and of constructs that the binder does not know. The
operand of a unary operator is the right one; of a postfix operator it is the left one. The scanner
makes integer constants of those numbers only that an `int32_t` can hold. -/
inductive Node.IsParsed : Node → Prop
  | columnRef {names : List String} (hnames : names ≠ []) :
      IsParsed (.columnRef (names.map .string))
  | starRef {names : List String} : IsParsed (.columnRef (names.map .string ++ [.aStar]))
  | constant {val : Constant}
      (hrange : ∀ ival, val = .integer ival → -2 ^ 31 ≤ ival.toInt ∧ ival.toInt < 2 ^ 31) :
      IsParsed (.aConst val)
  | aExpr {kind : AExprKind} {opName : String} {names : List String} {lexpr rexpr : Node}
      (hleft : lexpr.isNull = false → IsParsed lexpr)
      (hright : rexpr.isNull = false → IsParsed rexpr) :
      IsParsed (.aExpr kind (opName :: names) lexpr rexpr)
  | boolExpr {boolop : BoolExprType} {arg : Node} {args : List Node} (harg : IsParsed arg)
      (hargs : ∀ arg ∈ args, IsParsed arg) : IsParsed (.boolExpr boolop (arg :: args))
  | funcCall {funcname : List String} {args : List Node} {aggStar : Bool} :
      IsParsed (.funcCall funcname args aggStar)
  | aStar : IsParsed .aStar
  | other {type : ℕ} : IsParsed (.other type)

mutual

/-- The tree and the trees in it. -/
def Node.subexpressions : Node → List Node
  | .null => []
  | .aExpr kind name lexpr rexpr =>
    .aExpr kind name lexpr rexpr :: (lexpr.subexpressions ++ rexpr.subexpressions)
  | .boolExpr boolop args => .boolExpr boolop args :: argSubexpressions args
  | .columnRef fields => [.columnRef fields]
  | .aConst val => [.aConst val]
  | .funcCall funcname args aggStar => [.funcCall funcname args aggStar]
  | .aStar => [.aStar]
  | .other type => [.other type]

/-- The trees in the operands. -/
def argSubexpressions : List Node → List Node
  | [] => []
  | arg :: args => arg.subexpressions ++ argSubexpressions args

end

mutual

/-- The tree that the binder reads: every operator is the plain one of the first part of its name,
`AND` and `OR` of one operand are that operand, a star is missing, and a column reference of more
than two parts is one to the empty name. -/
def Node.byName : Node → Node
  | .columnRef fields => readReference fields
  | .aExpr _ (opName :: _) lexpr rexpr => .aExpr .op [opName] lexpr.byName rexpr.byName
  | .boolExpr boolop args => joined boolop (argsByName args)
  | node => node
where
  /-- The column reference of these parts. -/
  readReference : List Field → Node
    | [.string colName] => .columnRef [.string colName]
    | [.string tableQualifier, .string colName] =>
      .columnRef [.string tableQualifier, .string colName]
    | [.aStar] => .null
    | [.string _, .aStar] => .null
    | _ => .columnRef [.string ""]
  /-- The node of these operands, unless it is one operand only. -/
  joined (boolop : BoolExprType) : List Node → Node
    | [arg] => arg
    | args => .boolExpr boolop args

/-- The operands as the binder reads them. -/
def argsByName : List Node → List Node
  | [] => []
  | arg :: args => arg.byName :: argsByName args

end

/-- A constant is read as it is. -/
@[simp] lemma Node.byName_aConst (val : Constant) : (Node.aConst val).byName = .aConst val := by
  simp [byName]

section Faults

variable (stof : String → Cpp (BitVec 32)) (column : String → String → Option Payload)
  (lost : String → String → Prop)

/-- What SQL means by the tree that the binder reads. -/
def namedMeaning (node : Node) : Option SqlValue := sqlMeaning stof column node.byName

mutual

/-- The evaluation comes to undefined behaviour: to an operand that is missing, to a name that cannot
be read, or to an operation of integers that overflows. The operands are evaluated from the left to
the right and then the operation is performed, and an exception ends the evaluation. -/
def Node.ReachesFault : Node → Prop
  | .null => True
  | .columnRef [.string colName] => lost "" colName
  | .columnRef [.string tableQualifier, .string colName] => lost tableQualifier colName
  | .columnRef [.aStar] => True
  | .columnRef [.string _, .aStar] => True
  | .columnRef _ => lost "" ""
  | .aExpr _ name lexpr rexpr =>
    lexpr.ReachesFault ∨ ∃ x, namedMeaning stof column lexpr = some (.datum x) ∧
      (rexpr.ReachesFault ∨ ∃ y, namedMeaning stof column rexpr = some (.datum y) ∧
        ∃ op, name.head?.bind PlainOp.named = some op ∧ op.Overflows x y)
  | .boolExpr _ args => ArgsReachFault args
  | _ => False

/-- The evaluation of the operands of `AND` and `OR` does. -/
def ArgsReachFault : List Node → Prop
  | [] => False
  | arg :: args =>
    arg.ReachesFault ∨ ∃ x, namedMeaning stof column arg = some (.datum x) ∧
      ChainReachesFault x.typeId args

/-- The evaluation of the further operands does, after those with a value of this type. Each one is
joined to the ones before it when it has a value, and the joining throws unless both are truth
values. -/
def ChainReachesFault (type : TypeId) : List Node → Prop
  | [] => False
  | arg :: args =>
    arg.ReachesFault ∨ ∃ y, namedMeaning stof column arg = some (.datum y) ∧ type = .boolean ∧
      y.typeId = .boolean ∧ ChainReachesFault .boolean args

end

end Faults

/-- The reading by names leaves this node as it is, or makes it one that means the same: an operator
with a name of one part, `IS NOT DISTINCT FROM`, `AND` and `OR` of several operands, and a column
reference of at most two parts. -/
def Node.IsPlain : Node → Prop
  | .columnRef fields => fields.length ≤ 2 ∧ .aStar ∉ fields
  | .aExpr .op name _ _ => name.length = 1
  | .aExpr .notDistinct name _ _ => name = ["="]
  | .aExpr _ _ _ _ => False
  | .boolExpr _ args => args.length ≠ 1
  | _ => True

/-- A computation has no defined behaviour if this fault is reached. Otherwise it returns the value
that is meant, and throws if none is. -/
def ComesTo (fault : Prop) (meaning : Option SqlValue) (x : Cpp Value) : Prop :=
  (fault ∧ x = Cpp.undefined) ∨
    (¬ fault ∧ ∃ value, meaning = Option.map .datum value ∧ Yields value x)

/-- The names of columns are read as this, whichever table the binder finds them in; the reading of
the lost ones is undefined. -/
def ReadsNames (scopes : List TableScope) (column : String → String → Option Payload)
    (lost : String → String → Prop) (read : ℕ → ℕ → Cpp Value) : Prop :=
  ∀ colName tableQualifier,
    ComesTo (lost tableQualifier colName) ((column tableQualifier colName).map .datum) (do
      let found ← resolveColumn colName tableQualifier scopes
      read found.1 found.2.1)

/-! ## Computations with a value -/

section Yielding

variable {value : Option Payload} {p : Payload}

/-- The computation with a value returns it. -/
lemma yields_some {x : Cpp Value} : Yields (some p) x ↔ x = pure { payload := p } := Iff.rfl

/-- What follows an exception is not run. -/
lemma throws_bind {α β : Type} {x : Cpp α} (h : ∃ e, x = throw e) (f : α → Cpp β) :
    ∃ e, x >>= f = throw e := by
  obtain ⟨e, rfl⟩ := h
  exact ⟨e, rfl⟩

/-- The outcome of an operation on two operands: the left one, the right one and the operation are
run in this order, and each of them only if the ones before it have a value. -/
lemma PlainOp.comesTo_perform (op : PlainOp) {faultLeft faultRight : Prop}
    {meansLeft meansRight : Option SqlValue} {left right : Cpp Value}
    (hleft : ComesTo faultLeft meansLeft left) (hright : ComesTo faultRight meansRight right) :
    ComesTo
      (faultLeft ∨ ∃ x, meansLeft = some (.datum x) ∧
        (faultRight ∨ ∃ y, meansRight = some (.datum y) ∧ op.Overflows x y))
      (meansLeft.bind fun u => meansRight.bind fun v => op.lift u v)
      (left >>= fun a => right >>= fun b => op.perform a b) := by
  rcases hleft with ⟨hfault, rfl⟩ | ⟨hno, value, rfl, hyields⟩
  · exact .inl ⟨.inl hfault, rfl⟩
  cases value with
  | none =>
    refine .inr ⟨?_, none, rfl, throws_bind hyields _⟩
    rintro (hfault | ⟨x, hx, -⟩)
    · exact hno hfault
    · cases hx
  | some x =>
    rw [yields_some.1 hyields, pure_bind]
    rcases hright with ⟨hfault, rfl⟩ | ⟨hnoRight, value', rfl, hyields'⟩
    · exact .inl ⟨.inr ⟨x, rfl, .inl hfault⟩, rfl⟩
    cases value' with
    | none =>
      refine .inr ⟨?_, none, rfl, throws_bind hyields' _⟩
      rintro (hfault | ⟨x', -, hfault | ⟨y, hy, -⟩⟩)
      · exact hno hfault
      · exact hnoRight hfault
      · cases hy
    | some y =>
      rw [yields_some.1 hyields', pure_bind]
      by_cases hover : op.Overflows x y
      · exact .inl ⟨.inr ⟨x, rfl, .inr ⟨y, rfl, hover⟩⟩, op.perform_of_overflows hover⟩
      · refine .inr ⟨?_, op.computes x y, rfl, op.yields_perform hover⟩
        rintro (hfault | ⟨x', hx, hfault | ⟨y', hy, hover'⟩⟩)
        · exact hno hfault
        · exact hnoRight hfault
        · cases hx
          cases hy
          exact hover hover'

end Yielding

/-! ## Bound expressions -/

section Bound

variable {stof : String → Cpp (BitVec 32)} {scopes : List TableScope}
  {column : String → String → Option Payload} {lost : String → String → Prop}
  {read : ℕ → ℕ → Cpp Value} {node : Node} {expr : Expression}

/-- What a bound tree evaluates to. -/
def EvaluatesAs (stof : String → Cpp (BitVec 32)) (column : String → String → Option Payload)
    (lost : String → String → Prop) (read : ℕ → ℕ → Cpp Value) (node : Node) (expr : Expression) :
    Prop :=
  ComesTo (node.ReachesFault stof column lost) (namedMeaning stof column node) (expr.evaluateWith read)

/-- A column reference evaluates to what its name is read as.

**Proof sketch.** With one or two parts, the binder takes the parts for the name and the qualifier,
as SQL does; with more, it looks for the empty name. A star is bound to nothing. -/
lemma evaluatesAs_columnRef (hread : ReadsNames scopes column lost read) {fields : List Field}
    (hbind : bindExpression stof scopes (.columnRef fields) = pure expr) :
    EvaluatesAs stof column lost read (.columnRef fields) expr := by
  rw [bindExpression] at hbind
  have hname : ∀ colName tableQualifier,
      columnRefNames fields = pure (some (colName, tableQualifier)) →
      ComesTo (lost tableQualifier colName) ((column tableQualifier colName).map .datum)
        (expr.evaluateWith read) := by
    intro colName tableQualifier hnames
    have hvalue := hread colName tableQualifier
    rw [bindColumnRef, hnames, pure_bind] at hbind
    obtain ⟨⟨tupleIdx, colIdx, type⟩, hfound, hexpr⟩ := Cpp.bind_eq_pure.1 hbind
    cases hexpr
    rw [hfound] at hvalue
    exact hvalue
  have hstar : columnRefNames fields = pure none → expr.evaluateWith read = Cpp.undefined := by
    intro hnames
    rw [bindColumnRef, hnames] at hbind
    cases hbind
    rfl
  unfold EvaluatesAs namedMeaning
  rw [Node.byName]
  rcases fields with - | ⟨first, - | ⟨second, - | ⟨third, rest⟩⟩⟩
  · -- a reference without names is one to the empty name
    simp only [Node.ReachesFault, Node.byName.readReference, sqlMeaning]
    exact hname "" "" rfl
  · cases first with
    | string colName =>
      simp only [Node.ReachesFault, Node.byName.readReference, sqlMeaning]
      exact hname colName "" rfl
    | aStar =>
      simp only [Node.ReachesFault]
      exact .inl ⟨trivial, hstar rfl⟩
  · cases first with
    | aStar => cases hbind
    | string tableQualifier =>
      cases second with
      | string colName =>
        simp only [Node.ReachesFault, Node.byName.readReference, sqlMeaning]
        exact hname colName tableQualifier rfl
      | aStar =>
        simp only [Node.ReachesFault]
        exact .inl ⟨trivial, hstar rfl⟩
  · -- so is one of more than two names
    simp only [Node.ReachesFault, Node.byName.readReference, sqlMeaning]
    exact hname "" "" (by cases first <;> cases second <;> rfl)

/-- A constant evaluates to its value.

**Proof sketch.** The scanner makes integer constants of 32-bit integers only, so the cast from
`long` keeps the number; a text that `std::stof` refuses is not bound. -/
lemma evaluatesAs_aConst {val : Constant}
    (hrange : ∀ ival, val = .integer ival → -2 ^ 31 ≤ ival.toInt ∧ ival.toInt < 2 ^ 31)
    (hbind : bindExpression stof scopes (.aConst val) = pure expr) :
    EvaluatesAs stof column lost read (.aConst val) expr := by
  rw [bindExpression] at hbind
  refine .inr ⟨fun h => by simp only [Node.ReachesFault] at h, ?_⟩
  cases val with
  | integer ival =>
    cases hbind
    have hcast : BitVec.ofInt 32 ival.toInt = ival.setWidth 32 :=
      BitVec.signExtend_eq_setWidth_of_le ival (by omega)
    refine ⟨some (.integer (ival.setWidth 32)), ?_, rfl⟩
    rw [namedMeaning, Node.byName_aConst, sqlMeaning, exactPayload, if_pos (hrange ival rfl), hcast]
  | float str =>
    obtain ⟨f, hf, hexpr⟩ := Cpp.bind_eq_pure.1 hbind
    cases hexpr
    refine ⟨some (.float f), ?_, rfl⟩
    rw [namedMeaning, Node.byName_aConst, sqlMeaning, hf]
    rfl
  | string str =>
    cases hbind
    refine ⟨some (.varchar (textBytes str)), ?_, rfl⟩
    rw [namedMeaning, Node.byName_aConst, sqlMeaning]
    rfl
  | other => cases hbind

/-- An operator that is bound is one that the binder knows. -/
lemma exists_named_of_operatorExpression {opName : String} {left right : Expression}
    (h : operatorExpression opName left right = pure expr) :
    ∃ op, PlainOp.named opName = some op ∧ expr = op.expression left right := by
  cases hop : PlainOp.named opName with
  | none =>
    obtain ⟨e, he⟩ := PlainOp.operatorExpression_of_named_eq_none hop left right
    rw [he] at h
    cases h
  | some op =>
    rw [op.operatorExpression_eq hop] at h
    cases h
    exact ⟨op, rfl, rfl⟩

/-- An operator node evaluates to what the plain operator of its name means on its operands. -/
lemma evaluatesAs_aExpr {kind : AExprKind} {opName : String} {names : List String}
    {lexpr rexpr : Node}
    (hleft : ∀ left, bindExpression stof scopes lexpr = pure left →
      EvaluatesAs stof column lost read lexpr left)
    (hright : ∀ right, bindExpression stof scopes rexpr = pure right →
      EvaluatesAs stof column lost read rexpr right)
    (hbind : bindExpression stof scopes (.aExpr kind (opName :: names) lexpr rexpr) = pure expr) :
    EvaluatesAs stof column lost read (.aExpr kind (opName :: names) lexpr rexpr) expr := by
  rw [bindExpression] at hbind
  obtain ⟨left, hbindLeft, hbind⟩ := Cpp.bind_eq_pure.1 hbind
  obtain ⟨right, hbindRight, hoperator⟩ := Cpp.bind_eq_pure.1 hbind
  obtain ⟨op, hop, rfl⟩ := exists_named_of_operatorExpression hoperator
  have houtcome := op.comesTo_perform (hleft left hbindLeft) (hright right hbindRight)
  rw [← op.evaluateWith_expression left right read] at houtcome
  have hmeaning : namedMeaning stof column (.aExpr kind (opName :: names) lexpr rexpr) =
      (namedMeaning stof column lexpr).bind fun u =>
        (namedMeaning stof column rexpr).bind fun v => op.lift u v := by
    unfold namedMeaning
    rw [Node.byName, sqlMeaning]
    simp only [AExprKind.denotes, hop, Option.bind_some]
  have hfault : (Node.aExpr kind (opName :: names) lexpr rexpr).ReachesFault stof column lost ↔
      (lexpr.ReachesFault stof column lost ∨ ∃ x, namedMeaning stof column lexpr = some (.datum x) ∧
        (rexpr.ReachesFault stof column lost ∨
          ∃ y, namedMeaning stof column rexpr = some (.datum y) ∧ op.Overflows x y)) := by
    rw [Node.ReachesFault]
    simp [hop]
  unfold EvaluatesAs
  rw [hmeaning, hfault]
  exact houtcome

/-! ### `AND` and `OR` -/

/-- `PerformLogic` on truth values. -/
def LogicType.onBools : LogicType → Bool → Bool → Bool
  | .and, a, b => a && b
  | .or, a, b => a || b

section Chains

variable {logicType : LogicType} {args : List Node} {result : Expression}

/-- Two truth values are joined by the connective. -/
lemma LogicType.perform_booleans (a b : Bool) :
    logicType.perform { payload := .boolean a } { payload := .boolean b } =
      pure { payload := .boolean (logicType.onBools a b) } := by
  cases logicType <;> rfl

/-- The joining of other values throws. -/
lemma LogicType.throws_perform {x y : Payload} (h : ¬ (x.typeId = .boolean ∧ y.typeId = .boolean)) :
    ∃ e, logicType.perform { payload := x } { payload := y } = throw e := by
  cases logicType <;> cases x <;> cases y <;> first | exact ⟨_, rfl⟩ | simp [Payload.typeId] at h

/-- Two operands that are known count as one. -/
lemma LogicType.ofTruths_cons_cons (a b : Bool) (ts : List (Option Bool)) :
    logicType.ofTruths (some a :: some b :: ts) =
      logicType.ofTruths (some (logicType.onBools a b) :: ts) := by
  cases logicType <;> cases a <;> cases b <;> simp [ofTruths, onBools]

/-- A single operand that is known is the truth of the chain. -/
lemma LogicType.ofTruths_singleton (b : Bool) : logicType.ofTruths [some b] = some b := by
  cases logicType <;> cases b <;> simp [ofTruths]

/-- A value that is not a truth value has no truth. -/
lemma SqlValue.truth_datum_of_ne {p : Payload} (h : p.typeId ≠ .boolean) :
    (SqlValue.datum p).truth = none := by
  cases p with
  | boolean b => exact absurd rfl h
  | _ => rfl

/-- A payload of the type `BOOLEAN` is a truth value. -/
lemma exists_boolean_of_typeId {p : Payload} (h : p.typeId = .boolean) : ∃ b, p = .boolean b := by
  cases p with
  | boolean b => exact ⟨b, rfl⟩
  | _ => cases h

/-- The expression of a chain evaluates its first operand first. -/
lemma exists_evaluateWith_bindChain (read : ℕ → ℕ → Cpp Value)
    (h : bindChain stof scopes logicType result args = pure expr) :
    ∃ rest : Value → Cpp Value,
      expr.evaluateWith read = result.evaluateWith read >>= rest := by
  induction args generalizing result with
  | nil =>
    rw [bindChain] at h
    cases h
    exact ⟨pure, (bind_pure _).symm⟩
  | cons arg args ih =>
    rw [bindChain] at h
    obtain ⟨right, -, h⟩ := Cpp.bind_eq_pure.1 h
    obtain ⟨rest, hrest⟩ := ih h
    refine ⟨fun x => (right.evaluateWith read >>= fun y => logicType.perform x y) >>= rest, ?_⟩
    rw [hrest, Expression.evaluateWith]
    simp only [bind_assoc]

/-- The truths of the operands as the binder reads them. -/
def namedTruths (stof : String → Cpp (BitVec 32)) (column : String → String → Option Payload)
    (args : List Node) : Option (List (Option Bool)) := sqlTruths stof column (argsByName args)

/-- The truth of the first operand and those of the others. -/
lemma namedTruths_cons (arg : Node) : namedTruths stof column (arg :: args) =
    ((namedMeaning stof column arg).bind SqlValue.truth).bind fun t =>
      (namedTruths stof column args).map (t :: ·) := by
  unfold namedTruths namedMeaning
  rw [argsByName, sqlTruths]

variable {arg : Node}

/-- One more operand of a chain, after operands with the value `x`: it reaches a fault, or does not
give a truth value together with `x`, so that the chain throws, or it is joined to `x`. -/
lemma comesTo_bindChain_cons {x : Payload}
    (hresult : result.evaluateWith read = pure { payload := x })
    (harg : ∀ e, bindExpression stof scopes arg = pure e → EvaluatesAs stof column lost read arg e)
    (hbind : bindChain stof scopes logicType result (arg :: args) = pure expr)
    (hrest : ∀ (a b : Bool) (joined : Expression), x = .boolean a →
      namedMeaning stof column arg = some (.datum (.boolean b)) →
      joined.evaluateWith read = pure { payload := .boolean (logicType.onBools a b) } →
      bindChain stof scopes logicType joined args = pure expr →
      ComesTo (ChainReachesFault stof column lost .boolean args)
        ((namedTruths stof column args).map fun ts =>
          .ofTruth (logicType.ofTruths (some (logicType.onBools a b) :: ts)))
        (expr.evaluateWith read)) :
    ComesTo (ChainReachesFault stof column lost x.typeId (arg :: args))
      ((SqlValue.datum x).truth.bind fun t => (namedTruths stof column (arg :: args)).map fun ts =>
        .ofTruth (logicType.ofTruths (t :: ts)))
      (expr.evaluateWith read) := by
  rw [bindChain] at hbind
  obtain ⟨right, hright, hbind⟩ := Cpp.bind_eq_pure.1 hbind
  have houtcome := harg right hright
  obtain ⟨rest, hstrict⟩ := exists_evaluateWith_bindChain read hbind
  have hlogic : (Expression.logic result right logicType).evaluateWith read =
      right.evaluateWith read >>= fun y => logicType.perform { payload := x } y := by
    rw [Expression.evaluateWith, hresult, pure_bind]
  rw [ChainReachesFault, namedTruths_cons]
  rcases houtcome with ⟨hfault, hundefined⟩ | ⟨hno, value, hmeaning, hyields⟩
  · refine .inl ⟨.inl hfault, ?_⟩
    rw [hstrict, hlogic, hundefined]
    rfl
  rw [hmeaning]
  cases value with
  | none =>
    refine .inr ⟨?_, none, ?_, ?_⟩
    · rintro (hfault | ⟨y, hy, -⟩)
      · exact hno hfault
      · cases hy
    · cases (SqlValue.datum x).truth <;> rfl
    · rw [hstrict, hlogic]
      exact throws_bind (throws_bind hyields _) _
  | some y =>
    rw [yields_some.1 hyields, pure_bind] at hlogic
    by_cases htypes : x.typeId = .boolean ∧ y.typeId = .boolean
    · obtain ⟨a, rfl⟩ := exists_boolean_of_typeId htypes.1
      obtain ⟨b, rfl⟩ := exists_boolean_of_typeId htypes.2
      rw [LogicType.perform_booleans] at hlogic
      rcases hrest a b _ rfl hmeaning hlogic hbind with ⟨hfault, hundefined⟩ | ⟨hnoRest, value, hvalue,
        hyields'⟩
      · exact .inl ⟨.inr ⟨_, rfl, rfl, rfl, hfault⟩, hundefined⟩
      · refine .inr ⟨?_, value, ?_, hyields'⟩
        · rintro (hfault | ⟨-, -, -, -, hfault⟩)
          · exact hno hfault
          · exact hnoRest hfault
        · rw [← hvalue]
          cases namedTruths stof column args with
          | none => rfl
          | some ts => exact congrArg (some ∘ SqlValue.ofTruth) (LogicType.ofTruths_cons_cons a b ts)
    · refine .inr ⟨?_, none, ?_, ?_⟩
      · rintro (hfault | ⟨y', hy, hx, hbool, -⟩)
        · exact hno hfault
        · cases hy
          exact htypes ⟨hx, hbool⟩
      · rcases not_and_or.1 htypes with hx | hy
        · rw [SqlValue.truth_datum_of_ne hx]
          rfl
        · rw [Option.map_some, Option.bind_some, SqlValue.truth_datum_of_ne hy]
          cases (SqlValue.datum x).truth <;> rfl
      · rw [hstrict, hlogic]
        exact throws_bind (LogicType.throws_perform htypes) _

/-- A chain after a truth value.

**Proof sketch.** By induction on the operands that are left: each is joined to the truth value that
those before it have. -/
lemma comesTo_bindChain
    (hargs : ∀ arg ∈ args, ∀ e, bindExpression stof scopes arg = pure e →
      EvaluatesAs stof column lost read arg e) {b : Bool}
    (hresult : result.evaluateWith read = pure { payload := .boolean b })
    (hbind : bindChain stof scopes logicType result args = pure expr) :
    ComesTo (ChainReachesFault stof column lost .boolean args)
      ((namedTruths stof column args).map fun ts =>
        .ofTruth (logicType.ofTruths (some b :: ts)))
      (expr.evaluateWith read) := by
  induction args generalizing result b with
  | nil =>
    rw [bindChain] at hbind
    cases hbind
    refine .inr ⟨fun h => by simp only [ChainReachesFault] at h, some (.boolean b), ?_, hresult⟩
    rw [namedTruths, argsByName, sqlTruths, Option.map_some, LogicType.ofTruths_singleton]
    rfl
  | cons arg args ih =>
    refine comesTo_bindChain_cons (x := .boolean b) hresult (hargs arg List.mem_cons_self) hbind ?_
    intro a c joined ha _ hjoined hbind'
    cases ha
    exact ih (fun x hx => hargs x (List.mem_cons_of_mem arg hx)) hjoined hbind'

/-- `AND` and `OR` of several operands: the first one may have any value, the chain of the others
follows it. -/
lemma comesTo_bindBoolExpr {second : Node}
    (hargs : ∀ x ∈ arg :: second :: args, ∀ e, bindExpression stof scopes x = pure e →
      EvaluatesAs stof column lost read x e)
    (hbind : bindBoolExpr stof scopes logicType (arg :: second :: args) = pure expr) :
    ComesTo (ArgsReachFault stof column lost (arg :: second :: args))
      ((namedTruths stof column (arg :: second :: args)).map fun ts =>
        .ofTruth (logicType.ofTruths ts))
      (expr.evaluateWith read) := by
  rw [bindBoolExpr] at hbind
  obtain ⟨result, hresult, hbind⟩ := Cpp.bind_eq_pure.1 hbind
  obtain ⟨rest, hstrict⟩ := exists_evaluateWith_bindChain read hbind
  rw [ArgsReachFault, namedTruths_cons]
  rcases hargs arg List.mem_cons_self result hresult with ⟨hfault, hundefined⟩ | ⟨hno, value,
    hmeaning, hyields⟩
  · refine .inl ⟨.inl hfault, ?_⟩
    rw [hstrict, hundefined]
    rfl
  rw [hmeaning]
  cases value with
  | none =>
    refine .inr ⟨?_, none, rfl, ?_⟩
    · rintro (hfault | ⟨x, hx, -⟩)
      · exact hno hfault
      · cases hx
    · rw [hstrict]
      exact throws_bind hyields _
  | some x =>
    have hrest : ∀ y ∈ second :: args, ∀ e, bindExpression stof scopes y = pure e →
        EvaluatesAs stof column lost read y e := fun y hy => hargs y (List.mem_cons_of_mem arg hy)
    have hchain := comesTo_bindChain_cons hyields (hrest second List.mem_cons_self) hbind
      fun a b joined _ _ hjoined hbind' => comesTo_bindChain
        (fun y hy => hrest y (List.mem_cons_of_mem second hy)) hjoined hbind'
    rcases hchain with ⟨hfault, hundefined⟩ | ⟨hnoChain, value, hvalue, hyields'⟩
    · exact .inl ⟨.inr ⟨x, rfl, hfault⟩, hundefined⟩
    · refine .inr ⟨?_, value, ?_, hyields'⟩
      · rintro (hfault | ⟨x', hx, hfault⟩)
        · exact hno hfault
        · cases hx
          exact hnoChain hfault
      · rw [← hvalue]
        show ((SqlValue.datum x).truth.bind _).map _ = _
        cases (SqlValue.datum x).truth with
        | none => rfl
        | some t => rw [Option.bind_some, Option.bind_some, Option.map_map]; rfl

/-- `AND` and `OR` evaluate to what they mean on the operands as these are read. -/
lemma evaluatesAs_boolExpr {boolop : BoolExprType}
    (hargs : ∀ x ∈ arg :: args, ∀ e, bindExpression stof scopes x = pure e →
      EvaluatesAs stof column lost read x e)
    (hbind : bindExpression stof scopes (.boolExpr boolop (arg :: args)) = pure expr) :
    EvaluatesAs stof column lost read (.boolExpr boolop (arg :: args)) expr := by
  -- the binder knows two connectives
  have hconnective : ∃ logicType, bindBoolExpr stof scopes logicType (arg :: args) = pure expr ∧
      ∀ ops, sqlMeaning stof column (.boolExpr boolop ops) =
        (sqlTruths stof column ops).map fun ts => .ofTruth (logicType.ofTruths ts) := by
    cases boolop with
    | and =>
      rw [bindExpression] at hbind
      exact ⟨.and, hbind, fun ops => by rw [sqlMeaning]⟩
    | or =>
      rw [bindExpression] at hbind
      exact ⟨.or, hbind, fun ops => by rw [sqlMeaning]⟩
    | not =>
      rw [bindExpression] at hbind
      cases hbind
  obtain ⟨logicType, hbool, hmeaning⟩ := hconnective
  unfold EvaluatesAs
  rw [Node.ReachesFault]
  cases args with
  | nil =>
    -- a single operand is the expression
    rw [bindBoolExpr] at hbool
    obtain ⟨result, hresult, hchain⟩ := Cpp.bind_eq_pure.1 hbool
    rw [bindChain] at hchain
    cases hchain
    have houtcome := hargs arg List.mem_cons_self _ hresult
    have hsame : namedMeaning stof column (.boolExpr boolop [arg]) =
        namedMeaning stof column arg := by
      unfold namedMeaning
      simp [Node.byName, argsByName, Node.byName.joined]
    have hfault : ArgsReachFault stof column lost [arg] ↔ arg.ReachesFault stof column lost := by
      simp [ArgsReachFault, ChainReachesFault]
    rw [hsame, hfault]
    exact houtcome
  | cons second args =>
    have hsame : namedMeaning stof column (.boolExpr boolop (arg :: second :: args)) =
        (namedTruths stof column (arg :: second :: args)).map fun ts =>
          .ofTruth (logicType.ofTruths ts) := by
      unfold namedMeaning namedTruths
      rw [← hmeaning]
      simp [Node.byName, argsByName, Node.byName.joined]
    rw [hsame]
    exact comesTo_bindBoolExpr hargs hbool

end Chains

/-- **What a bound expression evaluates to.** On the rows of any tables: where the evaluation comes
to a missing operand or an overflow, it has no defined behaviour; otherwise it returns what SQL means
by the tree that is read by its names, and throws if that means nothing.

**Proof sketch.** By induction on the tree, with one lemma for each construct. -/
theorem Node.IsParsed.evaluatesAs (hread : ReadsNames scopes column lost read) (hnode : node.IsParsed)
    (hbind : bindExpression stof scopes node = pure expr) :
    EvaluatesAs stof column lost read node expr := by
  induction hnode generalizing expr with
  | columnRef | starRef => exact evaluatesAs_columnRef hread hbind
  | constant hrange => exact evaluatesAs_aConst hrange hbind
  | @aExpr kind opName names lexpr rexpr _ _ ihleft ihright =>
    -- the evaluation of a missing operand is undefined
    have hoperand : ∀ operand : Node,
        (operand.isNull = false → ∀ {e}, bindExpression stof scopes operand = pure e →
          EvaluatesAs stof column lost read operand e) →
        ∀ e, bindExpression stof scopes operand = pure e →
          EvaluatesAs stof column lost read operand e := by
      intro operand ih e he
      cases operand with
      | null =>
        rw [bindExpression] at he
        cases he
        exact .inl ⟨by simp only [Node.ReachesFault], rfl⟩
      | _ => exact ih rfl he
    exact evaluatesAs_aExpr (hoperand lexpr ihleft) (hoperand rexpr ihright) hbind
  | @boolExpr boolop arg args _ _ iharg ihargs =>
    refine evaluatesAs_boolExpr (fun x hx e he => ?_) hbind
    rcases List.mem_cons.1 hx with rfl | hx
    · exact iharg he
    · exact ihargs x hx he
  | funcCall | aStar | other =>
    rw [bindExpression] at hbind
    cases hbind

/-! ### Trees whose meaning the reading keeps -/

/-- The connectives of truths that are all known have a known truth. -/
lemma LogicType.ofTruths_ne_none {logicType : LogicType} {ts : List (Option Bool)}
    (h : none ∉ ts) : logicType.ofTruths ts ≠ none := by
  cases logicType <;> simp only [ofTruths] <;> split_ifs <;> simp_all

/-- The value of a tree that has no NULL, and that the reading keeps. -/
def KeptByName (stof : String → Cpp (BitVec 32)) (column : String → String → Option Payload)
    (node : Node) : Prop :=
  namedMeaning stof column node = sqlMeaning stof column node ∧
    namedMeaning stof column node ≠ some .null

/-- The truth values of operands that are kept. -/
lemma namedTruths_eq {args : List Node} (h : ∀ arg ∈ args, KeptByName stof column arg) :
    namedTruths stof column args = sqlTruths stof column args ∧
      ∀ ts, namedTruths stof column args = some ts → none ∉ ts := by
  induction args with
  | nil =>
    refine ⟨by rw [namedTruths, argsByName], fun ts hts => ?_⟩
    rw [namedTruths, argsByName, sqlTruths] at hts
    cases hts
    exact List.not_mem_nil
  | cons arg args ih =>
    obtain ⟨hsame, hnull⟩ := h arg List.mem_cons_self
    obtain ⟨hrest, hknown⟩ := ih fun x hx => h x (List.mem_cons_of_mem arg hx)
    refine ⟨by rw [namedTruths_cons, sqlTruths, hsame, hrest], fun ts hts => ?_⟩
    rw [namedTruths_cons] at hts
    obtain ⟨t, ht, hts⟩ := Option.bind_eq_some_iff.1 hts
    obtain ⟨ts', hts', rfl⟩ := Option.map_eq_some_iff.1 hts
    obtain ⟨u, hu, htruth⟩ := Option.bind_eq_some_iff.1 ht
    intro hmem
    rcases List.mem_cons.1 hmem with rfl | hmem
    swap
    · exact hknown ts' hts' hmem
    cases u with
    | null => exact hnull hu
    | datum p => cases p <;> cases htruth

/-- A plain operator node whose operands are kept is kept: its operator is applied to two values,
and `IS NOT DISTINCT FROM` is equality then. -/
lemma keptByName_aExpr {kind : AExprKind} {opName : String} {names : List String}
    {lexpr rexpr : Node} (hleft : KeptByName stof column lexpr)
    (hright : KeptByName stof column rexpr)
    (hplain : (Node.aExpr kind (opName :: names) lexpr rexpr).IsPlain) :
    KeptByName stof column (.aExpr kind (opName :: names) lexpr rexpr) := by
  have hnamed : namedMeaning stof column (.aExpr kind (opName :: names) lexpr rexpr) =
      (namedMeaning stof column lexpr).bind fun u =>
        (namedMeaning stof column rexpr).bind fun v =>
          (PlainOp.named opName).bind fun op => op.lift u v := by
    unfold namedMeaning
    rw [Node.byName, sqlMeaning]
    rfl
  unfold KeptByName
  rw [hnamed, sqlMeaning, ← hleft.1, ← hright.1]
  cases hl : namedMeaning stof column lexpr with
  | none => exact ⟨rfl, fun h => by cases h⟩
  | some u =>
    cases hr : namedMeaning stof column rexpr with
    | none => exact ⟨rfl, fun h => by cases h⟩
    | some v =>
      cases u with
      | null => exact absurd hl hleft.2
      | datum x =>
        cases v with
        | null => exact absurd hr hright.2
        | datum y =>
          rw [Option.bind_some, Option.bind_some, Option.bind_some, Option.bind_some]
          constructor
          · cases kind with
            | op =>
              obtain rfl : names = [] := by simpa [Node.IsPlain] using hplain
              rfl
            | notDistinct =>
              obtain ⟨rfl, rfl⟩ := List.cons.inj (show opName :: names = ["="] from hplain)
              show ((ComparisonType.equal.decides x y).map Payload.boolean).map SqlValue.datum =
                ((ComparisonType.equal.decides x y).map not).map _
              rw [Option.map_map, Option.map_map]
              congr 1
              funext b
              cases b <;> rfl
            | _ => exact absurd hplain id
          · intro h
            obtain ⟨op, -, hop⟩ := Option.bind_eq_some_iff.1 h
            obtain ⟨w, -, hw⟩ := Option.map_eq_some_iff.1 hop
            cases hw

/-- `AND` and `OR` of several operands that are kept. -/
lemma keptByName_boolExpr {boolop : BoolExprType} {args : List Node}
    (hargs : ∀ arg ∈ args, KeptByName stof column arg) (hplain : args.length ≠ 1) :
    KeptByName stof column (.boolExpr boolop args) := by
  obtain ⟨htruths, hknown⟩ := namedTruths_eq hargs
  have hread : (Node.boolExpr boolop args).byName = .boolExpr boolop (argsByName args) := by
    rw [Node.byName]
    match args with
    | [] => simp [argsByName, Node.byName.joined]
    | [arg] => exact absurd rfl hplain
    | first :: second :: args => simp [argsByName, Node.byName.joined]
  have hconnective : ∀ logicType : LogicType,
      ((namedTruths stof column args).map fun ts => SqlValue.ofTruth (logicType.ofTruths ts)) ≠
        some .null := by
    intro logicType h
    obtain ⟨ts, hts, hnull⟩ := Option.map_eq_some_iff.1 h
    cases htruth : logicType.ofTruths ts with
    | none => exact LogicType.ofTruths_ne_none (hknown ts hts) htruth
    | some b =>
      rw [htruth] at hnull
      cases hnull
  unfold KeptByName namedMeaning
  rw [hread]
  unfold namedTruths at htruths hconnective
  cases boolop with
  | and =>
    rw [sqlMeaning, sqlMeaning, ← htruths]
    exact ⟨rfl, hconnective .and⟩
  | or =>
    rw [sqlMeaning, sqlMeaning, ← htruths]
    exact ⟨rfl, hconnective .or⟩
  | not => simp [sqlMeaning]

/-- A tree inside the operands is inside one of them. -/
lemma mem_argSubexpressions {s : Node} {args : List Node} :
    s ∈ argSubexpressions args ↔ ∃ arg ∈ args, s ∈ arg.subexpressions := by
  induction args with
  | nil =>
    rw [argSubexpressions]
    simp
  | cons arg args ih =>
    rw [argSubexpressions, List.mem_append, ih]
    simp

/-- The reading keeps the meaning of a tree of plain nodes.

**Proof sketch.** By induction on the tree. No column holds NULL, so no such tree means NULL, and on
values the plain nodes mean what the operator of their name does. -/
lemma Node.IsParsed.keptByName (hnode : node.IsParsed)
    (hplain : ∀ s ∈ node.subexpressions, s.IsPlain) : KeptByName stof column node := by
  induction hnode with
  | @columnRef names hnames =>
    rw [subexpressions] at hplain
    have hlength : (names.map Field.string).length ≤ 2 := (hplain _ List.mem_cons_self).1
    unfold KeptByName namedMeaning
    rw [byName]
    match names, hlength with
    | [], _ => exact absurd rfl hnames
    | [colName], _ => simp [byName.readReference, sqlMeaning]
    | [tableQualifier, colName], _ => simp [byName.readReference, sqlMeaning]
  | starRef =>
    rw [subexpressions] at hplain
    exact absurd (List.mem_append_right _ List.mem_cons_self) (hplain _ List.mem_cons_self).2
  | @constant val _ =>
    unfold KeptByName namedMeaning
    rw [byName_aConst]
    refine ⟨rfl, ?_⟩
    cases val <;> simp [sqlMeaning]
  | @aExpr kind opName names lexpr rexpr _ _ ihleft ihright =>
    rw [subexpressions] at hplain
    have hoperand : ∀ operand : Node, operand.subexpressions ⊆
        lexpr.subexpressions ++ rexpr.subexpressions →
        (operand.isNull = false → (∀ s ∈ operand.subexpressions, s.IsPlain) →
          KeptByName stof column operand) → KeptByName stof column operand := by
      intro operand hsub ih
      cases operand with
      | null => simp [KeptByName, namedMeaning, byName, sqlMeaning]
      | _ => exact ih rfl fun s hs => hplain s (List.mem_cons_of_mem _ (hsub hs))
    exact keptByName_aExpr (hoperand lexpr (List.subset_append_left _ _) ihleft)
      (hoperand rexpr (List.subset_append_right _ _) ihright) (hplain _ List.mem_cons_self)
  | @boolExpr boolop arg args _ _ iharg ihargs =>
    rw [subexpressions] at hplain
    refine keptByName_boolExpr (fun x hx => ?_) (hplain _ List.mem_cons_self)
    have hsub : ∀ s ∈ x.subexpressions, s.IsPlain := fun s hs =>
      hplain s (List.mem_cons_of_mem _ (mem_argSubexpressions.2 ⟨x, hx, hs⟩))
    rcases List.mem_cons.1 hx with rfl | hx
    · exact iharg hsub
    · exact ihargs x hx hsub
  | funcCall | aStar | other => simp [KeptByName, namedMeaning, byName, sqlMeaning]

end Bound

end OneBase
