import OneBase.Binder.Clauses
import OneBase.Common.Faults
import OneBase.Optimizer.Wholeness

set_option relaxedAutoImplicit false
set_option autoImplicit false

/-!
# Faults of an expression

Where the binder stops in an expression. Some constructs it refuses with an exception; of others it
takes a node for one of another kind, or follows a `nullptr`. The faults are listed in the order in
which the binder comes to them, without binding the expression: only the first one matters.

## Main definitions

* `OneBase.Node.faults` — the faults of an expression.
* `OneBase.Node.isWhole`, `OneBase.Node.isAbsent` — whether its binding has a `nullptr`, or is one.

## Main results

* `OneBase.stopsAt_bindExpression`, `OneBase.bindExpression_isWhole` — the binding of an
  expression.
-/

namespace OneBase

/-! ## Expressions -/

/-- The operators that `BindAExpr` knows. -/
def operatorNames : List String := ["=", "<>", "!=", "<", "<=", ">", ">=", "+", "-", "*", "/", "%"]

/-- Whether a table that the qualifier admits has a column of this name. -/
def namesColumn (scopes : List TableScope) (colName tableQualifier : String) : Bool :=
  scopes.any fun scope => (tableQualifier = "" || tableQualifier = scope.tableAlias) &&
    (findColumn scope.info.schema colName).isSome

section Expressions

variable (stof : String → Cpp (BitVec 32)) (scopes : List TableScope)

/-- The faults of a column reference. -/
def columnRefFaults (fields : List Field) : List Fault :=
  match columnRefNames fields with
  | some (.ok none) => []
  | some (.ok (some (colName, tableQualifier))) =>
    refusedUnless (namesColumn scopes colName tableQualifier)
  | _ => [.misread]

/-- The faults of a constant. -/
def Constant.faults : Constant → List Fault
  | .integer _ => []
  | .float str => refusedUnless (stof str).result.isSome
  | .string _ => []
  | .other => [.refused]

/-- The faults of the name of an operator. -/
def operatorFaults : List String → List Fault
  | opName :: _ => refusedUnless (opName ∈ operatorNames)
  | [] => [.misread]

mutual

/-- The faults of an expression. -/
def Node.faults : Node → List Fault
  | .null => []
  | .columnRef fields => columnRefFaults scopes fields
  | .aConst val => val.faults stof
  | .aExpr _ name lexpr rexpr => lexpr.faults ++ (rexpr.faults ++ operatorFaults name)
  | .boolExpr .and args => if args.isEmpty then [.misread] else argFaults args
  | .boolExpr .or args => if args.isEmpty then [.misread] else argFaults args
  | .boolExpr .not _ => [.refused]
  | .funcCall _ _ _ => [.refused]
  | .aStar => [.refused]
  | .other _ => [.refused]

/-- The faults of the operands of `AND` and `OR`. -/
def argFaults : List Node → List Fault
  | [] => []
  | arg :: args => arg.faults ++ argFaults args

end

variable {stof scopes}

/-- Resolving a column throws unless the name is a column of a scope. -/
lemma stopsAt_resolveColumn (colName tableQualifier : String) :
    (resolveColumn colName tableQualifier scopes).StopsAt
      (refusedUnless (namesColumn scopes colName tableQualifier)) := by
  induction scopes with
  | nil => exact ⟨_, rfl⟩
  | cons scope scopes ih =>
    rw [resolveColumn]
    unfold namesColumn at ih ⊢
    rw [List.any_cons]
    split_ifs with hskip
    · have hfirst : (decide (tableQualifier = "") || decide (tableQualifier = scope.tableAlias)) =
          false := by
        simpa using hskip
      rw [hfirst, Bool.false_and, Bool.false_or]
      exact ih
    · have hfirst : (decide (tableQualifier = "") || decide (tableQualifier = scope.tableAlias)) =
          true := by
        rw [not_and_or, not_not, not_not] at hskip
        simpa using hskip
      rw [hfirst, Bool.true_and]
      cases findColumn scope.info.schema colName with
      | none => exact ih
      | some found => exact ⟨_, rfl⟩

/-- Binding a column reference stops at the faults of its fields. -/
lemma stopsAt_bindColumnRef (fields : List Field) :
    (bindColumnRef scopes fields).StopsAt (columnRefFaults scopes fields) := by
  have hnames : ∀ e, columnRefNames fields ≠ throw e := by
    intro e
    unfold columnRefNames
    split <;> exact fun h => by cases h
  unfold bindColumnRef columnRefFaults
  match hcase : columnRefNames fields with
  | none => rfl
  | some (.error e) => exact absurd hcase (hnames e)
  | some (.ok none) => exact ⟨.null, rfl⟩
  | some (.ok (some (colName, tableQualifier))) =>
    exact (stopsAt_resolveColumn _ _).map fun _ => ⟨_, rfl⟩

/-- Binding a constant stops at the faults of its text. -/
lemma stopsAt_bindConstant (hstof : ∀ str, stof str ≠ Cpp.undefined) (val : Constant) :
    (bindConstant stof val).StopsAt (val.faults stof) := by
  cases val with
  | integer ival => exact ⟨_, rfl⟩
  | float str =>
    have hread : (stof str).StopsAt (refusedUnless (stof str).result.isSome) := by
      cases hcase : stof str with
      | none => exact absurd hcase (hstof str)
      | some r =>
        cases r with
        | error e => exact ⟨e, rfl⟩
        | ok f => exact ⟨f, rfl⟩
    exact hread.map fun _ => ⟨_, rfl⟩
  | string str => exact ⟨_, rfl⟩
  | other => exact ⟨_, rfl⟩

/-- An operator with this name. -/
lemma stopsAt_operatorExpression (opName : String) (left right : Expression) :
    (operatorExpression opName left right).StopsAt (refusedUnless (opName ∈ operatorNames)) := by
  apply Cpp.stopsAt_refusedUnless
  · intro hname
    have hmem : opName ∈ operatorNames := of_decide_eq_true hname
    simp only [operatorNames, List.mem_cons, List.not_mem_nil, or_false] at hmem
    rcases hmem with rfl | rfl | rfl | rfl | rfl | rfl | rfl | rfl | rfl | rfl | rfl | rfl <;>
      exact ⟨_, rfl⟩
  · intro hname
    have hmem : opName ∉ operatorNames := of_decide_eq_false hname
    simp only [operatorNames, List.mem_cons, List.not_mem_nil, or_false, not_or] at hmem
    obtain ⟨h₁, h₂, h₃, h₄, h₅, h₆, h₇, h₈, h₉, h₁₀, h₁₁, h₁₂⟩ := hmem
    refine ⟨.runtimeError ("Unsupported operator: " ++ opName), ?_⟩
    simp [operatorExpression, h₁, h₂, h₃, h₄, h₅, h₆, h₇, h₈, h₉, h₁₀, h₁₁, h₁₂]

mutual

/-- The binding of an expression stops at its first fault. -/
lemma stopsAt_bindExpression (hstof : ∀ str, stof str ≠ Cpp.undefined) :
    ∀ node : Node, (bindExpression stof scopes node).StopsAt (node.faults stof scopes)
  | .null => ⟨_, by rw [bindExpression]⟩
  | .columnRef fields => by
    rw [bindExpression, Node.faults]
    exact stopsAt_bindColumnRef fields
  | .aConst val => by
    rw [bindExpression, Node.faults]
    exact stopsAt_bindConstant hstof val
  | .aExpr _ name lexpr rexpr => by
    rw [bindExpression, Node.faults]
    refine (stopsAt_bindExpression hstof lexpr).bind fun left _ => ?_
    refine (stopsAt_bindExpression hstof rexpr).bind fun right _ => ?_
    cases name with
    | nil => rfl
    | cons opName _ => exact stopsAt_operatorExpression opName left right
  | .boolExpr .and args => by
    rw [bindExpression, Node.faults]
    exact stopsAt_bindBoolExpr hstof .and args
  | .boolExpr .or args => by
    rw [bindExpression, Node.faults]
    exact stopsAt_bindBoolExpr hstof .or args
  | .boolExpr .not _ => ⟨_, by rw [bindExpression]⟩
  | .funcCall _ _ _ => ⟨_, by rw [bindExpression]⟩
  | .aStar => ⟨_, by rw [bindExpression]⟩
  | .other _ => ⟨_, by rw [bindExpression]⟩

/-- Binding a chain of operands stops at the first fault of an operand; a chain without operands has
no defined behaviour. -/
lemma stopsAt_bindBoolExpr (hstof : ∀ str, stof str ≠ Cpp.undefined) (logicType : LogicType) :
    ∀ args : List Node, (bindBoolExpr stof scopes logicType args).StopsAt
      (if args.isEmpty then [.misread] else argFaults stof scopes args)
  | [] => by
    rw [bindBoolExpr]
    rfl
  | arg :: args => by
    rw [bindBoolExpr, List.isEmpty_cons, if_neg Bool.false_ne_true, argFaults]
    exact (stopsAt_bindExpression hstof arg).bind fun result _ =>
      stopsAt_bindChain hstof logicType result args

/-- The operands behind the first one.

**Proof sketch.** Together with the lemmas for expressions, by recursion on the nodes: an operand
that is bound leaves the faults of the ones behind it. -/
lemma stopsAt_bindChain (hstof : ∀ str, stof str ≠ Cpp.undefined) (logicType : LogicType) :
    ∀ (result : Expression) (args : List Node),
      (bindChain stof scopes logicType result args).StopsAt (argFaults stof scopes args)
  | result, [] => ⟨result, by rw [bindChain]⟩
  | result, arg :: args => by
    rw [bindChain, argFaults]
    exact (stopsAt_bindExpression hstof arg).bind fun _ _ =>
      stopsAt_bindChain hstof logicType _ args

end

/-! ## Missing operands -/

mutual

/-- The binding of the expression is a `nullptr`. -/
def Node.isAbsent : Node → Bool
  | .null => true
  | .columnRef fields =>
    match columnRefNames fields with
    | some (.ok none) => true
    | _ => false
  | .boolExpr _ args => isAbsentArg args
  | .aConst _ => false
  | .aExpr _ _ _ _ => false
  | .funcCall _ _ _ => false
  | .aStar => false
  | .other _ => false

/-- There is a single operand, and its binding is a `nullptr`. -/
def isAbsentArg : List Node → Bool
  | [] => false
  | [arg] => arg.isAbsent
  | _ :: _ :: _ => false

end

mutual

/-- The expression exists, and so do its operands. -/
def Node.isWhole : Node → Bool
  | .null => false
  | .columnRef fields =>
    match columnRefNames fields with
    | some (.ok none) => false
    | _ => true
  | .aConst _ => true
  | .aExpr _ _ lexpr rexpr => lexpr.isWhole && rexpr.isWhole
  | .boolExpr _ args => areWhole args
  | .funcCall _ _ _ => false
  | .aStar => false
  | .other _ => false

/-- The operands exist. -/
def areWhole : List Node → Bool
  | [] => true
  | arg :: args => arg.isWhole && areWhole args

end

/-- There is no predicate, or a whole one. -/
def Node.isPredicate (node : Node) : Bool := node.isAbsent || node.isWhole

/-- An operator makes a comparison or arithmetic of its operands. -/
lemma operatorExpression_cases {opName : String} {left right expr : Expression}
    (h : operatorExpression opName left right = pure expr) :
    (∃ compType, expr = .comparison left right compType) ∨
      ∃ arithType, expr = .arithmetic left right arithType := by
  have hstops := stopsAt_operatorExpression opName left right
  have hmem : opName ∈ operatorNames := by
    by_contra hnot
    rw [refusedUnless, if_neg (by simpa using hnot)] at hstops
    obtain ⟨e, he⟩ := hstops
    cases h.symm.trans he
  simp only [operatorNames, List.mem_cons, List.not_mem_nil, or_false] at hmem
  rcases hmem with rfl | rfl | rfl | rfl | rfl | rfl | rfl | rfl | rfl | rfl | rfl | rfl <;>
    obtain rfl := Except.ok.inj (Option.some.inj h) <;>
    first | exact .inl ⟨_, rfl⟩ | exact .inr ⟨_, rfl⟩

/-- An operator is there, and whole if its operands are. -/
lemma operatorExpression_isWhole {opName : String} {left right expr : Expression}
    (h : operatorExpression opName left right = pure expr) :
    expr.isWhole = (left.isWhole && right.isWhole) ∧ expr.isNull = false := by
  rcases operatorExpression_cases h with ⟨compType, rfl⟩ | ⟨arithType, rfl⟩ <;> exact ⟨rfl, rfl⟩

mutual

/-- The binding of an expression is whole if the expression is. -/
lemma bindExpression_isWhole : ∀ {node : Node} {expr : Expression},
    bindExpression stof scopes node = pure expr →
      expr.isWhole = node.isWhole ∧ expr.isNull = node.isAbsent
  | .null, expr, h => by
    rw [bindExpression] at h
    cases h
    exact ⟨rfl, rfl⟩
  | .columnRef fields, expr, h => by
    rw [bindExpression] at h
    obtain ⟨names, hnames, h⟩ := Cpp.bind_eq_pure.1 h
    rw [Node.isWhole, Node.isAbsent, hnames]
    cases names with
    | none =>
      cases h
      exact ⟨rfl, rfl⟩
    | some names =>
      obtain ⟨found, -, h⟩ := Cpp.bind_eq_pure.1 h
      cases h
      exact ⟨rfl, rfl⟩
  | .aConst val, expr, h => by
    rw [bindExpression] at h
    rw [Node.isWhole, Node.isAbsent]
    cases val with
    | float str =>
      obtain ⟨f, -, h⟩ := Cpp.bind_eq_pure.1 h
      cases h
      exact ⟨rfl, rfl⟩
    | integer | string =>
      cases h
      exact ⟨rfl, rfl⟩
    | other => cases h
  | .aExpr _ name lexpr rexpr, expr, h => by
    rw [bindExpression] at h
    obtain ⟨left, hleft, h⟩ := Cpp.bind_eq_pure.1 h
    obtain ⟨right, hright, h⟩ := Cpp.bind_eq_pure.1 h
    rw [Node.isWhole, Node.isAbsent, ← (bindExpression_isWhole hleft).1,
      ← (bindExpression_isWhole hright).1]
    cases name with
    | nil => cases h
    | cons opName names => exact operatorExpression_isWhole h
  | .boolExpr .and args, expr, h => by
    rw [bindExpression] at h
    rw [Node.isWhole, Node.isAbsent]
    exact bindBoolExpr_isWhole h
  | .boolExpr .or args, expr, h => by
    rw [bindExpression] at h
    rw [Node.isWhole, Node.isAbsent]
    exact bindBoolExpr_isWhole h
  | .boolExpr .not _, expr, h => by
    rw [bindExpression] at h
    cases h
  | .funcCall _ _ _, expr, h => by
    rw [bindExpression] at h
    cases h
  | .aStar, expr, h => by
    rw [bindExpression] at h
    cases h
  | .other _, expr, h => by
    rw [bindExpression] at h
    cases h

/-- A chain of operands is whole if they are, and missing if it is a single missing operand. -/
lemma bindBoolExpr_isWhole {logicType : LogicType} : ∀ {args : List Node} {expr : Expression},
    bindBoolExpr stof scopes logicType args = pure expr →
      expr.isWhole = areWhole args ∧ expr.isNull = isAbsentArg args
  | [], expr, h => by
    rw [bindBoolExpr] at h
    cases h
  | [arg], expr, h => by
    rw [bindBoolExpr] at h
    obtain ⟨result, hresult, h⟩ := Cpp.bind_eq_pure.1 h
    rw [bindChain] at h
    cases h
    rw [areWhole, areWhole, Bool.and_true, isAbsentArg]
    exact bindExpression_isWhole hresult
  | arg :: arg' :: args, expr, h => by
    rw [bindBoolExpr] at h
    obtain ⟨result, hresult, h⟩ := Cpp.bind_eq_pure.1 h
    have hchain := bindChain_isWhole h
    rw [areWhole, ← (bindExpression_isWhole hresult).1, isAbsentArg]
    exact ⟨hchain.1, hchain.2 (List.cons_ne_nil arg' args)⟩

/-- The rest of a chain: it is whole if what comes before it and its operands are, and it is there
if it has an operand. -/
lemma bindChain_isWhole {logicType : LogicType} : ∀ {args : List Node} {result expr : Expression},
    bindChain stof scopes logicType result args = pure expr →
      expr.isWhole = (result.isWhole && areWhole args) ∧ (args ≠ [] → expr.isNull = false)
  | [], result, expr, h => by
    rw [bindChain] at h
    cases h
    exact ⟨by rw [areWhole, Bool.and_true], fun hne => absurd rfl hne⟩
  | [arg], result, expr, h => by
    rw [bindChain] at h
    obtain ⟨right, hright, h⟩ := Cpp.bind_eq_pure.1 h
    rw [bindChain] at h
    cases h
    rw [areWhole, areWhole, Bool.and_true, ← (bindExpression_isWhole hright).1]
    exact ⟨rfl, fun _ => rfl⟩
  | arg :: arg' :: args, result, expr, h => by
    rw [bindChain] at h
    obtain ⟨right, hright, h⟩ := Cpp.bind_eq_pure.1 h
    have hchain := bindChain_isWhole h
    rw [areWhole, ← (bindExpression_isWhole hright).1]
    exact ⟨by rw [hchain.1, Expression.isWhole, Bool.and_assoc],
      fun _ => hchain.2 (List.cons_ne_nil arg' args)⟩

end

/-- A bound expression can be a predicate, missing or whole, if the node can. -/
lemma bindExpression_isPredicate {node : Node} {expr : Expression}
    (h : bindExpression stof scopes node = pure expr) : expr.isPredicate = node.isPredicate := by
  obtain ⟨hwhole, habsent⟩ := bindExpression_isWhole h
  rw [Node.isPredicate, ← hwhole, ← habsent]
  rfl

end Expressions

end OneBase
