import Mathlib.Data.Nat.Notation

set_option relaxedAutoImplicit false
set_option autoImplicit false

/-!
# Parse trees

The nodes of `third_party/libpg_query` that the binder looks at, as the parser hands them over. An
empty `PGList` is a `nullptr`, and the grammar puts no `nullptr` into a list.

## Main definitions

* `OneBase.Node` — expressions.
* `OneBase.FromItem`, `OneBase.SelectStmt`, `OneBase.Statement` — clauses and statements.
* `OneBase.ParseResult` — what the parser makes of a text.
-/

namespace OneBase

/-- A field of a `PGColumnRef`: a `PGString`, or a `PGAStar`. -/
inductive Field
  | string (str : String)
  | aStar
  deriving DecidableEq, Repr

/-- `PGAConst::val`, where an integer is a `long`; `other` is a `PGNull` or a `PGBitString`. -/
inductive Constant
  | integer (ival : BitVec 64)
  | float (str : String)
  | string (str : String)
  | other
  deriving DecidableEq, Repr

/-- `PGAExpr_Kind`. -/
inductive AExprKind
  | op
  | opAny
  | opAll
  | distinct
  | notDistinct
  | nullif
  | of
  | inList
  | like
  | ilike
  | glob
  | similar
  | between
  | notBetween
  | betweenSym
  | notBetweenSym
  | paren
  deriving DecidableEq, Repr

/-- `PGBoolExprType`. -/
inductive BoolExprType
  | and
  | or
  | not
  deriving DecidableEq, Repr

/-- A `PGNode *` where an expression is expected; `other` is a node of another kind, with its
`PGNodeTag`. -/
inductive Node
  /-- The `nullptr`. -/
  | null
  | columnRef (fields : List Field)
  | aConst (val : Constant)
  | aExpr (kind : AExprKind) (name : List String) (lexpr rexpr : Node)
  | boolExpr (boolop : BoolExprType) (args : List Node)
  | funcCall (funcname : List String) (args : List Node) (aggStar : Bool)
  | aStar
  | other (type : ℕ)
  deriving Inhabited

/-- Whether this is the `nullptr`. -/
def Node.isNull : Node → Bool
  | null => true
  | _ => false

/-- `PGJoinType`, as the parser uses it. -/
inductive JoinType
  | inner
  | left
  | full
  | right
  | semi
  | anti
  | position
  deriving DecidableEq, Repr

/-- `PGJoinRefType`. -/
inductive JoinRefType
  | regular
  | natural
  | asOf
  deriving DecidableEq, Repr

/-- `PGRangeVar`, with the `aliasname` of its `alias`. -/
structure RangeVar where
  relname : String
  aliasname : Option String := none
  deriving DecidableEq, Repr

/-- An element of a `fromClause`; `other` is a subselect, a function and so on. -/
inductive FromItem
  | rangeVar (rv : RangeVar)
  | joinExpr (jointype : JoinType) (joinreftype : JoinRefType) (larg rarg : FromItem)
      (usingClause : List String) (quals : Node)
  | other

/-- `PGResTarget`. -/
structure ResTarget where
  name : Option String := none
  val : Node

/-- `PGSortByDir`. -/
inductive SortByDir
  | default
  | asc
  | desc
  | sortUsing
  deriving DecidableEq, Repr

/-- `PGSortBy`. -/
structure SortBy where
  node : Node
  sortbyDir : SortByDir := .default

/-- `PGSelectStmt`. -/
structure SelectStmt where
  targetList : List ResTarget := []
  fromClause : List FromItem := []
  whereClause : Node := .null
  groupClause : List Node := []
  valuesLists : List (List Node) := []
  sortClause : List SortBy := []
  limitCount : Node := .null

/-- `PGIndexElem`. -/
structure IndexElem where
  name : Option String := none
  expr : Node := .null

/-- An element of the `objects` of a `PGDropStmt`. -/
inductive ObjectName
  | string (str : String)
  | list (parts : List ObjectName)
  | rangeVar (relname : Option String)
  | other

/-- A `PGNode *` where a statement is expected; `other` is a node of another kind, with its
`PGNodeTag`. -/
inductive Statement
  | indexStmt (relation idxname : Option String) (indexParams : List IndexElem)
  | dropStmt (removesIndex : Bool) (objects : List ObjectName) (missingOk : Bool)
  | variableShowStmt (set relation : Option String)
  | selectStmt (select : SelectStmt)
  | insertStmt (relname : String) (selectStmt : Option SelectStmt)
  | deleteStmt (relname : String) (whereClause : Node)
  | updateStmt (relname : String) (targetList : List ResTarget) (whereClause : Node)
  | other (type : ℕ)

/-- What `PostgresParser::Parse` leaves: an error message, or the `parse_tree`. -/
inductive ParseResult
  | failure (errorMessage : String)
  | success (parseTree : List Statement)

end OneBase
