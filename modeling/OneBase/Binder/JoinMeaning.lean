import OneBase.Binder.BoundMeaning
import OneBase.Binder.Clauses
import OneBase.Execution.NestedLoopJoin

set_option relaxedAutoImplicit false
set_option autoImplicit false

/-!
# The condition of a join

What SQL means by the `ON` condition of a join of two tables and by its `USING` or `NATURAL`
columns, on a pair of rows. The binder reads the `ON` condition by the names of its operators and
looks for the columns in the tables of the items before the join first.

## Main definitions

* `OneBase.TableJoin` — the joins.
* `OneBase.TableJoin.onTruth`, `OneBase.TableJoin.isPair` — their conditions in SQL.
* `OneBase.TableJoin.ReadsAs` — the truth of the `ON` condition as the binder reads it.

## Main results

* `OneBase.TableJoin.accepts_iff` — which pairs the bound condition accepts.
-/

namespace OneBase

/-- The joins of SQL. -/
def JoinType.isSql : JoinType → Bool
  | .inner => true
  | .left => true
  | .full => true
  | .right => true
  | _ => false

/-- The left rows without a partner are kept. -/
def JoinType.keepsLeft : JoinType → Bool
  | .left => true
  | .full => true
  | _ => false

/-- The right rows without a partner are kept. -/
def JoinType.keepsRight : JoinType → Bool
  | .right => true
  | .full => true
  | _ => false

/-- The ways of SQL to say what a join compares. -/
def JoinRefType.isSql : JoinRefType → Bool
  | .asOf => false
  | _ => true

/-- A join of two tables. -/
structure TableJoin where
  left : TableScope
  right : TableScope
  jointype : JoinType
  joinreftype : JoinRefType
  usingClause : List String
  quals : Node

/-- The table and the index of a name: those of the first table that the qualifier admits and that
has such a column. -/
def namedColumn (scopes : List TableScope) (tableQualifier colName : String) : Option (ℕ × ℕ) :=
  scopes.findSome? fun scope =>
    if tableQualifier = "" ∨ tableQualifier = scope.tableAlias then
      (findColumn scope.info.schema colName).map fun found => (scope.tupleIdx, found.1)
    else none

namespace TableJoin

section Condition

variable (stof : String → Cpp (BitVec 32)) (before : List TableScope) (join : TableJoin)

/-! ## The condition in SQL -/

/-- What a name means on a pair of rows. Exactly one of the two tables must have such a column. -/
def column (l r : Tuple) (tableQualifier colName : String) : Option Payload :=
  match namesColumn [join.left] colName tableQualifier,
    namesColumn [join.right] colName tableQualifier with
  | true, false => sqlColumn join.left l tableQualifier colName
  | false, true => sqlColumn join.right r tableQualifier colName
  | _, _ => none

/-- The truth of the `ON` condition on a pair of rows, if it has one. Without an `ON` condition
there is nothing that the pair has to satisfy. -/
def onTruth (l r : Tuple) : Option (Option Bool) :=
  if join.quals.isNull then some (some true)
  else (sqlMeaning stof (join.column l r) join.quals).bind SqlValue.truth

/-- The columns of the `USING` clause, or for a `NATURAL` join those that both tables have. -/
def comparedColumns : List String :=
  if join.joinreftype = .natural then
    (join.left.info.schema.columns.map Column.name).filter fun name =>
      (findColumn join.left.info.schema name).isSome &&
        (findColumn join.right.info.schema name).isSome
  else join.usingClause

/-- Whether a pair of rows agrees on a column. -/
def agreesOn (l r : Tuple) (name : String) : Bool :=
  match findColumn join.left.info.schema name, findColumn join.right.info.schema name with
  | some (i, _), some (j, _) =>
    ((l.getValue i).compareEquals (r.getValue j)).result == some (Value.ofBool true)
  | _, _ => false

/-- Whether a pair of rows agrees on the columns of `USING` or `NATURAL`. -/
def agrees (l r : Tuple) : Bool := join.comparedColumns.all (join.agreesOn l r)

/-- Whether two rows are partners. -/
def isPair (l r : Tuple) : Bool := join.onTruth stof l r == some (some true) && join.agrees l r

/-- Whether both tables have the column, with one type. -/
def isShared (name : String) : Bool :=
  match findColumn join.left.info.schema name, findColumn join.right.info.schema name with
  | some (_, type), some (_, type') => type == type'
  | _, _ => false

/-- Whether exactly one of the two tables has the column that is meant. -/
def mentionsOwn : Node → Bool
  | .columnRef [.string colName] =>
    namesColumn [join.left] colName "" != namesColumn [join.right] colName ""
  | .columnRef [.string tableQualifier, .string colName] =>
    namesColumn [join.left] colName tableQualifier != namesColumn [join.right] colName tableQualifier
  | .columnRef _ => false
  | _ => true

/-- Whether SQL defines the rows of the join: its kind is one of SQL, its condition only mentions
columns of its tables, each of them without ambiguity, and both tables have the columns that it
compares. -/
def isDefined : Bool :=
  join.jointype.isSql && join.joinreftype.isSql && join.quals.subexpressions.all join.mentionsOwn &&
    join.comparedColumns.all join.isShared

/-! ## The condition as the binder reads it -/

/-- The reading of a name on a pair of rows, if there is such a column. The first tuple stands for
the table with the index 0, and the other one for all other tables. -/
def readName (l r : Tuple) (tableQualifier colName : String) : Option (Cpp Value) :=
  (namedColumn (before ++ [join.left, join.right]) tableQualifier colName).map fun found =>
    if found.1 = 0 then l.getValueAt join.left.info.schema found.2
    else r.getValueAt join.right.info.schema found.2

/-- The value that is read for a name. -/
def readColumn (l r : Tuple) (tableQualifier colName : String) : Option Payload :=
  (join.readName before l r tableQualifier colName).bind fun x => x.result.map Value.payload

/-- The reading of a name is undefined. -/
def IsLost (l r : Tuple) (tableQualifier colName : String) : Prop :=
  join.readName before l r tableQualifier colName = some Cpp.undefined

/-- The `ON` condition, read by the names of its operators and of the columns, has this truth on a
pair of rows. If there is none, or only a star, every pair satisfies it. -/
def ReadsAs (l r : Tuple) (b : Bool) : Prop :=
  if join.quals.isAbsent = true then b = true
  else ¬ join.quals.ReachesFault stof (join.readColumn before l r) (join.IsLost before l r) ∧
    namedMeaning stof (join.readColumn before l r) join.quals = some (.datum (.boolean b))

end Condition

end TableJoin

/-! ## The bound condition -/

section Bound

variable {stof : String → Cpp (BitVec 32)} {scopes before : List TableScope} {node : Node}
  {expr : Expression}

/-- The binder finds the first column of the name. -/
lemma resolveColumn_eq (colName tableQualifier : String) :
    (∃ e, namedColumn scopes tableQualifier colName = none ∧
        resolveColumn colName tableQualifier scopes = throw e) ∨
      ∃ tupleIdx i type, namedColumn scopes tableQualifier colName = some (tupleIdx, i) ∧
        resolveColumn colName tableQualifier scopes = pure (tupleIdx, i, type) := by
  induction scopes with
  | nil => exact .inl ⟨_, rfl, rfl⟩
  | cons scope scopes ih =>
    unfold namedColumn at ih ⊢
    rw [resolveColumn, List.findSome?_cons]
    by_cases hqualifier : tableQualifier = "" ∨ tableQualifier = scope.tableAlias
    · rw [if_pos hqualifier, if_neg (by tauto)]
      cases findColumn scope.info.schema colName with
      | none => exact ih
      | some found => exact .inr ⟨_, _, _, rfl, rfl⟩
    · rw [if_neg hqualifier, if_pos (by tauto)]
      exact ih

/-- What is read from a row that was read has no null. -/
lemma Tuple.IsRead.isNull_getValueAt {schema : Schema} {tuple : Tuple} (h : tuple.IsRead schema)
    {i : ℕ} {v : Value} (hv : tuple.getValueAt schema i = pure v) : v.isNull = false := by
  unfold Tuple.getValueAt at hv
  cases hvalue : tuple.values[i]? with
  | some w =>
    rw [hvalue] at hv
    cases hv
    exact h.notNull v (List.mem_of_getElem? hvalue)
  | none =>
    rw [hvalue] at hv
    cases hcolumn : schema.getColumn i with
    | none =>
      rw [hcolumn] at hv
      cases hv
    | some column =>
      rw [hcolumn] at hv
      exact Value.isNull_deserializeFrom hv

namespace TableJoin

variable {join : TableJoin} {l r : Tuple} {b : Bool} {predicate : Expression}

/-- The names are read from the two rows. -/
lemma readsNames (hl : l.IsRead join.left.info.schema) (hr : r.IsRead join.right.info.schema) :
    ReadsNames (before ++ [join.left, join.right]) (join.readColumn before l r)
      (join.IsLost before l r) (fun tupleIdx colIdx =>
        if tupleIdx = 0 then l.getValueAt join.left.info.schema colIdx
        else r.getValueAt join.right.info.schema colIdx) := by
  intro colName tableQualifier
  unfold IsLost readColumn readName
  rcases @resolveColumn_eq (before ++ [join.left, join.right]) colName tableQualifier with
    ⟨e, hnone, hthrow⟩ | ⟨tupleIdx, i, type, hfound, hresolve⟩
  · rw [hnone, hthrow]
    exact .inr ⟨nofun, none, rfl, e, rfl⟩
  · rw [hfound, hresolve, pure_bind]
    show ComesTo _ _ (if tupleIdx = 0 then l.getValueAt join.left.info.schema i
      else r.getValueAt join.right.info.schema i)
    have hnull : ∀ v, (if tupleIdx = 0 then l.getValueAt join.left.info.schema i
        else r.getValueAt join.right.info.schema i) = pure v → v.isNull = false := by
      intro v hv
      split_ifs at hv
      · exact hl.isNull_getValueAt hv
      · exact hr.isNull_getValueAt hv
    generalize hread : (if tupleIdx = 0 then l.getValueAt join.left.info.schema i
      else r.getValueAt join.right.info.schema i) = x at hnull ⊢
    simp only [Option.map_some, hread]
    match x, hnull with
    | none, _ => exact .inl ⟨rfl, rfl⟩
    | some (.error e), _ => exact .inr ⟨nofun, none, rfl, e, rfl⟩
    | some (.ok v), hnull =>
      refine .inr ⟨nofun, some v.payload, rfl, ?_⟩
      obtain ⟨payload, isNull⟩ := v
      obtain rfl : isNull = false := hnull _ rfl
      rfl

/-- The bound condition accepts a pair of rows, or does not, iff it reads so. -/
lemma accepts_iff (hparsed : join.quals.isNull = false → join.quals.IsParsed)
    (hbind : bindExpression stof (before ++ [join.left, join.right]) join.quals = pure predicate)
    (hl : l.IsRead join.left.info.schema) (hr : r.IsRead join.right.info.schema) :
    accepts predicate (fun e =>
        e.evaluateJoin l join.left.info.schema r join.right.info.schema) = pure b ↔
      join.ReadsAs stof before l r b := by
  unfold ReadsAs accepts
  have habsent : predicate = .null ↔ join.quals.isAbsent = true := by
    rw [← (bindExpression_isWhole hbind).2]
    cases predicate <;> simp [Expression.isNull]
  by_cases hremains : join.quals.isAbsent = true
  · rw [if_pos (habsent.2 hremains), if_pos hremains]
    exact ⟨fun h => by cases h; rfl, fun h => by rw [h]⟩
  have hnull : join.quals.isNull = false := by
    cases hquals : join.quals with
    | null => simp [hquals, Node.isAbsent] at hremains
    | _ => rfl
  rw [if_neg fun h => hremains (habsent.1 h), if_neg hremains]
  have hvalue := (hparsed hnull).evaluatesAs (readsNames hl hr) hbind
  have hjoin : predicate.evaluateJoin l join.left.info.schema r join.right.info.schema =
      predicate.evaluateWith fun tupleIdx colIdx =>
        if tupleIdx = 0 then l.getValueAt join.left.info.schema colIdx
        else r.getValueAt join.right.info.schema colIdx := rfl
  show (predicate.evaluateJoin _ _ _ _ >>= fun value => Expression.holds value) = pure b ↔ _
  rw [hjoin]
  rcases hvalue with ⟨hfault, hundefined⟩ | ⟨hno, value, hmeaning, hyields⟩
  · rw [hundefined]
    exact iff_of_false (fun h => by cases h) fun h => h.1 hfault
  · rw [hmeaning]
    cases value with
    | none =>
      obtain ⟨e, he⟩ := hyields
      rw [he]
      exact iff_of_false (fun h => by cases h) fun h => by cases h.2
    | some p =>
      rw [yields_some.1 hyields, pure_bind]
      cases p with
      | boolean c =>
        constructor
        · intro h
          cases h
          exact ⟨hno, rfl⟩
        · rintro ⟨-, h⟩
          cases h
          rfl
      | _ => exact iff_of_false (fun h => by cases h) fun h => by cases h.2

/-- A row that was read has a value in every column. -/
lemma getValueAt_congr {schema : Schema} {tuple tuple' : Tuple} (h : tuple.IsRead schema)
    (hvalues : tuple.values = tuple'.values) {i : ℕ} (hi : i < schema.getColumnCount) :
    tuple.getValueAt schema i = tuple'.getValueAt schema i := by
  have hlt : i < tuple.values.length := h.length ▸ hi
  have hvalue : tuple.values[i]? = some tuple.values[i] := List.getElem?_eq_getElem hlt
  have hvalue' : tuple'.values[i]? = some tuple.values[i] := by rw [← hvalues, hvalue]
  rw [getValueAt_of_getElem? hvalue, getValueAt_of_getElem? hvalue']

variable {l' r' : Tuple}

/-- In SQL the condition looks at the values of the two rows. -/
lemma isPair_congr (hl : l.IsRead join.left.info.schema) (hr : r.IsRead join.right.info.schema)
    (hleft : l.values = l'.values) (hright : r.values = r'.values) :
    join.isPair stof l r = join.isPair stof l' r' := by
  have hsql : ∀ (scope : TableScope) (row row' : Tuple), row.IsRead scope.info.schema →
      row.values = row'.values → sqlColumn scope row = sqlColumn scope row' := by
    intro scope row row' hrow hvalues
    funext tableQualifier colName
    unfold sqlColumn
    split_ifs
    · cases hfound : findColumn scope.info.schema colName with
      | none => rfl
      | some found =>
        obtain ⟨i, type⟩ := found
        rw [Option.bind_some, Option.bind_some,
          getValueAt_congr hrow hvalues (findColumn_spec hfound).1]
    · rfl
  have hcolumn : join.column l r = join.column l' r' := by
    funext tableQualifier colName
    unfold column
    rw [hsql join.left l l' hl hleft, hsql join.right r r' hr hright]
  have hagrees : join.agrees l r = join.agrees l' r' := by
    unfold agrees agreesOn Tuple.getValue
    rw [hleft, hright]
  unfold isPair onTruth
  rw [hcolumn, hagrees]

/-- Without tables before the join, so does the condition as the binder reads it. -/
lemma readsAs_congr (hidx : join.left.tupleIdx = 0 ∧ join.right.tupleIdx = 1)
    (hl : l.IsRead join.left.info.schema) (hr : r.IsRead join.right.info.schema)
    (hleft : l.values = l'.values) (hright : r.values = r'.values) :
    join.ReadsAs stof [] l r b ↔ join.ReadsAs stof [] l' r' b := by
  have hname : join.readName [] l r = join.readName [] l' r' := by
    funext tableQualifier colName
    unfold readName
    cases hfound : namedColumn ([] ++ [join.left, join.right]) tableQualifier colName with
    | none => rfl
    | some found =>
      obtain ⟨scope, hscope, hcolumn⟩ := List.exists_of_findSome?_eq_some hfound
      split_ifs at hcolumn
      obtain ⟨⟨i, type⟩, hcolumn, hfound'⟩ := Option.map_eq_some_iff.1 hcolumn
      have hi := (findColumn_spec hcolumn).1
      subst hfound'
      simp only [List.nil_append, List.mem_cons, List.not_mem_nil, or_false] at hscope
      rcases hscope with rfl | rfl
      · simp only [Option.map_some, hidx.1, if_true]
        rw [getValueAt_congr hl hleft hi]
      · simp only [Option.map_some, hidx.2, one_ne_zero, if_false]
        rw [getValueAt_congr hr hright hi]
  have hread : join.readColumn [] l r = join.readColumn [] l' r' := by
    funext tableQualifier colName
    unfold readColumn
    rw [hname]
  have hlost : join.IsLost [] l r = join.IsLost [] l' r' := by
    funext tableQualifier colName
    unfold IsLost
    rw [hname]
  unfold ReadsAs
  rw [hread, hlost]

end TableJoin

end Bound

end OneBase
