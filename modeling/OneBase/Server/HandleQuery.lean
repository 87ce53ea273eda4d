import OneBase.Binder.Binder
import OneBase.Execution.FailedQueries
import OneBase.Execution.SmallTables
import OneBase.Server.Connection
import OneBase.Server.ResultText

set_option relaxedAutoImplicit false
set_option autoImplicit false

/-!
# Answering a query

`HandleQuery` of `onebase_server/server_main.cpp`: the statement is bound, optimized and executed,
and the answer is the text of its rows, or that of the exception that one of the three has thrown.
What the parser makes of the text of a statement is a parameter.

## Main definitions

* `OneBase.resultText` — the text of the rows of a plan.
* `OneBase.handleQuery` — the answer to a statement, and the database behind it.
* `OneBase.ParseResult.reads` — the statements that only read.

## Main results

* `OneBase.reads_bindQuery` — the plan of such a statement only reads.
* `OneBase.handleQuery_reads` — whatever the answer, the database is as it was.
* `OneBase.Connection.answers_of_reads` — a session of such statements.
-/

namespace OneBase

open Exec

/-- `e.what()`. -/
def Exception.what : Exception → Bytes
  | oneBase msg _ | runtimeError msg | logicError msg => textBytes msg

/-- The body of the `RESULT` message for these rows of a plan with this output schema. -/
def resultText (schema : Schema) (resultSet : List Tuple) : Bytes :=
  let colCount := schema.getColumnCount
  handleQueryBody ((schema.columns.take colCount).map fun column => textBytes column.name)
    (resultSet.map fun tuple => (List.range colCount).map fun i => (tuple.getValue i).toBytes)

section HandleQuery

variable (std : StandardLibrary) (stof : String → Cpp (BitVec 32)) (parse : Bytes → ParseResult)

/-- `HandleQuery` before it sends the answer: the body of the result. -/
def queryResult (fuel : ℕ) (sql : Bytes) : Exec Bytes := do
  let catalog ← getCatalog
  let plan ← ofCpp (bindQuery stof catalog (parse sql))
  let plan ← ofCpp (optimize (some catalog) plan)
  let resultSet ← executePlan std fuel plan
  pure (resultText plan.getOutputSchema resultSet)

/-- `HandleQuery`: the message that it sends, and the database that it leaves. -/
def handleQuery (fuel : ℕ) (sql : Bytes) (ctx : ExecutorContext) :
    Option (Message × ExecutorContext) :=
  (runIn (queryResult std stof parse fuel sql) ctx).map fun r =>
    match r.1 with
    | .ok body => ((.result, body), r.2)
    | .error e => ((.error, e.what), r.2)

/-- `HandleQuery` may answer so. -/
def Serves (ctx : ExecutorContext) (sql : Bytes) (answer : Message) (ctx' : ExecutorContext) :
    Prop := ∃ fuel, handleQuery std stof parse fuel sql ctx = some (answer, ctx')

end HandleQuery

/-! ## Statements that only read -/

/-- `SELECT` and `SHOW`, and the statements of kinds that the binder does not know. -/
def Statement.reads : Statement → Bool
  | .selectStmt _ | .variableShowStmt _ _ | .other _ | .dropStmt false _ _ => true
  | .insertStmt _ _ | .deleteStmt _ _ | .updateStmt _ _ _ | .indexStmt _ _ _ | .dropStmt true _ _ =>
    false

/-- Only the first statement of a text is executed. -/
def ParseResult.reads : ParseResult → Bool
  | .success (stmt :: _) => stmt.reads
  | .success [] | .failure _ => true

section Binder

variable {stof : String → Cpp (BitVec 32)} {catalog : Catalog} {scopes : List TableScope}
  {plan plan' : PlanNode}

/-- The plans that the loop over the `FROM` clause has made. -/
def FromState.Reads (st : FromState) : Prop :=
  st.basePlan.reads = true ∧ ∀ plan ∈ st.fromPlans, plan.reads = true

/-- The loop over the `FROM` clause makes plans that only read. -/
lemma FromState.Reads.bindFromItem {st st' : FromState} {item : FromItem} (h : st.Reads)
    (hbind : bindFromItem stof catalog st item = pure st') : st'.Reads := by
  cases item with
  | rangeVar rv =>
    obtain ⟨info, -, hbind⟩ := Cpp.bind_eq_pure.1 hbind
    cases hbind
    refine ⟨h.1, fun plan hplan => ?_⟩
    rcases List.mem_append.1 hplan with hplan | hplan
    · exact h.2 plan hplan
    · rw [List.mem_singleton.1 hplan]
      rfl
  | joinExpr jointype joinreftype larg rarg usingClause quals =>
    obtain ⟨left, -, hbind⟩ := Cpp.bind_eq_pure.1 hbind
    obtain ⟨leftInfo, -, hbind⟩ := Cpp.bind_eq_pure.1 hbind
    obtain ⟨right, -, hbind⟩ := Cpp.bind_eq_pure.1 hbind
    obtain ⟨rightInfo, -, hbind⟩ := Cpp.bind_eq_pure.1 hbind
    obtain ⟨joinPredicate, -, hbind⟩ := Cpp.bind_eq_pure.1 hbind
    cases hbind
    exact ⟨rfl, by simp⟩
  | other =>
    cases hbind
    exact h

/-- The plan of a `FROM` clause only reads. -/
lemma reads_bindFrom {fromClause : List FromItem}
    (hbind : bindFrom stof catalog fromClause = pure (scopes, plan)) : plan.reads = true := by
  unfold bindFrom at hbind
  by_cases hempty : fromClause = []
  · rw [if_pos hempty] at hbind
    cases hbind
  rw [if_neg hempty] at hbind
  obtain ⟨st, hst, hbind⟩ := Cpp.bind_eq_pure.1 hbind
  have hreads : st.Reads :=
    Cpp.holds_foldlM (P := FromState.Reads) (fun _ _ _ _ h => h.bindFromItem) ⟨rfl, by simp⟩ hst
  cases hplans : st.fromPlans with
  | nil =>
    rw [hplans] at hbind
    cases hbind
    exact hreads.1
  | cons first rest =>
    rw [hplans] at hbind
    cases hbind
    exact hreads.2 _ (hplans ▸ List.mem_cons_self)

/-- The `WHERE` clause makes a plan that only reads of one that does. -/
lemma reads_bindWhere {whereClause : Node} (h : plan.reads = true)
    (hbind : bindWhere stof scopes whereClause plan = pure plan') : plan'.reads = true := by
  unfold bindWhere at hbind
  split_ifs at hbind
  · cases hbind
    exact h
  · obtain ⟨predicate, -, hbind⟩ := Cpp.bind_eq_pure.1 hbind
    unfold attachPredicate at hbind
    split at hbind
    · cases hbind
    · cases scopes with
      | nil => cases hbind
      | cons scope scopes =>
        cases hbind
        rfl
    · cases hbind
      exact h
    · cases hbind
      exact h

/-- The aggregation makes a plan that only reads of one that does. -/
lemma reads_bindAggregation {targets : Targets} {groupClause : List Node} (h : plan.reads = true)
    (hbind : bindAggregation stof scopes targets groupClause plan = pure plan') :
    plan'.reads = true := by
  unfold bindAggregation at hbind
  split_ifs at hbind
  · obtain ⟨groupBys, -, hbind⟩ := Cpp.bind_eq_pure.1 hbind
    cases hbind
    exact h
  · cases hbind
    exact h

/-- The `ORDER BY` clause makes a plan that only reads of one that does. -/
lemma reads_bindSort {sortClause : List SortBy} (h : plan.reads = true)
    (hbind : bindSort stof scopes sortClause plan = pure plan') : plan'.reads = true := by
  unfold bindSort at hbind
  split_ifs at hbind
  · cases hbind
    exact h
  · obtain ⟨orderBys, -, hbind⟩ := Cpp.bind_eq_pure.1 hbind
    obtain ⟨schema, -, hbind⟩ := Cpp.bind_eq_pure.1 hbind
    cases hbind
    exact h

/-- The `LIMIT` clause makes a plan that only reads of one that does. -/
lemma reads_bindLimit {limitCount : Node} (h : plan.reads = true)
    (hbind : bindLimit limitCount plan = pure plan') : plan'.reads = true := by
  unfold bindLimit at hbind
  split at hbind
  · cases hbind
    exact h
  · obtain ⟨schema, -, hbind⟩ := Cpp.bind_eq_pure.1 hbind
    cases hbind
    exact h
  · cases hbind

/-- The projection makes a plan that only reads of one that does. -/
lemma reads_bindProjection {targets : Targets} (h : plan.reads = true)
    (hbind : bindProjection targets plan = pure plan') : plan'.reads = true := by
  unfold bindProjection at hbind
  split_ifs at hbind
  · obtain ⟨columns, -, hbind⟩ := Cpp.bind_eq_pure.1 hbind
    cases hbind
    exact h
  · cases hbind
    exact h

/-- Every clause of a `SELECT` puts a node on the plan of the clauses before. -/
lemma reads_bindSelect {select : SelectStmt} (hbind : bindSelect stof catalog select = pure plan) :
    plan.reads = true := by
  obtain ⟨⟨scopes, base⟩, hfrom, hbind⟩ := Cpp.bind_eq_pure.1 hbind
  obtain ⟨filtered, hwhere, hbind⟩ := Cpp.bind_eq_pure.1 hbind
  obtain ⟨targets, -, hbind⟩ := Cpp.bind_eq_pure.1 hbind
  obtain ⟨grouped, hgroup, hbind⟩ := Cpp.bind_eq_pure.1 hbind
  obtain ⟨sorted, hsort, hbind⟩ := Cpp.bind_eq_pure.1 hbind
  obtain ⟨limited, hlimit, hbind⟩ := Cpp.bind_eq_pure.1 hbind
  have hbase := reads_bindWhere (reads_bindFrom hfrom) hwhere
  have hsorted := reads_bindSort (reads_bindAggregation hbase hgroup) hsort
  exact reads_bindProjection (reads_bindLimit hsorted hlimit) hbind

/-- The plans of the `SHOW` statements only read. -/
lemma reads_bindShow {set relation : Option String}
    (hbind : bindShow catalog set relation = pure plan) : plan.reads = true := by
  unfold bindShow at hbind
  simp only at hbind
  split_ifs at hbind
  · cases hbind
    rfl
  · cases relation with
    | none => cases hbind
    | some relationName =>
      simp only [bindShowRelation] at hbind
      split_ifs at hbind
      · cases hbind
        rfl
      · cases hbind
        rfl
      · obtain ⟨o, -, hbind⟩ := Cpp.bind_eq_pure.1 hbind
        cases o with
        | none => cases hbind
        | some info =>
          cases hbind
          rfl

/-- The plan of a statement that only reads. -/
lemma reads_bindQuery {result : ParseResult} (h : result.reads = true)
    (hbind : bindQuery stof catalog result = pure plan) : plan.reads = true := by
  match result, h with
  | .failure _, _ => cases hbind
  | .success [], _ => cases hbind
  | .success (.selectStmt select :: _), _ => exact reads_bindSelect hbind
  | .success (.variableShowStmt set relation :: _), _ => exact reads_bindShow hbind
  | .success (.other _ :: _), _ => cases hbind
  | .success (.dropStmt false _ _ :: _), _ => cases hbind

end Binder

/-! ## The database behind the answer -/

section Answers

variable {std : StandardLibrary} {stof : String → Cpp (BitVec 32)} {parse : Bytes → ParseResult}
  {fuel : ℕ} {sql : Bytes} {ctx ctx' : ExecutorContext} {answer : Message}

/-- What becomes of the statement only reads, if it does. -/
lemma leavesAlone_queryResult (h : (parse sql).reads = true) :
    Exec.LeavesAlone (queryResult std stof parse fuel sql) := by
  refine leavesAlone_getCatalog.bind fun catalog => ?_
  refine (leavesAlone_ofCpp _).bind_of_returns fun c plan hplan => ?_
  refine (leavesAlone_ofCpp _).bind_of_returns fun c' plan' hplan' => ?_
  have hreads : plan'.reads = true :=
    reads_optimize (reads_bindQuery h (returns_ofCpp.1 hplan).1) (returns_ofCpp.1 hplan').1
  exact (leavesAlone_executePlan hreads).bind fun _ => leavesAlone_pure _

/-- `HandleQuery` answers with the rows if the query returns, and with the message of the exception
if it throws. -/
lemma handleQuery_eq_some_iff : handleQuery std stof parse fuel sql ctx = some (answer, ctx') ↔
    (∃ body, Returns (queryResult std stof parse fuel sql) ctx body ctx' ∧
      answer = (.result, body)) ∨
    ∃ e, runIn (queryResult std stof parse fuel sql) ctx = some (.error e, ctx') ∧
      answer = (.error, e.what) := by
  unfold handleQuery Returns
  rw [Option.map_eq_some_iff]
  constructor
  · rintro ⟨⟨r, c⟩, hrun, heq⟩
    cases r with
    | ok body =>
      obtain ⟨rfl, rfl⟩ := Prod.mk.inj heq
      exact .inl ⟨body, hrun, rfl⟩
    | error e =>
      obtain ⟨rfl, rfl⟩ := Prod.mk.inj heq
      exact .inr ⟨e, hrun, rfl⟩
  · rintro (⟨body, hrun, rfl⟩ | ⟨e, hrun, rfl⟩)
    · exact ⟨_, hrun, rfl⟩
    · exact ⟨_, hrun, rfl⟩

/-- Whatever the answer, the database is as it was. -/
lemma eq_of_handleQuery (hreads : (parse sql).reads = true)
    (h : handleQuery std stof parse fuel sql ctx = some (answer, ctx')) : ctx' = ctx := by
  rcases handleQuery_eq_some_iff.1 h with ⟨body, hrun, -⟩ | ⟨e, hrun, -⟩
  · exact leavesAlone_queryResult hreads ctx _ ctx' hrun
  · exact leavesAlone_queryResult hreads ctx _ ctx' hrun

/-- **Statements that only read.** A `SELECT` or `SHOW` statement leaves the database as it was,
whatever the server answers: also if it is refused, or if its execution throws after some rows. -/
theorem handleQuery_reads (hreads : (parse sql).reads = true)
    (h : Serves std stof parse ctx sql answer ctx') : ctx' = ctx := by
  obtain ⟨fuel, hanswer⟩ := h
  exact eq_of_handleQuery hreads hanswer

/-- `SELECT 1 / x FROM t`. -/
def quotients : Statement :=
  .selectStmt
    { targetList := [{ val := .aExpr .op ["/"] (.aConst (.integer 1)) (.columnRef [.string "x"]) }]
      fromClause := [.rangeVar { relname := "t" }] }

/-- The server fails in the second row of this table, after it has found the first one. -/
lemma handleQuery_quotients (query : Bytes) :
    (handleQuery default (fun _ => Cpp.undefined) (fun _ => .success [quotients]) 10 query
      (smallContext ["x"] [[1], [0]] none)).map Prod.fst =
        some (.error, (Exception.logicError "Division by zero").what) := rfl

/-- A query that fails. -/
theorem handleQuery_reads_quotients :
    ∃ ctx', Serves default (fun _ => Cpp.undefined) (fun _ => .success [quotients])
        (smallContext ["x"] [[1], [0]] none) []
        (.error, (Exception.logicError "Division by zero").what) ctx' ∧
      ctx' = smallContext ["x"] [[1], [0]] none := by
  obtain ⟨⟨m, ctx'⟩, hrun, rfl⟩ := Option.map_eq_some_iff.1 (handleQuery_quotients [])
  exact ⟨ctx', ⟨10, hrun⟩, handleQuery_reads rfl ⟨10, hrun⟩⟩

end Answers

/-! ## Sessions -/

namespace Connection

variable {std : StandardLibrary} {stof : String → Cpp (BitVec 32)} {parse : Bytes → ParseResult}
  {ctx ctx' : ExecutorContext} {lines : List Bytes} {events : List ConnectionEvent}
  {c : Connection ExecutorContext}

/-- The answers to statements that only read are answers of one database. -/
lemma eq_of_handles {answers : List (Bytes × Message)}
    (hrun : Transition.Run (Handles (Serves std stof parse)) ctx answers ctx')
    (hreads : ∀ a ∈ answers, (parse a.1).reads = true) :
    ctx' = ctx ∧ ∀ a ∈ answers, Serves std stof parse ctx a.1 a.2 ctx := by
  induction hrun with
  | nil s => exact ⟨rfl, by simp⟩
  | @cons s s₁ s₂ a answers hstep _ ih =>
    obtain ⟨fuel, hanswer⟩ := hstep
    obtain rfl := eq_of_handleQuery (hreads a List.mem_cons_self) hanswer
    obtain ⟨rfl, hall⟩ := ih fun b hb => hreads b (List.mem_cons_of_mem a hb)
    refine ⟨rfl, fun b hb => ?_⟩
    rcases List.mem_cons.1 hb with rfl | hb
    · exact ⟨fuel, hanswer⟩
    · exact hall b hb

/-- An element of a prefix is one of the list. -/
lemma getElem?_of_prefix {α : Type} {l l' : List α} {i : ℕ} {a : α} (h : l <+: l')
    (ha : l[i]? = some a) : l'[i]? = some a := by
  obtain ⟨hi, rfl⟩ := List.getElem?_eq_some_iff.1 ha
  exact List.prefix_iff_getElem?.1 h i hi

/-- **A session that only reads.** If every statement of the input of a client is a `SELECT` or a
`SHOW` statement, then in every run the database stays as it is, and answer `i` that the client
shows is what the server answers to statement `i` of the input on this database. -/
theorem answers_of_reads
    (hrun : Transition.Run (Step (Serves std stof parse)) (start lines ctx) events c)
    (hfits : AllFit events) (hreads : ∀ query ∈ queriesOf [] lines, (parse query).reads = true) :
    c.db = ctx ∧ ∀ (i : ℕ) (answer : Message),
      (ConnectionEvent.replies events)[i]? = some answer →
        ∃ query, (queriesOf [] lines)[i]? = some query ∧
          Serves std stof parse ctx query answer ctx := by
  have h := (inStep_start lines ctx).run hrun hfits
  simp only [List.nil_append] at h
  obtain ⟨hasked, hanswered, hshown, -, -⟩ := h.prefixes
  have hfirst := hanswered.trans hasked
  have hall : ∀ a ∈ ConnectionEvent.answers events, (parse a.1).reads = true :=
    fun a ha => hreads a.1 (hfirst.subset (List.mem_map_of_mem ha))
  obtain ⟨hdb, hserves⟩ := eq_of_handles (handled_of_run hrun) hall
  refine ⟨hdb, fun i answer hanswer => ?_⟩
  have hshows := getElem?_of_prefix hshown hanswer
  rw [List.getElem?_map, Option.map_eq_some_iff] at hshows
  obtain ⟨a, ha, rfl⟩ := hshows
  have hquery : ((ConnectionEvent.answers events).map Prod.fst)[i]? = some a.1 := by
    rw [List.getElem?_map, ha]
    rfl
  exact ⟨a.1, getElem?_of_prefix hfirst hquery, hserves a (List.mem_of_getElem? ha)⟩

/-- One statement, which fails. -/
theorem answers_of_reads_quotients :
    ∃ answer ctx', Transition.Run
        (Step (Serves default (fun _ => Cpp.undefined) (fun _ => .success [quotients])))
        (start [[65, 59]] (smallContext ["x"] [[1], [0]] none)) (sampleEvents answer)
        { lines := [], client := .closed, server := .closed, db := ctx' } ∧
      ctx' = smallContext ["x"] [[1], [0]] none := by
  obtain ⟨⟨answer, ctx'⟩, hrun, heq⟩ := Option.map_eq_some_iff.1 (handleQuery_quotients [65])
  obtain rfl : answer = (.error, (Exception.logicError "Division by zero").what) := heq
  have hfits : Message.Fits (.error, (Exception.logicError "Division by zero").what) := by
    show (textBytes "Division by zero").length ≤ _
    rw [length_textBytes]
    decide
  have hserves : Serves default (fun _ => Cpp.undefined) (fun _ => .success [quotients])
      (smallContext ["x"] [[1], [0]] none) [65] _ ctx' := ⟨10, hrun⟩
  have hsession := sample_run hfits hserves
  have hreads : ∀ query ∈ queriesOf [] [[65, 59]],
      ParseResult.reads ((fun _ => .success [quotients]) query) = true := fun _ _ => rfl
  exact ⟨_, ctx', hsession, (answers_of_reads hsession (sampleEvents_fit hfits) hreads).1⟩

/-- Everything is answered of the session of a query that fails: the server has an answer to it, and
the database is as it was. -/
theorem all_answered_quotients :
    ∃ answer ctx', Transition.Run
        (Step (Serves default (fun _ => Cpp.undefined) (fun _ => .success [quotients])))
        (start [[65, 59]] (smallContext ["x"] [[1], [0]] none)) (sampleEvents answer)
        { lines := [], client := .closed, server := .closed, db := ctx' } ∧
      (ConnectionEvent.answers (sampleEvents answer)).map Prod.fst = [[65]] ∧
      ConnectionEvent.replies (sampleEvents answer) = [answer] := by
  have hanswers : ∀ query, ∃ answer ctx', Serves default (fun _ => Cpp.undefined)
      (fun _ => .success [quotients]) (smallContext ["x"] [[1], [0]] none) query answer ctx' ∧
        answer.Fits := by
    intro query
    obtain ⟨⟨answer, ctx'⟩, hrun, heq⟩ := Option.map_eq_some_iff.1 (handleQuery_quotients query)
    obtain rfl : answer = (.error, (Exception.logicError "Division by zero").what) := heq
    refine ⟨_, ctx', ⟨10, hrun⟩, ?_⟩
    show (textBytes "Division by zero").length ≤ _
    rw [length_textBytes]
    decide
  obtain ⟨answer, ctx', hserves, hfits⟩ := hanswers [65]
  have hsession := sample_run hfits hserves
  obtain ⟨-, -, hall⟩ := all_answered hsession (sampleEvents_fit hfits)
    (fun answered query db hdb _ => by
      obtain ⟨rfl, -⟩ := eq_of_handles hdb fun _ _ => rfl
      obtain ⟨m, db', hm, -⟩ := hanswers query
      exact ⟨m, db', hm⟩)
    fun e c' hst => running_ne_of_sample hst
  obtain ⟨hanswered, -, hshown⟩ := hall rfl
  exact ⟨answer, ctx', hsession, hanswered, hshown⟩

end Connection

end OneBase
