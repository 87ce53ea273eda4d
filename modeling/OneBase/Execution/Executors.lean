import OneBase.Catalog.CreateIndex
import OneBase.Execution.Executor
import OneBase.Execution.Plans

set_option relaxedAutoImplicit false
set_option autoImplicit false

/-!
# The executors

`execution/executors/*.cpp`. Each class is a function from the members of its plan node and its
children to an `Executor`. What the standard library leaves open is a parameter: the order in which
`std::sort` leaves equal elements, and that of the buckets of a hash table.

## Main definitions

* `OneBase.StandardLibrary` — `std::sort` and the order of an `std::unordered_map`.
* `OneBase.seqScanExecutor`, `indexScanExecutor` and so on — the classes.
-/

namespace OneBase

open Exec

/-! ## The standard library -/

/-- A comparison that returns on the elements of `l` and is a strict weak order there. -/
structure StrictWeakOrderOn {α : Type} (l : List α) (lt : α → α → Cpp Bool) : Prop where
  returns : ∀ a ∈ l, ∀ b ∈ l, ∃ r, lt a b = pure r
  irrefl : ∀ a ∈ l, lt a a = pure false
  trans : ∀ a ∈ l, ∀ b ∈ l, ∀ c ∈ l, lt a b = pure true → lt b c = pure true → lt a c = pure true
  incomparable : ∀ a ∈ l, ∀ b ∈ l, ∀ c ∈ l, lt a b = pure false → lt b a = pure false →
    lt b c = pure false → lt c b = pure false → lt a c = pure false

/-- What the executors use of the standard library beyond its containers. -/
structure StandardLibrary where
  /-- `std::sort`, with a comparison that may throw. -/
  sort : {α : Type} → (α → α → Cpp Bool) → List α → Cpp (List α)
  /-- The order in which an `std::unordered_map` with these entries is iterated over. -/
  buckets : {α : Type} → List α → List α
  sort_spec : ∀ {α : Type} (lt : α → α → Cpp Bool) (l : List α), StrictWeakOrderOn l lt →
    ∃ l', sort lt l = pure l' ∧ l'.Perm l ∧ l'.Pairwise fun a b => lt b a = pure false
  buckets_perm : ∀ {α : Type} (l : List α), (buckets l).Perm l

/-- `a` is not above `b`. -/
def notAbove {α : Type} (lt : α → α → Cpp Bool) (a b : α) : Bool :=
  match (lt b a).run with
  | some (.ok false) => true
  | _ => false

/-- `a` does not come behind `b` if `b` is not before `a`. -/
lemma notAbove_iff {α : Type} {lt : α → α → Cpp Bool} {a b : α} :
    notAbove lt a b = true ↔ lt b a = pure false := by
  unfold notAbove
  constructor
  · intro h
    split at h
    · assumption
    · cases h
  · intro h
    rw [h]
    rfl

section StrictWeakOrder

variable {α : Type} {l : List α} {lt : α → α → Cpp Bool}

/-- Of two rows one does not come behind the other. -/
lemma StrictWeakOrderOn.notAbove_total (h : StrictWeakOrderOn l lt) {a b : α} (ha : a ∈ l)
    (hb : b ∈ l) : notAbove lt a b = true ∨ notAbove lt b a = true := by
  rw [notAbove_iff, notAbove_iff]
  obtain ⟨r, hr⟩ := h.returns a ha b hb
  obtain ⟨s, hs⟩ := h.returns b hb a ha
  cases r with
  | false => exact .inr hr
  | true =>
    cases s with
    | false => exact .inl hs
    | true =>
      have hloop := h.trans a ha b hb a ha hr hs
      rw [h.irrefl a ha] at hloop
      cases hloop

/-- Not being above is transitive: a strict weak order is negatively transitive. -/
lemma StrictWeakOrderOn.notAbove_trans (h : StrictWeakOrderOn l lt) {a b c : α} (ha : a ∈ l)
    (hb : b ∈ l) (hc : c ∈ l) (hab : notAbove lt a b = true) (hbc : notAbove lt b c = true) :
    notAbove lt a c = true := by
  rw [notAbove_iff] at hab hbc ⊢
  obtain ⟨r, hr⟩ := h.returns c hc a ha
  cases r with
  | false => exact hr
  | true =>
    obtain ⟨s, hs⟩ := h.returns a ha b hb
    obtain ⟨u, hu⟩ := h.returns b hb c hc
    cases s with
    | true =>
      have hcb := h.trans c hc a ha b hb hr hs
      rw [hbc] at hcb
      cases hcb
    | false =>
      cases u with
      | true =>
        have hba := h.trans b hb c hc a ha hu hr
        rw [hab] at hba
        cases hba
      | false => exact h.incomparable c hc b hb a ha hbc hu hab hs

end StrictWeakOrder

/-- A merge sort, and hash tables in the order of insertion. -/
instance : Inhabited StandardLibrary where
  default :=
    { sort := fun lt l =>
        pure ((l.attach.mergeSort fun a b => notAbove lt a.1 b.1).map Subtype.val)
      buckets := fun l => l
      sort_spec := by
        intro α lt l h
        refine ⟨_, rfl, ?_, ?_⟩
        · conv_rhs => rw [← List.attach_map_subtype_val l]
          exact (List.mergeSort_perm _ _).map _
        · rw [List.pairwise_map]
          have htotal : ∀ a b : {x // x ∈ l},
              (notAbove lt a.1 b.1 || notAbove lt b.1 a.1) = true := by
            intro a b
            rw [Bool.or_eq_true]
            exact h.notAbove_total a.2 b.2
          have htrans : ∀ a b c : {x // x ∈ l}, notAbove lt a.1 b.1 = true →
              notAbove lt b.1 c.1 = true → notAbove lt a.1 c.1 = true :=
            fun a b c => h.notAbove_trans a.2 b.2 c.2
          exact (List.pairwise_mergeSort htrans htotal l.attach).imp notAbove_iff.1
      buckets_perm := fun l => .refl l }

/-! ## Parts that several classes share -/

/-- `insert_count++` and so on; an `int32_t` must not overflow. -/
def countUp (count : ℤ) : Cpp ℤ := if count + 1 < 2 ^ 31 then pure (count + 1) else Cpp.undefined

/-- The row with which a modification returns its count. -/
def countTuple (count : ℤ) : Cpp Tuple := Tuple.ofValues [Value.ofInt (BitVec.ofInt 32 count)]

/-- Whether a predicate, which may be a `nullptr`, accepts a row. -/
def accepts (predicate : Expression) (evaluate : Expression → Cpp Value) : Cpp Bool :=
  if predicate = .null then pure true
  else do
    let value ← evaluate predicate
    Expression.holds value

/-- The row of the values of the expressions on a row. -/
def evaluateRow (expressions : List Expression) (schema : Schema) (tuple : Tuple) : Cpp Tuple := do
  let values ← expressions.mapM fun expr => expr.evaluate tuple schema
  Tuple.ofValues values

/-- The values of all columns of a row. -/
def columnValues (tuple : Tuple) (schema : Schema) : Cpp (List Value) :=
  (List.range schema.getColumnCount).mapM fun i => tuple.getValueAt schema i

/-- The state of a class that computes its rows in `Init`. -/
structure Materialized (σ : Type) where
  children : σ
  resultTuples : List Tuple := []
  cursor : ℕ := 0

/-- `Next` of such a class. Its rows have no place in a heap. -/
def nextResult {σ : Type} (st : Materialized σ) : Exec (Option Row × Materialized σ) :=
  match st.resultTuples[st.cursor]? with
  | some tuple => pure (some (tuple, default), { st with cursor := st.cursor + 1 })
  | none => pure (none, st)

/-- The loop of a modification over the indexes of the table: `change` says what to do with an
index on the given column. -/
def maintainIndexes (indexes : List ℕ) (change : ℕ → Cpp (IndexInfo → IndexInfo)) : Exec Unit :=
  indexes.forM fun oid => do
    let catalog ← getCatalog
    let indexInfo ← deref (catalog.getIndex oid)
    if indexInfo.supportsPointLookup then
      let attr ← ofCpp indexInfo.getLookupAttr
      let f ← ofCpp (change attr)
      modifyCatalog fun c => c.modifyIndex oid f

/-- The state of a modification. -/
structure Modification (σ : Type) where
  child : σ
  done : Bool := false

section Classes

variable (std : StandardLibrary) (fuel : ℕ)

/-! ## Scans -/

/-- The members of `SeqScanExecutor`. -/
structure SeqScanState where
  tableInfo : Option TableInfo := none
  iter : RID := TableHeap.endIterator

/-- `SeqScanExecutor::Next`. -/
def seqScanNext (predicate : Expression) : ℕ → SeqScanState → Exec (Option Row × SeqScanState)
  | 0, _ => undefined
  | n + 1, st =>
    if st.iter = TableHeap.endIterator then pure (none, st)
    else do
      let rid := st.iter
      let tableInfo ← deref st.tableInfo
      let rawTuple ← ofThrowing (TableHeap.getTuple rid)
      let iter ← ofProgram (TableHeap.increment fuel rid)
      let st := { st with iter := iter }
      if ← ofCpp (accepts predicate fun e => e.evaluate rawTuple tableInfo.schema) then
        let parsedValues ← ofCpp (columnValues rawTuple tableInfo.schema)
        let tuple ← ofCpp (Tuple.ofValues parsedValues)
        pure (some ({ tuple with rid := rid }, rid), st)
      else seqScanNext predicate n st

/-- `SeqScanExecutor`. -/
def seqScanExecutor (outputSchema : Schema) (tableOid : ℕ) (predicate : Expression) :
    Executor where
  State := SeqScanState
  fresh := {}
  init _ := do
    let catalog ← getCatalog
    let tableInfo ← deref (catalog.getTable tableOid)
    let iter ← ofProgram (TableHeap.begin fuel tableInfo.table)
    pure { tableInfo := some tableInfo, iter := iter }
  next := seqScanNext fuel predicate fuel
  outputSchema := outputSchema

/-- The members of `IndexScanExecutor`. -/
structure IndexScanState where
  tableInfo : Option TableInfo := none
  matchingRids : List RID := []
  cursor : ℕ := 0

/-- `IndexScanExecutor`. -/
def indexScanExecutor (outputSchema : Schema) (tableOid indexOid : ℕ) (lookupKey : Expression) :
    Executor where
  State := IndexScanState
  fresh := {}
  init _ := do
    let catalog ← getCatalog
    let rawKey ← ofCpp (do
      let val ← lookupKey.evaluateNull
      val.getAsInteger)
    let indexInfo ← deref (catalog.getIndex indexOid)
    pure
      { tableInfo := catalog.getTable tableOid
        matchingRids := (indexInfo.lookupInteger rawKey).getD [] }
  next st :=
    match st.matchingRids[st.cursor]? with
    | some rid => do
      let _ ← deref st.tableInfo
      let tuple ← ofThrowing (TableHeap.getTuple rid)
      pure (some (tuple, rid), { st with cursor := st.cursor + 1 })
    | none => pure (none, st)
  outputSchema := outputSchema

/-! ## Modifications -/

/-- The body of the loop of `InsertExecutor::Next`. -/
def insertRow (tableInfo : TableInfo) (indexes : List ℕ) (insertCount : ℤ) (row : Row) :
    Exec ℤ := do
  match ← ofProgram (TableHeap.insertTuple fuel tableInfo.table row.1) with
  | none => pure insertCount
  | some newRid =>
    let insertCount ← ofCpp (countUp insertCount)
    maintainIndexes indexes fun attr => do
      let key ← row.1.keyOf tableInfo.schema attr
      pure fun i => i.insertEntry key newRid
    pure insertCount

/-- The body of the loop of `DeleteExecutor::Next`. -/
def deleteRow (tableInfo : TableInfo) (indexes : List ℕ) (deleteCount : ℤ) (row : Row) :
    Exec ℤ := do
  ofProgram (TableHeap.deleteTuple row.2)
  let deleteCount ← ofCpp (countUp deleteCount)
  maintainIndexes indexes fun attr => do
    let key ← row.1.keyOf tableInfo.schema attr
    pure fun i => i.removeEntry key row.2
  pure deleteCount

/-- The body of the loop of `UpdateExecutor::Next`, which does not look at the result of
`UpdateTuple`. -/
def updateRow (updateExprs : List Expression) (childSchema : Schema) (tableInfo : TableInfo)
    (indexes : List ℕ) (updateCount : ℤ) (row : Row) : Exec ℤ := do
  let newTuple ← ofCpp (evaluateRow updateExprs childSchema row.1)
  let _ ← ofProgram (TableHeap.updateTuple row.2 newTuple)
  let updateCount ← ofCpp (countUp updateCount)
  maintainIndexes indexes fun attr => do
    let oldKey ← row.1.keyOf tableInfo.schema attr
    let newKey ← newTuple.keyOf tableInfo.schema attr
    pure fun i => (i.removeEntry oldKey row.2).insertEntry newKey row.2
  pure updateCount

/-- `InsertExecutor`, `DeleteExecutor` and `UpdateExecutor`, which differ in the body of their
loop: the first `Next` modifies the table and returns the count. -/
def modificationExecutor (outputSchema : Schema) (child : Executor) (tableOid : ℕ)
    (body : TableInfo → List ℕ → ℤ → Row → Exec ℤ) : Executor where
  State := Modification child.State
  fresh := { child := child.fresh }
  init st := do
    let childState ← child.init st.child
    pure { child := childState }
  next st :=
    if st.done then pure (none, st)
    else do
      let catalog ← getCatalog
      let tableInfo ← deref (catalog.getTable tableOid)
      let indexes ← ofCpp (catalog.getTableIndexes tableInfo.name)
      let (childState, count) ← forEachRow child.next (body tableInfo indexes) fuel st.child 0
      let tuple ← ofCpp (countTuple count)
      pure (some (tuple, default), { child := childState, done := true })
  outputSchema := outputSchema

/-- `InsertExecutor`. -/
def insertExecutor (outputSchema : Schema) (child : Executor) (tableOid : ℕ) : Executor :=
  modificationExecutor fuel outputSchema child tableOid (insertRow fuel)

/-- `DeleteExecutor`. -/
def deleteExecutor (outputSchema : Schema) (child : Executor) (tableOid : ℕ) : Executor :=
  modificationExecutor fuel outputSchema child tableOid deleteRow

/-- `UpdateExecutor`. -/
def updateExecutor (outputSchema : Schema) (child : Executor) (tableOid : ℕ)
    (updateExprs : List Expression) : Executor :=
  modificationExecutor fuel outputSchema child tableOid (updateRow updateExprs child.outputSchema)

/-! ## Joins -/

/-- The row of a join: the values of the left row, then those of the right one. -/
def joinRow (leftSchema rightSchema : Schema) (leftTuple rightTuple : Tuple) : Cpp Tuple := do
  let leftValues ← columnValues leftTuple leftSchema
  let rightValues ← columnValues rightTuple rightSchema
  Tuple.ofValues (leftValues ++ rightValues)

/-- The body of the inner loop of `NestedLoopJoinExecutor::Init`. -/
def joinPair (predicate : Expression) (leftSchema rightSchema : Schema) (leftTuple : Tuple)
    (resultTuples : List Tuple) (right : Row) : Cpp (List Tuple) := do
  if ← accepts predicate fun e => e.evaluateJoin leftTuple leftSchema right.1 rightSchema then
    let out ← joinRow leftSchema rightSchema leftTuple right.1
    pure (resultTuples ++ [out])
  else pure resultTuples

/-- The body of the outer loop, which starts the right child over for each left row. -/
def innerLoop (predicate : Expression) (leftSchema : Schema) (right : Executor)
    (acc : right.State × List Tuple) (row : Row) : Exec (right.State × List Tuple) := do
  let rightState ← right.init acc.1
  forEachRow right.next
    (fun resultTuples r => ofCpp
      (joinPair predicate leftSchema right.outputSchema row.1 resultTuples r))
    fuel rightState acc.2

/-- `NestedLoopJoinExecutor`. -/
def nestedLoopJoinExecutor (outputSchema : Schema) (left right : Executor)
    (predicate : Expression) : Executor where
  State := Materialized (left.State × right.State)
  fresh := { children := (left.fresh, right.fresh) }
  init st := do
    let leftState ← left.init st.children.1
    let (leftState, rightState, resultTuples) ← forEachRow left.next
      (innerLoop fuel predicate left.outputSchema right) fuel leftState (st.children.2, [])
    pure { children := (leftState, rightState), resultTuples := resultTuples }
  next := nextResult
  outputSchema := outputSchema

/-- The text of a key, under which the hash table files rows. -/
def hashKey (keyExpr : Expression) (schema : Schema) (tuple : Tuple) : Cpp (List UInt8) := do
  let keyVal ← keyExpr.evaluate tuple schema
  pure keyVal.toBytes

/-- `hash_table_`; a key that is not found has no rows. -/
abbrev HashTable := List UInt8 → List Tuple

/-- The first loop of `HashJoinExecutor::Init`. -/
def buildRow (rightKeyExpr : Expression) (rightSchema : Schema) (hashTable : HashTable)
    (right : Row) : Cpp HashTable := do
  let key ← hashKey rightKeyExpr rightSchema right.1
  pure (Function.update hashTable key (hashTable key ++ [right.1]))

/-- The second loop of `HashJoinExecutor::Init`. -/
def probeRow (leftKeyExpr : Expression) (leftSchema rightSchema : Schema) (hashTable : HashTable)
    (resultTuples : List Tuple) (left : Row) : Cpp (List Tuple) := do
  let key ← hashKey leftKeyExpr leftSchema left.1
  (hashTable key).foldlM (fun resultTuples matchedRightTuple => do
    let out ← joinRow leftSchema rightSchema left.1 matchedRightTuple
    pure (resultTuples ++ [out])) resultTuples

/-- `HashJoinExecutor`. -/
def hashJoinExecutor (outputSchema : Schema) (left right : Executor)
    (leftKeyExpr rightKeyExpr : Expression) : Executor where
  State := Materialized (left.State × right.State)
  fresh := { children := (left.fresh, right.fresh) }
  init st := do
    let leftState ← left.init st.children.1
    let rightState ← right.init st.children.2
    let (rightState, hashTable) ← forEachRow right.next
      (fun hashTable row => ofCpp (buildRow rightKeyExpr right.outputSchema hashTable row))
      fuel rightState fun _ => []
    let (leftState, resultTuples) ← forEachRow left.next
      (fun resultTuples row => ofCpp
        (probeRow leftKeyExpr left.outputSchema right.outputSchema hashTable resultTuples row))
      fuel leftState []
    pure { children := (leftState, rightState), resultTuples := resultTuples }
  next := nextResult
  outputSchema := outputSchema

/-! ## Aggregation -/

/-- `AggState`. -/
structure AggState where
  groupBys : List Value := []
  aggregates : List Value := []

/-- The aggregates before the first row. -/
def initialAggregates (aggTypes : List AggregationType) : List Value :=
  aggTypes.map fun aggType =>
    match aggType with
    | .countStarAggregate => Value.ofInt 0
    | .countAggregate => Value.ofInt 0
    | _ => default

/-- Whether `MIN` or `MAX` takes the new value. -/
def replaces (compare : Value → Value → Cpp Value) (inputVal currentVal : Value) : Cpp Bool :=
  if inputVal.isNull then pure false
  else if currentVal.isNull then pure true
  else do
    let less ← compare inputVal currentVal
    less.getAsBoolean

/-- The update of one aggregate. -/
def updateAggregate (currentVal inputVal : Value) : AggregationType → Cpp Value
  | .countStarAggregate => currentVal.add (Value.ofInt 1)
  | .countAggregate =>
    if inputVal.isNull then pure currentVal else currentVal.add (Value.ofInt 1)
  | .sumAggregate =>
    if inputVal.isNull then pure currentVal
    else if currentVal.isNull then pure inputVal
    else currentVal.add inputVal
  | .minAggregate => do
    if ← replaces Value.compareLessThan inputVal currentVal then pure inputVal
    else pure currentVal
  | .maxAggregate => do
    if ← replaces Value.compareGreaterThan inputVal currentVal then pure inputVal
    else pure currentVal

/-- The loop over the aggregates of a row; reading behind a vector is undefined. -/
def updateAggregates : List AggregationType → List Value → List Value → Cpp (List Value)
  | [], current, _ => pure current
  | aggType :: aggTypes, currentVal :: current, inputVal :: input => do
    let value ← updateAggregate currentVal inputVal aggType
    let rest ← updateAggregates aggTypes current input
    pure (value :: rest)
  | _, _, _ => Cpp.undefined

/-- The key of a group. -/
def groupKey (groupValues : List Value) : List UInt8 :=
  let key := groupValues.flatMap fun val => val.toBytes ++ asciiBytes "#"
  if key = [] then asciiBytes "SINGLE_GROUP" else key

/-- The body of the loop of `AggregationExecutor::Init`; `aht` lists the groups. -/
def aggregateRow (groupBys aggregates : List Expression) (aggTypes : List AggregationType)
    (childSchema : Schema) (aht : List (List UInt8 × AggState)) (row : Row) :
    Cpp (List (List UInt8 × AggState)) := do
  let groupValues ← groupBys.mapM fun expr => expr.evaluate row.1 childSchema
  let key := groupKey groupValues
  let aggValues ← aggregates.mapM fun expr => expr.evaluate row.1 childSchema
  match aht.lookup key with
  | some state =>
    let values ← updateAggregates aggTypes state.aggregates aggValues
    pure (aht.map fun entry =>
      if entry.1 = key then (key, { state with aggregates := values }) else entry)
  | none =>
    let values ← updateAggregates aggTypes (initialAggregates aggTypes) aggValues
    pure (aht ++ [(key, { groupBys := groupValues, aggregates := values })])

/-- `AggregationExecutor`. -/
def aggregationExecutor (outputSchema : Schema) (child : Executor)
    (groupBys aggregates : List Expression) (aggTypes : List AggregationType) : Executor where
  State := Materialized child.State
  fresh := { children := child.fresh }
  init st := do
    let childState ← child.init st.children
    let (childState, aht) ← forEachRow child.next
      (fun aht row => ofCpp (aggregateRow groupBys aggregates aggTypes child.outputSchema aht row))
      fuel childState []
    let aht :=
      if aht = [] ∧ groupBys = [] then
        [(asciiBytes "SINGLE_GROUP", ({ aggregates := initialAggregates aggTypes } : AggState))]
      else aht
    let resultTuples ← ofCpp ((std.buckets aht).mapM fun entry =>
      Tuple.ofValues (entry.2.groupBys ++ entry.2.aggregates))
    pure { children := childState, resultTuples := resultTuples }
  next := nextResult
  outputSchema := outputSchema

/-! ## Sort, limit and projection -/

/-- The comparison of `SortExecutor`. -/
def compareRows (schema : Schema) : List (Bool × Expression) → Tuple → Tuple → Cpp Bool
  | [], _, _ => pure false
  | (isAscending, expr) :: orderBys, a, b => do
    let valA ← expr.evaluate a schema
    let valB ← expr.evaluate b schema
    let equal ← valA.compareEquals valB
    if ← equal.getAsBoolean then compareRows schema orderBys a b
    else
      let less ← if isAscending then valA.compareLessThan valB else valA.compareGreaterThan valB
      less.getAsBoolean

/-- `SortExecutor`. -/
def sortExecutor (outputSchema : Schema) (child : Executor) (orderBys : List (Bool × Expression)) :
    Executor where
  State := Materialized child.State
  fresh := { children := child.fresh }
  init st := do
    let childState ← child.init st.children
    let (childState, tuples) ← forEachRow child.next
      (fun tuples row => pure (tuples ++ [row.1])) fuel childState []
    let sortedTuples ← ofCpp (std.sort (compareRows child.outputSchema orderBys) tuples)
    pure { children := childState, resultTuples := sortedTuples }
  next := nextResult
  outputSchema := outputSchema

/-- `LimitExecutor`; the state is that of the child and `count_`. -/
def limitExecutor (outputSchema : Schema) (child : Executor) (limit : ℕ) : Executor where
  State := child.State × ℕ
  fresh := (child.fresh, 0)
  init st := do
    let childState ← child.init st.1
    pure (childState, 0)
  next st :=
    if limit ≤ st.2 then pure (none, st)
    else do
      match ← child.next st.1 with
      | (some row, childState) => pure (some row, (childState, st.2 + 1))
      | (none, childState) => pure (none, (childState, st.2))
  outputSchema := outputSchema

/-- `ProjectionExecutor`. -/
def projectionExecutor (outputSchema : Schema) (child : Executor) (expressions : List Expression) :
    Executor where
  State := child.State
  fresh := child.fresh
  init st := child.init st
  next st := do
    match ← child.next st with
    | (some row, childState) =>
      let tuple ← ofCpp (evaluateRow expressions child.outputSchema row.1)
      pure (some (tuple, row.2), childState)
    | (none, childState) => pure (none, childState)
  outputSchema := outputSchema

end Classes

end OneBase
