import OneBase.Execution.Restart
import OneBase.Storage.Table.PinnedHeaps

set_option relaxedAutoImplicit false
set_option autoImplicit false

/-!
# More fuel

Fuel bounds the iterations of the loops and is no part of the program. When a statement has an
outcome, a result or an exception, then it has the same one with more fuel: no two amounts of fuel
disagree about a statement.

## Main definitions

* `OneBase.Exec.Extends` — a computation that has every outcome of another one.
* `OneBase.Executor.ExtendedBy` — such executors, and the relation of their members.

## Main results

* `OneBase.extends_forEachRow` — more iterations of the loop over the rows of a child.
* `OneBase.extendedBy_createExecutor` — by induction on the plan.
* `OneBase.extends_executePlan` — the outcome of a plan.
-/

namespace OneBase

open Effect

/-! ## Computations with more outcomes -/

namespace Exec

variable {α β γ δ : Type} {R : α → β → Prop} {S : γ → δ → Prop} {x : Exec α} {y : Exec β}

/-- Where `x` has an outcome, `y` has the same one, up to `R`. -/
def Extends (R : α → β → Prop) (x : Exec α) (y : Exec β) : Prop :=
  ∀ ctx, runIn x ctx = none ∨ SameOutcome R (runIn x ctx) (runIn y ctx)

/-- Everything extends a computation that runs out of fuel. -/
lemma extends_undefined : Extends R undefined y := fun _ => .inl rfl

/-- Similar computations extend each other. -/
lemma Similar.extends (h : Similar R x y) : Extends R x y := fun ctx => .inr (h ctx)

/-- A computation extends itself. -/
lemma extends_self (x : Exec α) : Extends Eq x x := (similar_self (fun _ => rfl) x).extends

/-- Related results extend each other. -/
lemma extends_pure {a : α} {b : β} (h : R a b) : Extends R (pure a) (pure b) :=
  (similar_pure h).extends

/-- The second parts of sequences run after the same outcomes. -/
lemma Extends.bind {f : α → Exec γ} {g : β → Exec δ} (h : Extends R x y)
    (hfg : ∀ a b, R a b → Extends S (f a) (g b)) : Extends S (x >>= f) (y >>= g) := by
  intro ctx
  have hctx := h ctx
  rw [runIn_bind, runIn_bind]
  generalize runIn x ctx = r, runIn y ctx = r' at hctx ⊢
  rcases hctx with rfl | hctx
  · exact .inl rfl
  · cases hctx with
    | undefined => exact .inl rfl
    | ok hab c => exact hfg _ _ hab c
    | error e c => exact .inr (.error e c)

/-- A sequence that starts the same way. -/
lemma Extends.self_bind {f : α → Exec γ} {g : α → Exec δ} (x : Exec α)
    (hfg : ∀ a, Extends S (f a) (g a)) : Extends S (x >>= f) (x >>= g) := by
  refine (extends_self x).bind fun a b hab => ?_
  subst hab
  exact hfg a

/-- What a computation does, one that extends it does too. -/
lemma Extends.runIn_eq {y : Exec α} {ctx : ExecutorContext}
    {r : Except Exception α × ExecutorContext} (h : Extends Eq x y) (hr : runIn x ctx = some r) :
    runIn y ctx = some r := by
  have hctx := h ctx
  rw [hr] at hctx
  rcases hctx with hnone | hsame
  · cases hnone
  · generalize runIn y ctx = r' at hsame ⊢
    cases hsame with
    | ok hab c => rw [hab]
    | error e c => rfl

/-- A program that returns the same on every pool where the other one returns. -/
lemma extends_ofProgram {p q : Program (PoolCall TablePage) α}
    (h : ∀ frames t r, p.run (PageStore.handler frames) t = some r →
      q.run (PageStore.handler frames) t = some r) : Extends Eq (ofProgram p) (ofProgram q) := by
  intro ctx
  unfold ofProgram runIn
  show Option.map _ _ = none ∨ SameOutcome Eq (Option.map _ _) (Option.map _ _)
  cases hp : p.run (PageStore.handler ctx.poolSize) ctx.bpm with
  | none => exact .inl rfl
  | some r =>
    rw [h _ _ _ hp]
    exact .inr (.ok rfl _)

end Exec

open Exec

/-- The loop over the rows of a child, with more fuel. -/
lemma extends_forEachRow {σ τ β γ : Type} {R : σ → τ → Prop} {S : β → γ → Prop}
    {next : σ → Exec (Option Row × σ)} {next' : τ → Exec (Option Row × τ)}
    {body : β → Row → Exec β} {body' : γ → Row → Exec γ}
    (hnext : ∀ st st', R st st' → Extends (SameRow R) (next st) (next' st'))
    (hbody : ∀ acc acc' row, S acc acc' → Extends S (body acc row) (body' acc' row))
    {st : σ} {st' : τ} {acc : β} {acc' : γ} {fuel fuel' : ℕ} (hle : fuel ≤ fuel')
    (hst : R st st') (hacc : S acc acc') :
    Extends (fun r r' => R r.1 r'.1 ∧ S r.2 r'.2) (forEachRow next body fuel st acc)
      (forEachRow next' body' fuel' st' acc') := by
  induction fuel generalizing fuel' st st' acc acc' with
  | zero => exact extends_undefined
  | succ fuel ih =>
    cases fuel' with
    | zero => omega
    | succ fuel' =>
      unfold forEachRow
      refine (hnext st st' hst).bind ?_
      rintro ⟨o, s⟩ ⟨o', s'⟩ ⟨ho, hs⟩
      obtain rfl : o = o' := ho
      cases o with
      | none => exact extends_pure ⟨hs, hacc⟩
      | some row =>
        exact (hbody acc acc' row hacc).bind fun b b' hb => ih (by omega) hs hb

/-! ## The heap -/

section Heap

variable {fuel fuel' : ℕ}

/-- The walk along the heap. -/
lemma run_seek_succ {σ : Type} (h : Handler (PoolCall TablePage) σ) (fuel : ℕ) (p : PageId)
    (slot : ℕ) (s : σ) (r : RID × σ) (hrun : (TableHeap.seek fuel p slot).run h s = some r) :
    (TableHeap.seek (fuel + 1) p slot).run h s = some r := by
  induction fuel generalizing p slot s with
  | zero => cases hrun
  | succ fuel ih =>
    rw [TableHeap.seek] at hrun ⊢
    split_ifs at hrun ⊢
    · exact hrun
    · rw [Program.run_bind, Option.bind_eq_some_iff] at hrun ⊢
      obtain ⟨⟨page, s₁⟩, hfetch, hrest⟩ := hrun
      refine ⟨_, hfetch, ?_⟩
      cases page with
      | none => exact hrest
      | some page =>
        dsimp only at hrest ⊢
        rw [Program.run_bind, Option.bind_eq_some_iff] at hrest ⊢
        obtain ⟨⟨d, s₂⟩, hread, hrest⟩ := hrest
        refine ⟨_, hread, ?_⟩
        cases hslot : d.nextSlot slot with
        | some s' =>
          simp only [hslot] at hrest ⊢
          exact hrest
        | none =>
          simp only [hslot] at hrest ⊢
          rw [Program.run_bind, Option.bind_eq_some_iff] at hrest ⊢
          obtain ⟨⟨u, s₃⟩, hunpin, hrest⟩ := hrest
          exact ⟨_, hunpin, ih _ _ _ hrest⟩

/-- `Begin` with more fuel. -/
lemma extends_begin (hle : fuel ≤ fuel') (heap : TableHeap) :
    Extends Eq (ofProgram (TableHeap.begin fuel heap))
      (ofProgram (TableHeap.begin fuel' heap)) :=
  extends_ofProgram fun _ _ _ => Program.run_of_le (fun n => run_seek_succ _ n _ _) hle

/-- The step of the iterator with more fuel. -/
lemma extends_increment (hle : fuel ≤ fuel') (rid : RID) :
    Extends Eq (ofProgram (TableHeap.increment fuel rid))
      (ofProgram (TableHeap.increment fuel' rid)) :=
  extends_ofProgram fun _ _ _ => Program.run_of_le (fun n => run_seek_succ _ n _ _) hle

/-- `InsertTuple` with more fuel. -/
lemma extends_insertTuple (hle : fuel ≤ fuel') (heap : TableHeap) (tuple : Tuple) :
    Extends Eq (ofProgram (TableHeap.insertTuple fuel heap tuple))
      (ofProgram (TableHeap.insertTuple fuel' heap tuple)) :=
  extends_ofProgram fun _ _ _ =>
    Program.run_of_le (fun n => TableHeap.run_insertFrom_succ _ n _) hle

end Heap

/-! ## The executors -/

/-- Executors whose calls, on related members, extend those of others. -/
structure Executor.ExtendedBy (ex ex' : Executor) : Prop where
  schema : ex.outputSchema = ex'.outputSchema
  calls : ∃ R : ex.State → ex'.State → Prop, R ex.fresh ex'.fresh ∧
    (∀ st st', R st st' → Extends R (ex.init st) (ex'.init st')) ∧
      ∀ st st', R st st' → Extends (SameRow R) (ex.next st) (ex'.next st')

/-- The members of a class that computes its rows in `Init`: the same rows, and related children. -/
structure SameRows {σ τ : Type} (R : σ → τ → Prop) (st : Materialized σ) (st' : Materialized τ) :
    Prop where
  children : R st.children st'.children
  resultTuples : st.resultTuples = st'.resultTuples
  cursor : st.cursor = st'.cursor

/-- `Next` of two classes that have related rows. -/
lemma extends_nextResult {σ τ : Type} {R : σ → τ → Prop} {st : Materialized σ}
    {st' : Materialized τ} (h : SameRows R st st') :
    Extends (SameRow (SameRows R)) (nextResult st) (nextResult st') := by
  unfold nextResult
  rw [← h.resultTuples, ← h.cursor]
  cases st.resultTuples[st.cursor]? with
  | none => exact extends_pure ⟨rfl, h⟩
  | some tuple => exact extends_pure ⟨rfl, h.children, rfl, rfl⟩

section Classes

variable (std : StandardLibrary) {fuel fuel' : ℕ} (hle : fuel ≤ fuel')
  {child child' left left' right right' : Executor} (outputSchema : Schema)

/-- An executor that does not depend on fuel. -/
lemma Executor.extendedBy_self (ex : Executor) : ex.ExtendedBy ex := by
  refine ⟨rfl, Eq, rfl, fun st st' hst => ?_, fun st st' hst => ?_⟩
  · subst hst
    exact extends_self _
  · subst hst
    exact (similar_self (fun _ => ⟨rfl, rfl⟩) _).extends

include hle

/-- A call of a sequential scan with more fuel, for the walk along the heap and for the loop over
rows that the predicate refuses.

**Proof sketch.** Induction on the number of rounds: what a round does does not depend on the fuel,
but for the walk to the next row, which more fuel extends. -/
lemma extends_seqScanNext (predicate : Expression) {n n' : ℕ} (hn : n ≤ n') (st : SeqScanState) :
    Extends (SameRow Eq) (seqScanNext fuel predicate n st) (seqScanNext fuel' predicate n' st) := by
  induction n generalizing n' st with
  | zero => exact extends_undefined
  | succ n ih =>
    cases n' with
    | zero => omega
    | succ n' =>
      rw [seqScanNext, seqScanNext]
      split_ifs
      · exact extends_pure ⟨rfl, rfl⟩
      · refine Extends.self_bind _ fun info => Extends.self_bind _ fun rawTuple => ?_
        refine (extends_increment hle _).bind fun iter iter' hiter => ?_
        subst hiter
        refine Extends.self_bind _ fun accepted => ?_
        cases accepted with
        | true =>
          refine Extends.self_bind _ fun values => Extends.self_bind _ fun tuple => ?_
          exact extends_pure ⟨rfl, rfl⟩
        | false => exact ih (by omega) _

/-- A sequential scan with more fuel. -/
lemma extendedBy_seqScanExecutor (tableOid : ℕ) (predicate : Expression) :
    (seqScanExecutor fuel outputSchema tableOid predicate).ExtendedBy
      (seqScanExecutor fuel' outputSchema tableOid predicate) := by
  refine ⟨rfl, Eq, rfl, fun st st' _ => ?_, fun st st' hst => ?_⟩
  · refine Extends.self_bind _ fun catalog => Extends.self_bind _ fun info => ?_
    refine (extends_begin hle _).bind fun iter iter' hiter => ?_
    subst hiter
    exact extends_pure rfl
  · subst hst
    exact extends_seqScanNext hle predicate hle st

/-- A round of `INSERT` with more fuel. -/
lemma extends_insertRow (tableInfo : TableInfo) (indexes : List ℕ) (count : ℤ) (row : Row) :
    Extends Eq (insertRow fuel tableInfo indexes count row)
      (insertRow fuel' tableInfo indexes count row) := by
  refine (extends_insertTuple hle _ _).bind fun rid rid' hrid => ?_
  subst hrid
  exact extends_self _

/-- Modifications whose loops have such bodies. -/
lemma extendedBy_modificationExecutor (hchild : child.ExtendedBy child') (tableOid : ℕ)
    {body body' : TableInfo → List ℕ → ℤ → Row → Exec ℤ}
    (hbody : ∀ tableInfo indexes count row,
      Extends Eq (body tableInfo indexes count row) (body' tableInfo indexes count row)) :
    (modificationExecutor fuel outputSchema child tableOid body).ExtendedBy
      (modificationExecutor fuel' outputSchema child' tableOid body') := by
  obtain ⟨-, R, hfresh, hinit, hnext⟩ := hchild
  refine ⟨rfl, fun st st' => R st.child st'.child ∧ st.done = st'.done, ⟨hfresh, rfl⟩, ?_, ?_⟩
  · intro st st' hst
    exact (hinit _ _ hst.1).bind fun c c' hc => extends_pure ⟨hc, rfl⟩
  · rintro ⟨c, done⟩ ⟨c', done'⟩ ⟨hc, hdone⟩
    obtain rfl : done = done' := hdone
    unfold modificationExecutor
    dsimp only
    split_ifs
    · exact extends_pure ⟨rfl, hc, rfl⟩
    · refine Extends.self_bind _ fun catalog => Extends.self_bind _ fun info => ?_
      refine Extends.self_bind _ fun indexes => ?_
      have hrow : ∀ (count count' : ℤ) (row : Row), count = count' →
          Extends Eq (body info indexes count row) (body' info indexes count' row) := by
        rintro count _ row rfl
        exact hbody info indexes count row
      refine (extends_forEachRow hnext hrow hle hc rfl).bind ?_
      rintro ⟨d, count⟩ ⟨d', count'⟩ ⟨hd, hcount⟩
      obtain rfl : count = count' := hcount
      exact Extends.self_bind _ fun tuple => extends_pure ⟨rfl, hd, rfl⟩

omit hle in
/-- Bodies that do not touch the context. -/
lemma extends_ofCpp {β : Type} {f : β → Row → Cpp β} (acc acc' : β) (row : Row) (h : acc = acc') :
    Extends Eq (ofCpp (f acc row)) (ofCpp (f acc' row)) :=
  (similar_ofCpp acc acc' row h).extends

/-- A nested-loop join of children with more fuel, with more fuel for its loops. -/
lemma extendedBy_nestedLoopJoinExecutor (hleft : left.ExtendedBy left')
    (hright : right.ExtendedBy right') (predicate : Expression) :
    (nestedLoopJoinExecutor fuel outputSchema left right predicate).ExtendedBy
      (nestedLoopJoinExecutor fuel' outputSchema left' right' predicate) := by
  obtain ⟨hlschema, L, hlfresh, hlinit, hlnext⟩ := hleft
  obtain ⟨hrschema, R, hrfresh, hrinit, hrnext⟩ := hright
  refine ⟨rfl, SameRows fun st st' => L st.1 st'.1 ∧ R st.2 st'.2, ⟨⟨hlfresh, hrfresh⟩, rfl, rfl⟩,
    fun st st' hst => ?_, fun st st' hst => extends_nextResult hst⟩
  refine (hlinit _ _ hst.children.1).bind fun l l' hl => ?_
  have hinner : ∀ (acc : right.State × List Tuple) (acc' : right'.State × List Tuple) (row : Row),
      R acc.1 acc'.1 ∧ acc.2 = acc'.2 →
      Extends (fun a a' => R a.1 a'.1 ∧ a.2 = a'.2)
        (innerLoop fuel predicate left.outputSchema right acc row)
        (innerLoop fuel' predicate left'.outputSchema right' acc' row) := by
    rintro acc acc' row ⟨hacc, hrows⟩
    rw [← hlschema]
    unfold innerLoop
    rw [← hrschema]
    exact (hrinit _ _ hacc).bind fun r r' hr =>
      extends_forEachRow hrnext extends_ofCpp hle hr hrows
  refine (extends_forEachRow hlnext hinner hle hl ⟨hst.children.2, rfl⟩).bind ?_
  rintro ⟨a, r, rows⟩ ⟨a', r', rows'⟩ ⟨ha, hr, hrows⟩
  exact extends_pure ⟨⟨ha, hr⟩, hrows, rfl⟩

/-- A hash join of children with more fuel, with more fuel for its loops. -/
lemma extendedBy_hashJoinExecutor (hleft : left.ExtendedBy left')
    (hright : right.ExtendedBy right') (leftKeyExpr rightKeyExpr : Expression) :
    (hashJoinExecutor fuel outputSchema left right leftKeyExpr rightKeyExpr).ExtendedBy
      (hashJoinExecutor fuel' outputSchema left' right' leftKeyExpr rightKeyExpr) := by
  obtain ⟨hlschema, L, hlfresh, hlinit, hlnext⟩ := hleft
  obtain ⟨hrschema, R, hrfresh, hrinit, hrnext⟩ := hright
  refine ⟨rfl, SameRows fun st st' => L st.1 st'.1 ∧ R st.2 st'.2, ⟨⟨hlfresh, hrfresh⟩, rfl, rfl⟩,
    fun st st' hst => ?_, fun st st' hst => extends_nextResult hst⟩
  unfold hashJoinExecutor
  dsimp only
  rw [← hlschema, ← hrschema]
  refine (hlinit _ _ hst.children.1).bind fun l l' hl => ?_
  refine (hrinit _ _ hst.children.2).bind fun r r' hr => ?_
  refine (extends_forEachRow hrnext extends_ofCpp hle hr rfl).bind ?_
  rintro ⟨a, table⟩ ⟨a', table'⟩ ⟨ha, htable⟩
  obtain rfl : table = table' := htable
  refine (extends_forEachRow hlnext extends_ofCpp hle hl rfl).bind ?_
  rintro ⟨b, rows⟩ ⟨b', rows'⟩ ⟨hb, hrows⟩
  exact extends_pure ⟨⟨hb, ha⟩, hrows, rfl⟩

/-- An aggregation of a child with more fuel, with more fuel for its loop. -/
lemma extendedBy_aggregationExecutor (hchild : child.ExtendedBy child')
    (groupBys aggregates : List Expression) (aggTypes : List AggregationType) :
    (aggregationExecutor std fuel outputSchema child groupBys aggregates aggTypes).ExtendedBy
      (aggregationExecutor std fuel' outputSchema child' groupBys aggregates aggTypes) := by
  obtain ⟨hschema, R, hfresh, hinit, hnext⟩ := hchild
  refine ⟨rfl, SameRows R, ⟨hfresh, rfl, rfl⟩, fun st st' hst => ?_,
    fun st st' hst => extends_nextResult hst⟩
  unfold aggregationExecutor
  dsimp only
  rw [← hschema]
  refine (hinit _ _ hst.children).bind fun c c' hc => ?_
  refine (extends_forEachRow hnext extends_ofCpp hle hc rfl).bind ?_
  rintro ⟨a, aht⟩ ⟨a', aht'⟩ ⟨ha, haht⟩
  obtain rfl : aht = aht' := haht
  exact Extends.self_bind _ fun rows => extends_pure ⟨ha, rfl, rfl⟩

omit hle in
/-- The body of the loops that collect rows. -/
lemma extends_append (tuples tuples' : List Tuple) (row : Row) (h : tuples = tuples') :
    Extends Eq (pure (tuples ++ [row.1])) (pure (tuples' ++ [row.1])) :=
  extends_pure (congrArg (· ++ [row.1]) h)

/-- A sort of a child with more fuel, with more fuel for its loop. -/
lemma extendedBy_sortExecutor (hchild : child.ExtendedBy child')
    (orderBys : List (Bool × Expression)) :
    (sortExecutor std fuel outputSchema child orderBys).ExtendedBy
      (sortExecutor std fuel' outputSchema child' orderBys) := by
  obtain ⟨hschema, R, hfresh, hinit, hnext⟩ := hchild
  refine ⟨rfl, SameRows R, ⟨hfresh, rfl, rfl⟩, fun st st' hst => ?_,
    fun st st' hst => extends_nextResult hst⟩
  unfold sortExecutor
  dsimp only
  rw [← hschema]
  refine (hinit _ _ hst.children).bind fun c c' hc => ?_
  refine (extends_forEachRow hnext extends_append hle hc rfl).bind ?_
  rintro ⟨a, tuples⟩ ⟨a', tuples'⟩ ⟨ha, htuples⟩
  obtain rfl : tuples = tuples' := htuples
  exact Extends.self_bind _ fun rows => extends_pure ⟨ha, rfl, rfl⟩

omit hle in

/-- A limit of a child with more fuel. -/
lemma extendedBy_limitExecutor (hchild : child.ExtendedBy child') (limit : ℕ) :
    (limitExecutor outputSchema child limit).ExtendedBy
      (limitExecutor outputSchema child' limit) := by
  obtain ⟨-, R, hfresh, hinit, hnext⟩ := hchild
  refine ⟨rfl, fun st st' => R st.1 st'.1 ∧ st.2 = st'.2, ⟨hfresh, rfl⟩, fun st st' hst => ?_, ?_⟩
  · exact (hinit _ _ hst.1).bind fun c c' hc => extends_pure ⟨hc, rfl⟩
  · rintro ⟨c, count⟩ ⟨c', count'⟩ ⟨hc, hcount⟩
    obtain rfl : count = count' := hcount
    unfold limitExecutor
    dsimp only
    split_ifs
    · exact extends_pure ⟨rfl, hc, rfl⟩
    · refine (hnext c c' hc).bind ?_
      rintro ⟨o, d⟩ ⟨o', d'⟩ ⟨ho, hd⟩
      obtain rfl : o = o' := ho
      cases o with
      | none => exact extends_pure ⟨rfl, hd, rfl⟩
      | some row => exact extends_pure ⟨rfl, hd, rfl⟩

omit hle in

/-- A projection of a child with more fuel. -/
lemma extendedBy_projectionExecutor (hchild : child.ExtendedBy child')
    (expressions : List Expression) :
    (projectionExecutor outputSchema child expressions).ExtendedBy
      (projectionExecutor outputSchema child' expressions) := by
  obtain ⟨hschema, R, hfresh, hinit, hnext⟩ := hchild
  refine ⟨rfl, R, hfresh, hinit, fun st st' hst => ?_⟩
  unfold projectionExecutor
  dsimp only
  rw [← hschema]
  refine (hnext _ _ hst).bind ?_
  rintro ⟨o, d⟩ ⟨o', d'⟩ ⟨ho, hd⟩
  obtain rfl : o = o' := ho
  cases o with
  | none => exact extends_pure ⟨rfl, hd⟩
  | some row => exact Extends.self_bind _ fun tuple => extends_pure ⟨rfl, hd⟩

/-! ## Utility statements -/

/-- Filing the rows of a table in a new index with more fuel. -/
lemma extends_fileRows (schema : Schema) (attr : ℕ) {n n' : ℕ} (hn : n ≤ n') (it : RID)
    (indexInfo : IndexInfo) :
    Extends Eq (Catalog.fileRows fuel schema attr n it indexInfo)
      (Catalog.fileRows fuel' schema attr n' it indexInfo) := by
  induction n generalizing n' it indexInfo with
  | zero => exact extends_undefined
  | succ n ih =>
    cases n' with
    | zero => omega
    | succ n' =>
      rw [Catalog.fileRows, Catalog.fileRows]
      split_ifs
      · exact extends_self _
      · refine Extends.self_bind _ fun tuple => Extends.self_bind _ fun key => ?_
        refine (extends_increment hle _).bind fun next next' hnext => ?_
        subst hnext
        exact ih (by omega) _ _

/-- `CreateIndex` with more fuel. -/
lemma extends_createIndex (indexName tableName : String) (keyAttrs : List ℕ) :
    Extends Eq (Catalog.createIndex fuel indexName tableName keyAttrs)
      (Catalog.createIndex fuel' indexName tableName keyAttrs) := by
  unfold Catalog.createIndex
  refine Extends.self_bind _ fun catalog => Extends.self_bind _ fun found => ?_
  cases found with
  | none => exact extends_self _
  | some tableInfo =>
    dsimp only
    split_ifs
    · exact extends_self _
    · refine Extends.self_bind _ fun existing => ?_
      split_ifs
      · exact extends_self _
      · cases hcolumns : Catalog.keyColumns tableInfo.schema keyAttrs with
        | none => exact extends_self _
        | some columns =>
          cases keyAttrs with
          | nil => exact extends_self _
          | cons attr rest =>
            dsimp only
            refine Extends.self_bind _ fun _ => ?_
            split_ifs
            · refine (extends_begin hle _).bind fun it it' hit => ?_
              subst hit
              refine (extends_fileRows hle _ _ hle _ _).bind fun filed filed' hfiled => ?_
              subst hfiled
              exact extends_self _
            · exact extends_self _

/-- The rows of the utilities with more fuel. -/
lemma extends_utilityRows (utilityType : UtilityType) (tableName indexName : String)
    (keyAttrs : List ℕ) (objectNames : List String) (missingOk : Bool) :
    Extends Eq (utilityRows std fuel utilityType tableName indexName keyAttrs objectNames missingOk)
      (utilityRows std fuel' utilityType tableName indexName keyAttrs objectNames missingOk) := by
  cases utilityType with
  | createIndex =>
    refine (extends_createIndex hle _ _ _).bind fun oid oid' hoid => ?_
    subst hoid
    exact extends_self _
  | dropIndex | showTables | showIndexes | showSchema => exact extends_self _

/-- The utilities with more fuel. -/
lemma extendedBy_utilityExecutor (utilityType : UtilityType) (tableName indexName : String)
    (keyAttrs : List ℕ) (objectNames : List String) (missingOk : Bool) :
    (utilityExecutor std fuel outputSchema utilityType tableName indexName keyAttrs objectNames
      missingOk).ExtendedBy
      (utilityExecutor std fuel' outputSchema utilityType tableName indexName keyAttrs objectNames
        missingOk) := by
  refine ⟨rfl, SameRows Eq, ⟨rfl, rfl, rfl⟩, fun st st' _ => ?_,
    fun st st' hst => extends_nextResult hst⟩
  refine (extends_utilityRows std hle _ _ _ _ _ _).bind fun rows rows' hrows => ?_
  exact extends_pure ⟨rfl, hrows, rfl⟩

end Classes

/-! ## Plans -/

section Plans

variable (std : StandardLibrary) {fuel fuel' : ℕ}

/-- The executor of a plan, with more fuel. -/
lemma extendedBy_createExecutor (hle : fuel ≤ fuel') (plan : PlanNode) :
    (createExecutor std fuel plan).ExtendedBy (createExecutor std fuel' plan) := by
  induction plan with
  | null => exact Executor.extendedBy_self _
  | seqScan out tableOid predicate => exact extendedBy_seqScanExecutor hle out tableOid predicate
  | indexScan out tableOid indexOid lookupKey predicate => exact Executor.extendedBy_self _
  | insert out child tableOid ih =>
    exact extendedBy_modificationExecutor hle out ih tableOid (extends_insertRow hle)
  | delete out child tableOid ih =>
    exact extendedBy_modificationExecutor hle out ih tableOid fun _ _ _ _ => extends_self _
  | update out child tableOid updateExprs ih =>
    rw [createExecutor, createExecutor, updateExecutor, updateExecutor, ← ih.schema]
    exact extendedBy_modificationExecutor hle out ih tableOid fun _ _ _ _ => extends_self _
  | nestedLoopJoin out left right predicate ihl ihr =>
    exact extendedBy_nestedLoopJoinExecutor hle out ihl ihr predicate
  | hashJoin out left right leftKey rightKey ihl ihr =>
    exact extendedBy_hashJoinExecutor hle out ihl ihr leftKey rightKey
  | aggregation out child groupBys aggregates aggTypes ih =>
    exact extendedBy_aggregationExecutor std hle out ih groupBys aggregates aggTypes
  | sort out child orderBys ih => exact extendedBy_sortExecutor std hle out ih orderBys
  | limit out child limit ih => exact extendedBy_limitExecutor out ih limit
  | projection out child expressions ih => exact extendedBy_projectionExecutor out ih expressions
  | utility out utilityType tableName indexName keyAttrs objectNames missingOk =>
    exact extendedBy_utilityExecutor std hle out utilityType tableName indexName keyAttrs
      objectNames missingOk

/-- **More fuel.** Where the engine has an outcome for a plan, a result or an exception, it has the
same one with more fuel. -/
lemma extends_executePlan (hle : fuel ≤ fuel') (plan : PlanNode) :
    Extends Eq (executePlan std fuel plan) (executePlan std fuel' plan) := by
  obtain ⟨-, R, hfresh, hinit, hnext⟩ := extendedBy_createExecutor std hle plan
  refine (hinit _ _ hfresh).bind fun st st' hst => ?_
  refine (extends_forEachRow hnext extends_append hle hst rfl).bind ?_
  rintro ⟨s, result⟩ ⟨s', result'⟩ ⟨-, hresult⟩
  exact extends_pure hresult

end Plans

end OneBase
