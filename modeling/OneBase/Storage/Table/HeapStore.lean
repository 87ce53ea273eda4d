import OneBase.Lib.Transition
import OneBase.Storage.Table.HeapUpdates

set_option relaxedAutoImplicit false
set_option autoImplicit false

/-!
# The table heap as a store

Runs of `InsertTuple` and `DeleteTuple` on one heap, next to the rows that it should hold and to
the RIDs that it has returned.

## Main definitions

* `OneBase.TableHeap.iterate` — the loop from `Begin()` to `End()`.
* `OneBase.TableHeap.HeapStep` — one call of a client.
* `OneBase.TableHeap.Stores` — the invariant of the runs.

## Main results

* `OneBase.TableHeap.heap_stores` — what a client observes after any run.
-/

namespace OneBase

open Effect Effect.Program

namespace TableHeap

/-! ## Clients -/

/-- With fuel enough, the program returns this result and leaves this database. -/
def Terminates {α : Type} (frames : ℕ∞) (program : ℕ → Program (PoolCall TablePage) α)
    (t : PageStore TablePage) (a : α) (t' : PageStore TablePage) : Prop :=
  ∃ fuel₀, ∀ fuel ≥ fuel₀, run (PageStore.handler frames) (program fuel) t = some (a, t')

/-- The rest of the loop, whose iterator is at this RID. -/
def walk (fuel : ℕ) : ℕ → RID → Program (PoolCall TablePage) (List RID)
  | 0, _ => .fail
  | n + 1, it =>
    if it = endIterator then pure []
    else do
      let next ← increment fuel it
      let visited ← walk fuel n next
      pure (it :: visited)

/-- `for (auto it = Begin(); it != End(); ++it)`: the RIDs that it visits. -/
def iterate (fuel : ℕ) (heap : TableHeap) : Program (PoolCall TablePage) (List RID) := do
  let it ← begin fuel heap
  walk fuel fuel it

/-- A call of a client. -/
inductive HeapOp
  | insertTuple (tuple : Tuple)
  | deleteTuple (rid : RID)

/-- The database, the rows that the heap should hold, and the RIDs returned so far. -/
structure HeapRun where
  store : PageStore TablePage
  rows : List (RID × List UInt8) := []
  returned : List RID := []

/-- The sizes of tuples that have room on an empty page. -/
def IsStorable (tuple : Tuple) : Prop := 1 ≤ tuple.data.length ∧ tuple.data.length ≤ 4076

/-- One call: the insertion of a tuple, or the deletion of a live one. -/
inductive HeapStep (frames : ℕ∞) (heap : TableHeap) : HeapRun → HeapOp → HeapRun → Prop
  | insertTuple {s : HeapRun} {tuple : Tuple} {r : Option RID} {t' : PageStore TablePage}
      (hsize : IsStorable tuple)
      (hcall : Terminates frames (fun fuel => insertTuple fuel heap tuple) s.store r t') :
      HeapStep frames heap s (.insertTuple tuple)
        { store := t'
          rows := s.rows ++ r.toList.map fun rid => (rid, tuple.data)
          returned := s.returned ++ r.toList }
  | deleteTuple {s : HeapRun} {rid : RID} {t' : PageStore TablePage}
      (hlive : rid ∈ s.rows.map Prod.fst)
      (hcall : Terminates frames (fun _ => deleteTuple rid) s.store () t') :
      HeapStep frames heap s (.deleteTuple rid)
        { s with store := t', rows := s.rows.filter fun row => row.1 ≠ rid }

/-- The pages from `p` on are linked to each other, up to the last one. -/
def Linked (content : PageId → Option TablePage) : List PageId → PageId → Prop
  | [], p => p = invalidPageId
  | q :: ids, p => p = q ∧ ∃ page : TablePage, content q = some page ∧
      Linked content ids page.getNextPageId

/-- The order of rows along the chain, and of the slots of a page. -/
def Precedes (ids : List PageId) (r s : RID) : Prop :=
  ids.idxOf r.pageId < ids.idxOf s.pageId ∨ (r.pageId = s.pageId ∧ r.slotNum < s.slotNum)

/-! ## The order of the rows -/

section Order

variable {content : PageId → Option TablePage} {pages : Pages} {p : PageId} {ids : List PageId}
  {r s : RID}

/-- The pages of a chain are linked. -/
lemma Chain.linked (h : Chain content pages p) : Linked content (pages.map Prod.fst) p := by
  induction pages generalizing p with
  | nil => exact h
  | cons y pages ih =>
    obtain ⟨q, slots⟩ := y
    obtain ⟨rfl, -, page, hpage, -, hrest⟩ := h
    exact ⟨rfl, page, hpage, ih hrest⟩

/-- The slots of a page in their order. -/
lemma pairwise_slotRows (ids : List PageId) (p : PageId) (k : ℕ)
    (slots : List (Option (List UInt8))) :
    ((slotRows p k slots).map Prod.fst).Pairwise (Precedes ids) := by
  induction slots generalizing k with
  | nil => exact List.Pairwise.nil
  | cons o slots ih =>
    rw [slotRows_cons, List.map_append, List.pairwise_append]
    refine ⟨?_, ih (k + 1), ?_⟩
    · split
      · exact List.Pairwise.nil
      · exact List.pairwise_singleton _ _
    · intro r hr s hs
      obtain ⟨⟨rid, b⟩, hrow, rfl⟩ := List.mem_map.1 hs
      obtain ⟨hpage, hslot, -⟩ := mem_slotRows.1 hrow
      have hr' : r = ⟨p, k⟩ := by
        split at hr
        · cases hr
        · simpa using hr
      subst hr'
      exact .inr ⟨hpage.symm, hslot⟩

/-- A live row is on a page of the heap. -/
lemma mem_pageIds (hr : r ∈ (liveRows pages).map Prod.fst) : r.pageId ∈ pages.map Prod.fst := by
  obtain ⟨⟨rid, b⟩, hrow, rfl⟩ := List.mem_map.1 hr
  obtain ⟨slots, hmem, -⟩ := mem_liveRows.1 hrow
  exact List.mem_map.2 ⟨_, hmem, rfl⟩

/-- The rows of a heap in the order of its pages. -/
lemma pairwise_liveRows (hnodup : (pages.map Prod.fst).Nodup) :
    ((liveRows pages).map Prod.fst).Pairwise (Precedes (pages.map Prod.fst)) := by
  induction pages with
  | nil => exact List.Pairwise.nil
  | cons y pages ih =>
    obtain ⟨q, slots⟩ := y
    rw [List.map_cons, List.nodup_cons] at hnodup
    rw [liveRows_cons, List.map_append, List.pairwise_append]
    have hshift : ∀ p ∈ pages.map Prod.fst,
        (q :: pages.map Prod.fst).idxOf p = (pages.map Prod.fst).idxOf p + 1 := by
      intro p hp
      rw [List.idxOf_cons_ne]
      rintro rfl
      exact hnodup.1 hp
    refine ⟨pairwise_slotRows _ q 0 slots, ?_, ?_⟩
    · refine (ih hnodup.2).imp_of_mem fun {r s} hr hs hrs => ?_
      rw [Precedes, List.map_cons, hshift _ (mem_pageIds hr), hshift _ (mem_pageIds hs)]
      exact hrs.imp (Nat.add_lt_add_right · 1) id
    · intro r hr s hs
      obtain ⟨⟨rid, b⟩, hrow, rfl⟩ := List.mem_map.1 hr
      obtain ⟨hpage, -⟩ := mem_slotRows.1 hrow
      left
      rw [List.map_cons, hpage, List.idxOf_cons_self, hshift _ (mem_pageIds hs)]
      omega

end Order

/-! ## The loop -/

section Loop

variable {frames : ℕ∞} {t : PageStore TablePage} {pages : Pages} {heap : TableHeap}
  {before rows : List (RID × List UInt8)} {n fuel : ℕ}

/-- The rest of the loop visits the rest of the rows. -/
lemma Holds.run_walk (h : Holds t.content heap pages) (ht : Ready t) (hframes : 1 ≤ frames)
    (hrows : liveRows pages = before ++ rows) (hfuel : pages.length < fuel)
    (hn : rows.length < n) :
    run (PageStore.handler frames) (walk fuel n (first rows)) t = some (rows.map Prod.fst, t) := by
  induction rows generalizing before n with
  | nil =>
    obtain ⟨n, rfl⟩ := Nat.exists_eq_add_of_lt hn
    simp [walk, first]
  | cons row rows ih =>
    obtain ⟨rid, b⟩ := row
    obtain ⟨n, rfl⟩ : ∃ m, n = m + 1 := ⟨n - 1, by omega⟩
    obtain ⟨-, -, -, -, -, hvalid, -⟩ := h.page_of_row hrows
    have hne : rid ≠ endIterator := by
      rintro rfl
      exact hvalid rfl
    have hrest := ih (by rw [hrows]; simp : liveRows pages = (before ++ [(rid, b)]) ++ rows)
      (by simpa using hn)
    show run (PageStore.handler frames) (walk fuel (n + 1) rid) t = _
    rw [walk, if_neg hne]
    simp only [run_bind, (h.increment ht hframes hrows fuel).1 hfuel, Option.bind_some, hrest,
      run_pure, List.map_cons]

/-- The loop visits the rows of the heap. -/
lemma Holds.terminates_iterate (h : Holds t.content heap pages) (ht : Ready t)
    (hframes : 1 ≤ frames) :
    Terminates frames (fun fuel => iterate fuel heap) t ((liveRows pages).map Prod.fst) t := by
  refine ⟨pages.length + (liveRows pages).length + 1, fun fuel hfuel => ?_⟩
  have hbegin := (h.begin ht hframes fuel).1 (by omega)
  have hwalk := h.run_walk ht hframes (List.nil_append _).symm (by omega : pages.length < fuel)
    (by omega : (liveRows pages).length < fuel)
  unfold iterate
  simp only [run_bind, hbegin, Option.bind_some, hwalk]

/-- What a program returns does not depend on the fuel. -/
lemma Terminates.unique {α : Type} {program : ℕ → Program (PoolCall TablePage) α}
    {t₁ t₂ : PageStore TablePage} {a b : α} (h : Terminates frames program t a t₁)
    (h' : Terminates frames program t b t₂) : a = b ∧ t₁ = t₂ := by
  obtain ⟨m, hm⟩ := h
  obtain ⟨n, hn⟩ := h'
  have heq := (hm (max m n) (le_max_left m n)).symm.trans (hn (max m n) (le_max_right m n))
  exact Prod.mk.inj (Option.some.inj heq)

end Loop

/-! ## One call -/

section Calls

variable {frames : ℕ∞} {t t' : PageStore TablePage} {pages : Pages} {heap : TableHeap} {p : PageId}
  {data : List UInt8} {r : Option RID} {rid : RID} {tuple : Tuple}

/-- The RID is that of a slot in use, live or not. -/
def InUse (t : PageStore TablePage) (rid : RID) : Prop :=
  ∃ x, t.content rid.pageId = some x ∧ rid.slotNum < x.getNumTuples

/-- A page is replaced by one with at least as many slots. -/
lemma InUse.update {content : PageId → Option TablePage} {x y : TablePage}
    (hx : content p = some x) (hle : x.getNumTuples ≤ y.getNumTuples)
    (h : ∃ z, content rid.pageId = some z ∧ rid.slotNum < z.getNumTuples) :
    ∃ z, Function.update content p (some y) rid.pageId = some z ∧
      rid.slotNum < z.getNumTuples := by
  obtain ⟨z, hz, hlt⟩ := h
  by_cases heq : rid.pageId = p
  · rw [heq] at hz ⊢
    obtain rfl : x = z := Option.some.inj (hx.symm.trans hz)
    exact ⟨y, Function.update_self .., lt_of_lt_of_le hlt hle⟩
  · exact ⟨z, (Function.update_of_ne heq ..).trans hz, hlt⟩

/-- No slot of the next page is in use. -/
lemma content_nextPageId (ht : Ready t) : t.content t.nextPageId = none := by
  by_contra hne
  exact absurd (ht.allocated _ hne).2 (lt_irrefl _)

/-- `InsertTuple` uses a new slot, and keeps those in use. -/
lemma Places.fresh (ht : Ready t) (hplace : Places t data pages r t')
    (hchain : Chain t.content pages p) :
    (∀ rid, r = some rid → ¬ InUse t rid ∧ InUse t' rid) ∧ ∀ rid, InUse t rid → InUse t' rid := by
  induction hplace generalizing p with
  | @here p slots post x hx hroom =>
    obtain ⟨-, -, z, hz, hintact, -⟩ := hchain
    obtain rfl : x = z := Option.some.inj (hx.symm.trans hz)
    obtain ⟨-, hintact', -⟩ := insertTuple_page hintact hroom
    have hnum : (x.insertTuple data).2.getNumTuples = x.getNumTuples + 1 := by
      rw [hintact'.numTuples_eq, hintact.numTuples_eq, List.length_append, List.length_singleton]
    refine ⟨fun rid hrid => ?_, fun rid hrid => InUse.update hx (by omega) hrid⟩
    obtain rfl := Option.some.inj hrid
    refine ⟨?_, _, Function.update_self .., ?_⟩
    · rintro ⟨y, hy, hlt⟩
      obtain rfl : x = y := Option.some.inj (hx.symm.trans hy)
      rw [hintact.numTuples_eq] at hlt
      exact absurd hlt (lt_irrefl _)
    · rw [hnum, hintact.numTuples_eq]
      exact Nat.lt_succ_self _
  | @append p slots x hx hfull hnext =>
    have hunused := content_nextPageId ht
    refine ⟨fun rid hrid => ?_, fun rid hrid => ?_⟩
    · obtain ⟨slot, hslot, rfl⟩ := Option.map_eq_some_iff.1 hrid
      obtain ⟨slots', hintact, -, hcase⟩ := insertTuple_freshPage data
      refine ⟨?_, _, Function.update_self .., ?_⟩
      · rintro ⟨y, hy, -⟩
        rw [hunused] at hy
        cases hy
      · rcases hcase with ⟨hzero, rfl⟩ | ⟨hnone, -, -⟩
        · obtain rfl : 0 = slot := Option.some.inj (hzero.symm.trans hslot)
          rw [hintact.numTuples_eq]
          exact Nat.one_pos
        · rw [hnone] at hslot
          cases hslot
    · have hne : rid.pageId ≠ t.nextPageId := by
        intro heq
        obtain ⟨y, hy, -⟩ := hrid
        rw [heq, hunused] at hy
        cases hy
      obtain ⟨z, hz, hlt⟩ := InUse.update hx (x.getNumTuples_setNextPageId t.nextPageId).ge hrid
      exact ⟨z, by rw [content_appended, Function.update_of_ne hne, hz], hlt⟩
  | @later p slots post x r t' hx hfull hpost hrest ih =>
    obtain ⟨-, -, z, hz, -, hchain⟩ := hchain
    exact ih hchain

/-- Where a tuple is put is determined. -/
lemma Places.unique {r' : Option RID} {t'' : PageStore TablePage} (h : Places t data pages r t')
    (h' : Places t data pages r' t'') : r = r' ∧ t' = t'' := by
  induction h with
  | @here p slots post x hx hroom =>
    cases h' with
    | @here _ _ _ y hy _ =>
      obtain rfl : x = y := Option.some.inj (hx.symm.trans hy)
      exact ⟨rfl, rfl⟩
    | @append _ _ y hy hfull _ =>
      obtain rfl : x = y := Option.some.inj (hx.symm.trans hy)
      exact absurd hfull hroom
    | @later _ _ _ y _ _ hy hfull _ _ =>
      obtain rfl : x = y := Option.some.inj (hx.symm.trans hy)
      exact absurd hfull hroom
  | @append p slots x hx hfull hnext =>
    cases h' with
    | @here _ _ _ y hy hroom =>
      obtain rfl : x = y := Option.some.inj (hx.symm.trans hy)
      exact absurd hfull hroom
    | @append _ _ y hy _ _ =>
      obtain rfl : x = y := Option.some.inj (hx.symm.trans hy)
      exact ⟨rfl, rfl⟩
    | later _ _ hpost _ => exact absurd rfl hpost
  | @later p slots post x r t' hx hfull hpost hrest ih =>
    cases h' with
    | @here _ _ _ y hy hroom =>
      obtain rfl : x = y := Option.some.inj (hx.symm.trans hy)
      exact absurd hfull hroom
    | append _ _ _ => exact absurd rfl hpost
    | later _ _ _ hrest' => exact ih hrest'

/-- A tuple that can be stored is stored as its data. -/
lemma IsStorable.bytesOf_eq (h : IsStorable tuple) : bytesOf tuple = tuple.data := by
  have hlen : tuple.data.length % 2 ^ 32 = tuple.data.length :=
    Nat.mod_eq_of_lt (by have := h.2; omega)
  rw [bytesOf, Tuple.getLength, hlen, List.take_length]

/-- A tuple of this size is not refused. -/
lemma IsStorable.inserted (h : IsStorable tuple) {rows rows' : List (RID × List UInt8)}
    (hgrows : Grows tuple.data r rows rows') :
    ∃ rid, r = some rid ∧ rows'.Perm (rows ++ [(rid, tuple.data)]) := by
  have hne : tuple.data ≠ [] := List.ne_nil_of_length_pos h.1
  cases hgrows with
  | refused hlarge =>
    have := h.2
    simp only [pageSize] at hlarge
    omega
  | @inserted rid before after =>
    refine ⟨rid, rfl, ?_⟩
    rw [if_neg hne, List.append_assoc, List.singleton_append]
    exact List.perm_middle.trans (List.perm_append_singleton _ _).symm

/-- What a call of `InsertTuple` has done. -/
lemma Holds.places (h : Holds t.content heap pages) (ht : Ready t) (hframes : 2 ≤ frames)
    (hcall : Terminates frames (fun fuel => TableHeap.insertTuple fuel heap tuple) t r t') :
    Places t (bytesOf tuple) pages r t' := by
  obtain ⟨fuel, hfuel⟩ := hcall
  exact (run_insertFrom ht hframes h.chain h.nonempty fuel).2 _ _ (hfuel fuel le_rfl)

/-- `InsertTuple` returns, if the ids of the pages are not used up. -/
lemma Holds.terminates_insertTuple (h : Holds t.content heap pages) (ht : Ready t)
    (hframes : 2 ≤ frames) (hnext : t.nextPageId < 2 ^ 31) (tuple : Tuple) :
    ∃ r t', Terminates frames (fun fuel => TableHeap.insertTuple fuel heap tuple) t r t' := by
  have hspec : ∀ fuel, (pages.length ≤ fuel → t.nextPageId < 2 ^ 31 → ∃ r t',
      run (PageStore.handler frames) (TableHeap.insertTuple fuel heap tuple) t = some (r, t')) ∧
      ∀ r t', run (PageStore.handler frames) (TableHeap.insertTuple fuel heap tuple) t =
        some (r, t') → Places t (bytesOf tuple) pages r t' :=
    fun fuel => run_insertFrom ht hframes h.chain h.nonempty fuel
  obtain ⟨r, t', hr⟩ := (hspec pages.length).1 le_rfl hnext
  refine ⟨r, t', pages.length, fun fuel hfuel => ?_⟩
  obtain ⟨r', t'', hr'⟩ := (hspec fuel).1 hfuel hnext
  obtain ⟨rfl, rfl⟩ := ((hspec pages.length).2 _ _ hr).unique ((hspec fuel).2 _ _ hr')
  exact hr'

/-- The page that `DeleteTuple` leaves. -/
lemma Holds.run_deleteTuple (h : Holds t.content heap pages) (ht : Ready t) (hframes : 1 ≤ frames)
    {b : List UInt8} (hmem : (rid, b) ∈ liveRows pages) :
    ∃ x, t.content rid.pageId = some x ∧
      run (PageStore.handler frames) (TableHeap.deleteTuple rid) t =
        some ((), TableHeap.setPage t rid.pageId (x.deleteTuple rid.slotNum)) := by
  obtain ⟨before, after, hrows⟩ := List.append_of_mem hmem
  obtain ⟨pre, slots, post, x, -, -, hx, -, -, -, -, hslot, -⟩ := h.page_of_row hrows
  have hmod : rid.slotNum % 2 ^ 16 = rid.slotNum := Nat.mod_eq_of_lt (by omega)
  refine ⟨x, hx, ?_⟩
  unfold TableHeap.deleteTuple
  simp only [run_bind, run_fetchPage ht hframes hx, Option.bind_some, run_read hx, hmod,
    run_write ht hx, run_unpin_written ht]

/-- The constructor leaves a heap of one empty page. -/
lemma run_create (ht : Ready t) (hframes : 1 ≤ frames) :
    run (PageStore.handler frames) create t = some (.ok ⟨t.nextPageId⟩,
      setPage { t with nextPageId := t.nextPageId + 1 } t.nextPageId freshPage) := by
  have hcard : (t.pinnedPages.card : ℕ∞) < frames := by
    have hnone : t.pinnedPages = ∅ := by simp [PageStore.pinnedPages, ht.pins_eq]
    rw [hnone, Finset.card_empty]
    exact lt_of_lt_of_le (by norm_num) hframes
  have hnew : run (PageStore.handler frames) (op .newPage) t =
      some (some t.nextPageId, t.allocate) := by
    rw [run_op, PageStore.handler, if_pos hcard]
  unfold create
  rw [run_bind, hnew, Option.bind_some]
  simp [PageClient.read, PageClient.write, PageClient.unpin, PageStore.handler,
    PageStore.allocate, PageStore.write, PageStore.unpin, PageStore.pinnedPages, ht.pins_eq,
    setPage, freshPage]

end Calls

/-! ## Runs -/

/-- What every run keeps: the rows of the heap are those that it should hold, and the RIDs returned
so far are those of slots in use. -/
structure Stores (heap : TableHeap) (s : HeapRun) : Prop where
  ready : Ready s.store
  holds : ∃ pages, Holds s.store.content heap pages ∧ (liveRows pages).Perm s.rows
  inUse : ∀ rid ∈ s.returned, InUse s.store rid

section Runs

variable {frames : ℕ∞} {heap : TableHeap} {s s' : HeapRun} {op : HeapOp} {ops : List HeapOp}
  {t t' : PageStore TablePage}

/-- A new heap. -/
lemma stores_create (ht : Ready t) (hframes : 1 ≤ frames)
    (hcreate : run (PageStore.handler frames) create t = some (.ok heap, t')) :
    Stores heap { store := t' } := by
  rw [run_create ht hframes] at hcreate
  obtain ⟨hheap, rfl⟩ := Prod.mk.inj (Option.some.inj hcreate)
  obtain rfl := Except.ok.inj hheap
  have hnonneg := ht.next_nonneg
  refine ⟨⟨ht.pins_eq, fun q hq => ?_, by show 0 ≤ t.nextPageId + 1; lia⟩,
    ⟨[(t.nextPageId, [])], ⟨?_, by simp, by simp⟩, .refl _⟩, by simp⟩
  · show 0 ≤ q ∧ q < t.nextPageId + 1
    by_cases heq : q = t.nextPageId
    · lia
    · have hold : t.content q ≠ none := by
        change Function.update t.content t.nextPageId (some freshPage) q ≠ none at hq
        rwa [Function.update_of_ne heq] at hq
      have := ht.allocated q hold
      lia
  · refine ⟨rfl, ?_, freshPage, Function.update_self .., intact_freshPage,
      TablePage.getNextPageId_init _⟩
    show t.nextPageId ≠ -1
    lia

/-- One call keeps the invariant. -/
lemma Stores.step (h : Stores heap s) (hframes : 2 ≤ frames) (hstep : HeapStep frames heap s op s') :
    Stores heap s' := by
  obtain ⟨pages, hholds, hperm⟩ := h.holds
  have hframes' : 1 ≤ frames := le_trans (by norm_num) hframes
  cases hstep with
  | @insertTuple tuple r t' hsize hcall =>
    have hplace := hholds.places h.ready hframes hcall
    obtain ⟨pages', hinserts⟩ : ∃ pages',
        Inserts heap (bytesOf tuple) s.store ([] ++ pages) r t' pages' :=
      hplace.inserts h.ready hholds
    obtain ⟨hfresh, hkept⟩ := hplace.fresh h.ready hholds.chain
    refine ⟨hinserts.frame.ready, ⟨pages', hinserts.holds, ?_⟩, fun rid hrid => ?_⟩
    · obtain ⟨rid, rfl, hrows⟩ := hsize.inserted (hsize.bytesOf_eq ▸ hinserts.grows)
      exact hrows.trans (hperm.append_right _)
    · rcases List.mem_append.1 hrid with hrid | hrid
      · exact hkept rid (h.inUse rid hrid)
      · exact (hfresh rid (Option.mem_toList.1 hrid)).2
  | @deleteTuple rid t' hlive hcall =>
    obtain ⟨⟨rid, b⟩, hrow, rfl⟩ := List.mem_map.1 hlive
    have hmem := hperm.symm.subset hrow
    obtain ⟨before, after, hsplit⟩ := List.append_of_mem hmem
    obtain ⟨t'', pages', hrun, hholds', hrows', -, hframe⟩ :=
      hholds.deleteTuple h.ready hframes' hsplit
    obtain ⟨x, hx, hrun'⟩ := hholds.run_deleteTuple h.ready hframes' hmem
    obtain ⟨fuel, hfuel⟩ := hcall
    have hcall' := hfuel fuel le_rfl
    obtain rfl : t'' = t' := (Prod.mk.inj (Option.some.inj (hrun.symm.trans hcall'))).2
    refine ⟨hframe.ready, ⟨pages', hholds', ?_⟩, fun q hq => ?_⟩
    · have hnodup := nodup_liveRows hholds.nodup
      rw [hsplit, List.map_append, List.map_cons] at hnodup
      obtain ⟨hout, -⟩ := List.nodup_cons.1 (List.nodup_middle.1 hnodup)
      rw [List.mem_append, not_or] at hout
      have hkeep : ∀ rows : List (RID × List UInt8), rid ∉ rows.map Prod.fst →
          rows.filter (fun row => decide (row.1 ≠ rid)) = rows := by
        intro rows hnotMem
        refine List.filter_eq_self.2 fun row hmem => decide_eq_true fun heq => hnotMem ?_
        exact heq ▸ List.mem_map_of_mem hmem
      have hfilter := hperm.filter fun row => decide (row.1 ≠ rid)
      rw [hsplit, List.filter_append, List.filter_cons, hkeep _ hout.1, hkeep _ hout.2,
        if_neg (by simp)] at hfilter
      rw [hrows']
      exact hfilter
    · obtain rfl := (Prod.mk.inj (Option.some.inj (hrun'.symm.trans hcall'))).2
      exact InUse.update hx (TablePage.deleteTuple_spec x rid.slotNum).2.1.ge (h.inUse q hq)

/-- A tuple that has room on an empty page is inserted, under an RID that was not returned before. -/
lemma Stores.terminates_insertTuple (h : Stores heap s) (hframes : 2 ≤ frames) {tuple : Tuple}
    (hsize : IsStorable tuple) (hnext : s.store.nextPageId < 2 ^ 31) :
    ∃ rid t'', Terminates frames (fun fuel => insertTuple fuel heap tuple) s.store (some rid) t'' ∧
      rid ∉ s.returned ∧ t''.nextPageId ≤ s.store.nextPageId + 1 := by
  obtain ⟨pages, hholds, -⟩ := h.holds
  obtain ⟨r, t'', hcall⟩ := hholds.terminates_insertTuple h.ready hframes hnext tuple
  have hplace := hholds.places h.ready hframes hcall
  obtain ⟨pages', hinserts⟩ : ∃ pages',
      Inserts heap (bytesOf tuple) s.store ([] ++ pages) r t'' pages' :=
    hplace.inserts h.ready hholds
  obtain ⟨rid, rfl, -⟩ := hsize.inserted (hsize.bytesOf_eq ▸ hinserts.grows)
  refine ⟨rid, t'', hcall, fun hmem => ?_, hplace.next_le⟩
  exact ((hplace.fresh h.ready hholds.chain).1 rid rfl).1 (h.inUse rid hmem)

/-- A live row is deleted. -/
lemma Stores.terminates_deleteTuple (h : Stores heap s) (hframes : 1 ≤ frames) {rid : RID}
    (hlive : rid ∈ s.rows.map Prod.fst) :
    ∃ t'', Terminates frames (fun _ => deleteTuple rid) s.store () t'' := by
  obtain ⟨pages, hholds, hperm⟩ := h.holds
  obtain ⟨⟨rid, b⟩, hrow, rfl⟩ := List.mem_map.1 hlive
  obtain ⟨x, -, hdelete⟩ := hholds.run_deleteTuple h.ready hframes (hperm.symm.subset hrow)
  exact ⟨_, 0, fun _ _ => hdelete⟩

/-- **The table heap as a store.** After every run of insertions of 1 to 4076 bytes and deletions
of live RIDs on a new heap: `InsertTuple` terminates with an RID that was not returned before, and
so does `DeleteTuple`; `GetTuple` returns the bytes of each live row; the chain of pages is finite
and does not come back; and the loop from `Begin()` to `End()` visits the live rows, each once, in
their order. -/
theorem heap_stores (ht : Ready t) (hframes : 2 ≤ frames)
    (hcreate : run (PageStore.handler frames) create t = some (.ok heap, t'))
    (hrun : Transition.Run (HeapStep frames heap) { store := t' } ops s) :
    (∀ tuple, IsStorable tuple → s.store.nextPageId < 2 ^ 31 → ∃ rid t'',
      Terminates frames (fun fuel => insertTuple fuel heap tuple) s.store (some rid) t'' ∧
        rid ∉ s.returned) ∧
      (∀ rid ∈ s.rows.map Prod.fst, ∃ t'',
        Terminates frames (fun _ => deleteTuple rid) s.store () t'') ∧
      (∀ rid b, (rid, b) ∈ s.rows → run (PageStore.handler frames) (getTuple rid) s.store =
        some (.ok { rid := rid, data := b }, s.store)) ∧
      ∃ ids visited, Linked s.store.content ids heap.firstPageId ∧ ids.Nodup ∧
        Terminates frames (fun fuel => iterate fuel heap) s.store visited s.store ∧
        visited.Perm (s.rows.map Prod.fst) ∧ visited.Nodup ∧ visited.Pairwise (Precedes ids) := by
  have hframes' : 1 ≤ frames := le_trans (by norm_num) hframes
  have hstores : Stores heap s := hrun.invariant (fun _ _ _ h hstep => h.step hframes hstep)
    (stores_create ht hframes' hcreate)
  obtain ⟨pages, hholds, hperm⟩ := hstores.holds
  refine ⟨fun tuple hsize hnext => ?_, fun rid hrid => ?_, fun rid b hmem => ?_, ?_⟩
  · obtain ⟨rid, t'', hcall, hfresh, -⟩ := hstores.terminates_insertTuple hframes hsize hnext
    exact ⟨rid, t'', hcall, hfresh⟩
  · exact hstores.terminates_deleteTuple hframes' hrid
  · exact hholds.getTuple hstores.ready hframes' (hperm.symm.subset hmem)
  · exact ⟨_, _, hholds.chain.linked, hholds.nodup,
      hholds.terminates_iterate hstores.ready hframes', hperm.map _, nodup_liveRows hholds.nodup,
      pairwise_liveRows hholds.nodup⟩

/-- An empty database is idle. -/
lemma ready_empty : Ready {} :=
  ⟨rfl, fun _ h => absurd rfl h, le_refl (0 : ℤ)⟩

/-- Two rows that are too long for one page are on different pages. -/
lemma Stores.pageId_ne (h : Stores heap s) {r r' : RID} {b b' : List UInt8}
    (hr : (r, b) ∈ s.rows) (hr' : (r', b') ∈ s.rows) (hne : r ≠ r')
    (hlong : pageSize < b.length + b'.length) : r.pageId ≠ r'.pageId := by
  intro hpage
  obtain ⟨pages, hholds, hperm⟩ := h.holds
  obtain ⟨slots, hmem, hslot, -⟩ := mem_liveRows.1 (hperm.symm.subset hr)
  obtain ⟨slots', hmem', hslot', -⟩ := mem_liveRows.1 (hperm.symm.subset hr')
  have hsame : slots' = slots :=
    List.inj_on_of_nodup_map hholds.nodup hmem' hmem hpage.symm |> congrArg Prod.snd
  subst hsame
  obtain ⟨pre, post, rfl⟩ := List.append_of_mem hmem
  obtain ⟨-, x, -, hintact, -⟩ := hholds.chain.page
  have hslots : r.slotNum ≠ r'.slotNum := fun heq => hne (by
    cases r
    cases r'
    exact congrArg₂ RID.mk hpage heq)
  obtain ⟨-, hend, hget⟩ := hintact.live _ _ hslot
  obtain ⟨-, hend', hget'⟩ := hintact.live _ _ hslot'
  have hlen : x.getTupleLengthAtSlot r.slotNum = b.length := by
    rw [← hget, TablePage.getTuple, Memory.length_readBytes]
  have hlen' : x.getTupleLengthAtSlot r'.slotNum = b'.length := by
    rw [← hget', TablePage.getTuple, Memory.length_readBytes]
  have := hintact.disjoint _ _ b b' hslots hslot hslot'
  omega

/-- A tuple of 3000 bytes. -/
def longTuple (b : UInt8) : Tuple := { data := List.replicate 3000 b }

/-- The long tuple has 3000 bytes. -/
lemma length_longTuple (b : UInt8) : (longTuple b).data.length = 3000 := List.length_replicate

/-- The long tuple can be stored. -/
lemma isStorable_longTuple (b : UInt8) : IsStorable (longTuple b) := by
  unfold IsStorable
  rw [length_longTuple]
  decide

/-- Two tuples in the first heap of a database, the second one on a second page, of which the first
one is deleted. -/
theorem heap_stores_sample : ∃ (heap : TableHeap) (t : PageStore TablePage) (s : HeapRun) (r r' : RID),
    run (PageStore.handler ⊤) create {} = some (.ok heap, t) ∧ r.pageId ≠ r'.pageId ∧
      Transition.Run (HeapStep ⊤ heap) { store := t }
        [.insertTuple (longTuple 1), .insertTuple (longTuple 2), .deleteTuple r] s ∧
      s.rows = [(r', (longTuple 2).data)] ∧
      run (PageStore.handler ⊤) (getTuple r') s.store =
        some (.ok { rid := r', data := (longTuple 2).data }, s.store) := by
  obtain ⟨heap, t, hcreate, hnext⟩ : ∃ heap t,
      run (PageStore.handler ⊤) create {} = some (.ok heap, t) ∧ t.nextPageId = 1 :=
    ⟨_, _, run_create ready_empty (le_top : 1 ≤ (⊤ : ℕ∞)), rfl⟩
  have hstores := stores_create ready_empty le_top hcreate
  obtain ⟨r, t₁, hcall₁, -, hnext₁⟩ := hstores.terminates_insertTuple (le_top : 2 ≤ (⊤ : ℕ∞))
    (isStorable_longTuple 1) (by rw [hnext]; decide)
  have hnext₁ : t₁.nextPageId ≤ t.nextPageId + 1 := hnext₁
  have hstep₁ : HeapStep ⊤ heap { store := t } (.insertTuple (longTuple 1))
      ⟨t₁, [(r, (longTuple 1).data)], [r]⟩ := .insertTuple (isStorable_longTuple 1) hcall₁
  have hstores₁ := hstores.step le_top hstep₁
  obtain ⟨r', t₂, hcall₂, hfresh, -⟩ := hstores₁.terminates_insertTuple (le_top : 2 ≤ (⊤ : ℕ∞))
    (isStorable_longTuple 2) (show t₁.nextPageId < 2 ^ 31 by lia)
  have hstep₂ : HeapStep ⊤ heap ⟨t₁, [(r, (longTuple 1).data)], [r]⟩ (.insertTuple (longTuple 2))
      ⟨t₂, [(r, (longTuple 1).data), (r', (longTuple 2).data)], [r, r']⟩ :=
    .insertTuple (isStorable_longTuple 2) hcall₂
  have hstores₂ := hstores₁.step le_top hstep₂
  have hne : r ≠ r' := fun heq => hfresh (heq ▸ List.mem_singleton_self r)
  obtain ⟨t₃, hcall₃⟩ := hstores₂.terminates_deleteTuple (le_top : 1 ≤ (⊤ : ℕ∞))
    (List.mem_cons_self : r ∈ [r, r'])
  have hstep₃ : HeapStep ⊤ heap
      ⟨t₂, [(r, (longTuple 1).data), (r', (longTuple 2).data)], [r, r']⟩ (.deleteTuple r) _ :=
    .deleteTuple (List.mem_cons_self : r ∈ [r, r']) hcall₃
  have hpages : r.pageId ≠ r'.pageId := by
    refine hstores₂.pageId_ne List.mem_cons_self (List.mem_cons_of_mem _ List.mem_cons_self) hne ?_
    rw [length_longTuple, length_longTuple]
    decide
  have hrows : [(r, (longTuple 1).data), (r', (longTuple 2).data)].filter
      (fun row => decide (row.1 ≠ r)) = [(r', (longTuple 2).data)] := by
    simp [Ne.symm hne]
  have hrun := Transition.Run.cons hstep₁ (.cons hstep₂ (.cons hstep₃ (.nil _)))
  refine ⟨heap, t, _, r, r', hcreate, hpages, hrun, hrows, ?_⟩
  refine (heap_stores ready_empty le_top hcreate hrun).2.2.1 r' _ ?_
  show (r', (longTuple 2).data) ∈ List.filter _ _
  rw [hrows]
  exact List.mem_singleton_self _

end Runs

end TableHeap

end OneBase
