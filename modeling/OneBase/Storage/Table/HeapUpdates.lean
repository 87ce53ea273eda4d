import OneBase.Storage.Table.HeapContents

set_option relaxedAutoImplicit false
set_option autoImplicit false

/-!
# What the operations of a table heap do to its rows

`DeleteTuple` and `UpdateTuple` change one slot; `InsertTuple` appends a slot to the first page
with room, or a page to the chain. No page ever gets more room.

## Main definitions

* `OneBase.TableHeap.Frame` — what an operation leaves of the rest of the database.
* `OneBase.TableHeap.Grows` — the rows after an `InsertTuple`.

## Main results

* `OneBase.TableHeap.Holds.deleteTuple`, `updateTuple`, `insertTuple` — the rows afterwards.
-/

namespace OneBase

open Effect Effect.Program Memory

namespace TableHeap

variable {frames : ℕ∞} {t t' : PageStore TablePage} {p q : PageId} {x y : TablePage}
  {pages pages' pre post : Pages} {slots slots' : List (Option (List UInt8))} {heap : TableHeap}
  {rid : RID} {b data : List UInt8} {o : Option (List UInt8)}
  {before after : List (RID × List UInt8)}

/-! ## One slot -/

/-- What an operation on the pages `pids` leaves of the rest of the database. -/
structure Frame (pids : List PageId) (t t' : PageStore TablePage) : Prop where
  ready : Ready t'
  outside : ∀ q ∉ pids, q ≠ t.nextPageId → t'.content q = t.content q
  kept : ∀ q x, t.content q = some x → ∃ x', t'.content q = some x' ∧
    x'.getFreeSpaceRemaining ≤ x.getFreeSpaceRemaining
  next_le : t.nextPageId ≤ t'.nextPageId

/-- Nothing has changed. -/
lemma Frame.refl (ht : Ready t) (pids : List PageId) : Frame pids t t :=
  ⟨ht, fun _ _ _ => rfl, fun _ x hx => ⟨x, hx, le_rfl⟩, le_rfl⟩

/-- Replacing a page of the heap by one with no more room leaves the rest of the database. -/
lemma Frame.setPage (ht : Ready t) (hx : t.content p = some x)
    (hroom : y.getFreeSpaceRemaining ≤ x.getFreeSpaceRemaining) {pids : List PageId}
    (hp : p ∈ pids) : Frame pids t (setPage t p y) where
  ready := ht.setPage hx y
  outside := by
    intro q hq _
    refine Function.update_of_ne ?_ ..
    rintro rfl
    exact hq hp
  kept := by
    intro q z hz
    by_cases hqp : q = p
    · subst hqp
      obtain rfl : x = z := Option.some.inj (hx.symm.trans hz)
      exact ⟨y, Function.update_self .., hroom⟩
    · exact ⟨z, (Function.update_of_ne hqp ..).trans hz, le_rfl⟩
  next_le := le_rfl

/-- A page is replaced by one with the same link. -/
lemma Holds.setPage (h : Holds t.content heap (pre ++ (p, slots) :: post))
    (hx : t.content p = some x) (hlink : y.getNextPageId = x.getNextPageId)
    (hintact : y.Intact slots') :
    Holds (setPage t p y).content heap (pre ++ (p, slots') :: post) where
  chain := by
    refine h.chain.replace h.nodup (fun old hold => ?_) hintact
    rw [hlink, Option.some.inj (hx.symm.trans hold)]
  nodup := by simpa using h.nodup
  nonempty := by simp

/-- The rows after a slot that held a row is set. -/
lemma liveRows_set (hslot : rid.slotNum < slots.length)
    (hbefore : before = liveRows pre ++ slotRows rid.pageId 0 (slots.take rid.slotNum))
    (hafter : after = slotRows rid.pageId (rid.slotNum + 1) (slots.drop (rid.slotNum + 1)) ++
      liveRows post) :
    liveRows (pre ++ (rid.pageId, slots.set rid.slotNum o) :: post) =
      before ++ (if o.getD [] = [] then [] else [(rid, o.getD [])]) ++ after := by
  rw [liveRows_append, liveRows_cons, List.set_eq_take_append_cons_drop, if_pos hslot,
    slotRows_append, slotRows_cons, List.length_take, min_eq_left hslot.le, hbefore, hafter,
    Nat.zero_add]
  simp

/-- `DeleteTuple` removes the row. -/
lemma Holds.deleteTuple (h : Holds t.content heap pages) (ht : Ready t) (hframes : 1 ≤ frames)
    (hrows : liveRows pages = before ++ (rid, b) :: after) :
    ∃ t' pages', run (PageStore.handler frames) (TableHeap.deleteTuple rid) t = some ((), t') ∧
      Holds t'.content heap pages' ∧ liveRows pages' = before ++ after ∧
      pages'.map Prod.fst = pages.map Prod.fst ∧ Frame (pages.map Prod.fst) t t' := by
  obtain ⟨pre, slots, post, x, rfl, hvalid, hx, hintact, -, hget, hb, hslot, hbefore, hafter⟩ :=
    h.page_of_row hrows
  have hlt := (List.getElem?_eq_some_iff.1 hget).1
  have hmod : rid.slotNum % 2 ^ 16 = rid.slotNum := Nat.mod_eq_of_lt (by omega)
  have hdel := hintact.deleteTuple hlt
  refine ⟨TableHeap.setPage t rid.pageId (x.deleteTuple rid.slotNum), _, ?_,
    h.setPage hx (x.getNextPageId_deleteTuple _) hdel, ?_, by simp, ?_⟩
  · unfold TableHeap.deleteTuple
    simp only [run_bind, run_fetchPage ht hframes hx, Option.bind_some, run_read hx, hmod,
      run_write ht hx, run_unpin_written ht]
  · rw [liveRows_set hlt hbefore hafter]
    simp
  · refine Frame.setPage ht hx ?_ (by simp)
    rw [hdel.getFreeSpaceRemaining_eq, hintact.getFreeSpaceRemaining_eq, List.length_set,
      (TablePage.deleteTuple_spec x rid.slotNum).1]

/-- The free space of a page. -/
def freeSpace (t : PageStore TablePage) (p : PageId) : ℕ :=
  (t.content p).elim 0 TablePage.getFreeSpaceRemaining

/-- The free space of a page is the one that it counts. -/
lemma freeSpace_eq (hx : t.content p = some x) : freeSpace t p = x.getFreeSpaceRemaining := by
  unfold freeSpace
  rw [hx]
  rfl

/-- A page is replaced by one with less free space. -/
lemma freeSpace_setPage : freeSpace (setPage t p y) =
    Function.update (freeSpace t) p y.getFreeSpaceRemaining := by
  funext q
  by_cases hqp : q = p
  · subst hqp
    rw [Function.update_self]
    exact freeSpace_eq (Function.update_self ..)
  · rw [Function.update_of_ne hqp]
    unfold freeSpace
    rw [show (setPage t p y).content q = t.content q from Function.update_of_ne hqp ..]

/-- An update with `n` bytes of a row of `old` bytes is refused on a page with this free space. -/
def Refuses (free old n : ℕ) : Prop := old < n ∧ free < n - old

instance (free old n : ℕ) : Decidable (Refuses free old n) :=
  inferInstanceAs (Decidable (_ ∧ _))

/-- The check of `UpdateTuple`, on a row of the heap. -/
lemma updateRefused_eq {s : ℕ} (h : x.Intact slots) (hs : slots[s]? = some (some b))
    (hx : t.content p = some x) (n : ℕ) :
    x.updateRefused s n = decide (Refuses (freeSpace t p) b.length n) := by
  have hlen : x.getTupleLengthAtSlot s = b.length := h.getTupleSize_eq hs
  unfold TablePage.updateRefused
  rw [hlen, freeSpace_eq hx]
  rfl

/-- An `UpdateTuple` that the page refuses. -/
lemma Holds.updateTuple_refused (h : Holds t.content heap pages) (ht : Ready t)
    (hframes : 1 ≤ frames) (hrows : liveRows pages = before ++ (rid, b) :: after)
    {newTuple : Tuple}
    (hrefused : Refuses (freeSpace t rid.pageId) b.length (bytesOf newTuple).length) :
    run (PageStore.handler frames) (TableHeap.updateTuple rid newTuple) t = some (false, t) := by
  obtain ⟨pre, slots, post, x, rfl, hvalid, hx, hintact, -, hget, hb, hslot, hbefore, hafter⟩ :=
    h.page_of_row hrows
  have hmod : rid.slotNum % 2 ^ 16 = rid.slotNum := Nat.mod_eq_of_lt (by omega)
  have hval : x.updateTuple rid.slotNum (bytesOf newTuple) = (false, x) := by
    unfold TablePage.updateTuple
    rw [updateRefused_eq hintact hget hx, decide_eq_true hrefused, if_pos rfl]
  unfold TableHeap.updateTuple
  simp only [run_bind, run_fetchPage ht hframes hx, Option.bind_some, run_read hx, hmod, hval,
    run_unpin, run_pure]

/-- A slot of a page that is updated, if the bytes that it takes are free. -/
lemma updateTuple_page {s : ℕ} (h : x.Intact slots) (hlt : s < slots.length)
    (haccept : x.updateRefused s data.length = false)
    (hfree : data.length ≤ x.getFreeSpaceRemaining) :
    (x.updateTuple s data).1 = true ∧ (x.updateTuple s data).2.Intact (slots.set s (some data)) ∧
      (x.updateTuple s data).2.getNextPageId = x.getNextPageId := by
  obtain ⟨hok, hupdate, -⟩ := h.updateTuple hlt haccept hfree
  refine ⟨hok, hupdate, ?_⟩
  have hval : (x.updateTuple s data).2 = (x.deleteTuple s).writeTuple s data := by
    simp [TablePage.updateTuple, haccept]
  obtain ⟨hfsp, -⟩ := TablePage.deleteTuple_spec x s
  rw [h.getFreeSpaceRemaining_eq] at hfree
  have hslots := h.slots_le
  have hpage := h.fsp_le
  simp only [TablePage.slotOffset, TablePage.sizeTablePageHeader, TablePage.sizeTupleSlot]
    at hfree hslots
  rw [hval, TablePage.getNextPageId_writeTuple _ _ (by rw [hfsp]; exact hpage)
    (by rw [hfsp]; omega), TablePage.getNextPageId_deleteTuple]

/-- An `UpdateTuple` whose bytes are free replaces the row. -/
lemma Holds.updateTuple (h : Holds t.content heap pages) (ht : Ready t) (hframes : 1 ≤ frames)
    (hrows : liveRows pages = before ++ (rid, b) :: after) {newTuple : Tuple}
    (haccept : ¬ Refuses (freeSpace t rid.pageId) b.length (bytesOf newTuple).length)
    (hfree : (bytesOf newTuple).length ≤ freeSpace t rid.pageId) :
    ∃ t' pages', run (PageStore.handler frames) (TableHeap.updateTuple rid newTuple) t =
        some (true, t') ∧
      Holds t'.content heap pages' ∧ Ready t' ∧
      liveRows pages' = before ++
        (if bytesOf newTuple = [] then [] else [(rid, bytesOf newTuple)]) ++ after ∧
      freeSpace t' = Function.update (freeSpace t) rid.pageId
        (freeSpace t rid.pageId - (bytesOf newTuple).length) ∧
      pages'.map Prod.fst = pages.map Prod.fst ∧ Frame (pages.map Prod.fst) t t' ∧
      t'.nextPageId = t.nextPageId := by
  obtain ⟨pre, slots, post, x, rfl, hvalid, hx, hintact, -, hget, hb, hslot, hbefore, hafter⟩ :=
    h.page_of_row hrows
  have hlt := (List.getElem?_eq_some_iff.1 hget).1
  have hmod : rid.slotNum % 2 ^ 16 = rid.slotNum := Nat.mod_eq_of_lt (by omega)
  have haccept' : x.updateRefused rid.slotNum (bytesOf newTuple).length = false := by
    rw [updateRefused_eq hintact hget hx, decide_eq_false haccept]
  have hroom := hfree
  rw [freeSpace_eq hx] at hroom
  obtain ⟨hok, hupdate, hlink⟩ := updateTuple_page hintact hlt haccept' hroom
  have hval : x.updateTuple rid.slotNum (bytesOf newTuple) =
      (true, (x.deleteTuple rid.slotNum).writeTuple rid.slotNum (bytesOf newTuple)) := by
    simp [TablePage.updateTuple, haccept']
  rw [hval] at hupdate hlink
  obtain ⟨hfsp, -⟩ := TablePage.deleteTuple_spec x rid.slotNum
  rw [hintact.getFreeSpaceRemaining_eq] at hroom
  have hslots := hintact.slots_le
  have hpage := hintact.fsp_le
  simp only [TablePage.slotOffset, TablePage.sizeTablePageHeader, TablePage.sizeTupleSlot]
    at hroom hslots
  obtain ⟨hfsp', -⟩ := TablePage.writeTuple_spec (p := x.deleteTuple rid.slotNum)
    (s := rid.slotNum) (l := bytesOf newTuple) (by rw [hfsp]; exact hpage) (by
      rw [hfsp]
      simp only [TablePage.slotOffset, TablePage.sizeTablePageHeader, TablePage.sizeTupleSlot]
      omega)
  have hspace : ((x.deleteTuple rid.slotNum).writeTuple rid.slotNum
      (bytesOf newTuple)).getFreeSpaceRemaining =
        x.getFreeSpaceRemaining - (bytesOf newTuple).length := by
    rw [hupdate.getFreeSpaceRemaining_eq, hintact.getFreeSpaceRemaining_eq, List.length_set, hfsp',
      hfsp, Nat.sub_right_comm]
  refine ⟨TableHeap.setPage t rid.pageId _, _, ?_, h.setPage hx hlink hupdate, ht.setPage hx _,
    liveRows_set hlt hbefore hafter, ?_, by simp, Frame.setPage ht hx ?_ (by simp), rfl⟩
  · unfold TableHeap.updateTuple
    simp only [run_bind, run_fetchPage ht hframes hx, Option.bind_some, run_read hx, hmod, hval,
      run_write ht hx, run_unpin_written ht, run_pure]
  · rw [freeSpace_setPage, freeSpace_eq hx, hspace]
  · rw [hspace]
    exact Nat.sub_le _ _

/-! ## One more row -/

/-- The page with which a chain grows. -/
def freshPage : TablePage := (default : TablePage).init invalidPageId

/-- The database after the page `freshPage` was linked behind the page `p` and took the tuple. -/
def appended (t : PageStore TablePage) (p : PageId) (x : TablePage) (data : List UInt8) :
    PageStore TablePage where
  content := Function.update
    (Function.update t.content p (some (x.setNextPageId t.nextPageId))) t.nextPageId
    (some (freshPage.insertTuple data).2)
  nextPageId := t.nextPageId + 1
  pins := t.pins

/-- The pages after one was appended: the last page is linked to it, and it holds the tuple. -/
lemma content_appended (t : PageStore TablePage) (p : PageId) (x : TablePage)
    (data : List UInt8) : (appended t p x data).content = Function.update
      (Function.update t.content p (some (x.setNextPageId t.nextPageId))) t.nextPageId
      (some (freshPage.insertTuple data).2) := rfl

/-- The page has no room for a tuple of `n` bytes. -/
def Full (x : TablePage) (n : ℕ) : Prop := x.getFreeSpaceRemaining < n + TablePage.sizeTupleSlot

/-- Where `InsertTuple` puts a tuple, walking along these pages. -/
inductive Places (t : PageStore TablePage) (data : List UInt8) :
    Pages → Option RID → PageStore TablePage → Prop
  | here {p : PageId} {slots : List (Option (List UInt8))} {post : Pages} {x : TablePage}
      (hx : t.content p = some x) (hroom : ¬ Full x data.length) :
      Places t data ((p, slots) :: post) (some ⟨p, slots.length⟩)
        (setPage t p (x.insertTuple data).2)
  | append {p : PageId} {slots : List (Option (List UInt8))} {x : TablePage}
      (hx : t.content p = some x) (hfull : Full x data.length) (hnext : t.nextPageId < 2 ^ 31) :
      Places t data [(p, slots)]
        ((freshPage.insertTuple data).1.map fun slot => ⟨t.nextPageId, slot⟩)
        (appended t p x data)
  | later {p : PageId} {slots : List (Option (List UInt8))} {post : Pages} {x : TablePage}
      {r : Option RID} {t' : PageStore TablePage} (hx : t.content p = some x)
      (hfull : Full x data.length) (hpost : post ≠ []) (hrest : Places t data post r t') :
      Places t data ((p, slots) :: post) r t'

/-- `InsertTuple` at the end of the chain: the new page is linked behind the last one and takes the
tuple, as long as there are numbers for pages. -/
lemma run_appendPage (ht : Ready t) (hframes : 2 ≤ frames) (hx : t.content p = some x) :
    run (PageStore.handler frames) (appendPage p x data) (t.pin p) =
      if t.nextPageId < 2 ^ 31 then
        some ((freshPage.insertTuple data).1.map fun slot => ⟨t.nextPageId, slot⟩,
          appended t p x data)
      else none := by
  have hne : p ≠ t.nextPageId := by
    have := (ht.allocated p (by rw [hx]; simp)).2
    lia
  have hpinned : (t.pin p).pinnedPages = {p} := by
    simp [PageStore.pinnedPages, PageStore.pin, ht.pins_eq]
  have hcard : ((t.pin p).pinnedPages.card : ℕ∞) < frames := by
    rw [hpinned, Finset.card_singleton]
    exact lt_of_lt_of_le (by norm_num) hframes
  have hnew : run (PageStore.handler frames) (op .newPage) (t.pin p) =
      some (some t.nextPageId, (t.pin p).allocate) := by
    rw [run_op, PageStore.handler, if_pos hcard]
    rfl
  unfold appendPage
  rw [run_bind, hnew, Option.bind_some]
  split_ifs with hlt
  · simp only [if_pos hlt]
    simp [PageClient.read, PageClient.write, PageClient.unpin, PageStore.handler,
      PageStore.allocate, PageStore.pin, PageStore.write, PageStore.unpin, PageStore.pinnedPages,
      ht.pins_eq, hx, hne, Ne.symm hne, appended]
    refine ⟨rfl, ?_⟩
    rw [Function.update_comm (Ne.symm hne), Function.update_idem]
    rfl
  · simp only [if_neg hlt]
    rfl

/-- `InsertTuple` along a chain: what it does if it returns, and when it does. -/
lemma run_insertFrom (ht : Ready t) (hframes : 2 ≤ frames) (h : Chain t.content pages p)
    (hne : pages ≠ []) (fuel : ℕ) :
    (pages.length ≤ fuel → t.nextPageId < 2 ^ 31 →
      ∃ r t', run (PageStore.handler frames) (insertFrom data fuel p) t = some (r, t')) ∧
      ∀ r t', run (PageStore.handler frames) (insertFrom data fuel p) t = some (r, t') →
        Places t data pages r t' := by
  have hframes' : 1 ≤ frames := le_trans (by norm_num) hframes
  induction pages generalizing p fuel with
  | nil => exact absurd rfl hne
  | cons y post ih =>
    obtain ⟨q, slots⟩ := y
    obtain ⟨rfl, hp, x, hx, hintact, hrest⟩ := h
    cases fuel with
    | zero => simp [insertFrom]
    | succ fuel =>
      rw [insertFrom, if_neg hp]
      simp only [run_bind, run_fetchPage ht hframes' hx, Option.bind_some, run_read hx]
      by_cases hfull : Full x data.length
      · -- the page is full, and the walk goes on
        rw [TablePage.insertTuple_full hfull]
        cases post with
        | nil =>
          have hlast : x.getNextPageId = invalidPageId := hrest
          simp only [if_pos hlast, run_appendPage ht hframes hx]
          split_ifs with hlt
          · refine ⟨fun _ _ => ⟨_, _, rfl⟩, fun r t' hr => ?_⟩
            cases hr
            exact .append hx hfull hlt
          · exact ⟨fun _ hlt' => absurd hlt' hlt, fun r t' hr => by simp at hr⟩
        | cons z post =>
          have hnext : x.getNextPageId ≠ invalidPageId := by
            obtain ⟨heq, hz, -⟩ := hrest
            rw [heq]
            exact hz
          simp only [if_neg hnext, run_bind, run_unpin, Option.bind_some]
          obtain ⟨htotal, hwhen⟩ := ih hrest (by simp) fuel
          refine ⟨fun hfuel hlt => htotal ?_ hlt, fun r t' hr => ?_⟩
          · simpa using hfuel
          · exact .later hx hfull (by simp) (hwhen r t' hr)
      · -- the page takes the tuple
        obtain ⟨hslot, -, -⟩ := hintact.insertTuple (not_lt.1 hfull)
        have hval : x.insertTuple data = (some slots.length, (x.insertTuple data).2) := by
          rw [← hslot]
        rw [hval]
        simp only [run_bind, run_write ht hx, Option.bind_some, run_unpin_written ht, run_pure]
        refine ⟨fun _ _ => ⟨_, _, rfl⟩, fun r t' hr => ?_⟩
        cases hr
        exact .here hx hfull

/-- The rows after an `InsertTuple` of these bytes with this result. -/
inductive Grows (data : List UInt8) : Option RID → List (RID × List UInt8) →
    List (RID × List UInt8) → Prop
  | refused (hlarge : pageSize < data.length + 20) (rows : List (RID × List UInt8)) :
      Grows data none rows rows
  | inserted {rid : RID} {before after : List (RID × List UInt8)} :
      Grows data (some rid) (before ++ after)
        (before ++ (if data = [] then [] else [(rid, data)]) ++ after)

/-- A new page has no slots. -/
lemma intact_freshPage : freshPage.Intact [] := TablePage.intact_init _ _

/-- A new page has room for all but its header. -/
lemma getFreeSpaceRemaining_freshPage : freshPage.getFreeSpaceRemaining = pageSize - 16 := by
  rw [intact_freshPage.getFreeSpaceRemaining_eq]
  have hfsp : freshPage.getFreeSpacePointer = pageSize := TablePage.init_getFreeSpacePointer _ _
  rw [hfsp]
  rfl

/-- The rows of a page with one more slot. -/
lemma liveRows_snoc (p : PageId) (slots : List (Option (List UInt8))) (data : List UInt8)
    (pre post : Pages) :
    liveRows (pre ++ (p, slots ++ [some data]) :: post) =
      liveRows (pre ++ [(p, slots)]) ++
        (if data = [] then [] else [(⟨p, slots.length⟩, data)]) ++ liveRows post := by
  rw [liveRows_append, liveRows_cons, liveRows_append, liveRows_cons, slotRows_append,
    slotRows_cons, Nat.zero_add]
  simp [slotRows, liveRows]

/-- A tuple that is inserted into a page takes its room, and leaves the link alone. -/
lemma insertTuple_page (h : x.Intact slots) (hroom : ¬ Full x data.length) :
    (x.insertTuple data).1 = some slots.length ∧
      (x.insertTuple data).2.Intact (slots ++ [some data]) ∧
      (x.insertTuple data).2.getNextPageId = x.getNextPageId ∧
      (x.insertTuple data).2.getFreeSpaceRemaining =
        x.getFreeSpaceRemaining - (data.length + TablePage.sizeTupleSlot) := by
  have hroom' := not_lt.1 hroom
  obtain ⟨hslot, hintact, -⟩ := h.insertTuple hroom'
  have hn := h.length_le
  have hslots := h.slots_le
  have hpage := h.fsp_le
  have hfree := h.getFreeSpaceRemaining_eq
  rw [hfree] at hroom'
  simp only [TablePage.slotOffset, TablePage.sizeTablePageHeader, TablePage.sizeTupleSlot]
    at hroom' hslots
  have hval : (x.insertTuple data).2 =
      (x.writeTuple slots.length data).setNumTuples (slots.length + 1) := by
    have hmod : slots.length % 2 ^ 16 = slots.length := Nat.mod_eq_of_lt (by omega)
    have hroom'' : ¬ x.getFreeSpaceRemaining < data.length + TablePage.sizeTupleSlot := hroom
    simp only [TablePage.insertTuple, if_neg hroom'', h.numTuples_eq, hmod]
  obtain ⟨hfsp, -⟩ := TablePage.writeTuple_spec (p := x) (s := slots.length) (l := data) hpage (by
    simp only [TablePage.slotOffset, TablePage.sizeTablePageHeader, TablePage.sizeTupleSlot]
    omega)
  obtain ⟨hfsp', -⟩ := TablePage.setNumTuples_spec (x.writeTuple slots.length data)
    (v := slots.length + 1) (by omega)
  refine ⟨hslot, hintact, ?_, ?_⟩
  · rw [hval]
    have hlink := x.getNextPageId_writeTuple (l := data) slots.length hpage (by omega)
    rw [← hlink]
    refine TablePage.getNextPageId_congr fun i hi => ?_
    show writeLE 4 (x.writeTuple slots.length data).data 4 (slots.length + 1) i = _
    exact writeLE_of_outside (by omega)
  · have hfsp'' : (x.insertTuple data).2.getFreeSpacePointer =
        x.getFreeSpacePointer - data.length := by
      rw [hval, hfsp', hfsp]
    rw [hintact.getFreeSpaceRemaining_eq, hfree, hfsp'']
    simp only [TablePage.slotOffset, TablePage.sizeTablePageHeader, TablePage.sizeTupleSlot,
      List.length_append, List.length_singleton]
    omega

/-- Every page but the last has no room for tuples of `n` bytes, as a heap whose rows have that
size grows. -/
def Filled (t : PageStore TablePage) (n : ℕ) (pages : Pages) : Prop :=
  ∀ p ∈ (pages.map Prod.fst).dropLast, ∃ x, t.content p = some x ∧ Full x n

/-- A page without room for the tuple stays without it. -/
lemma Frame.full (h : Frame (pages.map Prod.fst) t t') {n : ℕ}
    (hfull : ∃ x, t.content p = some x ∧ Full x n) : ∃ x, t'.content p = some x ∧ Full x n := by
  obtain ⟨x, hx, hroom⟩ := hfull
  obtain ⟨x', hx', hle⟩ := h.kept p x hx
  exact ⟨x', hx', lt_of_le_of_lt hle hroom⟩

/-- The heap after an `InsertTuple`: the rows it has then, and the end of the chain as the only
place for a tuple of the usual size. -/
structure Inserts (heap : TableHeap) (data : List UInt8) (t : PageStore TablePage) (pages : Pages)
    (r : Option RID) (t' : PageStore TablePage) (pages' : Pages) : Prop where
  holds : Holds t'.content heap pages'
  grows : Grows data r (liveRows pages) (liveRows pages')
  frame : Frame (pages.map Prod.fst) t t'
  pages_eq : pages'.map Prod.fst = pages.map Prod.fst ∨
    pages'.map Prod.fst = pages.map Prod.fst ++ [t.nextPageId] ∧ t.nextPageId < t'.nextPageId
  atEnd : Filled t data.length pages → Filled t' data.length pages' ∧ liveRows pages' =
    liveRows pages ++ r.elim [] fun rid => if data = [] then [] else [(rid, data)]

/-- Setting the link leaves the room on the page. -/
lemma getFreeSpaceRemaining_setNextPageId (x : TablePage) (n : PageId) :
    (x.setNextPageId n).getFreeSpaceRemaining = x.getFreeSpaceRemaining := by
  unfold TablePage.getFreeSpaceRemaining
  rw [x.getNumTuples_setNextPageId, x.getFreeSpacePointer_setNextPageId]

/-- The page ids of a chain were handed out. -/
lemma Chain.lt_next (ht : Ready t) (h : Chain t.content pages p) :
    ∀ q ∈ pages.map Prod.fst, 0 ≤ q ∧ q < t.nextPageId := by
  induction pages generalizing p with
  | nil => simp
  | cons y pages ih =>
    obtain ⟨q, slots⟩ := y
    obtain ⟨rfl, -, x, hx, -, hrest⟩ := h
    intro q hq
    rcases List.mem_cons.1 hq with heq | hq
    · refine ht.allocated _ ?_
      rw [heq, hx]
      simp
    · exact ih hrest q hq

/-- The database stays idle when a page is appended. -/
lemma Ready.appended (ht : Ready t) (hx : t.content p = some x) (data : List UInt8) :
    Ready (appended t p x data) where
  pins_eq := ht.pins_eq
  allocated := by
    intro q hq
    have hnext := ht.next_nonneg
    show 0 ≤ q ∧ q < t.nextPageId + 1
    by_cases hqn : q = t.nextPageId
    · lia
    · have hold : t.content q ≠ none := by
        intro hnone
        apply hq
        have hqp : q ≠ p := by
          rintro rfl
          rw [hx] at hnone
          cases hnone
        rw [content_appended, Function.update_of_ne hqn, Function.update_of_ne hqp, hnone]
      have := ht.allocated q hold
      lia
  next_nonneg := by
    have hnext := ht.next_nonneg
    show 0 ≤ t.nextPageId + 1
    lia

/-- What the new page holds. -/
lemma insertTuple_freshPage (data : List UInt8) : ∃ slots : List (Option (List UInt8)),
    (freshPage.insertTuple data).2.Intact slots ∧
      (freshPage.insertTuple data).2.getNextPageId = invalidPageId ∧
      (((freshPage.insertTuple data).1 = some 0 ∧ slots = [some data]) ∨
        ((freshPage.insertTuple data).1 = none ∧ slots = [] ∧ pageSize < data.length + 20)) := by
  have hlink : freshPage.getNextPageId = invalidPageId := TablePage.getNextPageId_init _
  by_cases hfull : Full freshPage data.length
  · have hval := TablePage.insertTuple_full hfull
    rw [hval]
    refine ⟨[], intact_freshPage, hlink, .inr ⟨rfl, rfl, ?_⟩⟩
    have hlt : freshPage.getFreeSpaceRemaining < data.length + 4 := hfull
    rw [getFreeSpaceRemaining_freshPage] at hlt
    simp only [pageSize] at hlt ⊢
    omega
  · obtain ⟨hslot, hintact, hlink', -⟩ := insertTuple_page intact_freshPage hfull
    exact ⟨_, hintact, hlink'.trans hlink, .inl ⟨hslot, rfl⟩⟩

/-- A tuple on a page with room for it.

**Proof sketch.** The page gets one more slot and no more free space, so that the heap holds what it
held with the new row after those of this page. When the pages before the last one are full, the page
with room is the last one, and the new row is the last row. -/
lemma Holds.inserts_here (ht : Ready t) {slots : List (Option (List UInt8))} {x : TablePage}
    (hx : t.content p = some x) (hroom : ¬ Full x data.length)
    (h : Holds t.content heap (pre ++ (p, slots) :: post)) :
    Inserts heap data t (pre ++ (p, slots) :: post) (some ⟨p, slots.length⟩)
      (TableHeap.setPage t p (x.insertTuple data).2)
      (pre ++ (p, slots ++ [some data]) :: post) := by
  obtain ⟨-, z, hz, hintact, -⟩ := h.chain.page
  obtain rfl : x = z := Option.some.inj (hx.symm.trans hz)
  obtain ⟨-, hintact', hlink, hfree⟩ := insertTuple_page hintact hroom
  have hless : (x.insertTuple data).2.getFreeSpaceRemaining ≤ x.getFreeSpaceRemaining :=
    hfree.trans_le (Nat.sub_le _ _)
  have hrows : liveRows (pre ++ (p, slots) :: post) =
      liveRows (pre ++ [(p, slots)]) ++ liveRows post := by
    rw [← liveRows_append, List.append_assoc, List.singleton_append]
  have hframe : Frame ((pre ++ (p, slots) :: post).map Prod.fst) t
      (TableHeap.setPage t p (x.insertTuple data).2) := Frame.setPage ht hx hless (by simp)
  exact {
    holds := h.setPage hx hlink hintact'
    grows := by
      rw [liveRows_snoc, hrows]
      exact .inserted
    frame := hframe
    pages_eq := .inl (by simp)
    atEnd := by
      intro hfilled
      have hpids : (pre ++ (p, slots ++ [some data]) :: post).map Prod.fst =
          (pre ++ (p, slots) :: post).map Prod.fst := by simp
      refine ⟨fun q hq => ?_, ?_⟩
      · rw [hpids] at hq
        exact hframe.full (hfilled q hq)
      · -- the page has room, so it is the last one
        obtain rfl : post = [] := by
          by_contra hpost
          obtain ⟨z, hz, hfull⟩ := hfilled p (by
            rw [List.map_append, List.map_cons,
              List.dropLast_append_of_ne_nil (by simp),
              List.dropLast_cons_of_ne_nil (by simpa using hpost)]
            simp)
          obtain rfl : x = z := Option.some.inj (hx.symm.trans hz)
          exact hroom hfull
        rw [liveRows_snoc]
        simp [liveRows] }

/-- Appending a page to the page `p` of a heap changes only this page, and only its link. -/
lemma Frame.appended {pids : List PageId} (ht : Ready t) {x : TablePage}
    (hx : t.content p = some x) (hp : p ∈ pids) (data : List UInt8) :
    Frame pids t (appended t p x data) where
  ready := ht.appended hx data
  outside := by
    intro q hq hqn
    have hqp : q ≠ p := by
      rintro rfl
      exact hq hp
    rw [content_appended, Function.update_of_ne hqn, Function.update_of_ne hqp]
  kept := by
    intro q old hold
    have hqn : q ≠ t.nextPageId := by
      have := ht.allocated q (by rw [hold]; simp)
      lia
    rw [content_appended, Function.update_of_ne hqn]
    by_cases hqp : q = p
    · subst hqp
      obtain rfl : x = old := Option.some.inj (hx.symm.trans hold)
      exact ⟨_, Function.update_self .., (getFreeSpaceRemaining_setNextPageId x _).le⟩
    · exact ⟨old, (Function.update_of_ne hqp ..).trans hold, le_rfl⟩
  next_le := by
    show t.nextPageId ≤ t.nextPageId + 1
    lia

/-- A tuple after a chain of full pages: a new page follows the last one.

**Proof sketch.** The new page was never handed out, so it is none of the chain; the last page links
to it. It holds the tuple in its first slot, unless the tuple is too long for an empty page: then the
page stays empty, and the tuple is refused. -/
lemma Holds.inserts_append (ht : Ready t) {slots : List (Option (List UInt8))} {x : TablePage}
    (hx : t.content p = some x) (hfull : Full x data.length) (hnext : t.nextPageId < 2 ^ 31)
    (h : Holds t.content heap (pre ++ [(p, slots)])) :
    ∃ pages', Inserts heap data t (pre ++ [(p, slots)])
      ((freshPage.insertTuple data).1.map fun slot => (⟨t.nextPageId, slot⟩ : RID))
      (appended t p x data) pages' := by
  obtain ⟨-, z, hz, hintact, hlast⟩ := h.chain.page
  obtain rfl : x = z := Option.some.inj (hx.symm.trans hz)
  have hlt := h.chain.lt_next ht
  have hfresh : t.nextPageId ∉ (pre ++ [(p, slots)]).map Prod.fst := by
    intro hmem
    have := hlt _ hmem
    lia
  have hnonneg := ht.next_nonneg
  have hlink : (x.setNextPageId t.nextPageId).getNextPageId = t.nextPageId :=
    readInt32_writeInt32 _ _ (by lia) hnext
  obtain ⟨slots', hintact', hend, hslots⟩ := insertTuple_freshPage data
  have hchain := h.chain.snoc h.nodup (r := t.nextPageId) (by
    intro heq
    rw [heq] at hnonneg
    exact absurd hnonneg (by decide)) hfresh hlink (hintact.setNextPageId _) hend hintact'
  have hframe : Frame ((pre ++ [(p, slots)]).map Prod.fst) t (TableHeap.appended t p x data) :=
    Frame.appended ht hx (by simp) data
  have hpids : (pre ++ [(p, slots), (t.nextPageId, slots')]).map Prod.fst =
      (pre ++ [(p, slots)]).map Prod.fst ++ [t.nextPageId] := by simp
  have hrows : liveRows (pre ++ [(p, slots), (t.nextPageId, slots')]) =
      liveRows (pre ++ [(p, slots)]) ++ slotRows t.nextPageId 0 slots' := by
    simp [liveRows]
  have hnew : slotRows t.nextPageId 0 slots' =
      ((freshPage.insertTuple data).1.map fun slot => (⟨t.nextPageId, slot⟩ : RID)).elim []
        fun rid => if data = [] then [] else [(rid, data)] := by
    rcases hslots with ⟨hsome, rfl⟩ | ⟨hnone, rfl, -⟩
    · rw [hsome, slotRows_cons]
      simp [slotRows]
    · rw [hnone]
      rfl
  refine ⟨pre ++ [(p, slots), (t.nextPageId, slots')], ?_⟩
  exact {
    holds := {
      chain := hchain
      nodup := by
        rw [hpids]
        exact List.nodup_append.2 ⟨h.nodup, by simp, by
          intro q hq r hr hqr
          subst hqr
          rw [List.mem_singleton] at hr
          rw [hr] at hq
          exact hfresh hq⟩
      nonempty := by simp }
    grows := by
      rw [hrows, hnew]
      rcases hslots with ⟨hsome, -⟩ | ⟨hnone, -, hlarge⟩
      · have hinserted := @Grows.inserted data ⟨t.nextPageId, 0⟩
          (liveRows (pre ++ [(p, slots)])) []
        rw [hsome]
        simpa using hinserted
      · have hrefused := Grows.refused hlarge (liveRows (pre ++ [(p, slots)]))
        rw [hnone]
        simpa using hrefused
    frame := hframe
    pages_eq := .inr ⟨hpids, by
      show t.nextPageId < t.nextPageId + 1
      lia⟩
    atEnd := by
      refine fun hfilled => ⟨fun q hq => ?_, by rw [hrows, hnew]⟩
      rw [hpids, List.dropLast_concat, List.map_append, List.mem_append] at hq
      rcases hq with hq | hq
      · refine hframe.full (hfilled q ?_)
        rw [List.map_append, List.map_cons, List.map_nil, List.dropLast_concat]
        exact hq
      · obtain rfl : q = p := by simpa using hq
        exact hframe.full ⟨x, hx, hfull⟩ }

/-- What `InsertTuple` leaves, by the place of the tuple. -/
lemma Places.inserts (ht : Ready t) {r : Option RID} (hplace : Places t data post r t')
    (h : Holds t.content heap (pre ++ post)) :
    ∃ pages', Inserts heap data t (pre ++ post) r t' pages' := by
  induction hplace generalizing pre with
  | here hx hroom => exact ⟨_, h.inserts_here ht hx hroom⟩
  | append hx hfull hnext => exact h.inserts_append ht hx hfull hnext
  | @later p slots post x r t' hx hfull hpost hrest ih =>
    have hassoc : pre ++ (p, slots) :: post = (pre ++ [(p, slots)]) ++ post := by simp
    rw [hassoc] at h ⊢
    exact ih h

/-- `InsertTuple` of a heap: what it does if it returns, and when it does. -/
lemma Holds.insertTuple (h : Holds t.content heap pages) (ht : Ready t) (hframes : 2 ≤ frames)
    (fuel : ℕ) (tuple : Tuple) :
    (pages.length ≤ fuel → t.nextPageId < 2 ^ 31 → ∃ r t',
      run (PageStore.handler frames) (TableHeap.insertTuple fuel heap tuple) t = some (r, t')) ∧
      ∀ r t', run (PageStore.handler frames) (TableHeap.insertTuple fuel heap tuple) t =
        some (r, t') → ∃ pages', Inserts heap (bytesOf tuple) t pages r t' pages' := by
  obtain ⟨htotal, hwhen⟩ : (pages.length ≤ fuel → t.nextPageId < 2 ^ 31 → ∃ r t',
      run (PageStore.handler frames) (insertFrom (bytesOf tuple) fuel heap.firstPageId) t =
        some (r, t')) ∧
      ∀ r t', run (PageStore.handler frames) (insertFrom (bytesOf tuple) fuel heap.firstPageId) t =
        some (r, t') → Places t (bytesOf tuple) pages r t' :=
    run_insertFrom ht hframes h.chain h.nonempty fuel
  exact ⟨htotal, fun r t' hr => (hwhen r t' hr).inserts ht (List.nil_append pages ▸ h)⟩

/-- What an `InsertTuple` that returns has done, in a pool of any size. -/
lemma Holds.inserts_of_run (h : Holds t.content heap pages) (ht : Ready t) {fuel : ℕ}
    {tuple : Tuple} {r : Option RID} (hrun : run (PageStore.handler frames)
      (TableHeap.insertTuple fuel heap tuple) t = some (r, t')) :
    ∃ pages', Inserts heap (bytesOf tuple) t pages r t' pages' :=
  (h.insertTuple ht (le_max_right frames 2) fuel tuple).2 r t'
    (run_of_extends (PageStore.handler_extends (le_max_left frames 2)) hrun)

/-- At most one page is handed out. -/
lemma Places.next_le {r : Option RID} (h : Places t data pages r t') :
    t'.nextPageId ≤ t.nextPageId + 1 := by
  induction h with
  | here hx hroom => exact Int.le_add_one le_rfl
  | append hx hfull hnext => exact le_rfl
  | later hx hfull hpost hrest ih => exact ih

/-- `InsertTuple` allocates at most one page. -/
lemma Holds.insertTuple_next_le (h : Holds t.content heap pages) (ht : Ready t)
    (hframes : 2 ≤ frames) {fuel : ℕ} {tuple : Tuple} {r : Option RID}
    (hrun : run (PageStore.handler frames) (TableHeap.insertTuple fuel heap tuple) t =
      some (r, t')) : t'.nextPageId ≤ t.nextPageId + 1 :=
  ((run_insertFrom ht hframes h.chain h.nonempty fuel).2 r t' hrun).next_le

/-- A heap does not notice what happens on the pages of another one. -/
lemma Holds.other {pids : List PageId} (h : Holds t.content heap pages) (ht : Ready t)
    (hdisjoint : ∀ q ∈ pages.map Prod.fst, q ∉ pids) (hframe : Frame pids t t') :
    Holds t'.content heap pages where
  chain := by
    refine h.chain.congr fun q hq => hframe.outside q (hdisjoint q hq) ?_
    have := h.chain.lt_next ht q hq
    lia
  nodup := h.nodup
  nonempty := h.nonempty

end TableHeap

end OneBase
