import OneBase.Storage.Table.PinnedHeaps

set_option relaxedAutoImplicit false
set_option autoImplicit false

/-!
# Refused insertions

`InsertTuple` returns `std::nullopt` when a page of the chain cannot be fetched, when no page can be
allocated behind the last one, and when the page that was just linked behind it has no room for the
tuple either.

## Main definitions

* `OneBase.TableHeap.Unchanged` — the chain, its tuples and all pin counts are as before.
* `OneBase.TableHeap.AppendsInVain` — the tuple has room nowhere, and a page can be allocated.
* `OneBase.TableHeap.HeapEvent.Step` — what may happen to a heap in a pool.

## Main results

* `OneBase.TableHeap.sound_of_run` — the heap stays a chain.
* `OneBase.TableHeap.refusedInsert_iff` — when a refused insertion changes nothing.
-/

namespace OneBase

open Effect Effect.Program
open BufferPoolManager (idealDisk)

namespace TableHeap

variable {frames : ℕ} {t u t' : PageStore TablePage} {p q : PageId} {x y : TablePage} {b : Bool}
  {data : List UInt8} {ids ids' : List PageId} {r : Option RID}

/-! ## Reachable heaps -/

/-- A call of a client of the heap, or what another client of the pool does. -/
inductive HeapEvent
  | insertTuple (tuple : Tuple)
  | deleteTuple (rid : RID)
  | updateTuple (rid : RID) (newTuple : Tuple)
  | other (e : PoolEvent TablePage)

/-- The event writes or deletes the page. -/
def Touches : PoolEvent TablePage → PageId → Prop
  | .write q _ _, p => q = p
  | .deletePage q true, p => q = p
  | _, _ => False

/-- The RID of a slot of the heap. -/
def HasSlot (t : PageStore TablePage) (heap : TableHeap) (rid : RID) : Prop :=
  (∀ ids, Linked t.content ids heap.firstPageId → rid.pageId ∈ ids) ∧ InUse t rid

/-- What may happen to a heap in a pool of `frames` frames: tuples are deleted and updated by the
RIDs of slots, an update that is not refused has free bytes to take, and the other clients leave
the pages of the heap alone. -/
def HeapEvent.Step (frames : ℕ) (heap : TableHeap) (t : PageStore TablePage) :
    HeapEvent → PageStore TablePage → Prop
  | .insertTuple tuple, t' => t.nextPageId < 2 ^ 31 ∧ ∃ fuel r,
      run (PageStore.boundedHandler frames) (TableHeap.insertTuple fuel heap tuple) t =
        some (r, t')
  | .deleteTuple rid, t' => HasSlot t heap rid ∧
      run (PageStore.boundedHandler frames) (TableHeap.deleteTuple rid) t = some ((), t')
  | .updateTuple rid newTuple, t' => HasSlot t heap rid ∧
      (∀ x, t.content rid.pageId = some x →
        (TablePage.Op.updateTuple rid.slotNum (bytesOf newTuple)).Fits x) ∧
      ∃ ok, run (PageStore.boundedHandler frames) (TableHeap.updateTuple rid newTuple) t =
        some (ok, t')
  | .other e, t' => t.Allows e ∧
      (∀ ids, Linked t.content ids heap.firstPageId → ∀ p ∈ ids, ¬ Touches e p) ∧ t' = t.after e

/-- The heap is a chain of pages, which were handed out. -/
structure Sound (heap : TableHeap) (t : PageStore TablePage) : Prop where
  holds : ∃ pages, Holds t.content heap pages
  valid : ∀ q x, t.content q = some x → 0 ≤ q ∧ q < t.nextPageId
  next_nonneg : 0 ≤ t.nextPageId

section Reachable

variable {heap : TableHeap} {pages pre post : Pages} {rid : RID} {tuple : Tuple}
  {slots slots' : List (Option (List UInt8))} {e : HeapEvent} {events : List HeapEvent}

/-- A page is replaced by one with the same link. -/
lemma Sound.replace (h : Sound heap t) (hpages : Holds t.content heap (pre ++ (p, slots) :: post))
    (hx : t.content p = some x) (hlink : y.getNextPageId = x.getNextPageId)
    (hintact : y.Intact slots')
    (hbecomes : Becomes t (Function.update t.content p (some y)) t.nextPageId t') :
    Sound heap t' := by
  refine ⟨⟨pre ++ (p, slots') :: post, ?_⟩, ?_, ?_⟩
  · rw [hbecomes.content_eq]
    exact hpages.setPage (t := t) hx hlink hintact
  · intro q z hz
    rw [hbecomes.next_eq]
    rw [hbecomes.content_eq] at hz
    by_cases hq : q = p
    · exact hq ▸ h.valid p x hx
    · rw [Function.update_of_ne hq] at hz
      exact h.valid q z hz
  · rw [hbecomes.next_eq]
    exact h.next_nonneg

/-- `InsertTuple` keeps the chain, with or without one more page. -/
lemma Attempt.sound (hattempt : Attempt frames t data ids r t') (h : Sound heap t)
    (hnext : t.nextPageId < 2 ^ 31) (hpages : Holds t.content heap (pre ++ post))
    (hids : post.map Prod.fst = ids) : Sound heap t' := by
  induction hattempt generalizing pre post with
  | nil => exact h
  | refused _ => exact h
  | exhausted _ => exact h
  | @here p ids x t' hx hroom hput =>
    obtain ⟨⟨q, slots⟩, post, rfl, rfl, -⟩ := List.map_eq_cons_iff.1 hids
    obtain ⟨-, z, hz, hintact, -⟩ := hpages.chain.page
    obtain rfl : x = z := Option.some.inj (hx.symm.trans hz)
    obtain ⟨-, hintact', hlink, -⟩ := insertTuple_page hintact hroom
    exact h.replace hpages hx hlink hintact' hput
  | @append p x t' hx hfull hpool hput =>
    obtain ⟨⟨q, slots⟩, post, rfl, rfl, hpost⟩ := List.map_eq_cons_iff.1 hids
    obtain rfl := List.map_eq_nil_iff.1 hpost
    obtain ⟨-, z, hz, hintact, -⟩ := hpages.chain.page
    obtain rfl : x = z := Option.some.inj (hx.symm.trans hz)
    obtain ⟨slots', hfresh, hend, -⟩ := insertTuple_freshPage data
    have hnn := h.next_nonneg
    have hlt : ∀ r ∈ (pre ++ [(q, slots)]).map Prod.fst, r < t.nextPageId := by
      intro r hr
      obtain ⟨z, hz⟩ := hpages.chain.linked.content_eq hr
      exact (h.valid r z hz).2
    have hnew : t.nextPageId ∉ (pre ++ [(q, slots)]).map Prod.fst :=
      fun hmem => lt_irrefl _ (hlt _ hmem)
    have hne : t.nextPageId ≠ invalidPageId := by
      show t.nextPageId ≠ -1
      lia
    have hlink := x.getNextPageId_setNextPageId (n := t.nextPageId) (by lia) hnext
    have hchain := hpages.chain.snoc hpages.nodup hne hnew hlink (hintact.setNextPageId _) hend
      hfresh
    refine ⟨⟨pre ++ [(q, slots), (t.nextPageId, slots')], ?_, ?_, by simp⟩, ?_, ?_⟩
    · rw [hput.content_eq]
      exact hchain
    · have hsplit : pre ++ [(q, slots), (t.nextPageId, slots')] =
          pre ++ [(q, slots)] ++ [(t.nextPageId, slots')] := by simp
      rw [hsplit, List.map_append, List.map_singleton, List.nodup_append]
      refine ⟨hpages.nodup, List.nodup_singleton _, fun r hr r' hr' heq => ?_⟩
      rw [List.mem_singleton] at hr'
      rw [heq, hr'] at hr
      exact hnew hr
    · intro r z hz
      rw [hput.next_eq]
      rw [hput.content_eq, content_appended] at hz
      by_cases hr : r = t.nextPageId
      · lia
      · have hold : ∃ z, t.content r = some z := by
          by_cases hrq : r = q
          · exact ⟨x, hrq ▸ hx⟩
          · rw [Function.update_of_ne hr, Function.update_of_ne hrq] at hz
            exact ⟨z, hz⟩
        obtain ⟨z, hz⟩ := hold
        have := h.valid r z hz
        lia
    · rw [hput.next_eq]
      lia
  | @later p ids x r t' hx hfull hids' hrest ih =>
    obtain ⟨⟨q, slots⟩, post, rfl, rfl, hpost⟩ := List.map_eq_cons_iff.1 hids
    have hpages' : Holds t.content heap ((pre ++ [(q, slots)]) ++ post) := by simpa using hpages
    exact ih hpages' hpost

/-- The page of a slot. -/
lemma Sound.page_of_slot (h : Sound heap t) (hslot : HasSlot t heap rid) :
    ∃ pre slots post x, Holds t.content heap (pre ++ (rid.pageId, slots) :: post) ∧
      t.content rid.pageId = some x ∧ x.Intact slots ∧ rid.slotNum < slots.length ∧
      rid.slotNum % 2 ^ 16 = rid.slotNum := by
  obtain ⟨pages, hpages⟩ := h.holds
  obtain ⟨hmem, x, hx, hlt⟩ := hslot
  obtain ⟨⟨q, slots⟩, hin, hq⟩ := List.mem_map.1 (hmem _ hpages.chain.linked)
  obtain rfl : q = rid.pageId := hq
  obtain ⟨pre, post, rfl⟩ := List.append_of_mem hin
  obtain ⟨-, z, hz, hintact, -⟩ := hpages.chain.page
  obtain rfl : x = z := Option.some.inj (hx.symm.trans hz)
  rw [hintact.numTuples_eq] at hlt
  have hle := hintact.length_le
  exact ⟨pre, slots, post, x, hpages, hx, hintact, hlt, Nat.mod_eq_of_lt (by omega)⟩

/-- `DeleteTuple` of a slot. -/
lemma Sound.deleteTuple (h : Sound heap t) (hslot : HasSlot t heap rid)
    (hrun : run (PageStore.boundedHandler frames) (TableHeap.deleteTuple rid) t = some ((), t')) :
    Sound heap t' := by
  obtain ⟨pre, slots, post, x, hpages, hx, hintact, hlt, hmod⟩ := h.page_of_slot hslot
  unfold TableHeap.deleteTuple at hrun
  by_cases hfetch : Fetchable frames t rid.pageId
  · obtain ⟨u₁, u₂, hwrite, hunpin, hput⟩ := @exists_put frames (t.pin rid.pageId) _ _ _
      hx (mem_pins_pin t rid.pageId) (x.deleteTuple rid.slotNum)
    simp only [run_bind, run_fetchPage_bounded hx hfetch, Option.bind_some,
      run_read_bounded (u := t.pin rid.pageId) hx (mem_pins_pin t rid.pageId), hmod, hwrite,
      hunpin] at hrun
    obtain rfl := (Prod.mk.inj (Option.some.inj hrun)).2
    exact h.replace hpages hx (x.getNextPageId_deleteTuple _) (hintact.deleteTuple hlt)
      hput.becomes
  · simp only [run_bind, run_fetchPage_refused hx hfetch, Option.bind_some, run_pure] at hrun
    obtain rfl := (Prod.mk.inj (Option.some.inj hrun)).2
    exact h

/-- `UpdateTuple` of a slot, if the bytes that it takes are free. -/
lemma Sound.updateTuple (h : Sound heap t) (hslot : HasSlot t heap rid) {ok : Bool}
    (hfits : ∀ x, t.content rid.pageId = some x →
      (TablePage.Op.updateTuple rid.slotNum (bytesOf tuple)).Fits x)
    (hrun : run (PageStore.boundedHandler frames) (TableHeap.updateTuple rid tuple) t =
      some (ok, t')) : Sound heap t' := by
  obtain ⟨pre, slots, post, x, hpages, hx, hintact, hlt, hmod⟩ := h.page_of_slot hslot
  unfold TableHeap.updateTuple at hrun
  by_cases hfetch : Fetchable frames t rid.pageId
  · simp only [run_bind, run_fetchPage_bounded hx hfetch, Option.bind_some,
      run_read_bounded (u := t.pin rid.pageId) hx (mem_pins_pin t rid.pageId), hmod] at hrun
    cases hrefused : x.updateRefused rid.slotNum (bytesOf tuple).length with
    | true =>
      have hval : x.updateTuple rid.slotNum (bytesOf tuple) = (false, x) := by
        simp [TablePage.updateTuple, hrefused]
      simp only [hval, run_bind, run_unpin_bounded (mem_pins_pin t rid.pageId), PageStore.unpin_pin,
        Option.bind_some, run_pure] at hrun
      obtain rfl := (Prod.mk.inj (Option.some.inj hrun)).2
      exact h
    | false =>
      have hfree := (hfits x hx).resolve_left (by simp [hrefused])
      obtain ⟨hval, hintact', hlink⟩ := updateTuple_page hintact hlt hrefused hfree
      obtain ⟨u₁, u₂, hwrite, hunpin, hput⟩ := @exists_put frames
        (t.pin rid.pageId) _ _ _ hx (mem_pins_pin t rid.pageId)
        (x.updateTuple rid.slotNum (bytesOf tuple)).2
      rw [← Prod.mk.eta (p := x.updateTuple rid.slotNum (bytesOf tuple)), hval] at hrun
      simp only [run_bind, hwrite, hunpin, Option.bind_some, run_pure] at hrun
      obtain rfl := (Prod.mk.inj (Option.some.inj hrun)).2
      exact h.replace hpages hx hlink hintact' hput.becomes
  · simp only [run_bind, run_fetchPage_refused hx hfetch, Option.bind_some, run_pure] at hrun
    obtain rfl := (Prod.mk.inj (Option.some.inj hrun)).2
    exact h

/-- The pages of the heap are left alone. -/
lemma Sound.congr (h : Sound heap t)
    (hsame : ∀ ids, Linked t.content ids heap.firstPageId → ∀ q ∈ ids,
      t'.content q = t.content q)
    (hvalid : ∀ q x, t'.content q = some x → 0 ≤ q ∧ q < t'.nextPageId)
    (hnext : 0 ≤ t'.nextPageId) : Sound heap t' := by
  obtain ⟨pages, hpages⟩ := h.holds
  refine ⟨⟨pages, ?_, hpages.nodup, hpages.nonempty⟩, hvalid, hnext⟩
  exact hpages.chain.congr (hsame _ hpages.chain.linked)

/-- What other clients do. -/
lemma Sound.other (h : Sound heap t) {e : PoolEvent TablePage}
    (hforeign : ∀ ids, Linked t.content ids heap.firstPageId → ∀ p ∈ ids, ¬ Touches e p) :
    Sound heap (t.after e) := by
  have hnn := h.next_nonneg
  have hlt : ∀ ids, Linked t.content ids heap.firstPageId → ∀ q ∈ ids, q < t.nextPageId := by
    intro ids hids q hq
    obtain ⟨x, hx⟩ := hids.content_eq hq
    exact (h.valid q x hx).2
  cases e with
  | newPage result =>
    cases result with
    | none => exact h
    | some p =>
      refine h.congr (fun ids hids q hq => ?_) (fun q x hx => ?_) ?_
      · have hq := hlt ids hids q hq
        exact (PageStore.content_allocate t q).trans (if_neg (by lia))
      · change 0 ≤ q ∧ q < t.nextPageId + 1
        change t.allocate.content q = some x at hx
        rw [PageStore.content_allocate] at hx
        split_ifs at hx with hq
        · lia
        · have := h.valid q x hx
          lia
      · change 0 ≤ t.nextPageId + 1
        lia
  | fetchPage p ok =>
    cases ok with
    | false => exact h
    | true => exact h.congr (fun _ _ _ _ => rfl) h.valid hnn
  | write p wrote d =>
    refine h.congr (fun ids hids q hq => ?_) (fun q x hx => ?_) hnn
    · have hne : q ≠ p := fun heq => hforeign ids hids q hq heq.symm
      exact (PageStore.content_write t p wrote d q).trans (if_neg hne)
    · change (t.write p wrote d).content q = some x at hx
      rw [PageStore.content_write] at hx
      split_ifs at hx with hq
      · obtain ⟨z, hz, -⟩ := Option.map_eq_some_iff.1 hx
        exact hq ▸ h.valid p z hz
      · exact h.valid q x hx
  | unpinPage p wrote isDirty ok =>
    cases ok with
    | false => exact h
    | true => exact h.congr (fun _ _ _ _ => rfl) h.valid hnn
  | flushPage p => exact h
  | flushAllPages => exact h
  | deletePage p ok =>
    cases ok with
    | false => exact h
    | true =>
      refine h.congr (fun ids hids q hq => ?_) (fun q x hx => ?_) hnn
      · have hne : q ≠ p := fun heq => hforeign ids hids q hq heq.symm
        exact (PageStore.content_delete t p q).trans (if_neg hne)
      · change (t.delete p).content q = some x at hx
        rw [PageStore.content_delete] at hx
        split_ifs at hx
        exact h.valid q x hx

/-- Whatever happens to it, the heap stays a chain of pages. -/
lemma Sound.step (h : Sound heap t) (hstep : e.Step frames heap t t') : Sound heap t' := by
  cases e with
  | insertTuple tuple =>
    obtain ⟨hnext, fuel, r, hrun⟩ := hstep
    obtain ⟨pages, hpages⟩ := h.holds
    obtain ⟨r', t'', hrun', hattempt⟩ := @run_insertFrom_bounded frames _ _
      (bytesOf tuple) _ h.valid hnext hpages.chain.linked _
      (Nat.lt_succ_self (pages.map Prod.fst).length)
    have hsucc := @run_insertFrom_succ (bytesOf tuple) _
      (PageStore.boundedHandler frames)
    have h₁ := run_of_le (fun n s r => hsucc n heap.firstPageId s r)
      (le_max_left fuel ((pages.map Prod.fst).length + 1)) hrun
    have h₂ := run_of_le (fun n s r => hsucc n heap.firstPageId s r)
      (le_max_right fuel ((pages.map Prod.fst).length + 1)) hrun'
    obtain rfl := (Prod.mk.inj (Option.some.inj (h₁.symm.trans h₂))).2
    exact hattempt.sound h hnext (show Holds t.content heap ([] ++ pages) from hpages) rfl
  | deleteTuple rid => exact h.deleteTuple hstep.1 hstep.2
  | updateTuple rid newTuple =>
    obtain ⟨hslot, hfits, ok, hrun⟩ := hstep
    exact h.updateTuple hslot hfits hrun
  | other e =>
    obtain ⟨-, hforeign, rfl⟩ := hstep
    exact h.other hforeign

/-- The constructor, on a pool of which others may hold pins. -/
lemma run_create_bounded (hpool : t.pinnedPages.card < frames) :
    ∃ t', run (PageStore.boundedHandler frames) create t = some (.ok ⟨t.nextPageId⟩, t') ∧
      Becomes t (Function.update t.content t.nextPageId (some freshPage)) (t.nextPageId + 1) t' := by
  have hdefault : t.allocate.content t.nextPageId = some default := Function.update_self ..
  have hpin : (t.nextPageId, false) ∈ t.allocate.pins := Multiset.mem_cons_self _ _
  have hnew : run (PageStore.boundedHandler frames) (op .newPage) t =
      some (some t.nextPageId, t.allocate) := by
    rw [run_op, PageStore.boundedHandler, if_pos hpool]
  obtain ⟨u₁, u₂, hwrite, hunpin, hput⟩ := @exists_put frames _ _ _ _ hdefault hpin freshPage
  refine ⟨u₂, ?_, ?_, hput.next_eq, fun q => ?_⟩
  · unfold create
    rw [run_bind, hnew, Option.bind_some]
    simp only [run_bind, run_read_bounded hdefault hpin, Option.bind_some]
    rw [show (default : TablePage).init invalidPageId = freshPage from rfl]
    simp only [hwrite, hunpin, Option.bind_some, run_pure]
  · rw [hput.content_eq]
    exact Function.update_idem ..
  · have hcount := hput.pinCount_eq q
    rw [PageStore.pinCount_allocate] at hcount
    omega

/-- A new heap. -/
lemma sound_create (hvalid : ∀ q x, t.content q = some x → 0 ≤ q ∧ q < t.nextPageId)
    (hnn : 0 ≤ t.nextPageId)
    (hcreate : run (PageStore.boundedHandler frames) create t = some (.ok heap, t')) :
    Sound heap t' := by
  by_cases hpool : t.pinnedPages.card < frames
  · obtain ⟨u, hrun, hcontent, hnext, -⟩ := run_create_bounded hpool
    obtain ⟨hheap, rfl⟩ := Prod.mk.inj (Option.some.inj (hrun.symm.trans hcreate))
    obtain rfl := Except.ok.inj hheap
    refine ⟨⟨[(t.nextPageId, [])], ⟨rfl, ?_, freshPage, ?_, intact_freshPage,
      TablePage.getNextPageId_init _⟩, by simp, by simp⟩, fun q x hx => ?_, by lia⟩
    · show t.nextPageId ≠ -1
      lia
    · rw [hcontent, Function.update_self]
    · rw [hcontent] at hx
      rw [hnext]
      by_cases hq : q = t.nextPageId
      · lia
      · rw [Function.update_of_ne hq] at hx
        have := hvalid q x hx
        lia
  · unfold create at hcreate
    rw [run_bind, run_op, PageStore.boundedHandler, if_neg hpool] at hcreate
    simp at hcreate

/-- **Reachable heaps.** In every run from the constructor on, the heap is a chain of pages. -/
theorem sound_of_run (hvalid : ∀ q x, t.content q = some x → 0 ≤ q ∧ q < t.nextPageId)
    (hnn : 0 ≤ t.nextPageId)
    (hcreate : run (PageStore.boundedHandler frames) create t = some (.ok heap, t'))
    (hrun : Transition.Run (fun t e t' => HeapEvent.Step frames heap t e t') t' events u) :
    Sound heap u :=
  hrun.invariant (fun _ _ _ h hstep => h.step hstep) (sound_create hvalid hnn hcreate)

end Reachable

/-! ## Refusals -/

section Refusals

variable {s s' : BufferPoolManager TablePage (PageId → TablePage)} {heap : TableHeap}
  {tuple : Tuple} {last : PageId}

/-- The page that a chain goes on with, as the pool or else the disk has it. -/
def chainPage (s : BufferPoolManager TablePage (PageId → TablePage)) (p : PageId) :
    Option TablePage :=
  if p = invalidPageId then none else some (s.view p)

/-- The chain of the heap has the same pages with the same links, these have the same tuples, and
all pages are pinned as often as before. -/
structure Unchanged (heap : TableHeap) (s s' : BufferPoolManager TablePage (PageId → TablePage)) :
    Prop where
  chain : ∀ ids, Linked (chainPage s') ids heap.firstPageId ↔
    Linked (chainPage s) ids heap.firstPageId
  tuples : ∀ ids, Linked (chainPage s) ids heap.firstPageId → ∀ p ∈ ids,
    (s'.view p).getNumTuples = (s.view p).getNumTuples ∧
      ∀ slotNum, (s'.view p).getTuple slotNum = (s.view p).getTuple slotNum
  pins : ∀ p, s'.pinCount p = s.pinCount p

/-- The tuple is larger than the room on an empty page, no page of the chain takes it, and there is
a frame for one more page while the last one is pinned. -/
structure AppendsInVain (s : BufferPoolManager TablePage (PageId → TablePage))
    (t : PageStore TablePage) (ids : List PageId) (tuple : Tuple) : Prop where
  large : pageSize < (bytesOf tuple).length + 20
  full : ∀ p ∈ ids, Full (s.view p) (bytesOf tuple).length
  room : ∃ last, ids.getLast? = some last ∧ (insert last t.pinnedPages).card < s.poolSize

/-- The page of a new pin is pinned. -/
lemma pinnedPages_pin (t : PageStore TablePage) (p : PageId) :
    (t.pin p).pinnedPages = insert p t.pinnedPages := by
  simp [PageStore.pinnedPages, PageStore.pin]

/-- A refused insertion leaves everything, or an empty page at the end of the chain. -/
lemma Attempt.refused_cases (h : Attempt frames t data ids r t') (hr : r = none) :
    t' = t ∨ ∃ last x, ids.getLast? = some last ∧ t.content last = some x ∧
      (∀ p ∈ ids, ∃ z, t.content p = some z ∧ Full z data.length) ∧
      (insert last t.pinnedPages).card < frames ∧ (freshPage.insertTuple data).1 = none := by
  induction h with
  | nil => exact .inl rfl
  | refused _ => exact .inl rfl
  | here _ _ _ => cases hr
  | exhausted _ => exact .inl rfl
  | @append p x t' hx hfull hpool hput =>
    rw [pinnedPages_pin] at hpool
    refine .inr ⟨p, x, rfl, hx, ?_, hpool, Option.map_eq_none_iff.1 hr⟩
    intro q hq
    obtain rfl := List.mem_singleton.1 hq
    exact ⟨x, hx, hfull⟩
  | @later p ids x r t' hx hfull hids hrest ih =>
    rcases ih hr with hsame | ⟨last, z, hlast, hz, hall, hroom, hnone⟩
    · exact .inl hsame
    · refine .inr ⟨last, z, ?_, hz, ?_, hroom, hnone⟩
      · rw [List.getLast?_cons, hlast]
        rfl
      · intro q hq
        rcases List.mem_cons.1 hq with rfl | hq
        · exact ⟨x, hx, hfull⟩
        · exact hall q hq

/-- A tuple that no page takes, with a frame for one more page, leaves that page in the chain. -/
lemma Attempt.appended (h : Attempt frames t data ids r t')
    (hfull : ∀ p ∈ ids, ∀ z, t.content p = some z → Full z data.length)
    (hlast : ids.getLast? = some last) (hroom : (insert last t.pinnedPages).card < frames) :
    r = (freshPage.insertTuple data).1.map (fun slot => ⟨t.nextPageId, slot⟩) ∧
      ∃ x, t.content last = some x ∧
        Becomes t (TableHeap.appended t last x data).content (t.nextPageId + 1) t' := by
  induction h with
  | nil => cases hlast
  | @refused p ids hfetch =>
    exfalso
    apply hfetch
    exact .inr ((Finset.card_le_card (Finset.subset_insert _ _)).trans_lt hroom)
  | @here p ids x t' hx hnot _ => exact absurd (hfull p List.mem_cons_self x hx) hnot
  | @exhausted p hpool =>
    obtain rfl : p = last := Option.some.inj hlast
    rw [pinnedPages_pin] at hpool
    exact absurd hroom hpool
  | @append p x t' hx _ _ hput =>
    obtain rfl : p = last := Option.some.inj hlast
    exact ⟨rfl, x, hx, hput⟩
  | @later p ids x r t' hx _ hids hrest ih =>
    refine ih (fun q hq => hfull q (List.mem_cons_of_mem _ hq)) ?_
    obtain ⟨q, ids, rfl⟩ := List.exists_cons_of_ne_nil hids
    rwa [List.getLast?_cons_cons] at hlast

/-- An empty page refuses a tuple that is larger than its room. -/
lemma insertTuple_freshPage_none (hlarge : pageSize < data.length + 20) :
    (freshPage.insertTuple data).1 = none := by
  rw [TablePage.insertTuple_full]
  rw [getFreeSpaceRemaining_freshPage]
  simp only [pageSize, TablePage.sizeTupleSlot] at hlarge ⊢
  omega

/-- Only such tuples have no room on an empty page. -/
lemma large_of_insertTuple_freshPage (hnone : (freshPage.insertTuple data).1 = none) :
    pageSize < data.length + 20 := by
  obtain ⟨slots, -, -, hcase⟩ := insertTuple_freshPage data
  rcases hcase with ⟨hzero, -⟩ | ⟨-, -, hlarge⟩
  · cases hnone.symm.trans hzero
  · exact hlarge

/-- There is no page under the invalid number. -/
lemma content_invalidPageId (h : s.Refines t) : t.content invalidPageId = none := by
  by_contra hne
  obtain ⟨x, hx⟩ := Option.ne_none_iff_exists'.1 hne
  exact absurd (h.content_lt _ x hx).1 (by decide)

/-- The chain as the pool has it. -/
lemma Linked.chainPage (hlinked : Linked t.content ids p) (h : s.Refines t) :
    Linked (chainPage s) ids p := by
  refine hlinked.congr fun q hq => ?_
  obtain ⟨x, hx⟩ := hlinked.content_eq hq
  have hq : q ≠ invalidPageId := by
    rintro rfl
    cases (content_invalidPageId h).symm.trans hx
  rw [TableHeap.chainPage, if_neg hq, hx, h.content_eq q x hx]

/-- It is the only one. -/
lemma Linked.chainPage_iff (hlinked : Linked t.content ids p) (h : s.Refines t) :
    Linked (TableHeap.chainPage s) ids' p ↔ ids' = ids := by
  constructor
  · intro h'
    exact h'.unique (if_pos rfl) (hlinked.chainPage h)
  · rintro rfl
    exact hlinked.chainPage h

/-- Two pools with the same pages and pins. -/
lemma unchanged_of_refines (h : s.Refines t) (h' : s'.Refines t)
    (hlinked : Linked t.content ids heap.firstPageId) : Unchanged heap s s' := by
  refine ⟨fun ids' => ?_, fun ids' hids' p hp => ?_, fun p => ?_⟩
  · rw [hlinked.chainPage_iff h, hlinked.chainPage_iff h']
  · obtain rfl := (hlinked.chainPage_iff h).1 hids'
    obtain ⟨x, hx⟩ := hlinked.content_eq hp
    rw [h.content_eq p x hx, h'.content_eq p x hx]
    exact ⟨rfl, fun _ => rfl⟩
  · rw [h.pinCount_eq, h'.pinCount_eq]

/-- With fuel enough, `InsertTuple` on the pool returns and ends in one of the ways. -/
lemma run_insertTuple_pool (h : s.Refines t) (hnext : s.nextPageId < 2 ^ 31)
    (hlinked : Linked t.content ids heap.firstPageId) (tuple : Tuple) {fuel : ℕ}
    (hfuel : ids.length < fuel) :
    ∃ r t' s', run (BufferPoolManager.handler (idealDisk TablePage))
        (insertTuple fuel heap tuple) s = some (r, s') ∧ s'.Refines t' ∧
      Attempt s.poolSize t (bytesOf tuple) ids r t' := by
  rw [h.next_eq] at hnext
  obtain ⟨r, t', hrun, hattempt⟩ := @run_insertFrom_bounded s.poolSize _ _
    (bytesOf tuple) _ h.content_lt hnext hlinked _ hfuel
  obtain ⟨s', hs', hr, -⟩ :=
    run_of_simulates (BufferPoolManager.boundedHandler_simulates s.poolSize) _ ⟨h, rfl⟩ hrun
  exact ⟨r, t', s', hs', hr, hattempt⟩

/-- Whatever the fuel, `InsertTuple` returns nothing else. -/
lemma run_insertTuple_eq {fuel fuel' : ℕ} {r r' : Option RID}
    {s₁ s₂ : BufferPoolManager TablePage (PageId → TablePage)}
    (hrun : run (BufferPoolManager.handler (idealDisk TablePage)) (insertTuple fuel heap tuple) s =
      some (r, s₁))
    (hrun' : run (BufferPoolManager.handler (idealDisk TablePage)) (insertTuple fuel' heap tuple)
      s = some (r', s₂)) : r = r' ∧ s₁ = s₂ := by
  have hsucc : ∀ n (u : BufferPoolManager TablePage (PageId → TablePage)) x,
      run (BufferPoolManager.handler (idealDisk TablePage)) (insertTuple n heap tuple) u =
        some x →
      run (BufferPoolManager.handler (idealDisk TablePage)) (insertTuple (n + 1) heap tuple) u =
        some x := fun n u x hx => run_insertFrom_succ _ n _ u x hx
  have h₁ := run_of_le hsucc (le_max_left fuel fuel') hrun
  have h₂ := run_of_le hsucc (le_max_right fuel fuel') hrun'
  exact Prod.mk.inj (Option.some.inj (h₁.symm.trans h₂))

/-- The empty page stays in the chain. -/
lemma AppendsInVain.not_unchanged (hvain : AppendsInVain s t ids tuple) (h : s.Refines t)
    (hnext : s.nextPageId < 2 ^ 31) (hlinked : Linked t.content ids heap.firstPageId) {fuel : ℕ}
    (hfuel : ids.length < fuel) :
    ∃ s', run (BufferPoolManager.handler (idealDisk TablePage)) (insertTuple fuel heap tuple) s =
        some (none, s') ∧
      Linked (chainPage s') (ids ++ [t.nextPageId]) heap.firstPageId := by
  obtain ⟨r, t', s', hrun, hr, hattempt⟩ := run_insertTuple_pool h hnext hlinked tuple hfuel
  obtain ⟨last, hlast, hroom⟩ := hvain.room
  have hfull : ∀ p ∈ ids, ∀ z, t.content p = some z → Full z (bytesOf tuple).length := by
    intro p hp z hz
    rw [← h.content_eq p z hz]
    exact hvain.full p hp
  obtain ⟨hresult, x, hx, hbecomes⟩ := hattempt.appended hfull hlast hroom
  rw [insertTuple_freshPage_none hvain.large, Option.map_none] at hresult
  subst hresult
  refine ⟨s', hrun, ?_⟩
  -- the chain of the page store after the call
  obtain ⟨pre, rfl⟩ : ∃ pre, ids = pre ++ [last] := List.getLast?_eq_some_iff.1 hlast
  have hlt : ∀ q ∈ pre ++ [last], q < t.nextPageId := by
    intro q hq
    obtain ⟨z, hz⟩ := hlinked.content_eq hq
    exact (h.content_lt q z hz).2
  have hnew : t.nextPageId ∉ pre ++ [last] := fun hmem => lt_irrefl _ (hlt _ hmem)
  have hnn : 0 ≤ t.nextPageId := h.next_eq ▸ h.consistent.next_nonneg
  have hlink : (x.setNextPageId t.nextPageId).getNextPageId = t.nextPageId := by
    rw [h.next_eq] at hnext
    exact x.getNextPageId_setNextPageId (by lia) hnext
  obtain ⟨-, -, hend, -⟩ := insertTuple_freshPage (bytesOf tuple)
  have hchain := hlinked.snoc (hlinked.nodup (content_invalidPageId h)) hnew hlink hend
  rw [← content_appended, ← hbecomes.content_eq] at hchain
  have hids : pre ++ [last] ++ [t.nextPageId] = pre ++ [last, t.nextPageId] := by simp
  rw [hids]
  exact hchain.chainPage hr

/-- A new heap on a pool of two frames. -/
lemma exists_newHeap : ∃ (heap : TableHeap) (t : PageStore TablePage)
    (s : BufferPoolManager TablePage (PageId → TablePage)),
    run (BufferPoolManager.handler (idealDisk TablePage)) create
        (BufferPoolManager.init 2 1 (fun _ => default) 0) = some (.ok heap, s) ∧
      s.Refines t ∧ s.poolSize = 2 ∧ t.nextPageId = 1 ∧
      Linked t.content [0] heap.firstPageId ∧ t.content 0 = some freshPage ∧
      t.pinnedPages = ∅ := by
  have hinit := BufferPoolManager.refines_init (D := TablePage) 2 1 0 le_rfl
  obtain ⟨t, hrun, hcontent, hnext, hpins⟩ :=
    @run_create_bounded 2 { nextPageId := 0 } (by decide)
  obtain ⟨s, hs, hr, hsize⟩ := run_of_simulates (BufferPoolManager.boundedHandler_simulates 2)
    create ⟨hinit, rfl⟩ hrun
  have hpage : t.content 0 = some freshPage := by
    rw [hcontent]
    exact Function.update_self ..
  refine ⟨⟨0⟩, t, s, hs, hr, hsize, hnext, ⟨rfl, freshPage, hpage, ?_⟩, hpage, ?_⟩
  · exact TablePage.getNextPageId_init _
  · refine Finset.eq_empty_of_forall_notMem fun p hp => ?_
    exact BufferPoolManager.mem_pinnedPages.1 hp (hpins p)

/-- A tuple that is one byte larger than the room on an empty page. -/
def largeTuple : Tuple := { data := List.replicate 4077 0 }

/-- The large tuple has 4077 bytes. -/
lemma length_bytesOf_largeTuple : (bytesOf largeTuple).length = 4077 := by
  have hlen : largeTuple.data.length = 4077 := List.length_replicate
  rw [bytesOf, List.length_take, Tuple.getLength, hlen]
  rfl

/-- The sample: an empty page and a tuple that is larger than its room, in a pool of two frames. -/
lemma appendsInVain_largeTuple (h : s.Refines t) (hsize : s.poolSize = 2)
    (hpage : t.content 0 = some freshPage) (hpins : t.pinnedPages = ∅) :
    AppendsInVain s t [0] largeTuple where
  large := by
    rw [length_bytesOf_largeTuple]
    decide
  full := by
    intro p hp
    obtain rfl := List.mem_singleton.1 hp
    rw [h.content_eq 0 _ hpage, length_bytesOf_largeTuple, Full,
      getFreeSpaceRemaining_freshPage]
    decide
  room := by
    refine ⟨0, rfl, ?_⟩
    rw [hsize, hpins]
    decide

/-- It is refused by a new heap, whose chain then has two pages. -/
theorem not_unchanged_largeTuple : ∃ (heap : TableHeap) (t : PageStore TablePage)
    (s s' : BufferPoolManager TablePage (PageId → TablePage)),
    run (BufferPoolManager.handler (idealDisk TablePage)) create
        (BufferPoolManager.init 2 1 (fun _ => default) 0) = some (.ok heap, s) ∧
      s.Refines t ∧
      run (BufferPoolManager.handler (idealDisk TablePage)) (insertTuple 2 heap largeTuple) s =
        some (none, s') ∧
      Linked (chainPage s) [0] heap.firstPageId ∧ Linked (chainPage s') [0, 1] heap.firstPageId ∧
      ¬ Unchanged heap s s' := by
  obtain ⟨heap, t, s, hcreate, h, hsize, hnext, hlinked, hpage, hpins⟩ := exists_newHeap
  have hlt : s.nextPageId < 2 ^ 31 := by
    rw [h.next_eq, hnext]
    decide
  obtain ⟨s', hrun, hchain⟩ := (appendsInVain_largeTuple h hsize hpage hpins).not_unchanged h hlt
    hlinked (by decide : [(0 : PageId)].length < 2)
  rw [hnext] at hchain
  refine ⟨heap, t, s, s', hcreate, h, hrun, hlinked.chainPage h, hchain, fun hsame => ?_⟩
  have hold := (hsame.chain _).1 hchain
  exact absurd ((hlinked.chainPage_iff h).1 hold) (by decide)

/-- **Refused insertions.** On every pool with a well-linked heap, whatever frames are pinned by
others and whatever the length of the tuple: an `InsertTuple` that returns `std::nullopt` leaves
the chain, its tuples and all pin counts as they were, unless it appended a page on which the tuple
has no room either. -/
theorem refusedInsert_iff (h : s.Refines t) (hnext : s.nextPageId < 2 ^ 31)
    (hlinked : Linked t.content ids heap.firstPageId) (tuple : Tuple) :
    (∀ fuel s', run (BufferPoolManager.handler (idealDisk TablePage))
        (insertTuple fuel heap tuple) s = some (none, s') → Unchanged heap s s') ↔
      ¬ AppendsInVain s t ids tuple := by
  constructor
  · intro hall hvain
    obtain ⟨s', hrun, hchain⟩ :=
      hvain.not_unchanged h hnext hlinked (Nat.lt_succ_self ids.length)
    have hold := ((hall _ s' hrun).chain _).1 hchain
    have hids := (hlinked.chainPage_iff h).1 hold
    simp at hids
  · intro hnot fuel s' hrun
    obtain ⟨r, t', s'', hrun', hr, hattempt⟩ :=
      run_insertTuple_pool h hnext hlinked tuple (Nat.lt_succ_self ids.length)
    obtain ⟨rfl, rfl⟩ := run_insertTuple_eq hrun' hrun
    rcases hattempt.refused_cases rfl with rfl | ⟨last, x, hlast, hx, hfull, hroom, hnone⟩
    · exact unchanged_of_refines h hr hlinked
    · refine absurd ⟨large_of_insertTuple_freshPage hnone, ?_, last, hlast, hroom⟩ hnot
      intro p hp
      obtain ⟨z, hz, hz'⟩ := hfull p hp
      rwa [h.content_eq p z hz]

/-- On the new heap, this is about that tuple. -/
theorem refusedInsert_iff_largeTuple : ∃ (heap : TableHeap) (t : PageStore TablePage)
    (s : BufferPoolManager TablePage (PageId → TablePage)),
    (∀ fuel s', run (BufferPoolManager.handler (idealDisk TablePage))
        (insertTuple fuel heap largeTuple) s = some (none, s') → Unchanged heap s s') ↔
      ¬ AppendsInVain s t [0] largeTuple := by
  obtain ⟨heap, t, s, -, h, -, hnext, hlinked, -⟩ := exists_newHeap
  have hlt : s.nextPageId < 2 ^ 31 := by
    rw [h.next_eq, hnext]
    decide
  exact ⟨heap, t, s, refusedInsert_iff h hlt hlinked largeTuple⟩

end Refusals

end TableHeap

end OneBase
