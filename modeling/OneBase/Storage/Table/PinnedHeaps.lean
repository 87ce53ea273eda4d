import OneBase.Buffer.BoundedPool
import OneBase.Storage.Table.HeapStore

set_option relaxedAutoImplicit false
set_option autoImplicit false

/-!
# Table heaps among the pins of others

The walk of `InsertTuple` on a pool of which others may hold any number of pins, so that a page may
not be fetched and no page may be allocated.

## Main definitions

* `OneBase.TableHeap.Attempt` — how `InsertTuple` ends, walking along the chain.

## Main results

* `OneBase.TableHeap.run_insertFrom_bounded` — it ends in one of these ways.
* `OneBase.TableHeap.Linked.unique`, `Linked.nodup` — chains end, and do not come back.
-/

namespace OneBase

open Effect Effect.Program

namespace TableHeap

variable {frames : ℕ} {t u t' : PageStore TablePage} {p q : PageId} {x y : TablePage} {b : Bool}
  {data : List UInt8} {ids ids' : List PageId} {r : Option RID}

/-! ## Pages among the pins of others -/

/-- There is a frame for the page. -/
def Fetchable (frames : ℕ) (t : PageStore TablePage) (p : PageId) : Prop :=
  p ∈ t.pinnedPages ∨ t.pinnedPages.card < frames

/-- The contents of the pages are these, the next page id is this one, and no page is pinned more
or less often. -/
structure Becomes (t : PageStore TablePage) (content : PageId → Option TablePage) (next : PageId)
    (t' : PageStore TablePage) : Prop where
  content_eq : t'.content = content
  next_eq : t'.nextPageId = next
  pinCount_eq : ∀ q, t'.pinCount q = t.pinCount q

/-- The page is written under a pin, which is then given up. -/
structure Put (u : PageStore TablePage) (p : PageId) (y : TablePage) (u' : PageStore TablePage) :
    Prop where
  content_eq : u'.content = Function.update u.content p (some y)
  next_eq : u'.nextPageId = u.nextPageId
  pinCount_eq : ∀ q, u'.pinCount q + (if q = p then 1 else 0) = u.pinCount q
  pins_of_ne : ∀ q b, q ≠ p → ((q, b) ∈ u'.pins ↔ (q, b) ∈ u.pins)

/-- A page that is written while it is pinned once more. -/
lemma Put.becomes (h : Put (t.pin p) p y t') :
    Becomes t (Function.update t.content p (some y)) t.nextPageId t' := by
  refine ⟨h.content_eq, h.next_eq, fun q => ?_⟩
  have hcount := h.pinCount_eq q
  rw [PageStore.pinCount_pin] at hcount
  omega

/-- Writing a page that is there. -/
lemma content_write_of_some (hx : u.content p = some x) (b : Bool) (y : TablePage) :
    (u.write p b y).content = Function.update u.content p (some y) := by
  rw [PageStore.write, hx]
  rfl

/-- Writing a page leaves the pins of the others. -/
lemma mem_pins_write_of_ne (h : q ≠ p) (c : Bool) (y : TablePage) :
    (q, b) ∈ (u.write p c y).pins ↔ (q, b) ∈ u.pins := by
  have hne : (q, b) ≠ (p, c) := fun heq => h (congrArg Prod.fst heq)
  have hne' : (q, b) ≠ (p, true) := fun heq => h (congrArg Prod.fst heq)
  rw [PageStore.write, Multiset.mem_cons, Multiset.mem_erase_of_ne hne]
  simp [hne']

/-- Giving up a pin leaves the pins of the other pages. -/
lemma mem_pins_unpin_of_ne (h : q ≠ p) (c : Bool) :
    (q, b) ∈ (u.unpin p c).pins ↔ (q, b) ∈ u.pins := by
  rw [PageStore.unpin, Multiset.mem_erase_of_ne fun heq => h (congrArg Prod.fst heq)]

/-- `FetchPage` of a page that is pinned or for which there is a frame. -/
lemma run_fetchPage_bounded (hx : t.content p = some x) (h : Fetchable frames t p) :
    run (PageStore.boundedHandler frames) (op (.fetchPage p)) t = some (some p, t.pin p) := by
  rw [run_op, PageStore.boundedHandler, if_neg (by rw [hx]; simp)]
  exact if_pos h

/-- `FetchPage` returns `nullptr` if there is no frame for the page. -/
lemma run_fetchPage_refused (hx : t.content p = some x) (h : ¬ Fetchable frames t p) :
    run (PageStore.boundedHandler frames) (op (.fetchPage p)) t = some (none, t) := by
  rw [run_op, PageStore.boundedHandler, if_neg (by rw [hx]; simp)]
  exact if_neg h

/-- Reading a pinned page. -/
lemma run_read_bounded (hx : u.content p = some x) (hpin : (p, b) ∈ u.pins) :
    run (PageStore.boundedHandler frames) (PageClient.read p) u = some (x, u) := by
  have hmem : p ∈ u.pinnedPages :=
    BufferPoolManager.mem_pinnedPages.2 (PageStore.pinCount_ne_zero.2 ⟨b, hpin⟩)
  rw [PageClient.read, run_op]
  simp only [PageStore.boundedHandler, PageStore.handler, if_pos hmem, hx, Option.map_some]

/-- Giving up a pin that is held. -/
lemma run_unpin_bounded (hpin : (p, b) ∈ u.pins) :
    run (PageStore.boundedHandler frames) (PageClient.unpin p b) u = some ((), u.unpin p b) := by
  rw [PageClient.unpin, run_bind, run_op]
  simp only [PageStore.boundedHandler, PageStore.handler, if_pos hpin, Option.bind_some, run_pure]

/-- Writing a pinned page, under one of its pins. -/
lemma run_write_bounded (hx : u.content p = some x) (hpin : (p, b) ∈ u.pins) (y : TablePage) :
    ∃ c, (p, c) ∈ u.pins ∧ run (PageStore.boundedHandler frames) (PageClient.write p y) u =
      some ((), u.write p c y) := by
  have hne : u.content p ≠ none := by
    rw [hx]
    simp
  simp only [PageClient.write, run_op, PageStore.boundedHandler, PageStore.handler, if_neg hne]
  by_cases htrue : (p, true) ∈ u.pins
  · exact ⟨true, htrue, if_pos htrue⟩
  · have hfalse : (p, false) ∈ u.pins := by
      cases b with
      | true => exact absurd hpin htrue
      | false => exact hpin
    exact ⟨false, hfalse, by rw [if_neg htrue, if_pos hfalse]⟩

/-- A page that was just fetched is pinned. -/
lemma mem_pins_pin (t : PageStore TablePage) (p : PageId) : (p, false) ∈ (t.pin p).pins :=
  Multiset.mem_cons_self _ _

/-- Writing a page and giving up the pin. -/
lemma exists_put (hx : u.content p = some x) (hpin : (p, b) ∈ u.pins) (y : TablePage) :
    ∃ u₁ u₂, run (PageStore.boundedHandler frames) (PageClient.write p y) u = some ((), u₁) ∧
      run (PageStore.boundedHandler frames) (PageClient.unpin p true) u₁ = some ((), u₂) ∧
      Put u p y u₂ := by
  obtain ⟨c, hc, hwrite⟩ := @run_write_bounded frames _ _ _ _ hx hpin y
  have htrue : (p, true) ∈ (u.write p c y).pins := Multiset.mem_cons_self _ _
  refine ⟨_, _, hwrite, run_unpin_bounded htrue, content_write_of_some hx c y, rfl, ?_, ?_⟩
  · intro q
    rw [PageStore.pinCount_unpin htrue, PageStore.pinCount_write hc]
  · intro q b hq
    rw [mem_pins_unpin_of_ne hq, mem_pins_write_of_ne hq]

/-! ## The walk along the chain -/

/-- How `InsertTuple` ends, walking along these pages. -/
inductive Attempt (frames : ℕ) (t : PageStore TablePage) (data : List UInt8) :
    List PageId → Option RID → PageStore TablePage → Prop
  | nil : Attempt frames t data [] none t
  | refused {p : PageId} {ids : List PageId} (hfetch : ¬ Fetchable frames t p) :
      Attempt frames t data (p :: ids) none t
  | here {p : PageId} {ids : List PageId} {x : TablePage} {t' : PageStore TablePage}
      (hx : t.content p = some x) (hroom : ¬ Full x data.length)
      (hput : Becomes t (Function.update t.content p (some (x.insertTuple data).2)) t.nextPageId
        t') : Attempt frames t data (p :: ids) (some ⟨p, x.getNumTuples % 2 ^ 16⟩) t'
  | exhausted {p : PageId} (hpool : ¬ (t.pin p).pinnedPages.card < frames) :
      Attempt frames t data [p] none t
  | append {p : PageId} {x : TablePage} {t' : PageStore TablePage} (hx : t.content p = some x)
      (hfull : Full x data.length) (hpool : (t.pin p).pinnedPages.card < frames)
      (hput : Becomes t (appended t p x data).content (t.nextPageId + 1) t') :
      Attempt frames t data [p]
        ((freshPage.insertTuple data).1.map fun slot => ⟨t.nextPageId, slot⟩) t'
  | later {p : PageId} {ids : List PageId} {x : TablePage} {r : Option RID}
      {t' : PageStore TablePage} (hx : t.content p = some x) (hfull : Full x data.length)
      (hids : ids ≠ []) (hrest : Attempt frames t data ids r t') :
      Attempt frames t data (p :: ids) r t'

/-- The page behind the last one. -/
lemma run_appendPage_bounded (hx : t.content p = some x) (hp : p ≠ t.nextPageId)
    (hnext : t.nextPageId < 2 ^ 31) (hpool : (t.pin p).pinnedPages.card < frames) :
    ∃ t', run (PageStore.boundedHandler frames) (appendPage p x data) (t.pin p) =
        some ((freshPage.insertTuple data).1.map fun slot => ⟨t.nextPageId, slot⟩, t') ∧
      Becomes t (appended t p x data).content (t.nextPageId + 1) t' := by
  set n := t.nextPageId with hn
  have hnew : run (PageStore.boundedHandler frames) (op .newPage) (t.pin p) =
      some (some n, (t.pin p).allocate) := by
    rw [run_op, PageStore.boundedHandler, if_pos hpool]
    rfl
  have hpin : (n, false) ∈ (t.pin p).allocate.pins := Multiset.mem_cons_self _ _
  have hpin' : (p, false) ∈ (t.pin p).allocate.pins :=
    Multiset.mem_cons_of_mem (Multiset.mem_cons_self _ _)
  have hcontent : (t.pin p).allocate.content = Function.update t.content n (some default) := rfl
  have hdefault : (t.pin p).allocate.content n = some default := by
    rw [hcontent, Function.update_self]
  -- the new page is initialised, and linked behind the last one
  obtain ⟨c, hc, hinit⟩ := @run_write_bounded frames _ _ _ _ hdefault hpin freshPage
  have hcontent₁ := content_write_of_some hdefault c freshPage
  set u₁ := (t.pin p).allocate.write n c freshPage with hu₁
  have hx₁ : u₁.content p = some x := by
    rw [hcontent₁, hcontent, Function.update_of_ne hp, Function.update_of_ne hp, hx]
  have hpin₁ : (p, false) ∈ u₁.pins := (mem_pins_write_of_ne hp c freshPage).2 hpin'
  obtain ⟨u₂, u₃, hlink, hunpin, hput⟩ :=
    @exists_put frames _ _ _ _ hx₁ hpin₁ (x.setNextPageId n)
  -- the tuple goes to the new page
  have hfresh : u₃.content n = some freshPage := by
    rw [hput.content_eq, Function.update_of_ne (Ne.symm hp), hcontent₁, Function.update_self]
  have hpin₃ : (n, true) ∈ u₃.pins :=
    (hput.pins_of_ne n true (Ne.symm hp)).2 (Multiset.mem_cons_self _ _)
  obtain ⟨u₄, u₅, hinsert, hunpin', hput'⟩ :=
    @exists_put frames _ _ _ _ hfresh hpin₃ (freshPage.insertTuple data).2
  refine ⟨u₅, ?_, ?_, ?_, ?_⟩
  · unfold appendPage
    rw [run_bind, hnew, Option.bind_some]
    simp only [if_pos hnext, run_bind, run_read_bounded hdefault hpin, Option.bind_some]
    rw [show (default : TablePage).init invalidPageId = freshPage from rfl]
    simp only [hinit, hlink, hunpin, run_read_bounded hfresh hpin₃, hinsert, hunpin',
      Option.bind_some, run_pure]
  · rw [hput'.content_eq, hput.content_eq, hcontent₁, hcontent, Function.update_idem,
      Function.update_comm (Ne.symm hp), Function.update_idem]
    rfl
  · rw [hput'.next_eq, hput.next_eq]
    rfl
  · intro q
    have h₁ : u₁.pinCount q = (t.pin p).allocate.pinCount q := PageStore.pinCount_write hc _ q
    have h₂ := hput.pinCount_eq q
    have h₃ := hput'.pinCount_eq q
    have h₀ : (t.pin p).allocate.pinCount q = (t.pin p).pinCount q + if q = n then 1 else 0 :=
      PageStore.pinCount_allocate _ q
    rw [PageStore.pinCount_pin] at h₀
    omega

/-- No page behind the last one. -/
lemma run_appendPage_exhausted (hpool : ¬ (t.pin p).pinnedPages.card < frames) :
    run (PageStore.boundedHandler frames) (appendPage p x data) (t.pin p) = some (none, t) := by
  have hnew : run (PageStore.boundedHandler frames) (op .newPage) (t.pin p) =
      some (none, t.pin p) := by
    rw [run_op, PageStore.boundedHandler, if_neg hpool]
  unfold appendPage
  simp only [run_bind, hnew, Option.bind_some, run_unpin_bounded (mem_pins_pin t p),
    PageStore.unpin_pin,
    run_pure]

/-- `InsertTuple` along a chain: with fuel enough it returns, and ends in one of these ways. -/
lemma run_insertFrom_bounded
    (hvalid : ∀ q z, t.content q = some z → 0 ≤ q ∧ q < t.nextPageId)
    (hnext : t.nextPageId < 2 ^ 31) (h : Linked t.content ids p) {fuel : ℕ}
    (hfuel : ids.length < fuel) :
    ∃ r t', run (PageStore.boundedHandler frames) (insertFrom data fuel p) t = some (r, t') ∧
      Attempt frames t data ids r t' := by
  induction ids generalizing p fuel with
  | nil =>
    obtain rfl : p = invalidPageId := h
    obtain ⟨fuel, rfl⟩ : ∃ n, fuel = n + 1 := ⟨fuel - 1, by omega⟩
    refine ⟨none, t, ?_, .nil⟩
    rw [insertFrom, if_pos rfl, run_pure]
  | cons q ids ih =>
    obtain ⟨rfl, x, hx, hrest⟩ := h
    obtain ⟨fuel, rfl⟩ : ∃ n, fuel = n + 1 := ⟨fuel - 1, by omega⟩
    obtain ⟨hnonneg, hlt⟩ := hvalid p x hx
    have hp : p ≠ invalidPageId := by
      rintro rfl
      exact absurd hnonneg (by decide)
    rw [insertFrom, if_neg hp]
    by_cases hfetch : Fetchable frames t p
    · simp only [run_bind, run_fetchPage_bounded hx hfetch, Option.bind_some,
        run_read_bounded (u := t.pin p) hx (mem_pins_pin t p)]
      by_cases hfull : Full x data.length
      · rw [TablePage.insertTuple_full hfull]
        cases ids with
        | nil =>
          -- the end of the chain
          have hlast : x.getNextPageId = invalidPageId := hrest
          simp only [if_pos hlast]
          by_cases hpool : (t.pin p).pinnedPages.card < frames
          · obtain ⟨t', hrun, hput⟩ :=
              @run_appendPage_bounded frames _ _ _ data hx (by lia) hnext hpool
            exact ⟨_, t', hrun, .append hx hfull hpool hput⟩
          · exact ⟨none, t, run_appendPage_exhausted hpool, .exhausted hpool⟩
        | cons r ids =>
          have hne : x.getNextPageId ≠ invalidPageId := by
            obtain ⟨heq, z, hz, -⟩ := hrest
            have hr := (hvalid r z hz).1
            rw [heq]
            rintro rfl
            exact absurd hr (by decide)
          simp only [if_neg hne, run_bind, run_unpin_bounded (mem_pins_pin t p), PageStore.unpin_pin,
            Option.bind_some]
          obtain ⟨r', t', hrun, hattempt⟩ :=
            ih hrest (show (r :: ids).length < fuel by simp only [List.length_cons] at hfuel ⊢; omega)
          exact ⟨r', t', hrun, .later hx hfull (by simp) hattempt⟩
      · -- the page takes the tuple
        have hval : x.insertTuple data =
            (some (x.getNumTuples % 2 ^ 16), (x.insertTuple data).2) := by
          have hroom : ¬ x.getFreeSpaceRemaining < data.length + TablePage.sizeTupleSlot := hfull
          rw [TablePage.insertTuple, if_neg hroom]
        obtain ⟨u₁, u₂, hwrite, hunpin, hput⟩ := @exists_put frames (t.pin p) _ _ _ hx
          (mem_pins_pin t p) (x.insertTuple data).2
        rw [hval]
        simp only [run_bind, hwrite, hunpin, Option.bind_some, run_pure]
        exact ⟨_, u₂, rfl, .here hx hfull hput.becomes⟩
    · refine ⟨none, t, ?_, .refused hfetch⟩
      simp only [run_bind, run_fetchPage_refused hx hfetch, Option.bind_some, run_pure]

/-- More fuel does not change what the walk returns. -/
lemma run_insertFrom_succ {σ : Type} (h : Handler (PoolCall TablePage) σ) (fuel : ℕ) (p : PageId)
    (s : σ) (r : Option RID × σ) (hrun : run h (insertFrom data fuel p) s = some r) :
    run h (insertFrom data (fuel + 1) p) s = some r := by
  induction fuel generalizing p s with
  | zero => simp [insertFrom] at hrun
  | succ fuel ih =>
    rw [insertFrom] at hrun ⊢
    split_ifs at hrun ⊢ with hp
    · exact hrun
    · rw [run_bind, Option.bind_eq_some_iff] at hrun ⊢
      obtain ⟨⟨page, s₁⟩, hfetch, hrun⟩ := hrun
      refine ⟨_, hfetch, ?_⟩
      cases page with
      | none => exact hrun
      | some page =>
        simp only [run_bind, Option.bind_eq_some_iff] at hrun ⊢
        obtain ⟨⟨x, s₂⟩, hread, hrun⟩ := hrun
        refine ⟨_, hread, ?_⟩
        dsimp only at hrun ⊢
        cases hins : x.insertTuple data with
        | mk slot y =>
          rw [hins] at hrun
          cases slot with
          | some slot => exact hrun
          | none =>
            dsimp only at hrun ⊢
            split_ifs at hrun ⊢ with hnext
            · exact hrun
            · rw [run_bind, Option.bind_eq_some_iff] at hrun ⊢
              obtain ⟨⟨_, s₃⟩, hunpin, hrun⟩ := hrun
              exact ⟨_, hunpin, ih _ _ hrun⟩

/-! ## Chains -/

section Chains

variable {content content' : PageId → Option TablePage}

/-- A chain ends at the first page id that is not valid. -/
lemma Linked.unique (hinvalid : content invalidPageId = none) (h : Linked content ids p)
    (h' : Linked content ids' p) : ids = ids' := by
  induction ids generalizing p ids' with
  | nil =>
    obtain rfl : p = invalidPageId := h
    cases ids' with
    | nil => rfl
    | cons q ids' =>
      obtain ⟨rfl, x, hx, -⟩ := h'
      cases hinvalid.symm.trans hx
  | cons q ids ih =>
    obtain ⟨rfl, x, hx, hrest⟩ := h
    cases ids' with
    | nil =>
      obtain rfl : p = invalidPageId := h'
      cases hinvalid.symm.trans hx
    | cons q' ids' =>
      obtain ⟨rfl, x', hx', hrest'⟩ := h'
      obtain rfl : x = x' := Option.some.inj (hx.symm.trans hx')
      rw [ih hrest hrest']

/-- A chain goes on behind its first pages. -/
lemma Linked.suffix (h : Linked content (ids ++ q :: ids') p) : Linked content (q :: ids') q := by
  induction ids generalizing p with
  | nil =>
    obtain ⟨rfl, hrest⟩ := h
    exact ⟨rfl, hrest⟩
  | cons r ids ih =>
    obtain ⟨-, x, -, hrest⟩ := h
    exact ih hrest

/-- A chain does not come back. -/
lemma Linked.nodup (hinvalid : content invalidPageId = none) (h : Linked content ids p) :
    ids.Nodup := by
  induction ids generalizing p with
  | nil => exact List.nodup_nil
  | cons q ids ih =>
    have hhead : Linked content (q :: ids) q := @Linked.suffix _ _ [] _ _ h
    obtain ⟨-, x, hx, hrest⟩ := h
    refine List.nodup_cons.2 ⟨fun hmem => ?_, ih hrest⟩
    obtain ⟨pre, post, rfl⟩ := List.append_of_mem hmem
    have htail : Linked content (q :: post) q := @Linked.suffix q _ (q :: pre) _ _ hhead
    have hlen := congrArg List.length (hhead.unique hinvalid htail)
    simp only [List.length_cons, List.length_append] at hlen
    omega

/-- Only the contents of its own pages matter for a chain. -/
lemma Linked.congr (h : Linked content ids p) (hsame : ∀ q ∈ ids, content' q = content q) :
    Linked content' ids p := by
  induction ids generalizing p with
  | nil => exact h
  | cons q ids ih =>
    obtain ⟨rfl, x, hx, hrest⟩ := h
    refine ⟨rfl, x, (hsame p List.mem_cons_self).trans hx, ih hrest fun q hq => ?_⟩
    exact hsame q (List.mem_cons_of_mem _ hq)

/-- The pages of a chain have contents. -/
lemma Linked.content_eq (h : Linked content ids p) (hq : q ∈ ids) :
    ∃ x, content q = some x := by
  obtain ⟨pre, post, rfl⟩ := List.append_of_mem hq
  obtain ⟨-, x, hx, -⟩ := h.suffix
  exact ⟨x, hx⟩

/-- A chain with one more page at its end. -/
lemma Linked.snoc (h : Linked content (ids ++ [q]) p) {n : PageId} (hnodup : (ids ++ [q]).Nodup)
    (hn : n ∉ ids ++ [q]) (hlink : x.getNextPageId = n) (hend : y.getNextPageId = invalidPageId) :
    Linked (Function.update (Function.update content q (some x)) n (some y)) (ids ++ [q, n]) p := by
  induction ids generalizing p with
  | nil =>
    obtain ⟨rfl, -⟩ := h
    have hne : p ≠ n := by
      rintro rfl
      apply hn
      simp
    refine ⟨rfl, x, ?_, hlink, y, Function.update_self .., hend⟩
    rw [Function.update_of_ne hne, Function.update_self]
  | cons r ids ih =>
    obtain ⟨rfl, z, hz, hrest⟩ := h
    rw [List.cons_append, List.nodup_cons] at hnodup
    rw [List.cons_append, List.mem_cons, not_or] at hn
    have hne : p ≠ q := by
      rintro rfl
      apply hnodup.1
      simp
    refine ⟨rfl, z, ?_, ih hrest hnodup.2 hn.2⟩
    rw [Function.update_of_ne (Ne.symm hn.1), Function.update_of_ne hne]
    exact hz

end Chains

end TableHeap

end OneBase
