import OneBase.Buffer.PageClient
import Mathlib.Data.Finset.Card

set_option relaxedAutoImplicit false
set_option autoImplicit false

/-!
# Clients of a pool that others use

A client owns some of the pages, and others hold pins in the same pool. `NewPage` and `FetchPage`
return `nullptr` exactly when the pages pinned by all of them leave no frame, so each of them needs
a number of frames that can be said before it runs.

## Main definitions

* `OneBase.PoolCall.IsNull`, `IsQuiet` — the results that are `nullptr`, and the calls that have no
  such result.
* `OneBase.PageStore.sharedHandler` — the meaning of the calls for a client in a pool of `frames`
  frames, where others have pinned the pages `others`.
* `OneBase.PageStore.Shared` — the pages that the client owns, and the pins that it holds.

## Main results

* `OneBase.PageStore.Shared.fetch`, `new` — the frames that these calls need.
* `OneBase.PageStore.wp_of_clean` — what does not meet `nullptr` runs as it does alone.
-/

namespace OneBase

open Effect Effect.Program Ownership

variable {D : Type}

/-- The result is `nullptr`. -/
def PoolCall.IsNull : (β : Type) → PoolCall D β → β → Prop
  | _, .newPage, r => r = none
  | _, .fetchPage _, r => r = none
  | _, .unpinPage _ _, _ => False
  | _, .deletePage _, _ => False
  | _, .read _, _ => False
  | _, .write _ _, _ => False

/-- The calls that concern the client's own pins only. -/
def PoolCall.IsQuiet : (β : Type) → PoolCall D β → Prop
  | _, .newPage => False
  | _, .fetchPage _ => False
  | _, .unpinPage _ _ => True
  | _, .deletePage _ => False
  | _, .read _ => True
  | _, .write _ _ => True

/-- A quiet call never returns `nullptr`. -/
lemma PoolCall.not_isNull_of_isQuiet (β : Type) (e : PoolCall D β) (b : β) (he : e.IsQuiet) :
    ¬ e.IsNull β b := by
  cases e with
  | newPage => exact he.elim
  | fetchPage p => exact he.elim
  | unpinPage p d => exact id
  | deletePage p => exact id
  | read p => exact id
  | write p d => exact id

namespace PageClient

/-! ## Clients that do not check -/

/-- A client that fetches a page goes on as if it got it. -/
lemma trusts_fetch (p : PageId) : (fetch p : Program (PoolCall D) Unit).Trusts PoolCall.IsNull := by
  rintro (_ | q)
  · exact ⟨fun _ => rfl, trivial⟩
  · exact ⟨fun h => (Option.some_ne_none q h).elim, trivial⟩

/-- A client that allocates a page goes on as if it got it. -/
lemma trusts_new : (new : Program (PoolCall D) PageId).Trusts PoolCall.IsNull := by
  rintro (_ | q)
  · exact ⟨fun _ => rfl, trivial⟩
  · exact ⟨fun h => (Option.some_ne_none q h).elim, trivial⟩

/-- Reading a page is quiet. -/
lemma calls_read (p : PageId) : (read p : Program (PoolCall D) D).Calls PoolCall.IsQuiet :=
  (calls_op _).2 trivial

/-- Writing a page is quiet. -/
lemma calls_write (p : PageId) (d : D) : (write p d).Calls PoolCall.IsQuiet :=
  (calls_op _).2 trivial

/-- Giving up a pin is quiet. -/
lemma calls_unpin (p : PageId) (isDirty : Bool) :
    (unpin p isDirty : Program (PoolCall D) Unit).Calls PoolCall.IsQuiet :=
  Calls.bind ((calls_op _).2 trivial) fun _ => calls_pure _

/-- A client that makes no call with `nullptr` as a result. -/
lemma trusts_of_quiet {α : Type} {program : Program (PoolCall D) α}
    (h : program.Calls PoolCall.IsQuiet) : program.Trusts PoolCall.IsNull :=
  h.trusts PoolCall.not_isNull_of_isQuiet

end PageClient

namespace PageStore

/-- The meaning of the calls of a client, in a pool of `frames` frames in which others have pinned
the pages `others`. Undefined are calls outside the discipline of the clients. -/
def sharedHandler [Inhabited D] (others : Finset PageId) (frames : ℕ) :
    Effect.Handler (PoolCall D) (PageStore D)
  | _, .newPage, t =>
    if (others ∪ t.pinnedPages).card + 1 ≤ frames then some (some t.nextPageId, t.allocate)
    else some (none, t)
  | _, .fetchPage p, t =>
    if t.content p = none then none
    else if (insert p (others ∪ t.pinnedPages)).card ≤ frames then some (some p, t.pin p)
    else some (none, t)
  | _, .deletePage p, t =>
    if t.content p = none then none
    else if p ∈ others ∪ t.pinnedPages then some (false, t)
    else some (true, t.delete p)
  | _, e, t => PageStore.handler ⊤ _ e t

section Handler

variable [Inhabited D] {others : Finset PageId} {frames : ℕ} {α : Type}

/-- Quiet calls mean the same with the pins of others, for any number of frames. -/
lemma sharedHandler_of_isQuiet {n : ℕ∞} {β : Type} {e : PoolCall D β} (he : e.IsQuiet) :
    sharedHandler others frames β e = PageStore.handler n β e := by
  cases e with
  | newPage => exact he.elim
  | fetchPage p => exact he.elim
  | unpinPage p d => rfl
  | deletePage p => exact he.elim
  | read p => rfl
  | write p d => rfl

/-- These calls allocate nothing. -/
lemma nextPageId_of_isQuiet {n : ℕ∞} {β : Type} {e : PoolCall D β} {b : β} {t t' : PageStore D}
    (he : e.IsQuiet) (hrun : PageStore.handler n β e t = some (b, t')) :
    t'.nextPageId = t.nextPageId := by
  cases e with
  | newPage => exact he.elim
  | fetchPage p => exact he.elim
  | unpinPage p d =>
    simp only [PageStore.handler] at hrun
    split_ifs at hrun <;> obtain ⟨-, rfl⟩ := Prod.mk.inj (Option.some.inj hrun) <;> rfl
  | deletePage p => exact he.elim
  | read p =>
    simp only [PageStore.handler] at hrun
    split_ifs at hrun
    obtain ⟨d, -, hd⟩ := Option.map_eq_some_iff.1 hrun
    rw [(Prod.mk.inj hd).2]
  | write p d =>
    simp only [PageStore.handler] at hrun
    split_ifs at hrun <;> obtain ⟨-, rfl⟩ := Prod.mk.inj (Option.some.inj hrun) <;> rfl

/-- A client that makes quiet calls only. -/
lemma clean_of_quiet {n : ℕ∞} {program : Program (PoolCall D) α} {Q : α → PageStore D → Prop}
    {t : PageStore D} (hquiet : program.Calls PoolCall.IsQuiet)
    (hp : wp (PageStore.handler n) program Q t) :
    program.Clean (sharedHandler others frames) PoolCall.IsNull
      (fun a t' => Q a t' ∧ t'.nextPageId = t.nextPageId) t := by
  obtain ⟨a, t', hrun, hQ⟩ := hp
  refine ⟨⟨a, t', ?_, hQ, ?_⟩, hquiet.not_meets PoolCall.not_isNull_of_isQuiet⟩
  · rw [← hrun]
    exact hquiet.run_congr (fun _ _ he => sharedHandler_of_isQuiet he) t
  · refine hquiet.keeps (I := fun u => u.nextPageId = t.nextPageId) ?_ rfl hrun
    intro β e u b u' he hu hstep
    exact (nextPageId_of_isQuiet he hstep).trans hu

/-- A client that does not meet `nullptr` where nobody else holds pins runs on the pages
themselves. -/
lemma wp_of_clean {n : ℕ∞} (hframes : (frames : ℕ∞) ≤ n) {program : Program (PoolCall D) α}
    {Q : α → PageStore D → Prop} {t : PageStore D}
    (hp : program.Clean (sharedHandler ∅ frames) PoolCall.IsNull Q t) :
    wp (PageStore.handler n) program Q t := by
  obtain ⟨a, t', hrun, hQ⟩ := hp.wp
  refine ⟨a, t', run_of_not_meets ?_ hrun hp.not_meets, hQ⟩
  intro β e u b u' hstep hnull
  cases e with
  | newPage =>
    simp only [sharedHandler, Finset.empty_union] at hstep
    split_ifs at hstep with hcard
    · have hlt : (u.pinnedPages.card : ℕ∞) < n :=
        lt_of_lt_of_le (Nat.cast_lt.2 hcard) hframes
      rw [PageStore.handler, if_pos hlt, hstep]
    · obtain ⟨rfl, -⟩ := Prod.mk.inj (Option.some.inj hstep)
      exact absurd rfl hnull
  | fetchPage p =>
    simp only [sharedHandler, Finset.empty_union] at hstep
    split_ifs at hstep with hnone hcard
    · have hroom : p ∈ u.pinnedPages ∨ (u.pinnedPages.card : ℕ∞) < n := by
        by_cases hp : p ∈ u.pinnedPages
        · exact .inl hp
        · rw [Finset.card_insert_of_notMem hp] at hcard
          exact .inr (lt_of_lt_of_le (Nat.cast_lt.2 hcard) hframes)
      rw [PageStore.handler, if_neg hnone, if_pos hroom, hstep]
    · obtain ⟨rfl, -⟩ := Prod.mk.inj (Option.some.inj hstep)
      exact absurd rfl hnull
  | deletePage p =>
    rw [sharedHandler, Finset.empty_union] at hstep
    exact hstep
  | unpinPage p d => exact hstep
  | read p => exact hstep
  | write p d => exact hstep

end Handler

/-! ## The rules -/

variable {C : Type} {shows : D → C → Prop} {others : Finset PageId} {frame : PageId → Option D}
  {held held' : Multiset (PageId × C × Bool)} {free free' : Multiset (PageId × C)}
  {t : PageStore D} {p : PageId} {c d : C} {b : Bool}

/-- The client holds pins of the pages `held` and owns the pages `free`, in a pool in which others
have pinned pages. -/
structure Shared (shows : D → C → Prop) (others : Finset PageId) (frame : PageId → Option D)
    (held : Multiset (PageId × C × Bool)) (free : Multiset (PageId × C)) (t : PageStore D) :
    Prop where
  owned : Owned shows frame held free t
  lt_next : ∀ q ∈ others, q < t.nextPageId

/-- The pages of pins. -/
def pages (held : Multiset (PageId × C × Bool)) : Finset PageId := (held.map Prod.fst).toFinset

/-- No page is held. -/
@[simp] lemma pages_zero : pages (0 : Multiset (PageId × C × Bool)) = ∅ := rfl

/-- The page that is held. -/
@[simp] lemma pages_singleton (x : PageId × C × Bool) : pages {x} = {x.1} := rfl

/-- The pages of two groups of holdings. -/
@[simp] lemma pages_add (held held' : Multiset (PageId × C × Bool)) :
    pages (held + held') = pages held ∪ pages held' := by
  rw [pages, Multiset.map_add, Multiset.toFinset_add]
  rfl

/-- There are no more pages than holdings. -/
lemma card_pages_le (held : Multiset (PageId × C × Bool)) :
    (pages held).card ≤ Multiset.card held := by
  have hcard := Multiset.toFinset_card_le (held.map Prod.fst)
  rwa [Multiset.card_map] at hcard

/-- The pinned pages are those that the client holds. -/
lemma Owned.pinnedPages_eq (h : Owned shows frame held free t) : t.pinnedPages = pages held := by
  rw [pinnedPages, h.pins_eq, Multiset.map_map]
  rfl

namespace Shared

/-- The order of the cells does not matter. -/
lemma perm (h : Shared shows others frame held free t) (hheld : held = held')
    (hfree : free = free') : Shared shows others frame held' free' t :=
  ⟨h.owned.perm hheld hfree, h.lt_next⟩

variable [Inhabited D] {frames m : ℕ}

/-- A client that makes quiet calls only, under others. -/
lemma quiet {α : Type} {program : Program (PoolCall D) α} {Q : α → PageStore D → Prop}
    (hquiet : program.Calls PoolCall.IsQuiet) (h : Shared shows others frame held free t)
    (hp : wp (PageStore.handler 0) program Q t) :
    program.Clean (sharedHandler others frames) PoolCall.IsNull
      (fun a t' => Q a t' ∧ ∀ q ∈ others, q < t'.nextPageId) t := by
  refine (clean_of_quiet hquiet hp).mono fun a t' hQ => ⟨hQ.1, fun q hq => ?_⟩
  rw [hQ.2]
  exact h.lt_next q hq

/-- A page that is pinned may be read. -/
lemma read (h : Shared shows others frame ({(p, c, b)} + held) free t) :
    (PageClient.read p).Clean (sharedHandler others frames) PoolCall.IsNull
      (fun x t' => shows x c ∧ Shared shows others frame ({(p, c, b)} + held) free t') t :=
  (h.quiet (PageClient.calls_read p) h.owned.read).mono fun _ _ hQ => ⟨hQ.1.1, hQ.1.2, hQ.2⟩

/-- A page that is pinned may be written. -/
lemma write (h : Shared shows others frame ({(p, c, b)} + held) free t) {x : D}
    (hx : shows x d) :
    (PageClient.write p x).Clean (sharedHandler others frames) PoolCall.IsNull
      (fun _ t' => Shared shows others frame ({(p, d, true)} + held) free t') t :=
  (h.quiet (PageClient.calls_write p x) (h.owned.write hx)).mono fun _ _ hQ => ⟨hQ.1, hQ.2⟩

/-- Ending a pin. -/
lemma unpin {isDirty : Bool} (h : Shared shows others frame ({(p, c, b)} + held) free t)
    (hb : b = true → isDirty = true) :
    (PageClient.unpin p isDirty).Clean (sharedHandler others frames) PoolCall.IsNull
      (fun _ t' => Shared shows others frame held ({(p, c)} + free) t') t :=
  (h.quiet (PageClient.calls_unpin p isDirty) (h.owned.unpin hb)).mono fun _ _ hQ => ⟨hQ.1, hQ.2⟩

/-- Fetching a page needs a frame for it, unless it is pinned already. -/
lemma fetch (h : Shared shows others frame held ({(p, c)} + free) t)
    (hm : (insert p (others ∪ pages held)).card = m) :
    (PageClient.fetch p).HingesOn (sharedHandler others frames) PoolCall.IsNull (m ≤ frames)
      (fun _ t' => Shared shows others frame ({(p, c, false)} + held) free t') t := by
  obtain ⟨x, hx, -⟩ := h.owned.owns_free.content_eq
  have hne : t.content p ≠ none := by simp [hx]
  rw [← h.owned.pinnedPages_eq] at hm
  constructor
  · intro hok
    have hstep : sharedHandler others frames _ (.fetchPage p) t = some (some p, t.pin p) := by
      rw [sharedHandler, if_neg hne, if_pos (hm.trans_le hok)]
    obtain ⟨u, t', hrun, howned⟩ : wp (PageStore.handler ⊤) (PageClient.fetch p) _ t :=
      h.owned.fetch (WithTop.coe_lt_top _)
    obtain rfl : t' = t.pin p := by
      simpa [PageClient.fetch, PageStore.handler, hne, eq_comm] using hrun
    refine ⟨⟨(), t.pin p, ?_, howned, h.lt_next⟩, ?_⟩
    · simp [PageClient.fetch, hstep]
    · rw [PageClient.fetch, meets_bind]
      simp [hstep, PoolCall.IsNull]
  · intro hnot
    have hstep : sharedHandler others frames _ (.fetchPage p) t = some (none, t) := by
      rw [sharedHandler, if_neg hne, if_neg fun hle => hnot (hm.symm.trans_le hle)]
    rw [PageClient.fetch, meets_bind]
    exact .inl ((meets_op ..).2 ⟨none, t, hstep, rfl⟩)

/-- A new page needs a frame. -/
lemma new (h : Shared shows others frame held free t) (hm : (others ∪ pages held).card + 1 = m)
    (hc : shows default c) :
    (PageClient.new : Program (PoolCall D) PageId).HingesOn (sharedHandler others frames)
      PoolCall.IsNull (m ≤ frames)
      (fun p t' => p ∉ others ∧ Shared shows others frame ({(p, c, false)} + held) free t') t := by
  rw [← h.owned.pinnedPages_eq] at hm
  constructor
  · intro hok
    have hstep : sharedHandler others frames _ .newPage t =
        some (some t.nextPageId, t.allocate) := by
      rw [sharedHandler, if_pos (hm.trans_le hok)]
    obtain ⟨p, t', hrun, -, howned⟩ : wp (PageStore.handler ⊤) PageClient.new _ t :=
      h.owned.new (WithTop.coe_lt_top _) hc
    obtain ⟨rfl, rfl⟩ : t.nextPageId = p ∧ t.allocate = t' := by
      simpa [PageClient.new, PageStore.handler] using hrun
    refine ⟨⟨t.nextPageId, t.allocate, ?_, ?_, howned, ?_⟩, ?_⟩
    · simp [PageClient.new, hstep]
    · exact fun hmem => lt_irrefl _ (h.lt_next _ hmem)
    · intro q hq
      have hlt := h.lt_next q hq
      change q < t.nextPageId + 1
      lia
    · rw [PageClient.new, meets_bind]
      simp [hstep, PoolCall.IsNull]
  · intro hnot
    have hstep : sharedHandler others frames _ .newPage t = some (none, t) := by
      rw [sharedHandler, if_neg fun hle => hnot (hm.symm.trans_le hle)]
    rw [PageClient.new, meets_bind]
    exact .inl ((meets_op ..).2 ⟨none, t, hstep, rfl⟩)

end Shared

end PageStore

end OneBase
