import OneBase.Buffer.PageGuard
import OneBase.Lib.Holdings
import Mathlib.Data.Fintype.Basic
import Mathlib.Algebra.BigOperators.Ring.Finset

set_option relaxedAutoImplicit false
set_option autoImplicit false

/-!
# Runs of page guards

The pins of a pool belong to guards and to others. A ledger follows them: a guard that is made
from a page takes over one pin, moves hand it on, and dropping ends its chain of moves. The code
keeps the pin counts, the latches and the dirty flags as the ledger has them.

## Main definitions

* `OneBase.Ledger`, `OneBase.Ledger.record` — who holds the pins, and how a step changes that.
* `OneBase.GuardState.Permits`, `OneBase.GuardStep` — the steps that respect the lifetimes of
  objects, the latches and the pins of others.
* `OneBase.Accounted` — the code agrees with the ledger.

## Main results

* `OneBase.guards_account_of_run` — guards release each pin and each latch exactly once, and hand
  on the dirty flag.
-/

namespace OneBase

open Holdings BufferPoolManager

/-- The pin that a guard made from a page takes over, through the moves that hand it on. -/
structure PinChain where
  pageId : PageId
  frame : FrameId
  /-- Some `BasicPageGuard` of the chain called `GetDataMut`. -/
  mutated : Bool := false
  deriving DecidableEq, Repr

/-- The pins: those of the guards, and of each frame those held elsewhere. -/
structure Ledger (V : Type) where
  held : V → Option PinChain := fun _ => none
  elsewhere : FrameId → ℤ := 0

/-- The pins that go with what a guard holds. -/
def pinsOf : Option PinChain → FrameId → ℤ
  | some c => Pi.single c.frame 1
  | none => 0

namespace Ledger

variable {V D δ : Type} [DecidableEq V] [Inhabited D]

/-- The chain of `u` goes on in `v`. -/
def move (held : V → Option PinChain) (v u : V) : V → Option PinChain :=
  Function.update (Function.update held v (held u)) u none

/-- The ledger after a step in the state `w`. -/
def record (io : DiskIO δ D) (cls : V → GuardClass) (w : GuardState V D δ) (l : Ledger V) :
    GuardOp V → Ledger V
  | .default _ => l
  | .construct v page =>
    match page with
    | none => l
    | some f =>
      { held := Function.update l.held v (some ⟨(w.pool.pages f).pageId, f, false⟩)
        elsewhere := l.elsewhere - Pi.single f 1 }
  | .moveConstruct v u => { l with held := move l.held v u }
  | .moveAssign v u => if v = u then l else { l with held := move l.held v u }
  | .getDataMut v =>
    { l with
      held := Function.update l.held v ((l.held v).map fun c =>
        { c with mutated := c.mutated || decide (cls v = .basic) }) }
  | .drop v => { l with held := Function.update l.held v none }
  | .destroy v => { l with held := Function.update l.held v none }
  | .call op => { l with elsewhere := l.elsewhere + w.pool.granted io op }

end Ledger

/-- A step that respects the lifetimes: constructors run where there is no object and everything
else on objects. A guard is made from a page with a pin that is held elsewhere, when its latch is
grantable; others take back their own pins only, and do not pin a page more often than an `int` can
count. -/
def GuardState.Permits {V D δ : Type} (cls : V → GuardClass) (w : GuardState V D δ)
    (l : Ledger V) : GuardOp V → Prop
  | .default v => w.guards v = none
  | .construct v page =>
    w.guards v = none ∧ ∀ f, page = some f → 0 < l.elsewhere f ∧
      (cls v = .read → (w.latches f).RGrantable) ∧ (cls v = .write → (w.latches f).WGrantable)
  | .moveConstruct v u => w.guards v = none ∧ (w.guards u).isSome ∧ cls v = cls u
  | .moveAssign v u => (w.guards v).isSome ∧ (w.guards u).isSome ∧ cls v = cls u
  | .getDataMut v => cls v ≠ .read ∧ ∃ g, w.guards v = some g ∧ g.page.isSome
  | .drop v => (w.guards v).isSome
  | .destroy v => (w.guards v).isSome
  | .call op => w.pool.Permits op ∧ ¬ w.pool.Overflows op ∧
      ∀ p d, op = .unpinPage p d → ∀ f, w.pool.Resident p f →
        0 < (w.pool.pages f).pinCount → 0 < l.elsewhere f

/-- A permitted step takes the state and its ledger from one to the next. -/
def GuardStep {V D δ : Type} [DecidableEq V] [Inhabited D] (io : DiskIO δ D)
    (cls : V → GuardClass) (x : GuardState V D δ × Ledger V) (op : GuardOp V)
    (y : GuardState V D δ × Ledger V) : Prop :=
  x.1.Permits cls x.2 op ∧ x.1.perform io cls op = pure y.1 ∧ y.2 = x.2.record io cls x.1 op

/-- The guard object agrees with the chain that the ledger has for it. -/
inductive Agrees {D δ : Type} (cls : GuardClass) (pool : BufferPoolManager D δ) :
    Option PageGuard → Option PinChain → Prop
  | dead : Agrees cls pool none none
  | empty (g : PageGuard) (hpage : g.page = none) : Agrees cls pool (some g) none
  | holding (g : PageGuard) (c : PinChain) (hpage : g.page = some c.frame) (hbpm : g.bpm = true)
    (hdirty : cls = .basic → g.isDirty = c.mutated) (hres : pool.Resident c.pageId c.frame) :
    Agrees cls pool (some g) (some c)

/-- The guard variables of this class. -/
def guardsOf {V : Type} [Fintype V] (cls : V → GuardClass) (k : GuardClass) : Finset V :=
  Finset.univ.filter fun v => cls v = k

/-- The code agrees with the ledger. -/
structure Accounted {V D δ : Type} [Fintype V] (cls : V → GuardClass)
    (w : GuardState V D δ) (l : Ledger V) : Prop where
  counted : w.pool.Counted
  elsewhere_nonneg : ∀ f, 0 ≤ l.elsewhere f
  agrees : ∀ v, Agrees (cls v) w.pool (w.guards v) (l.held v)
  pins : ∀ f, (w.pool.pages f).pinCount = total pinsOf Finset.univ l.held f + l.elsewhere f
  readers : ∀ f, ((w.latches f).readers : ℤ) = total pinsOf (guardsOf cls .read) l.held f
  writer : ∀ f, ((w.latches f).writer.toNat : ℤ) = total pinsOf (guardsOf cls .write) l.held f

/-! ## Agreement of a guard with the ledger -/

section Agrees

variable {V D δ : Type} {cls : GuardClass} {pool pool' : BufferPoolManager D δ}
  {g : PageGuard} {slot : Option PageGuard} {chain : Option PinChain} {c : PinChain}

/-- A guard has no pins, or one. -/
lemma pinsOf_nonneg (chain : Option PinChain) (f : FrameId) : 0 ≤ pinsOf chain f := by
  cases chain with
  | none => exact le_rfl
  | some c =>
    rw [pinsOf, Pi.single_apply]
    split <;> norm_num

/-- A guard has one pin of the frame that it holds. -/
@[simp] lemma pinsOf_self (c : PinChain) : pinsOf (some c) c.frame = 1 := Pi.single_eq_same _ _

/-- What is held stays resident in a pool that keeps pinned pages. -/
lemma Agrees.keeps (h : Agrees cls pool slot chain) (hkeeps : pool.KeepsPinned pool')
    (hpos : ∀ c, chain = some c → 0 < (pool.pages c.frame).pinCount) :
    Agrees cls pool' slot chain := by
  cases h with
  | dead => exact .dead
  | empty g hpage => exact .empty g hpage
  | holding g c hpage hbpm hdirty hres =>
    exact .holding g c hpage hbpm hdirty (hkeeps _ _ hres (hpos c rfl))

/-- A guard that was moved from holds nothing. -/
lemma Agrees.none_of_dead (h : Agrees cls pool none chain) : chain = none := by
  cases h
  rfl

/-- A guard holds the page of its chain. -/
lemma Agrees.page_eq (h : Agrees cls pool slot chain) :
    slot.bind PageGuard.page = chain.map PinChain.frame := by
  cases h with
  | dead => rfl
  | empty g hpage => exact hpage
  | holding g c hpage => exact hpage

/-- The page that a guard holds is resident in its frame. -/
lemma Agrees.resident (h : Agrees cls pool slot chain) (hc : chain = some c) :
    pool.Resident c.pageId c.frame := by
  cases h with
  | dead => cases hc
  | empty g hpage => cases hc
  | holding g c' hpage hbpm hdirty hres =>
    obtain rfl : c' = c := Option.some.inj hc
    exact hres

end Agrees

/-! ## Dropping a guard -/

section Drop

variable {V D δ : Type} [Fintype V] {cls : V → GuardClass} {w : GuardState V D δ} {l : Ledger V}
  {u v : V} {g : PageGuard} {c : PinChain} {m : LatchedPool D δ} {slot : Option PageGuard}

/-- The latches that guards of a class hold, for each of its chains. -/
def latchesOf (k k' : GuardClass) (chain : Option PinChain) (f : FrameId) : ℤ :=
  if k' = k then pinsOf chain f else 0

/-- Whether dropping a guard of this class marks the page dirty. -/
def dirties (k : GuardClass) (c : PinChain) : Bool :=
  match k with
  | .basic => c.mutated
  | .read => false
  | .write => true

/-- The pool and the latches after the drop of a guard with this chain. -/
structure GuardDropped (k : GuardClass) (m m' : LatchedPool D δ) (chain : Option PinChain) : Prop where
  counts : m.pool.Counts m'.pool (-pinsOf chain)
  readers : ∀ f, ((m'.latches f).readers : ℤ) = (m.latches f).readers - latchesOf .read k chain f
  writer : ∀ f, ((m'.latches f).writer.toNat : ℤ) =
    (m.latches f).writer.toNat - latchesOf .write k chain f
  page : ∀ c, chain = some c → (m'.pool.pages c.frame).pageId = c.pageId ∧
    (m'.pool.pages c.frame).isDirty = ((m.pool.pages c.frame).isDirty || dirties k c)

/-- The guard variables of a class. -/
lemma mem_guardsOf {k : GuardClass} : v ∈ guardsOf cls k ↔ cls v = k := by
  simp [guardsOf]

/-- What a guard holds is pinned. -/
lemma Accounted.pinned (h : Accounted cls w l) (hc : l.held v = some c) :
    0 < (w.pool.pages c.frame).pinCount := by
  have hle : pinsOf (l.held v) c.frame ≤ total pinsOf Finset.univ l.held c.frame :=
    le_total pinsOf_nonneg (Finset.mem_univ v) c.frame
  rw [hc, pinsOf_self] at hle
  have hpins := h.pins c.frame
  have helse := h.elsewhere_nonneg c.frame
  omega

/-- A variable without a guard holds nothing. -/
lemma Accounted.held_of_dead (h : Accounted cls w l) (hv : w.guards v = none) :
    l.held v = none := by
  have hagrees := h.agrees v
  rw [hv] at hagrees
  exact hagrees.none_of_dead

/-- The latch of a page that a `ReadPageGuard` holds is locked. -/
lemma Accounted.readers_pos (h : Accounted cls w l) (hc : l.held v = some c)
    (hcls : cls v = .read) : (w.latches c.frame).readers ≠ 0 := by
  have hle : pinsOf (l.held v) c.frame ≤ total pinsOf (guardsOf cls .read) l.held c.frame :=
    le_total pinsOf_nonneg (mem_guardsOf.2 hcls) c.frame
  rw [hc, pinsOf_self] at hle
  have hreaders := h.readers c.frame
  omega

/-- The latch of a page that a `WritePageGuard` holds is locked. -/
lemma Accounted.writer_true (h : Accounted cls w l) (hc : l.held v = some c)
    (hcls : cls v = .write) : (w.latches c.frame).writer = true := by
  have hle : pinsOf (l.held v) c.frame ≤ total pinsOf (guardsOf cls .write) l.held c.frame :=
    le_total pinsOf_nonneg (mem_guardsOf.2 hcls) c.frame
  rw [hc, pinsOf_self, ← h.writer] at hle
  cases hwriter : (w.latches c.frame).writer with
  | true => rfl
  | false =>
    rw [hwriter] at hle
    exact absurd hle (by norm_num)

/-- `Drop` with a page. -/
lemma dropWith_holding {unlatch : Latch → Cpp Latch} {isDirty : PageGuard → Bool} {latch : Latch}
    (hpage : g.page = some c.frame) (hbpm : g.bpm = true)
    (hlatch : unlatch (m.latches c.frame) = pure latch) :
    m.dropWith unlatch isDirty g = pure ({},
      { pool := (m.pool.unpinPage (m.pool.pages c.frame).pageId (isDirty g)).2
        latches := Function.update m.latches c.frame latch }) := by
  simp only [LatchedPool.dropWith, hpage, hlatch, pure_bind, hbpm, if_true]

/-- The page that is unpinned is the page of the chain. -/
lemma Accounted.unpin (h : Accounted cls w l) (hc : l.held v = some c)
    (hres : w.pool.Resident c.pageId c.frame) (d : Bool) :
    w.pool.Counts (w.pool.unpinPage (w.pool.pages c.frame).pageId d).2 (-pinsOf (some c)) ∧
      ((w.pool.unpinPage (w.pool.pages c.frame).pageId d).2.pages c.frame).pageId = c.pageId ∧
      ((w.pool.unpinPage (w.pool.pages c.frame).pageId d).2.pages c.frame).isDirty =
        ((w.pool.pages c.frame).isDirty || d) := by
  have hid := h.counted.consistent.pageId_eq _ _ hres
  have hpos := h.pinned hc
  have hcounts := h.counted.unpinPage_pinned hres hpos d
  obtain ⟨s', hunpin, -, -, -, hpages, -⟩ := h.counted.consistent.unpinPage hres hpos d
  rw [hid]
  refine ⟨?_, ?_, ?_⟩
  · rwa [pinsOf, ← Pi.single_neg]
  · rw [hunpin, hpages, Function.update_self]
    exact hid
  · rw [hunpin, hpages, Function.update_self]
    cases d <;> simp

/-- The latches after one of them changed by what the guard held of it. -/
lemma latches_update {k k' : GuardClass} {latches : FrameId → Latch} {latch : Latch}
    (count : Latch → ℤ)
    (h : count latch = count (latches c.frame) - latchesOf k k' (some c) c.frame) (f : FrameId) :
    count (Function.update latches c.frame latch f) =
      count (latches f) - latchesOf k k' (some c) f := by
  by_cases hf : f = c.frame
  · rw [hf, Function.update_self]
    exact h
  · rw [Function.update_of_ne hf]
    simp [latchesOf, pinsOf, hf]

/-- `Drop` with a page, where the latch of the page is held. -/
lemma Accounted.drop_holding (h : Accounted cls w l) (hc : l.held v = some c)
    (hpage : g.page = some c.frame) (hbpm : g.bpm = true)
    (hres : w.pool.Resident c.pageId c.frame) {unlatch : Latch → Cpp Latch}
    {isDirty : PageGuard → Bool} {latch : Latch}
    (hlatch : unlatch (w.latches c.frame) = pure latch) (hdirty : isDirty g = dirties (cls v) c)
    (hreaders : (latch.readers : ℤ) =
      (w.latches c.frame).readers - latchesOf .read (cls v) (some c) c.frame)
    (hwriter : (latch.writer.toNat : ℤ) =
      (w.latches c.frame).writer.toNat - latchesOf .write (cls v) (some c) c.frame) :
    ∃ g' m, w.toLatchedPool.dropWith unlatch isDirty g = pure (g', m) ∧ g'.page = none ∧
      GuardDropped (cls v) w.toLatchedPool m (some c) := by
  obtain ⟨hcounts, hid, hflag⟩ := h.unpin hc hres (dirties (cls v) c)
  refine ⟨_, _, dropWith_holding (m := w.toLatchedPool) hpage hbpm hlatch, rfl, ?_⟩
  rw [hdirty]
  refine ⟨hcounts, ?_, ?_, ?_⟩
  · exact latches_update (fun latch => (latch.readers : ℤ)) hreaders
  · exact latches_update (fun latch => (latch.writer.toNat : ℤ)) hwriter
  · intro c' hc'
    obtain rfl : c = c' := Option.some.inj hc'
    exact ⟨hid, hflag⟩

/-- `Drop` of an object that agrees with the ledger returns, and the object then holds nothing. -/
lemma Accounted.drop (h : Accounted cls w l) (hv : w.guards v = some g) :
    ∃ g' m, LatchedPool.drop (cls v) w.toLatchedPool g = pure (g', m) ∧ g'.page = none ∧
      GuardDropped (cls v) w.toLatchedPool m (l.held v) := by
  have hagrees := h.agrees v
  rw [hv] at hagrees
  generalize hchain : l.held v = chain at hagrees
  cases hagrees with
  | empty g hpage =>
    have hdrop : ∀ unlatch isDirty, w.toLatchedPool.dropWith unlatch isDirty g =
        pure (g, w.toLatchedPool) := by
      intro unlatch isDirty
      simp only [LatchedPool.dropWith, hpage]
    refine ⟨g, w.toLatchedPool, ?_, hpage, ?_, fun f => ?_, fun f => ?_, fun c hc => nomatch hc⟩
    · unfold LatchedPool.drop
      cases cls v with
      | basic => exact hdrop _ _
      | read => exact hdrop _ _
      | write => exact hdrop _ _
    · rw [pinsOf, neg_zero]
      exact h.counted.counts_self
    · simp [latchesOf, pinsOf]
    · simp [latchesOf, pinsOf]
  | holding g c hpage hbpm hdirty hres =>
    have hholding := @Accounted.drop_holding V D δ _ cls w l v g c h hchain hpage hbpm hres
    unfold LatchedPool.drop
    cases hcls : cls v with
    | basic =>
      rw [hcls] at hholding hdirty
      exact hholding rfl (hdirty rfl) (by simp [latchesOf]) (by simp [latchesOf])
    | read =>
      have hlocked := h.readers_pos hchain hcls
      rw [hcls] at hholding
      refine hholding (if_neg hlocked) rfl ?_ (by simp [latchesOf])
      simp only [latchesOf, if_true, pinsOf_self]
      omega
    | write =>
      have hlocked := h.writer_true hchain hcls
      rw [hcls] at hholding
      refine hholding (if_pos hlocked) rfl (by simp [latchesOf]) ?_
      simp [latchesOf, hlocked]

end Drop

/-! ## One step -/

section Step

variable {V D δ : Type} [DecidableEq V] {cls : V → GuardClass} {w : GuardState V D δ}
  {l : Ledger V} {u v : V} {g : PageGuard} {m : LatchedPool D δ} {slot : Option PageGuard}
  {chain : Option PinChain}

/-- One variable changes its object and its chain. -/
lemma agrees_update {pool : BufferPoolManager D δ} {guards : V → Option PageGuard}
    {held : V → Option PinChain} (h : ∀ v, Agrees (cls v) pool (guards v) (held v))
    (hv : Agrees (cls v) pool slot chain) (x : V) :
    Agrees (cls x) pool (Function.update guards v slot x) (Function.update held v chain x) := by
  by_cases hx : x = v
  · subst hx
    rwa [Function.update_self, Function.update_self]
  · rw [Function.update_of_ne hx, Function.update_of_ne hx]
    exact h x

/-- A chain that goes on in another guard stays where it is counted. -/
lemma total_move_held {S : Finset V} {held : V → Option PinChain} (hmem : v ∈ S ↔ u ∈ S)
    (hne : u ≠ v) (hv : held v = none) :
    total pinsOf S (Ledger.move held v u) = total pinsOf S held :=
  total_move hmem hne (show pinsOf none = 0 from rfl) hv

variable [Fintype V]

/-- What the guards of a class have together, after a change of one chain. -/
lemma total_guardsOf_update (k : GuardClass) (held : V → Option PinChain) (v : V)
    (chain : Option PinChain) (f : FrameId) :
    total pinsOf (guardsOf cls k) (Function.update held v chain) f =
      total pinsOf (guardsOf cls k) held f + latchesOf k (cls v) chain f -
        latchesOf k (cls v) (held v) f := by
  rw [total_update, Pi.add_apply, latchesOf, latchesOf]
  by_cases hv : cls v = k
  · rw [if_pos (mem_guardsOf.2 hv), if_pos hv, if_pos hv, Pi.sub_apply]
    omega
  · rw [if_neg fun hmem => hv (mem_guardsOf.1 hmem), if_neg hv, if_neg hv, Pi.zero_apply]
    omega

/-- What all guards have together, after a change of one chain. -/
lemma total_univ_update (held : V → Option PinChain) (v : V) (chain : Option PinChain) (f : FrameId) :
    total pinsOf Finset.univ (Function.update held v chain) f =
      total pinsOf Finset.univ held f + pinsOf chain f - pinsOf (held v) f := by
  rw [total_update, if_pos (Finset.mem_univ v), Pi.add_apply, Pi.sub_apply]
  omega

/-- A guard that is dropped gives up its chain. -/
lemma Accounted.release (h : Accounted cls w l)
    (hdropped : GuardDropped (cls v) w.toLatchedPool m (l.held v))
    (hslot : Agrees (cls v) m.pool slot none) :
    Accounted cls { toLatchedPool := m, guards := Function.update w.guards v slot }
      { l with held := Function.update l.held v none } where
  counted := hdropped.counts.counted h.counted
  elsewhere_nonneg := h.elsewhere_nonneg
  agrees := by
    refine agrees_update (fun x => ?_) hslot
    exact (h.agrees x).keeps hdropped.counts.preserved.keeps fun c hc => h.pinned hc
  pins f := by
    have hnone : pinsOf none f = 0 := rfl
    rw [total_univ_update, hdropped.counts.pinCount_eq, h.pins, Pi.neg_apply, hnone]
    dsimp only
    omega
  readers f := by
    rw [total_guardsOf_update, hdropped.readers, h.readers]
    simp [latchesOf, pinsOf]
  writer f := by
    rw [total_guardsOf_update, hdropped.writer, h.writer]
    simp [latchesOf, pinsOf]

/-- A guard hands on its page to an object that holds nothing. -/
lemma Accounted.move (h : Accounted cls w l) (hv : l.held v = none) (hu : w.guards u = some g)
    (hne : u ≠ v) (hcls : cls v = cls u) {left : PageGuard} (hleft : left.page = none) :
    Accounted cls
      { w with guards := Function.update (Function.update w.guards v (some g)) u (some left) }
      { l with held := Ledger.move l.held v u } where
  counted := h.counted
  elsewhere_nonneg := h.elsewhere_nonneg
  agrees := by
    have hu' := h.agrees u
    rw [hu, ← hcls] at hu'
    exact agrees_update (agrees_update h.agrees hu') (.empty left hleft)
  pins f := by
    rw [total_move_held (by simp) hne hv]
    exact h.pins f
  readers f := by
    rw [total_move_held (by rw [mem_guardsOf, mem_guardsOf, hcls]) hne hv]
    exact h.readers f
  writer f := by
    rw [total_move_held (by rw [mem_guardsOf, mem_guardsOf, hcls]) hne hv]
    exact h.writer f

/-- A chain of the same page. -/
lemma Accounted.regrade (h : Accounted cls w l) {c c' : PinChain} (hv : l.held v = some c)
    (hframe : c'.frame = c.frame) (hslot : Agrees (cls v) w.pool slot (some c')) :
    Accounted cls (w.setGuard v slot) { l with held := Function.update l.held v (some c') } where
  counted := h.counted
  elsewhere_nonneg := h.elsewhere_nonneg
  agrees := agrees_update h.agrees hslot
  pins f := by
    have hsame : pinsOf (some c') f = pinsOf (l.held v) f := by rw [hv, pinsOf, pinsOf, hframe]
    rw [total_univ_update, hsame, add_sub_cancel_right]
    exact h.pins f
  readers f := by
    have hsame : latchesOf .read (cls v) (some c') f = latchesOf .read (cls v) (l.held v) f := by
      rw [hv, latchesOf, latchesOf, pinsOf, pinsOf, hframe]
    rw [total_guardsOf_update, hsame, add_sub_cancel_right]
    exact h.readers f
  writer f := by
    have hsame : latchesOf .write (cls v) (some c') f = latchesOf .write (cls v) (l.held v) f := by
      rw [hv, latchesOf, latchesOf, pinsOf, pinsOf, hframe]
    rw [total_guardsOf_update, hsame, add_sub_cancel_right]
    exact h.writer f

/-- An object without a page changes. -/
lemma Accounted.setEmpty (h : Accounted cls w l) (hv : l.held v = none)
    (hslot : Agrees (cls v) w.pool slot none) : Accounted cls (w.setGuard v slot) l where
  counted := h.counted
  elsewhere_nonneg := h.elsewhere_nonneg
  agrees := by
    have hupdate := agrees_update h.agrees hslot
    rw [← hv, Function.update_eq_self] at hupdate
    exact hupdate
  pins := h.pins
  readers := h.readers
  writer := h.writer

variable [Inhabited D] {io : DiskIO δ D}

/-- The latches after the constructor of a guard. -/
lemma readers_latch (k : GuardClass) (latch : Latch) :
    ((LatchedPool.latch k latch).readers : ℤ) = latch.readers + if k = .read then 1 else 0 := by
  cases k <;> simp [LatchedPool.latch, Latch.rLock, Latch.wLock]

/-- The writer of a latch after a guard was constructed: a write guard is the writer, the others
leave the latch as it is.

**Proof sketch.** By the class of the guard. A write guard is granted the latch only if it had no
writer, so that the number of writers goes from zero to one. -/
lemma writer_latch (k : GuardClass) (latch : Latch) (hwrite : k = .write → latch.WGrantable) :
    ((LatchedPool.latch k latch).writer.toNat : ℤ) =
      latch.writer.toNat + if k = .write then 1 else 0 := by
  cases k with
  | basic => simp [LatchedPool.latch]
  | read => simp [LatchedPool.latch, Latch.rLock]
  | write => simp [LatchedPool.latch, Latch.wLock, (hwrite rfl).1]

/-- One latch changes by what the new chain holds of it. -/
lemma latches_construct {k k' : GuardClass} {latches : FrameId → Latch} {latch : Latch}
    (count : Latch → ℤ) {c : PinChain} {held : Option PinChain} (hheld : held = none)
    (h : count latch = count (latches c.frame) + if k' = k then 1 else 0) (f : FrameId) :
    count (Function.update latches c.frame latch f) =
      count (latches f) + latchesOf k k' (some c) f - latchesOf k k' held f := by
  subst hheld
  by_cases hf : f = c.frame
  · subst hf
    rw [Function.update_self, h]
    simp [latchesOf, pinsOf]
  · rw [Function.update_of_ne hf]
    simp [latchesOf, pinsOf, hf]

/-- A guard is made from a page with a pin that was held elsewhere. -/
lemma Accounted.construct (h : Accounted cls w l) {f : FrameId}
    (hop : w.Permits cls l (.construct v (some f))) :
    Accounted cls
      { toLatchedPool := (LatchedPool.construct (cls v) w.toLatchedPool (some f)).2
        guards := Function.update w.guards v
          (some (LatchedPool.construct (cls v) w.toLatchedPool (some f)).1) }
      (l.record io cls w (.construct v (some f))) := by
  obtain ⟨hdead, hpage⟩ := hop
  obtain ⟨hpin, -, hwrite⟩ := hpage f rfl
  have hnone := h.held_of_dead hdead
  have hpos : 0 < (w.pool.pages f).pinCount := by
    have hge : 0 ≤ total pinsOf Finset.univ l.held f :=
      (pinsOf_nonneg _ f).trans (le_total pinsOf_nonneg (Finset.mem_univ v) f)
    rw [h.pins]
    omega
  obtain ⟨p, hres⟩ := h.counted.pins_resident f hpos
  have hid := h.counted.consistent.pageId_eq p f hres
  set c : PinChain := ⟨(w.pool.pages f).pageId, f, false⟩ with hc
  refine ⟨h.counted, fun x => ?_, ?_, fun x => ?_, fun x => ?_, fun x => ?_⟩
  · have hx := h.elsewhere_nonneg x
    show 0 ≤ (l.elsewhere - (Pi.single f 1 : FrameId → ℤ)) x
    rw [Pi.sub_apply, Pi.single_apply]
    split
    · rename_i hxf
      subst hxf
      omega
    · omega
  · refine agrees_update h.agrees ?_
    refine .holding _ c rfl rfl (fun _ => rfl) ?_
    rw [hc, hid]
    exact hres
  · show (w.pool.pages x).pinCount =
      total pinsOf Finset.univ (Function.update l.held v (some c)) x +
        (l.elsewhere - (Pi.single f 1 : FrameId → ℤ)) x
    have hpins : pinsOf (some c) x = (Pi.single f 1 : FrameId → ℤ) x := rfl
    have hzero : pinsOf none x = 0 := rfl
    rw [total_univ_update, h.pins, hnone, hzero, hpins, Pi.sub_apply]
    omega
  · show ((Function.update w.latches f (LatchedPool.latch (cls v) (w.latches f)) x).readers : ℤ) =
      total pinsOf (guardsOf cls .read) (Function.update l.held v (some c)) x
    rw [total_guardsOf_update, ← h.readers]
    exact latches_construct (fun latch => (latch.readers : ℤ)) (c := c) hnone
      (readers_latch _ _) x
  · show ((Function.update w.latches f (LatchedPool.latch (cls v) (w.latches f)) x).writer.toNat : ℤ) =
      total pinsOf (guardsOf cls .write) (Function.update l.held v (some c)) x
    rw [total_guardsOf_update, ← h.writer]
    exact latches_construct (fun latch => (latch.writer.toNat : ℤ)) (c := c) hnone
      (writer_latch _ _ hwrite) x

/-- A call of the pool, where others take back their own pins only. -/
lemma Accounted.call (h : Accounted cls w l) (hio : io.Reliable) {op : PoolOp}
    (hop : w.Permits cls l (.call op)) :
    ∃ pool, w.pool.perform io op = (.ok (), pool) ∧
      Accounted cls { w with pool := pool } (l.record io cls w (.call op)) := by
  obtain ⟨hpermits, hdefined, hunpin⟩ := hop
  obtain ⟨pool, hperform, -⟩ := h.counted.consistent.perform hio hpermits
  have hcounts := h.counted.step hio ⟨hpermits, hdefined, hperform⟩
  refine ⟨pool, hperform, ?_⟩
  refine ⟨hcounts.counted h.counted, fun f => ?_, fun x => ?_, fun f => ?_, h.readers, h.writer⟩
  · have hold := h.elsewhere_nonneg f
    show 0 ≤ l.elsewhere f + w.pool.granted io op f
    rcases w.pool.granted_cases io op f with hge | ⟨heq, p, d, rfl, hres, hpos⟩
    · omega
    · have hpin := hunpin p d rfl f hres hpos
      omega
  · exact (h.agrees x).keeps hcounts.preserved.keeps fun c hc => h.pinned hc
  · show (pool.pages f).pinCount =
      total pinsOf Finset.univ l.held f + (l.elsewhere + w.pool.granted io op) f
    rw [hcounts.pinCount_eq, h.pins, Pi.add_apply]
    omega

/-- **A permitted step returns and keeps the accounts.** One case for each operation. -/
lemma Accounted.perform (h : Accounted cls w l) (hio : io.Reliable) {op : GuardOp V}
    (hop : w.Permits cls l op) :
    ∃ w', w.perform io cls op = pure w' ∧ Accounted cls w' (l.record io cls w op) := by
  cases op with
  | default v => exact ⟨_, rfl, h.setEmpty (h.held_of_dead hop) (.empty _ rfl)⟩
  | construct v page =>
    cases page with
    | none => exact ⟨_, rfl, h.setEmpty (h.held_of_dead hop.1) (.empty _ rfl)⟩
    | some f => exact ⟨_, rfl, h.construct hop⟩
  | moveConstruct v u =>
    obtain ⟨hdead, halive, hcls⟩ := hop
    obtain ⟨that, hu⟩ := Option.isSome_iff_exists.1 halive
    have hne : u ≠ v := by
      rintro rfl
      rw [hdead] at hu
      cases hu
    have hperform : w.perform io cls (.moveConstruct v u) =
        pure ((w.setGuard v (some that)).setGuard u (some that.movedFrom)) := by
      simp only [GuardState.perform, hu]
    exact ⟨_, hperform, h.move (h.held_of_dead hdead) hu hne hcls rfl⟩
  | moveAssign v u =>
    obtain ⟨hvAlive, huAlive, hcls⟩ := hop
    obtain ⟨this, hv⟩ := Option.isSome_iff_exists.1 hvAlive
    obtain ⟨that, hu⟩ := Option.isSome_iff_exists.1 huAlive
    by_cases hvu : v = u
    · refine ⟨w, by simp only [GuardState.perform, hv, hu, if_pos hvu], ?_⟩
      rwa [Ledger.record, if_pos hvu]
    · obtain ⟨g', m, hdrop, hpage, hdropped⟩ := h.drop hv
      have hperform : w.perform io cls (.moveAssign v u) = pure
          { toLatchedPool := m
            guards := Function.update (Function.update w.guards v (some that)) u (some {}) } := by
        simp only [GuardState.perform, hv, hu, if_neg hvu, hdrop, pure_bind]
      refine ⟨_, hperform, ?_⟩
      rw [Ledger.record, if_neg hvu]
      -- first the page of `v` is dropped, then that of `u` is handed on
      have hslot : Agrees (cls v) m.pool (some g') none := .empty g' hpage
      have hreleased := h.release hdropped hslot
      have hu' : Function.update w.guards v (some g') u = some that := by
        rw [Function.update_of_ne (Ne.symm hvu), hu]
      have hmoved := hreleased.move (Function.update_self ..) hu' (Ne.symm hvu) hcls
        (show ({} : PageGuard).page = none from rfl)
      simp only [Ledger.move, Function.update_idem, Function.update_of_ne (Ne.symm hvu)] at hmoved
      exact hmoved
  | getDataMut v =>
    obtain ⟨hclass, g, hv, hpage⟩ := hop
    have hagrees := h.agrees v
    rw [hv] at hagrees
    generalize hchain : l.held v = chain at hagrees
    cases hagrees with
    | empty g hnone => simp [hnone] at hpage
    | holding g c hpage hbpm hdirty hres =>
      cases hcls : cls v with
      | read => exact absurd hcls hclass
      | basic =>
        have hperform : w.perform io cls (.getDataMut v) =
            pure (w.setGuard v (some { g with isDirty := true })) := by
          simp only [GuardState.perform, hv, hcls, GuardState.getDataMut, hpage, pure_bind]
        refine ⟨_, hperform, ?_⟩
        rw [Ledger.record, hchain, Option.map_some, hcls]
        exact h.regrade hchain rfl (.holding _ _ hpage hbpm (fun _ => by simp) hres)
      | write =>
        have hperform : w.perform io cls (.getDataMut v) = pure (w.setGuard v (some g)) := by
          simp only [GuardState.perform, hv, hcls, GuardState.getDataMut, hpage, pure_bind]
        refine ⟨_, hperform, ?_⟩
        rw [Ledger.record, hchain, Option.map_some, hcls]
        refine h.regrade hchain rfl (.holding _ _ hpage hbpm (fun hbasic => ?_) hres)
        rw [hcls] at hbasic
        cases hbasic
  | drop v =>
    obtain ⟨g, hv⟩ := Option.isSome_iff_exists.1 hop
    obtain ⟨g', m, hdrop, hpage, hdropped⟩ := h.drop hv
    have hperform : w.perform io cls (.drop v) = pure
        { toLatchedPool := m, guards := Function.update w.guards v (some g') } := by
      simp only [GuardState.perform, hv, hdrop, pure_bind]
    exact ⟨_, hperform, h.release hdropped (.empty g' hpage)⟩
  | destroy v =>
    obtain ⟨g, hv⟩ := Option.isSome_iff_exists.1 hop
    obtain ⟨g', m, hdrop, hpage, hdropped⟩ := h.drop hv
    have hperform : w.perform io cls (.destroy v) = pure
        { toLatchedPool := m, guards := Function.update w.guards v none } := by
      simp only [GuardState.perform, hv, hdrop, pure_bind]
    exact ⟨_, hperform, h.release hdropped .dead⟩
  | call op =>
    obtain ⟨pool, hperform, haccounted⟩ := h.call hio hop
    have hcall : w.perform io cls (.call op) = pure { w with pool := pool } := by
      simp only [GuardState.perform, hperform]
    exact ⟨_, hcall, haccounted⟩

/-- The step ends the chain of moves that `v` holds. -/
def GuardOp.Releases (v : V) : GuardOp V → Prop
  | .drop x => x = v
  | .destroy x => x = v
  | .moveAssign x u => x = v ∧ u ≠ v
  | _ => False

variable (io) in
/-- A step that ends a chain of moves drops it once. -/
lemma Accounted.released (h : Accounted cls w l) {op : GuardOp V} (hop : w.Permits cls l op)
    (hreleases : op.Releases v) :
    ∃ w', w.perform io cls op = pure w' ∧
      GuardDropped (cls v) w.toLatchedPool w'.toLatchedPool (l.held v) := by
  cases op with
  | drop x =>
    obtain rfl : x = v := hreleases
    obtain ⟨g, hv⟩ := Option.isSome_iff_exists.1 hop
    obtain ⟨g', m, hdrop, -, hdropped⟩ := h.drop hv
    refine ⟨{ toLatchedPool := m, guards := Function.update w.guards x (some g') }, ?_, hdropped⟩
    simp only [GuardState.perform, hv, hdrop, pure_bind]
  | destroy x =>
    obtain rfl : x = v := hreleases
    obtain ⟨g, hv⟩ := Option.isSome_iff_exists.1 hop
    obtain ⟨g', m, hdrop, -, hdropped⟩ := h.drop hv
    refine ⟨{ toLatchedPool := m, guards := Function.update w.guards x none }, ?_, hdropped⟩
    simp only [GuardState.perform, hv, hdrop, pure_bind]
  | moveAssign x u =>
    obtain ⟨rfl, hne⟩ := hreleases
    obtain ⟨this, hv⟩ := Option.isSome_iff_exists.1 hop.1
    obtain ⟨that, hu⟩ := Option.isSome_iff_exists.1 hop.2.1
    obtain ⟨g', m, hdrop, -, hdropped⟩ := h.drop hv
    refine ⟨{ toLatchedPool := m
              guards := Function.update (Function.update w.guards x (some that)) u (some {}) }, ?_,
      hdropped⟩
    simp only [GuardState.perform, hv, hu, if_neg (Ne.symm hne), hdrop, pure_bind]
  | default x => exact hreleases.elim
  | construct x page => exact hreleases.elim
  | moveConstruct x u => exact hreleases.elim
  | getDataMut x => exact hreleases.elim
  | call op => exact hreleases.elim

end Step

/-! ## Runs -/

section Runs

variable {V D δ : Type} [DecidableEq V] [Fintype V] {cls : V → GuardClass}
  {w : GuardState V D δ} {l : Ledger V}

/-- The number of these guard objects that hold the page in the frame. -/
def GuardState.holders (w : GuardState V D δ) (S : Finset V) (f : FrameId) : ℕ :=
  (S.filter fun v => (w.guards v).bind PageGuard.page = some f).card

omit [DecidableEq V] in
/-- The objects hold the pages that the ledger has for them. -/
lemma Accounted.total_eq_holders (h : Accounted cls w l) (S : Finset V) (f : FrameId) :
    total pinsOf S l.held f = w.holders S f := by
  rw [total, Finset.sum_apply, GuardState.holders, Finset.card_filter, Nat.cast_sum]
  apply Finset.sum_congr rfl
  intro v _
  rw [(h.agrees v).page_eq]
  cases l.held v with
  | none => rfl
  | some c =>
    rw [pinsOf, Pi.single_apply]
    by_cases hf : f = c.frame
    · simp [hf]
    · simp [hf, Ne.symm hf]

variable [Inhabited D] {io : DiskIO δ D}

omit [DecidableEq V] in
/-- At first nobody holds anything. -/
lemma accounted_init (poolSize k : ℕ) (disk : δ) {next : PageId} (hnext : 0 ≤ next) :
    Accounted cls
      { pool := init poolSize k disk next, guards := fun _ => none : GuardState V D δ } {} where
  counted := counted_init poolSize k disk hnext
  elsewhere_nonneg _ := le_rfl
  agrees _ := .dead
  pins f := by simp [total, pinsOf, init, default]
  readers f := by simp [total, pinsOf]
  writer f := by simp [total, pinsOf]

/-- Every run keeps the accounts. -/
lemma accounted_of_run (hio : io.Reliable) {poolSize k : ℕ} {disk : δ} {next : PageId}
    (hnext : 0 ≤ next) {ops : List (GuardOp V)} {x : GuardState V D δ × Ledger V}
    (hrun : Transition.Run (GuardStep io cls) ({ pool := init poolSize k disk next }, {}) ops x) :
    Accounted cls x.1 x.2 := by
  refine hrun.invariant (I := fun x => Accounted cls x.1 x.2) ?_
    (accounted_init poolSize k disk hnext)
  rintro x op y h ⟨hop, hperform, hrecord⟩
  obtain ⟨w', hw', haccounted⟩ := h.perform hio hop
  obtain rfl : w' = y.1 := Except.ok.inj (Option.some.inj (hw'.symm.trans hperform))
  rwa [hrecord]

/-- **Page guards release each pin and each latch exactly once.** In every run from the constructor
of the pool, the pin count of a frame is the number of guards that hold its page and of the pins
held elsewhere, and its latch is held once by each `ReadPageGuard` or `WritePageGuard` that does.
No permitted step is undefined. The step that ends a chain of moves unpins the
page, and marks it dirty if a `BasicPageGuard` of the chain gave out mutable data or the guard is a
`WritePageGuard`; otherwise the flag stays. -/
theorem guards_account_of_run (hio : io.Reliable) {poolSize k : ℕ} {disk : δ} {next : PageId}
    (hnext : 0 ≤ next) {ops : List (GuardOp V)}
    (hrun : Transition.Run (GuardStep io cls) ({ pool := init poolSize k disk next }, {}) ops
      (w, l)) :
    (∀ f, (w.pool.pages f).pinCount = w.holders Finset.univ f + l.elsewhere f ∧
        (w.latches f).readers = w.holders (guardsOf cls .read) f ∧
        (w.latches f).writer.toNat = w.holders (guardsOf cls .write) f) ∧
      (∀ v, (w.guards v).bind PageGuard.page = (l.held v).map PinChain.frame) ∧
      (∀ op, w.Permits cls l op → ∃ w', w.perform io cls op = pure w') ∧
      ∀ op v c, w.Permits cls l op → op.Releases v → l.held v = some c →
        ∃ w', w.perform io cls op = pure w' ∧
          (w'.pool.pages c.frame).pinCount = (w.pool.pages c.frame).pinCount - 1 ∧
          (w.pool.pages c.frame).pageId = c.pageId ∧ (w'.pool.pages c.frame).pageId = c.pageId ∧
          (w'.pool.pages c.frame).isDirty =
            ((w.pool.pages c.frame).isDirty || dirties (cls v) c) := by
  have h : Accounted cls w l := accounted_of_run hio hnext hrun
  refine ⟨fun f => ⟨?_, ?_, ?_⟩, fun v => (h.agrees v).page_eq, fun op hop => ?_, ?_⟩
  · rw [h.pins, h.total_eq_holders]
  · have hreaders := h.readers f
    rw [h.total_eq_holders] at hreaders
    exact_mod_cast hreaders
  · have hwriter := h.writer f
    rw [h.total_eq_holders] at hwriter
    exact_mod_cast hwriter
  · obtain ⟨w', hperform, -⟩ := h.perform hio hop
    exact ⟨w', hperform⟩
  · intro op v c hop hreleases hc
    obtain ⟨w', hperform, hdropped⟩ := h.released io hop hreleases
    obtain ⟨hid, hdirty⟩ := hdropped.page c hc
    have hpin := hdropped.counts.pinCount_eq c.frame
    rw [hc, Pi.neg_apply, pinsOf_self] at hpin
    have hres := (h.agrees v).resident hc
    exact ⟨w', hperform, hpin, h.counted.consistent.pageId_eq _ _ hres, hid, hdirty⟩

/-- A guard is made from a new page, gives out mutable data and hands the page on to a second one.
Dropping that one leaves the page dirty and unpinned. -/
theorem guards_account_of_run_move :
    ∃ (w : GuardState Bool ℕ (PageId → ℕ)) (l : Ledger Bool),
      Transition.Run (GuardStep (idealDisk ℕ) fun _ => .basic)
        ({ pool := init 1 1 (fun _ => 0) 0 }, {})
        [.call .newPage, .construct false (some 0), .getDataMut false, .moveConstruct true false]
        (w, l) ∧
      (w.pool.pages 0).pinCount = 1 ∧
      ∃ w', w.perform (idealDisk ℕ) (fun _ => .basic) (.drop true) = pure w' ∧
        (w'.pool.pages 0).pinCount = 0 ∧ (w'.pool.pages 0).isDirty = true := by
  let cls : Bool → GuardClass := fun _ => .basic
  let io := idealDisk ℕ
  let w₀ : GuardState Bool ℕ (PageId → ℕ) := { pool := init 1 1 (fun _ => 0) 0 }
  let w₁ : GuardState Bool ℕ (PageId → ℕ) := { w₀ with pool := (w₀.pool.newPage io).2 }
  let l₁ : Ledger Bool := Ledger.record io cls w₀ {} (.call .newPage)
  let w₂ : GuardState Bool ℕ (PageId → ℕ) :=
    { toLatchedPool := (LatchedPool.construct .basic w₁.toLatchedPool (some 0)).2
      guards := Function.update w₁.guards false (some { bpm := true, page := some 0 }) }
  let l₂ := l₁.record io cls w₁ (.construct false (some 0))
  let w₃ := w₂.setGuard false (some { bpm := true, page := some 0, isDirty := true })
  let l₃ := l₂.record io cls w₂ (.getDataMut false)
  let w₄ := (w₃.setGuard true (some { bpm := true, page := some 0, isDirty := true })).setGuard false
    (some { isDirty := true })
  let l₄ := l₃.record io cls w₃ (.moveConstruct true false)
  have hcall : GuardStep io cls (w₀, {}) (.call .newPage) (w₁, l₁) :=
    ⟨⟨trivial, id, fun p d h => nomatch h⟩, rfl, rfl⟩
  have hconstruct : GuardStep io cls (w₁, l₁) (.construct false (some 0)) (w₂, l₂) := by
    refine ⟨⟨rfl, fun f hf => ?_⟩, rfl, rfl⟩
    obtain rfl : (0 : FrameId) = f := Option.some.inj hf
    have hread : GuardClass.basic ≠ .read := by decide
    have hwrite : GuardClass.basic ≠ .write := by decide
    exact ⟨by decide, fun h => absurd h hread, fun h => absurd h hwrite⟩
  have hmutate : GuardStep io cls (w₂, l₂) (.getDataMut false) (w₃, l₃) :=
    ⟨⟨by decide, _, rfl, rfl⟩, rfl, rfl⟩
  have hmove : GuardStep io cls (w₃, l₃) (.moveConstruct true false) (w₄, l₄) :=
    ⟨⟨rfl, rfl, rfl⟩, rfl, rfl⟩
  have hrun : Transition.Run (GuardStep io cls) (w₀, {})
      [.call .newPage, .construct false (some 0), .getDataMut false, .moveConstruct true false]
      (w₄, l₄) :=
    .cons hcall (.cons hconstruct (.cons hmutate (.cons hmove (.nil _))))
  obtain ⟨-, -, -, hrelease⟩ := guards_account_of_run (idealDisk_reliable ℕ) le_rfl hrun
  obtain ⟨w', hdrop, hpin, -, -, hdirty⟩ :=
    hrelease (.drop true) true ⟨0, 0, true⟩ rfl rfl rfl
  exact ⟨w₄, l₄, hrun, rfl, w', hdrop, hpin, hdirty⟩

end Runs

end OneBase
