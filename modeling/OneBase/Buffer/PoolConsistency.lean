import OneBase.Buffer.BufferPoolManager
import OneBase.Lib.Transition
import Mathlib.Tactic.Linarith

set_option relaxedAutoImplicit false
set_option autoImplicit false

/-!
# Consistency of the buffer pool

The page table, the free list, the replacer and the metadata of the frames describe one
partition of the frames into free and resident ones. The invariant is kept by every operation,
through the moment at which a frame has been taken for a page and not yet installed.

## Main definitions

* `OneBase.BufferPoolManager.Filed` — what the free list, the page table and the frames say of each
  other, whatever the replacer tracks.
* `OneBase.BufferPoolManager.Consistent` — the invariant, with the frame in hand, if any.

## Main results

* `OneBase.BufferPoolManager.Consistent.takeFrame`, `Consistent.installPage` — the two halves of
  `NewPage` and of the miss of `FetchPage`.
* `OneBase.BufferPoolManager.Consistent.step` — every step keeps the invariant.
* `OneBase.BufferPoolManager.pool_invariant_of_run` — the invariant and its consequences hold in
  every reachable state.
-/

namespace OneBase

namespace BufferPoolManager

variable {D δ : Type}

/-- The page `p` is resident in the frame `f`. -/
def Resident (s : BufferPoolManager D δ) (p : PageId) (f : FrameId) : Prop :=
  s.pageTable.lookup p = some f

/-- What the free list, the page table and the frames say of each other, whatever the replacer
tracks. -/
structure Filed (s : BufferPoolManager D δ) : Prop where
  free_nodup : s.freeList.Nodup
  free_lt : ∀ f ∈ s.freeList, f < s.poolSize
  resident_lt : ∀ p f, s.Resident p f → f < s.poolSize
  resident_not_free : ∀ p f, s.Resident p f → f ∉ s.freeList
  resident_inj : ∀ p q f, s.Resident p f → s.Resident q f → p = q
  pageId_eq : ∀ p f, s.Resident p f → (s.pages f).pageId = p
  pin_nonneg : ∀ f, 0 ≤ (s.pages f).pinCount
  resident_lt_next : ∀ p f, s.Resident p f → p < s.nextPageId

/-- The representation invariant of the pool. The frame `held`, if there is one, was taken by
`takeFrame` and is not yet installed: it is neither free nor resident. -/
structure Consistent (s : BufferPoolManager D δ) (held : Option FrameId) : Prop where
  free_nodup : s.freeList.Nodup
  free_lt : ∀ f ∈ s.freeList, f < s.poolSize
  resident_lt : ∀ p f, s.Resident p f → f < s.poolSize
  held_lt : ∀ f, held = some f → f < s.poolSize
  cover : ∀ f < s.poolSize, f ∈ s.freeList ∨ (∃ p, s.Resident p f) ∨ held = some f
  resident_not_free : ∀ p f, s.Resident p f → f ∉ s.freeList
  held_not_free : ∀ f, held = some f → f ∉ s.freeList
  held_not_resident : ∀ p f, held = some f → ¬ s.Resident p f
  resident_inj : ∀ p q f, s.Resident p f → s.Resident q f → p = q
  pageId_eq : ∀ p f, s.Resident p f → (s.pages f).pageId = p
  pin_nonneg : ∀ f, 0 ≤ (s.pages f).pinCount
  tracked_iff : ∀ f, s.replacer.IsTracked f ↔ ∃ p, s.Resident p f
  evictable_iff : ∀ p f, s.Resident p f → (s.replacer.IsEvictable f ↔ (s.pages f).pinCount = 0)
  size_ok : s.replacer.SizeOk
  maxFrames_eq : s.replacer.maxFrames = s.poolSize
  resident_allocated : ∀ p f, s.Resident p f → 0 ≤ p ∧ p < s.nextPageId
  next_nonneg : 0 ≤ s.nextPageId

/-- Every pin count is an `int`. -/
def PinsFit (s : BufferPoolManager D δ) : Prop := ∀ f, (s.pages f).pinCount ≤ maxPinCount

/-- Every frame holds a pinned page. -/
def AllPinned (s : BufferPoolManager D δ) : Prop :=
  ∀ f < s.poolSize, ∃ p, s.Resident p f ∧ 0 < (s.pages f).pinCount

/-- A page pinned in `s` keeps its frame in `s'`. -/
def KeepsPinned (s s' : BufferPoolManager D δ) : Prop :=
  ∀ p f, s.Resident p f → 0 < (s.pages f).pinCount → s'.Resident p f

/-- Changing what a frame contains leaves the page table alone. -/
@[simp] lemma setPage_resident (s : BufferPoolManager D δ) (f : FrameId) (page : Page D)
    (p : PageId) (g : FrameId) : (s.setPage f page).Resident p g ↔ s.Resident p g := Iff.rfl

/-- After a page was filed under a frame, this page is resident there, and the others where they
were. -/
lemma insert_resident {s : BufferPoolManager D δ} {p q : PageId} {f g : FrameId} :
    ({ s with pageTable := s.pageTable.insert p f } : BufferPoolManager D δ).Resident q g ↔
      if q = p then g = f else s.Resident q g := by
  unfold Resident
  split_ifs with h
  · subst h
    simp [eq_comm]
  · simp [AList.lookup_insert_ne h]

/-- After a page was erased, it is not resident any more, and the others are where they were. -/
lemma erase_resident {s : BufferPoolManager D δ} {p q : PageId} {g : FrameId} :
    ({ s with pageTable := s.pageTable.erase p } : BufferPoolManager D δ).Resident q g ↔
      q ≠ p ∧ s.Resident q g := by
  unfold Resident
  by_cases h : q = p
  · subst h
    simp
  · simp [AList.lookup_erase_ne h, h]

variable [Inhabited D]

/-- The constructor builds a consistent pool. -/
lemma consistent_init (poolSize k : ℕ) (disk : δ) (next : PageId) (hnext : 0 ≤ next) :
    (init poolSize k disk next : BufferPoolManager D δ).Consistent none := by
  have hres : ∀ p f, ¬ (init poolSize k disk next : BufferPoolManager D δ).Resident p f := by
    intro p f h
    cases (AList.lookup_empty p).symm.trans h
  refine ⟨List.nodup_range, by simp [init], fun p f h => absurd h (hres p f), by simp,
    fun f hf => .inl (List.mem_range.2 hf), fun p f h => absurd h (hres p f), by simp, by simp,
    fun p q f h => absurd h (hres p f), fun p f h => absurd h (hres p f), ?_, ?_,
    fun p f h => absurd h (hres p f), ?_, rfl, fun p f h => absurd h (hres p f), hnext⟩
  · intro f
    exact le_rfl
  · intro f
    constructor
    · intro h
      cases h
    · rintro ⟨p, hp⟩
      exact absurd hp (hres p f)
  · rfl

section Steps

variable {s s' : BufferPoolManager D δ} {held : Option FrameId} {io : DiskIO δ D}

omit [Inhabited D]

/-- A consistent pool has its pages filed. -/
lemma Consistent.filed (h : s.Consistent held) : s.Filed where
  free_nodup := h.free_nodup
  free_lt := h.free_lt
  resident_lt := h.resident_lt
  resident_not_free := h.resident_not_free
  resident_inj := h.resident_inj
  pageId_eq := h.pageId_eq
  pin_nonneg := h.pin_nonneg
  resident_lt_next p f hp := (h.resident_allocated p f hp).2

/-- A frame may change all but its page id, as long as its pins do not become negative. -/
lemma Filed.setPage (h : s.Filed) (f : FrameId) (page : Page D)
    (hid : page.pageId = (s.pages f).pageId) (hpin : 0 ≤ page.pinCount) (r : LRUKReplacer) :
    ({ s.setPage f page with replacer := r } : BufferPoolManager D δ).Filed := by
  have hpages : ∀ g, ((s.setPage f page).pages g).pageId = (s.pages g).pageId ∧
      0 ≤ ((s.setPage f page).pages g).pinCount := by
    intro g
    by_cases hg : g = f
    · subst hg
      simp [BufferPoolManager.setPage, hid, hpin]
    · simpa [BufferPoolManager.setPage, hg] using h.pin_nonneg g
  exact {
    free_nodup := h.free_nodup
    free_lt := h.free_lt
    resident_lt := h.resident_lt
    resident_not_free := h.resident_not_free
    resident_inj := h.resident_inj
    pageId_eq := fun q g hq => (hpages g).1.trans (h.pageId_eq q g hq)
    pin_nonneg := fun g => (hpages g).2
    resident_lt_next := h.resident_lt_next }

/-- A page that is not resident is filed under a frame that is neither free nor in use, and pinned
once. -/
lemma Filed.insert (h : s.Filed) {f : FrameId} {p : PageId} (hf : f < s.poolSize)
    (hfree : f ∉ s.freeList) (hnot : ∀ q, ¬ s.Resident q f) (hlt : p < s.nextPageId)
    (data : D) (r : LRUKReplacer) :
    ({ s.setPage f { data := data, pageId := p, pinCount := 1, isDirty := false } with
      pageTable := s.pageTable.insert p f
      replacer := r } : BufferPoolManager D δ).Filed := by
  set page : Page D := { data := data, pageId := p, pinCount := 1, isDirty := false } with hpage
  have hres : ∀ q g, ({ s.setPage f page with
      pageTable := s.pageTable.insert p f
      replacer := r } : BufferPoolManager D δ).Resident q g ↔
        if q = p then g = f else s.Resident q g := fun q g => insert_resident (s := s.setPage f page)
  have hother : ∀ q g, s.Resident q g → g ≠ f := by
    rintro q g hq rfl
    exact hnot q hq
  have hself : (s.setPage f page).pages f = page := Function.update_self ..
  have hpages : ∀ g, g ≠ f → (s.setPage f page).pages g = s.pages g := by
    intro g hg
    exact Function.update_of_ne hg ..
  refine ⟨h.free_nodup, h.free_lt, ?_, ?_, ?_, ?_, ?_, ?_⟩
  · intro q g hq
    rw [hres] at hq
    split_ifs at hq with hqp
    · exact hq ▸ hf
    · exact h.resident_lt q g hq
  · intro q g hq
    rw [hres] at hq
    split_ifs at hq with hqp
    · exact hq ▸ hfree
    · exact h.resident_not_free q g hq
  · intro q q' g hq hq'
    rw [hres] at hq hq'
    split_ifs at hq hq' with hqp hqp' hqp'
    · rw [hqp, hqp']
    · exact absurd hq (hother q' g hq')
    · exact absurd hq' (hother q g hq)
    · exact h.resident_inj q q' g hq hq'
  · intro q g hq
    rw [hres] at hq
    show ((s.setPage f page).pages g).pageId = q
    split_ifs at hq with hqp
    · rw [hq, hself, hqp]
    · rw [hpages g (hother q g hq)]
      exact h.pageId_eq q g hq
  · intro g
    show 0 ≤ ((s.setPage f page).pages g).pinCount
    by_cases hg : g = f
    · rw [hg, hself]
      exact zero_le_one
    · rw [hpages g hg]
      exact h.pin_nonneg g
  · intro q g hq
    rw [hres] at hq
    show q < s.nextPageId
    split_ifs at hq with hqp
    · exact hqp ▸ hlt
    · exact h.resident_lt_next q g hq

/-- Only the disk differs. -/
lemma Consistent.setDisk (h : s.Consistent held) (disk : δ) :
    ({ s with disk := disk } : BufferPoolManager D δ).Consistent held := by
  obtain ⟨h1, h2, h3, h4, h5, h6, h7, h8, h9, h10, h11, h12, h13, h14, h15, h16, h17⟩ := h
  exact ⟨h1, h2, h3, h4, h5, h6, h7, h8, h9, h10, h11, h12, h13, h14, h15, h16, h17⟩

/-- Changing the data and the dirty flag of a frame does not matter. -/
lemma Consistent.setPage_data (h : s.Consistent held) (f : FrameId) (page : Page D)
    (hid : page.pageId = (s.pages f).pageId) (hpin : page.pinCount = (s.pages f).pinCount) :
    (s.setPage f page).Consistent held := by
  have hpages : ∀ g, ((s.setPage f page).pages g).pageId = (s.pages g).pageId ∧
      ((s.setPage f page).pages g).pinCount = (s.pages g).pinCount := by
    intro g
    by_cases hg : g = f
    · subst hg
      simp [setPage, hid, hpin]
    · simp [setPage, hg]
  obtain ⟨h1, h2, h3, h4, h5, h6, h7, h8, h9, h10, h11, h12, h13, h14, h15, h16, h17⟩ := h
  refine ⟨h1, h2, h3, h4, h5, h6, h7, h8, h9, ?_, ?_, h12, ?_, h14, h15, h16, h17⟩
  · intro p g hg
    rw [(hpages g).1]
    exact h10 p g hg
  · intro g
    rw [(hpages g).2]
    exact h11 g
  · intro p g hg
    rw [(hpages g).2]
    exact h13 p g hg

/-- `accessFrame` does not throw on a frame in range; it tracks the frame and makes it not
evictable. -/
lemma accessFrame_spec (f : FrameId) (hf : f < s.replacer.maxFrames) :
    ∃ r, s.accessFrame f = (.ok (), { s with replacer := r }) ∧
      r.maxFrames = s.replacer.maxFrames ∧ (s.replacer.SizeOk → r.SizeOk) ∧
      (∀ g, r.IsTracked g ↔ g = f ∨ s.replacer.IsTracked g) ∧
      ∀ g, r.IsEvictable g ↔ g ≠ f ∧ s.replacer.IsEvictable g := by
  obtain ⟨r, hr⟩ := LRUKReplacer.recordAccess_ok hf
  obtain ⟨hmax, -, htr, hev⟩ := LRUKReplacer.recordAccess_spec hr
  refine ⟨r.setEvictable f false, by simp [accessFrame, hr], by simp [hmax],
    fun hsize => (hsize.recordAccess hr).setEvictable f false, fun g => by simp [htr],
    fun g => ?_⟩
  rw [LRUKReplacer.setEvictable_isEvictable false ((htr f).2 (.inl rfl)), hev]
  split_ifs with hg <;> simp [hg]

/-- No resident frame is evictable exactly when, with nothing free and nothing in hand, all
frames are pinned. -/
lemma Consistent.no_victim_iff (h : s.Consistent none) :
    (s.freeList = [] ∧ ∀ f, ¬ s.replacer.IsEvictable f) ↔ s.AllPinned := by
  constructor
  · rintro ⟨hfree, hev⟩ f hf
    rcases h.cover f hf with hmem | ⟨p, hp⟩ | hheld
    · simp [hfree] at hmem
    · refine ⟨p, hp, lt_of_le_of_ne (h.pin_nonneg f) fun heq => ?_⟩
      exact hev f ((h.evictable_iff p f hp).2 heq.symm)
    · cases hheld
  · intro hall
    refine ⟨List.eq_nil_iff_forall_not_mem.2 fun f hf => ?_, fun f hf => ?_⟩
    · obtain ⟨p, hp, -⟩ := hall f (h.free_lt f hf)
      exact h.resident_not_free p f hp hf
    · obtain ⟨p, hp⟩ := (h.tracked_iff f).1 hf.isTracked
      obtain ⟨q, hq, hpos⟩ := hall f (h.resident_lt p f hp)
      have := (h.evictable_iff p f hp).1 hf
      omega

/-- A resident frame that is evictable leaves the table and the replacer together. -/
lemma Consistent.evictFrame (h : s.Consistent none) {p : PageId} {f : FrameId}
    (hp : s.Resident p f) (hev : s.replacer.IsEvictable f) :
    ({ s with
        pageTable := s.pageTable.erase p
        replacer := s.replacer.eraseFrame f } : BufferPoolManager D δ).Consistent (some f) := by
  have hres : ∀ q g, ({ s with
        pageTable := s.pageTable.erase p
        replacer := s.replacer.eraseFrame f } : BufferPoolManager D δ).Resident q g ↔
      q ≠ p ∧ s.Resident q g := fun q g => erase_resident
  refine ⟨h.free_nodup, h.free_lt, fun q g hg => h.resident_lt q g ((hres q g).1 hg).2, ?_, ?_,
    fun q g hg => h.resident_not_free q g ((hres q g).1 hg).2, ?_, ?_, ?_,
    fun q g hg => h.pageId_eq q g ((hres q g).1 hg).2, h.pin_nonneg, ?_, ?_,
    h.size_ok.eraseFrame hev, h.maxFrames_eq,
    fun q g hg => h.resident_allocated q g ((hres q g).1 hg).2, h.next_nonneg⟩
  · rintro g ⟨⟩
    exact h.resident_lt p f hp
  · intro g hg
    rcases h.cover g hg with hmem | ⟨q, hq⟩ | hheld
    · exact .inl hmem
    · by_cases hqp : q = p
      · subst hqp
        exact .inr (.inr (hp.symm.trans hq))
      · exact .inr (.inl ⟨q, (hres q g).2 ⟨hqp, hq⟩⟩)
    · cases hheld
  · rintro g ⟨⟩
    exact h.resident_not_free p f hp
  · rintro q g ⟨⟩ hq
    obtain ⟨hqp, hq⟩ := (hres q f).1 hq
    exact hqp (h.resident_inj q p f hq hp)
  · intro q q' g hq hq'
    exact h.resident_inj q q' g ((hres q g).1 hq).2 ((hres q' g).1 hq').2
  · intro g
    simp only [LRUKReplacer.eraseFrame_isTracked, h.tracked_iff, hres]
    constructor
    · rintro ⟨hgf, q, hq⟩
      refine ⟨q, ?_, hq⟩
      rintro rfl
      exact hgf (Option.some.inj (hq.symm.trans hp))
    · rintro ⟨q, hqp, hq⟩
      refine ⟨?_, q, hq⟩
      rintro rfl
      exact hqp (h.resident_inj q p g hq hp)
  · intro q g hg
    obtain ⟨hqp, hq⟩ := (hres q g).1 hg
    rw [LRUKReplacer.eraseFrame_isEvictable, h.evictable_iff q g hq, and_iff_right]
    rintro rfl
    exact hqp (h.resident_inj q p g hq hp)

/-- The disk after the victim in the frame `f` was written back if dirty. -/
def writeBackDisk (io : DiskIO δ D) (s : BufferPoolManager D δ) (f : FrameId) : δ :=
  if (s.pages f).isDirty then (io.writePage (s.pages f).pageId (s.pages f).data s.disk).2
  else s.disk

/-- `takeFrame` from the free list. -/
lemma takeFrame_free {f : FrameId} {rest : List FrameId} (hfree : s.freeList = f :: rest) :
    s.takeFrame io = (.ok (some f), { s with freeList := rest }) := by
  simp [BufferPoolManager.takeFrame, hfree]

/-- `takeFrame` with nothing free and nothing to evict. -/
lemma takeFrame_full (hfree : s.freeList = []) (hev : s.replacer.evict = none) :
    s.takeFrame io = (.ok none, s) := by
  simp [BufferPoolManager.takeFrame, hfree, hev]

/-- `takeFrame` by eviction, on a disk that does not throw. -/
lemma takeFrame_evict (hio : io.Reliable) {f : FrameId} {r : LRUKReplacer}
    (hfree : s.freeList = []) (hev : s.replacer.evict = some (f, r)) :
    s.takeFrame io = (.ok (some f),
      { s with
        replacer := r
        disk := s.writeBackDisk io f
        pageTable := s.pageTable.erase (s.pages f).pageId }) := by
  simp only [BufferPoolManager.takeFrame, hfree, hev, writeBackDisk, writeFrame]
  split_ifs <;> simp [hio.write]

/-- The frame `f` was taken from the pool `s`, which left `s'`: it was free, or it held the
unpinned page `v`, written back if dirty. -/
inductive Taken (io : DiskIO δ D) (s : BufferPoolManager D δ) (f : FrameId)
    (s' : BufferPoolManager D δ) : Prop
  | free (hf : ∀ p, ¬ s.Resident p f) (hdisk : s'.disk = s.disk)
      (hres : ∀ p g, s'.Resident p g ↔ s.Resident p g)
  | evict (v : PageId) (hv : s.Resident v f) (hpin : (s.pages f).pinCount = 0)
      (hdisk : s'.disk = s.writeBackDisk io f)
      (hres : ∀ p g, s'.Resident p g ↔ p ≠ v ∧ s.Resident p g)

/-- Taking a frame leaves the pinned pages where they are. -/
lemma Taken.keepsPinned {f : FrameId} (h : Taken io s f s') : s.KeepsPinned s' := by
  intro p g hp hpos
  cases h with
  | free hf hdisk hres => exact (hres p g).2 hp
  | evict v hv hpin hdisk hres =>
    refine (hres p g).2 ⟨?_, hp⟩
    rintro rfl
    obtain rfl : f = g := Option.some.inj (hv.symm.trans hp)
    omega

/-- Taking a frame makes no page resident. -/
lemma Taken.resident {f g : FrameId} {p : PageId} (h : Taken io s f s')
    (hp : s'.Resident p g) : s.Resident p g := by
  cases h with
  | free hf hdisk hres => exact (hres p g).1 hp
  | evict v hv hpin hdisk hres => exact ((hres p g).1 hp).2

/-- The frame that was taken holds no page. -/
lemma Taken.not_resident {f : FrameId} (h : Taken io s f s') (hs : s.Consistent held) (p : PageId) :
    ¬ s'.Resident p f := by
  intro hp
  cases h with
  | free hf hdisk hres => exact hf p ((hres p f).1 hp)
  | evict v hv hpin hdisk hres =>
    obtain ⟨hpv, hp⟩ := (hres p f).1 hp
    exact hpv (hs.resident_inj p v f hp hv)

/-- What `takeFrame` does to a consistent pool whose disk does not throw. Either every frame is
pinned and nothing changes, or it hands out a frame.

**Proof sketch.** The front of the free list is neither resident nor repeated. A victim of the
replacer is tracked, hence resident, and evictable, hence unpinned; its page leaves the table. -/
lemma Consistent.takeFrame (h : s.Consistent none) (hio : io.Reliable) :
    (s.takeFrame io = (.ok none, s) ∧ s.AllPinned) ∨
      ∃ f s', s.takeFrame io = (.ok (some f), s') ∧ s'.Consistent (some f) ∧ ¬ s.AllPinned ∧
        Taken io s f s' ∧ s'.nextPageId = s.nextPageId ∧ s'.poolSize = s.poolSize ∧
        s'.pages = s.pages := by
  cases hfree : s.freeList with
  | cons f rest =>
    right
    have hnd := h.free_nodup
    rw [hfree, List.nodup_cons] at hnd
    have hmem : f ∈ s.freeList := by simp [hfree]
    refine ⟨f, _, takeFrame_free hfree, ?_, ?_,
      .free (fun p hp => h.resident_not_free p f hp hmem) rfl fun p g => Iff.rfl, rfl, rfl, rfl⟩
    · refine ⟨hnd.2, fun g hg => h.free_lt g (by simp [hfree, hg]), h.resident_lt, ?_, ?_,
        fun p g hg hgr => h.resident_not_free p g hg (by simp [hfree, hgr]), ?_, ?_,
        h.resident_inj, h.pageId_eq, h.pin_nonneg, h.tracked_iff, h.evictable_iff, h.size_ok,
        h.maxFrames_eq, h.resident_allocated, h.next_nonneg⟩
      · rintro g ⟨⟩
        exact h.free_lt f hmem
      · intro g hg
        rcases h.cover g hg with hgm | hgr | hgh
        · rw [hfree, List.mem_cons] at hgm
          rcases hgm with rfl | hgm
          · exact .inr (.inr rfl)
          · exact .inl hgm
        · exact .inr (.inl hgr)
        · cases hgh
      · rintro g ⟨⟩
        exact hnd.1
      · rintro p g ⟨⟩ hp
        exact h.resident_not_free p f hp hmem
    · intro hall
      have := (h.no_victim_iff.2 hall).1
      simp [hfree] at this
  | nil =>
    cases hev : s.replacer.evict with
    | none =>
      left
      exact ⟨takeFrame_full hfree hev,
        h.no_victim_iff.1 ⟨hfree, (s.replacer.evict_eq_none_iff).1 hev⟩⟩
    | some fr =>
      right
      obtain ⟨f, r⟩ := fr
      obtain ⟨hf, rfl⟩ := LRUKReplacer.evict_spec hev
      obtain ⟨p, hp⟩ := (h.tracked_iff f).1 hf.isTracked
      have hid := h.pageId_eq p f hp
      have hall : ¬ s.AllPinned := fun hall => (h.no_victim_iff.2 hall).2 f hf
      refine ⟨f, _, takeFrame_evict hio hfree hev, ?_, hall,
        .evict p hp ((h.evictable_iff p f hp).1 hf) rfl ?_, rfl, rfl, rfl⟩
      · have := (h.evictFrame hp hf).setDisk (s.writeBackDisk io f)
        simpa [hid] using this
      · intro q g
        rw [hid]
        exact erase_resident

/-- The page `p` with the bytes `data` was installed, pinned once, in the frame `f` of `s`. -/
structure Installed (s : BufferPoolManager D δ) (f : FrameId) (p : PageId) (data : D)
    (s' : BufferPoolManager D δ) : Prop where
  nextPageId_eq : s'.nextPageId = s.nextPageId
  poolSize_eq : s'.poolSize = s.poolSize
  disk_eq : s'.disk = s.disk
  pages_eq : s'.pages = Function.update s.pages f
    { data := data, pageId := p, pinCount := 1, isDirty := false }
  resident_iff : ∀ q g, s'.Resident q g ↔ if q = p then g = f else s.Resident q g

/-- Installing a page that is not resident in the frame in hand.

**Proof sketch.** The frame becomes the only frame of `p`, tracked and pinned once, hence not
evictable; every other frame is as before. -/
lemma Consistent.installPage {f : FrameId} {p : PageId} (h : s.Consistent (some f))
    (hp : ∀ g, ¬ s.Resident p g) (hlt : 0 ≤ p ∧ p < s.nextPageId) (data : D) :
    ∃ s', s.installPage f p data = (.ok (), s') ∧ s'.Consistent none ∧
      Installed s f p data s' := by
  have hf : f < s.poolSize := h.held_lt f rfl
  set page : Page D := { data := data, pageId := p, pinCount := 1, isDirty := false } with hpage
  set t : BufferPoolManager D δ :=
    { s.setPage f page with pageTable := s.pageTable.insert p f } with ht
  obtain ⟨r, hr, hmax, hsize, htr, hev⟩ := accessFrame_spec (s := t) f
    (by simpa [ht, setPage, h.maxFrames_eq] using hf)
  have hres : ∀ q g, ({ t with replacer := r } : BufferPoolManager D δ).Resident q g ↔
      if q = p then g = f else s.Resident q g := fun q g => insert_resident (s := s.setPage f page)
  have hother : ∀ q g, s.Resident q g → q ≠ p ∧ g ≠ f := by
    intro q g hq
    refine ⟨?_, ?_⟩
    · rintro rfl
      exact hp g hq
    · rintro rfl
      exact h.held_not_resident q g rfl hq
  refine ⟨{ t with replacer := r }, hr, ?_, ⟨rfl, rfl, rfl, rfl, hres⟩⟩
  have hfiled : ({ t with replacer := r } : BufferPoolManager D δ).Filed :=
    h.filed.insert hf (h.held_not_free f rfl) (fun q => h.held_not_resident q f rfl) hlt.2 data r
  refine ⟨h.free_nodup, h.free_lt, hfiled.resident_lt, by simp, ?_, hfiled.resident_not_free,
    by simp, by simp, hfiled.resident_inj, hfiled.pageId_eq, hfiled.pin_nonneg, ?_, ?_,
    hsize h.size_ok, by rw [hmax]; exact h.maxFrames_eq, ?_, h.next_nonneg⟩
  · intro g hg
    rcases h.cover g hg with hm | ⟨q, hq⟩ | hh
    · exact .inl hm
    · exact .inr (.inl ⟨q, (hres q g).2 (by simpa [(hother q g hq).1] using hq)⟩)
    · obtain rfl : f = g := Option.some.inj hh
      exact .inr (.inl ⟨p, (hres p f).2 (by simp)⟩)
  · intro g
    rw [htr]
    constructor
    · rintro (rfl | hg)
      · exact ⟨p, (hres p g).2 (by simp)⟩
      · obtain ⟨q, hq⟩ := (h.tracked_iff g).1 hg
        exact ⟨q, (hres q g).2 (by simpa [(hother q g hq).1] using hq)⟩
    · rintro ⟨q, hq⟩
      rw [hres] at hq
      split_ifs at hq
      · exact .inl hq
      · exact .inr ((h.tracked_iff g).2 ⟨q, hq⟩)
  · intro q g hg
    rw [hres] at hg
    rw [hev]
    split_ifs at hg with h1
    · simp [ht, setPage, hg, hpage]
    · have hgf := (hother q g hg).2
      simpa [ht, setPage, hgf] using h.evictable_iff q g hg
  · intro q g hg
    rw [hres] at hg
    split_ifs at hg with h1
    · rw [h1]
      exact hlt
    · exact h.resident_allocated q g hg

/-! ## The operations -/

/-- What a call on a consistent pool guarantees about the state it leaves. -/
structure Preserved (s s' : BufferPoolManager D δ) : Prop where
  consistent : s'.Consistent none
  keeps : s.KeepsPinned s'
  next_le : s.nextPageId ≤ s'.nextPageId
  poolSize_eq : s'.poolSize = s.poolSize

/-- Calls that leave the state alone. -/
lemma Consistent.preserved_self (h : s.Consistent none) : s.Preserved s :=
  ⟨h, fun _ _ hp _ => hp, le_rfl, rfl⟩

/-- Advancing `next_page_id_`. -/
lemma Consistent.advance (h : s.Consistent held) :
    ({ s with nextPageId := s.nextPageId + 1 } : BufferPoolManager D δ).Consistent held := by
  obtain ⟨h1, h2, h3, h4, h5, h6, h7, h8, h9, h10, h11, h12, h13, h14, h15, h16, h17⟩ := h
  refine ⟨h1, h2, h3, h4, h5, h6, h7, h8, h9, h10, h11, h12, h13, h14, h15, ?_, ?_⟩
  · intro p g hp
    have := h16 p g hp
    dsimp only
    lia
  · dsimp only
    lia

/-- `NewPage` either finds all frames pinned and returns `nullptr`, or makes the next page id
resident. -/
lemma Consistent.newPage [Inhabited D] (h : s.Consistent none) (hio : io.Reliable) :
    (s.newPage io = (.ok none, s) ∧ s.AllPinned) ∨
      ∃ f t s', s.newPage io = (.ok (some (s.nextPageId, f)), s') ∧ s.Preserved s' ∧
        ¬ s.AllPinned ∧ Taken io s f t ∧ t.pages = s.pages ∧ t.nextPageId = s.nextPageId ∧
        Installed { t with nextPageId := t.nextPageId + 1 } f s.nextPageId default s' := by
  rcases h.takeFrame hio with ⟨htake, hall⟩ | ⟨f, t, htake, ht, hall, htaken, hn, hps, hpg⟩
  · exact .inl ⟨by simp [BufferPoolManager.newPage, htake], hall⟩
  · right
    have hfresh : ∀ g, ¬ t.Resident t.nextPageId g := by
      intro g hg
      have := ht.resident_allocated _ g hg
      lia
    have hlt : 0 ≤ t.nextPageId ∧ t.nextPageId < t.nextPageId + 1 :=
      ⟨ht.next_nonneg, Int.lt_succ _⟩
    obtain ⟨s', hs', hcons, hinst⟩ := ht.advance.installPage (p := t.nextPageId) hfresh hlt default
    have hinst' := hinst
    rw [hn] at hinst' hs'
    refine ⟨f, t, s', ?_, ⟨hcons, ?_, ?_, ?_⟩, hall, htaken, hpg, hn, by rw [hn]; exact hinst'⟩
    · simp [BufferPoolManager.newPage, htake, hs', hn]
    · intro p g hp hpos
      rw [hinst.resident_iff]
      have hlt := (h.resident_allocated p g hp).2
      rw [if_neg (by lia)]
      exact htaken.keepsPinned p g hp hpos
    · rw [hinst'.nextPageId_eq]
      dsimp only
      lia
    · rw [hinst.poolSize_eq]
      exact hps

/-- `FetchPage` of a resident page pins it. -/
lemma Consistent.fetchPage_hit (io : DiskIO δ D) (h : s.Consistent none) {p : PageId} {f : FrameId}
    (hp : s.Resident p f) :
    ∃ s', s.fetchPage io p = (.ok (some f), s') ∧ s.Preserved s' ∧
      s'.disk = s.disk ∧ s'.nextPageId = s.nextPageId ∧
      s'.pages = Function.update s.pages f
        { s.pages f with pinCount := (s.pages f).pinCount + 1 } ∧
      ∀ q g, s'.Resident q g ↔ s.Resident q g := by
  set page : Page D := { s.pages f with pinCount := (s.pages f).pinCount + 1 } with hpage
  have hf := h.resident_lt p f hp
  obtain ⟨r, hr, hmax, hsize, htr, hev⟩ := accessFrame_spec (s := s.setPage f page) f
    (by simpa [setPage, h.maxFrames_eq] using hf)
  have hpin : ∀ g, ((s.setPage f page).pages g).pinCount =
      if g = f then (s.pages f).pinCount + 1 else (s.pages g).pinCount := by
    intro g
    by_cases hg : g = f <;> simp [setPage, hg, hpage]
  have hnn := h.pin_nonneg f
  have hfiled := h.filed.setPage f page rfl (by rw [hpage]; dsimp only; omega) r
  refine ⟨{ s.setPage f page with replacer := r }, ?_, ⟨?_, fun q g hq _ => hq, le_rfl, rfl⟩, rfl,
    rfl, rfl, fun q g => Iff.rfl⟩
  · have hlk : s.pageTable.lookup p = some f := hp
    simp only [BufferPoolManager.fetchPage, hlk]
    rw [← hpage, hr]
  refine ⟨h.free_nodup, h.free_lt, h.resident_lt, by simp, h.cover, h.resident_not_free, by simp,
    by simp, h.resident_inj, hfiled.pageId_eq, hfiled.pin_nonneg, ?_, ?_,
    hsize h.size_ok, by rw [hmax]; exact h.maxFrames_eq, h.resident_allocated, h.next_nonneg⟩
  · intro g
    rw [htr]
    constructor
    · rintro (rfl | hg)
      · exact ⟨p, hp⟩
      · exact (h.tracked_iff g).1 hg
    · intro hg
      exact .inr ((h.tracked_iff g).2 hg)
  · intro q g hq
    rw [hev]
    have := hpin g
    have hiff := h.evictable_iff q g hq
    dsimp only [setPage] at *
    by_cases hg : g = f
    · simp only [hg, ↓reduceIte] at *
      simp only [ne_eq, not_true_eq_false, false_and, false_iff]
      omega
    · simpa [hg] using hiff

/-- `FetchPage` of an allocated page that is not resident either finds all frames pinned and
returns `nullptr`, or makes it resident. -/
lemma Consistent.fetchPage_miss (h : s.Consistent none) (hio : io.Reliable) {p : PageId}
    (hp : ∀ f, ¬ s.Resident p f) (hlt : 0 ≤ p ∧ p < s.nextPageId) :
    (s.fetchPage io p = (.ok none, s) ∧ s.AllPinned) ∨
      ∃ f t s' data, s.fetchPage io p = (.ok (some f), s') ∧ s.Preserved s' ∧ ¬ s.AllPinned ∧
        Taken io s f t ∧ t.pages = s.pages ∧ t.nextPageId = s.nextPageId ∧
        (io.readPage p t.disk).1 = .ok data ∧
        Installed { t with disk := (io.readPage p t.disk).2 } f p data s' := by
  have hlk : s.pageTable.lookup p = none := by
    cases hl : s.pageTable.lookup p with
    | none => rfl
    | some f => exact absurd hl (hp f)
  rcases h.takeFrame hio with ⟨htake, hall⟩ | ⟨f, t, htake, ht, hall, htaken, hn, hps, hpg⟩
  · exact .inl ⟨by simp [BufferPoolManager.fetchPage, hlk, htake], hall⟩
  · right
    obtain ⟨data, hdata⟩ := hio.read p t.disk
    have hmiss : ∀ g, ¬ t.Resident p g := fun g hg => hp g (htaken.resident hg)
    obtain ⟨s', hs', hcons, hinst⟩ :=
      (ht.setDisk (io.readPage p t.disk).2).installPage hmiss (by rw [← hn] at hlt; exact hlt) data
    refine ⟨f, t, s', data, ?_, ⟨hcons, ?_, ?_, ?_⟩, hall, htaken, hpg, hn, hdata, hinst⟩
    · have hpair : io.readPage p t.disk = (.ok data, (io.readPage p t.disk).2) :=
        Prod.ext hdata rfl
      simp only [BufferPoolManager.fetchPage, hlk, htake]
      rw [hpair]
      simp only [hs']
    · intro q g hq hpos
      rw [hinst.resident_iff]
      have hqp : q ≠ p := by
        rintro rfl
        exact hp g hq
      rw [if_neg hqp]
      exact htaken.keepsPinned q g hq hpos
    · rw [hinst.nextPageId_eq]
      exact hn.ge
    · rw [hinst.poolSize_eq]
      exact hps

/-- `UnpinPage` of a pinned page. -/
lemma Consistent.unpinPage (h : s.Consistent none) {p : PageId} {f : FrameId}
    (hp : s.Resident p f) (hpos : 0 < (s.pages f).pinCount) (d : Bool) :
    ∃ s', s.unpinPage p d = (true, s') ∧ s.Preserved s' ∧ s'.disk = s.disk ∧
      s'.nextPageId = s.nextPageId ∧
      s'.pages = Function.update s.pages f
        { s.pages f with
          pinCount := (s.pages f).pinCount - 1
          isDirty := if d then true else (s.pages f).isDirty } ∧
      ∀ q g, s'.Resident q g ↔ s.Resident q g := by
  set page : Page D := { s.pages f with
    pinCount := (s.pages f).pinCount - 1
    isDirty := if d then true else (s.pages f).isDirty } with hpage
  have hlk : s.pageTable.lookup p = some f := hp
  have hval : s.unpinPage p d = (true, if (s.pages f).pinCount - 1 = 0 then
      { s.setPage f page with replacer := s.replacer.setEvictable f true }
      else s.setPage f page) := by
    simp only [BufferPoolManager.unpinPage, hlk]
    rw [if_neg (by omega)]
    by_cases hz : (s.pages f).pinCount - 1 = 0
    · rw [if_pos hz, if_pos hz]
      rfl
    · rw [if_neg hz, if_neg hz]
  have htr : s.replacer.IsTracked f := (h.tracked_iff f).2 ⟨p, hp⟩
  have hnot : ¬ s.replacer.IsEvictable f := by
    rw [h.evictable_iff p f hp]
    omega
  have hpin : ∀ g, ((s.setPage f page).pages g).pinCount =
      if g = f then (s.pages f).pinCount - 1 else (s.pages g).pinCount := by
    intro g
    by_cases hg : g = f <;> simp [setPage, hg, hpage]
  have hfiled := fun r => h.filed.setPage f page rfl (by rw [hpage]; dsimp only; omega) r
  refine ⟨_, hval, ⟨?_, ?_, ?_, ?_⟩, ?_⟩
  · split_ifs with hz
    · refine ⟨h.free_nodup, h.free_lt, h.resident_lt, by simp, h.cover, h.resident_not_free,
        by simp, by simp, h.resident_inj, (hfiled _).pageId_eq, (hfiled _).pin_nonneg, ?_, ?_,
        h.size_ok.setEvictable f true, (LRUKReplacer.setEvictable_maxFrames ..).trans h.maxFrames_eq,
        h.resident_allocated, h.next_nonneg⟩
      · intro g
        rw [LRUKReplacer.setEvictable_isTracked]
        exact h.tracked_iff g
      · intro q g hq
        have := hpin g
        have hiff := h.evictable_iff q g hq
        dsimp only
        rw [LRUKReplacer.setEvictable_isEvictable true htr]
        by_cases hg : g = f
        · simp_all
        · simp_all
    · refine ⟨h.free_nodup, h.free_lt, h.resident_lt, by simp, h.cover, h.resident_not_free,
        by simp, by simp, h.resident_inj, (hfiled s.replacer).pageId_eq,
        (hfiled s.replacer).pin_nonneg, h.tracked_iff, ?_, h.size_ok, h.maxFrames_eq,
        h.resident_allocated, h.next_nonneg⟩
      intro q g hq
      have := hpin g
      have hiff := h.evictable_iff q g hq
      change s.replacer.IsEvictable g ↔ _
      by_cases hg : g = f
      · simp_all
      · simp_all
  · intro q g hq _
    split_ifs <;> exact hq
  · split_ifs <;> exact le_rfl
  · split_ifs <;> rfl
  · split_ifs <;> exact ⟨rfl, rfl, rfl, fun _ _ => Iff.rfl⟩

/-- `UnpinPage` of a page that is not resident or not pinned refuses. -/
lemma unpinPage_refused {p : PageId} (hp : ∀ f, s.Resident p f → (s.pages f).pinCount ≤ 0)
    (d : Bool) : s.unpinPage p d = (false, s) := by
  simp only [BufferPoolManager.unpinPage]
  cases hl : s.pageTable.lookup p with
  | none => rfl
  | some f =>
    dsimp only
    rw [if_pos (hp f hl)]

variable [Inhabited D]

/-- `DeletePage` of an unpinned resident page frees its frame. -/
lemma Consistent.deletePage (h : s.Consistent none) {p : PageId} {f : FrameId}
    (hp : s.Resident p f) (hz : (s.pages f).pinCount = 0) :
    ∃ s', s.deletePage p = (.ok true, s') ∧ s.Preserved s' ∧ s'.disk = s.disk ∧
      s'.nextPageId = s.nextPageId ∧ s'.pages = Function.update s.pages f default ∧
      ∀ q g, s'.Resident q g ↔ q ≠ p ∧ s.Resident q g := by
  have hlk : s.pageTable.lookup p = some f := hp
  have hev : s.replacer.IsEvictable f := (h.evictable_iff p f hp).2 hz
  have hheld := h.evictFrame hp hev
  have hval : s.deletePage p = (.ok true, { s with
      pageTable := s.pageTable.erase p
      replacer := s.replacer.eraseFrame f
      freeList := s.freeList ++ [f]
      pages := Function.update s.pages f default }) := by
    simp only [BufferPoolManager.deletePage, hlk, LRUKReplacer.remove_of_isEvictable hev]
    rw [if_neg (by omega)]
    rfl
  refine ⟨_, hval, ⟨?_, ?_, le_rfl, rfl⟩, rfl, rfl, rfl, fun q g => erase_resident⟩
  · have hother : ∀ q g, q ≠ p ∧ s.Resident q g → g ≠ f := by
      rintro q g ⟨hqp, hq⟩ rfl
      exact hqp (h.resident_inj q p g hq hp)
    obtain ⟨h1, h2, h3, h4, h5, h6, h7, h8, h9, h10, h11, h12, h13, h14, h15, h16, h17⟩ := hheld
    refine ⟨?_, ?_, h3, by simp, ?_, ?_, by simp, by simp, h9, ?_, ?_, h12, ?_, h14, h15, h16,
      h17⟩
    · exact List.nodup_append.2 ⟨h1, List.nodup_singleton f,
        fun a ha b hb hab => h7 f rfl (by simp_all)⟩
    · intro g hg
      rcases List.mem_append.1 hg with hg | hg
      · exact h2 g hg
      · rw [List.mem_singleton.1 hg]
        exact h4 f rfl
    · intro g hg
      rcases h5 g hg with hm | hr | hh
      · exact .inl (List.mem_append.2 (.inl hm))
      · exact .inr (.inl hr)
      · obtain rfl : f = g := Option.some.inj hh
        exact .inl (List.mem_append.2 (.inr (List.mem_singleton.2 rfl)))
    · intro q g hq hmem
      rcases List.mem_append.1 hmem with hm | hm
      · exact h6 q g hq hm
      · rw [List.mem_singleton.1 hm] at hq
        exact h8 q f rfl hq
    · intro q g hq
      have := hother q g (erase_resident.1 hq)
      simpa [setPage, this] using h10 q g hq
    · intro g
      by_cases hg : g = f
      · subst hg
        simp only [Function.update_self]
        exact le_rfl
      · simpa [setPage, hg] using h11 g
    · intro q g hq
      have := hother q g (erase_resident.1 hq)
      simpa [setPage, this] using h13 q g hq
  · intro q g hq hpos
    refine erase_resident.2 ⟨?_, hq⟩
    rintro rfl
    obtain rfl : f = g := Option.some.inj (hp.symm.trans hq)
    omega

/-- `DeletePage` of a pinned page refuses. -/
lemma deletePage_pinned {p : PageId} {f : FrameId} (hp : s.Resident p f)
    (hpos : 0 < (s.pages f).pinCount) : s.deletePage p = (.ok false, s) := by
  have hlk : s.pageTable.lookup p = some f := hp
  simp only [BufferPoolManager.deletePage, hlk]
  rw [if_pos (by omega)]

/-- `DeletePage` of a page that is not resident does nothing. -/
lemma deletePage_absent {p : PageId} (hp : ∀ f, ¬ s.Resident p f) :
    s.deletePage p = (.ok true, s) := by
  simp only [BufferPoolManager.deletePage]
  cases hl : s.pageTable.lookup p with
  | none => rfl
  | some f => exact absurd hl (hp f)

omit [Inhabited D]

/-- Writing a frame out clears its dirty flag and nothing else in memory. -/
lemma flushFrame_eq (hio : io.Reliable) (p : PageId) (f : FrameId) :
    s.flushFrame io p f = (.ok (),
      { s with
        disk := (io.writePage p (s.pages f).data s.disk).2
        pages := Function.update s.pages f { s.pages f with isDirty := false } }) := by
  simp [flushFrame, writeFrame, hio.write, setPage]

/-- `flushFrame` keeps the invariant. -/
lemma Consistent.flushFrame (io : DiskIO δ D) (h : s.Consistent none) (p : PageId) (f : FrameId) :
    s.Preserved { s with
      disk := (io.writePage p (s.pages f).data s.disk).2
      pages := Function.update s.pages f { s.pages f with isDirty := false } } := by
  have := (h.setPage_data f { s.pages f with isDirty := false } rfl rfl).setDisk
    (io.writePage p (s.pages f).data s.disk).2
  exact ⟨this, fun _ _ hq _ => hq, le_rfl, rfl⟩

/-- The loop of `FlushAllPages` keeps the invariant; the pages stay where they are. -/
lemma Consistent.flushEntries (hio : io.Reliable)
    (es : List (Sigma fun _ : PageId => FrameId)) (h : s.Consistent none) :
    ∃ s', flushEntries io es s = (.ok (), s') ∧ s.Preserved s' ∧
      ∀ p g, s'.Resident p g ↔ s.Resident p g := by
  induction es generalizing s with
  | nil => exact ⟨s, rfl, h.preserved_self, fun _ _ => Iff.rfl⟩
  | cons e es ih =>
    have hone := h.flushFrame io e.1 e.2
    obtain ⟨s', hs', hpres, hres⟩ := ih hone.consistent
    refine ⟨s', ?_, ⟨hpres.consistent, fun p g hp _ => (hres p g).2 hp, hpres.next_le,
      hpres.poolSize_eq⟩, hres⟩
    simp only [BufferPoolManager.flushEntries, flushFrame_eq hio]
    exact hs'

/-! ## Steps and runs -/

variable [Inhabited D]

/-- A permitted call does not throw and keeps the invariant.

**Proof sketch.** One case for each operation, split as its lemmas split. -/
lemma Consistent.perform (h : s.Consistent none) (hio : io.Reliable) {op : PoolOp}
    (hop : s.Permits op) : ∃ s', s.perform io op = (.ok (), s') ∧ s.Preserved s' := by
  cases op with
  | newPage =>
    rcases h.newPage hio with ⟨hn, -⟩ | ⟨f, t, s', hs', hpres, -⟩
    · exact ⟨s, by simp [BufferPoolManager.perform, hn, Except.map], h.preserved_self⟩
    · exact ⟨s', by simp [BufferPoolManager.perform, hs', Except.map], hpres⟩
  | fetchPage p =>
    by_cases hres : ∃ f, s.Resident p f
    · obtain ⟨f, hf⟩ := hres
      obtain ⟨s', hs', hpres, -⟩ := h.fetchPage_hit io hf
      exact ⟨s', by simp [BufferPoolManager.perform, hs', Except.map], hpres⟩
    · rcases h.fetchPage_miss hio (not_exists.1 hres) hop with
        ⟨hn, -⟩ | ⟨f, t, s', d, hs', hpres, -⟩
      · exact ⟨s, by simp [BufferPoolManager.perform, hn, Except.map], h.preserved_self⟩
      · exact ⟨s', by simp [BufferPoolManager.perform, hs', Except.map], hpres⟩
  | unpinPage p d =>
    by_cases hres : ∃ f, s.Resident p f ∧ 0 < (s.pages f).pinCount
    · obtain ⟨f, hf, hpos⟩ := hres
      obtain ⟨s', hs', hpres, -⟩ := h.unpinPage hf hpos d
      exact ⟨s', by simp [BufferPoolManager.perform, hs'], hpres⟩
    · refine ⟨s, ?_, h.preserved_self⟩
      have := unpinPage_refused (s := s) (p := p)
        (fun f hf => not_lt.1 fun hpos => hres ⟨f, hf, hpos⟩) d
      simp [BufferPoolManager.perform, this]
  | deletePage p =>
    by_cases hres : ∃ f, s.Resident p f
    · obtain ⟨f, hf⟩ := hres
      rcases (h.pin_nonneg f).eq_or_lt with hz | hpos
      · obtain ⟨s', hs', hpres, -⟩ := h.deletePage hf hz.symm
        exact ⟨s', by simp [BufferPoolManager.perform, hs', Except.map], hpres⟩
      · refine ⟨s, ?_, h.preserved_self⟩
        simp [BufferPoolManager.perform, deletePage_pinned hf hpos, Except.map]
    · refine ⟨s, ?_, h.preserved_self⟩
      simp [BufferPoolManager.perform, deletePage_absent (not_exists.1 hres), Except.map]
  | flushPage p =>
    cases hl : s.pageTable.lookup p with
    | none =>
      exact ⟨s, by simp [BufferPoolManager.perform, flushPage, hl, Except.map], h.preserved_self⟩
    | some f =>
      refine ⟨_, ?_, h.flushFrame io p f⟩
      simp [BufferPoolManager.perform, flushPage, hl, flushFrame_eq hio, Except.map]
  | flushAllPages =>
    obtain ⟨s', hs', hpres, -⟩ := h.flushEntries hio s.pageTable.entries
    exact ⟨s', hs', hpres⟩

/-- Every step keeps the invariant. -/
lemma Consistent.step (hio : io.Reliable) {op : PoolOp} (h : s.Consistent none)
    (hst : Step io s op s') : s.Preserved s' := by
  obtain ⟨t, ht, hpres⟩ := h.perform hio hst.1
  obtain rfl : t = s' := by
    have := ht.symm.trans hst.2.2
    simpa using this
  exact hpres

/-! ### The pin counts as `int`s -/

omit [Inhabited D] in

/-- Recording an access touches no frame. -/
@[simp] lemma pages_accessFrame (s : BufferPoolManager D δ) (f : FrameId) :
    (s.accessFrame f).2.pages = s.pages := by
  unfold accessFrame
  split <;> rfl

omit [Inhabited D] in
/-- Finding a frame changes no frame. -/
@[simp] lemma pages_takeFrame (io : DiskIO δ D) (s : BufferPoolManager D δ) :
    (s.takeFrame io).2.pages = s.pages := by
  cases hfree : s.freeList with
  | cons f rest => rw [takeFrame_free hfree]
  | nil =>
    cases hev : s.replacer.evict with
    | none => rw [takeFrame_full hfree hev]
    | some victim =>
      obtain ⟨f, r⟩ := victim
      simp only [takeFrame, hfree, hev]
      cases (s.pages f).isDirty with
      | false => rfl
      | true =>
        simp only [if_true, writeFrame]
        cases (io.writePage (s.pages f).pageId (s.pages f).data s.disk).1 <;> rfl

omit [Inhabited D] in
/-- A page that is put into a frame is pinned once, and the other frames are as before. -/
lemma pinCount_installPage (s : BufferPoolManager D δ) (f g : FrameId) (p : PageId) (d : D) :
    ((s.installPage f p d).2.pages g).pinCount = if g = f then 1 else (s.pages g).pinCount := by
  rw [installPage, pages_accessFrame]
  by_cases hg : g = f <;> simp [setPage, hg]

omit [Inhabited D] in
/-- Writing a frame to the disk pins nothing, whether the disk throws or not. -/
lemma pinCount_flushFrame (io : DiskIO δ D) (s : BufferPoolManager D δ) (p : PageId)
    (f g : FrameId) :
    ((s.flushFrame io p f).2.pages g).pinCount = (s.pages g).pinCount := by
  unfold flushFrame writeFrame
  rcases hwrite : io.writePage p (s.pages f).data s.disk with ⟨_ | _, disk⟩
  · rfl
  · by_cases hg : g = f <;> simp [setPage, hg]

omit [Inhabited D] in

/-- Flushing any frames leaves the pin counts alone.

**Proof sketch.** Induction on the entries: a frame that is written out, or that the disk refuses,
keeps its count. -/
lemma pinCount_flushFrames (io : DiskIO δ D) (entries : List (Sigma fun _ : PageId => FrameId))
    (s : BufferPoolManager D δ) (g : FrameId) :
    ((flushEntries io entries s).2.pages g).pinCount = (s.pages g).pinCount := by
  induction entries generalizing s with
  | nil => rfl
  | cons it rest ih =>
    have hone := pinCount_flushFrame io s it.1 it.2 g
    unfold flushEntries
    rcases hflush : s.flushFrame io it.1 it.2 with ⟨_ | _, s'⟩
    · rw [hflush] at hone
      exact hone
    · rw [hflush] at hone
      exact (ih s').trans hone

/-- A call that does not overflow leaves every pin count an `int`: only `FetchPage` of a resident
page increments one, and this one was not the largest. -/
lemma PinsFit.perform {op : PoolOp} (h : s.PinsFit) (hop : ¬ s.Overflows op)
    (io : DiskIO δ D) : (s.perform io op).2.PinsFit := by
  have hone : (1 : ℤ) ≤ maxPinCount := by decide
  have hinstall : ∀ (t : BufferPoolManager D δ) (f : FrameId) (p : PageId) (d : D),
      t.pages = s.pages → (t.installPage f p d).2.PinsFit := by
    intro t f p d ht g
    rw [pinCount_installPage, ht]
    split_ifs
    · exact hone
    · exact h g
  have htaken := pages_takeFrame io s
  intro g
  cases op with
  | newPage =>
    simp only [BufferPoolManager.perform, newPage]
    rcases htake : s.takeFrame io with ⟨_ | _ | f, s₁⟩
    · rw [htake] at htaken
      simpa [← htaken] using h g
    · rw [htake] at htaken
      simpa [← htaken] using h g
    · rw [htake] at htaken
      have := hinstall { s₁ with nextPageId := s₁.nextPageId + 1 } f s₁.nextPageId default htaken g
      dsimp only
      rcases hinst : installPage { s₁ with nextPageId := s₁.nextPageId + 1 } f s₁.nextPageId
        default with ⟨_ | _, s₂⟩ <;> rw [hinst] at this <;> exact this
  | fetchPage p =>
    simp only [BufferPoolManager.perform, fetchPage]
    cases hlk : s.pageTable.lookup p with
    | some f =>
      have hlt : (s.pages f).pinCount ≠ maxPinCount := fun heq => hop ⟨f, hlk, heq⟩
      have hle := h f
      have hpages := pages_accessFrame
        (s.setPage f { s.pages f with pinCount := (s.pages f).pinCount + 1 }) f
      dsimp only
      rcases hacc : accessFrame (s.setPage f { s.pages f with
        pinCount := (s.pages f).pinCount + 1 }) f with ⟨_ | _, s₁⟩ <;>
      · rw [hacc] at hpages
        dsimp only at hpages ⊢
        rw [hpages]
        by_cases hg : g = f
        · subst hg
          simp only [setPage, Function.update_self]
          omega
        · simpa [setPage, hg] using h g
    | none =>
      dsimp only
      rcases htake : s.takeFrame io with ⟨_ | _ | f, s₁⟩
      · rw [htake] at htaken
        simpa [← htaken] using h g
      · rw [htake] at htaken
        simpa [← htaken] using h g
      · rw [htake] at htaken
        dsimp only
        rcases io.readPage p s₁.disk with ⟨e | data, disk⟩
        · simpa [← htaken] using h g
        · have := hinstall { s₁ with disk := disk } f p data htaken g
          dsimp only
          rcases hinst : installPage { s₁ with disk := disk } f p data with ⟨_ | _, s₂⟩ <;>
            rw [hinst] at this <;> exact this
  | unpinPage p d =>
    simp only [BufferPoolManager.perform, unpinPage]
    cases hlk : s.pageTable.lookup p with
    | none => exact h g
    | some f =>
      have hle := h f
      dsimp only
      split_ifs with hpos hz
      · exact h g
      all_goals
        by_cases hg : g = f
        · subst hg
          simp only [setPage, Function.update_self]
          omega
        · simpa [setPage, hg] using h g
  | deletePage p =>
    simp only [BufferPoolManager.perform, deletePage]
    cases hlk : s.pageTable.lookup p with
    | none => exact h g
    | some f =>
      dsimp only
      split_ifs with hzero
      · exact h g
      · rcases s.replacer.remove f with e | r
        · exact h g
        · by_cases hg : g = f
          · subst hg
            simp only [setPage, Function.update_self]
            exact (by decide : (0 : ℤ) ≤ maxPinCount)
          · simpa [setPage, hg] using h g
  | flushPage p =>
    simp only [BufferPoolManager.perform, flushPage]
    cases hlk : s.pageTable.lookup p with
    | none => exact h g
    | some f =>
      have hone := pinCount_flushFrame io s p f g
      dsimp only
      rcases hflush : s.flushFrame io p f with ⟨_ | _, s₁⟩ <;> rw [hflush] at hone <;>
        exact hone.trans_le (h g)
  | flushAllPages => exact (pinCount_flushFrames io _ s g).trans_le (h g)

/-- Every state reached from the constructor is consistent, with as many frames as at first, and
its pin counts are `int`s. -/
lemma consistent_of_run (hio : io.Reliable) {poolSize k : ℕ} {disk : δ} {next : PageId}
    (hnext : 0 ≤ next) {ops : List PoolOp}
    (hrun : Transition.Run (Step io) (init poolSize k disk next) ops s) :
    s.Consistent none ∧ s.poolSize = poolSize ∧ s.PinsFit := by
  refine hrun.invariant (I := fun s => s.Consistent none ∧ s.poolSize = poolSize ∧ s.PinsFit) ?_
    ⟨consistent_init poolSize k disk next hnext, rfl, fun _ =>
      (by decide : (0 : ℤ) ≤ maxPinCount)⟩
  rintro s op s' ⟨hcons, hps, hfit⟩ hst
  have hpres := hcons.step hio hst
  have hfit' := hfit.perform hst.2.1 io
  rw [hst.2.2] at hfit'
  exact ⟨hpres.consistent, hpres.poolSize_eq.trans hps, hfit'⟩

omit [Inhabited D] in
/-- The evictable frames are those of the unpinned resident pages. -/
lemma Consistent.mem_evictableFrames (h : s.Consistent none) (f : FrameId) :
    f ∈ s.replacer.evictableFrames ↔ ∃ p, s.Resident p f ∧ (s.pages f).pinCount = 0 := by
  rw [LRUKReplacer.mem_evictableFrames]
  constructor
  · intro hev
    obtain ⟨p, hp⟩ := (h.tracked_iff f).1 hev.isTracked
    exact ⟨p, hp, (h.evictable_iff p f hp).1 hev⟩
  · rintro ⟨p, hp, hz⟩
    exact (h.evictable_iff p f hp).2 hz

/-- `NewPage` returns `nullptr` iff all frames are pinned. -/
lemma Consistent.newPage_eq_none_iff (h : s.Consistent none) (hio : io.Reliable) :
    (s.newPage io).1 = .ok none ↔ s.AllPinned := by
  rcases h.newPage hio with ⟨hn, hall⟩ | ⟨f, t, s', hs', -, hall, -⟩
  · simp [hn, hall]
  · simp [hs', hall]

omit [Inhabited D] in
/-- `FetchPage` of an allocated page that is not resident returns `nullptr` iff all frames are
pinned. -/
lemma Consistent.fetchPage_eq_none_iff (h : s.Consistent none) (hio : io.Reliable) {p : PageId}
    (hp : ∀ f, ¬ s.Resident p f) (hlt : 0 ≤ p ∧ p < s.nextPageId) :
    (s.fetchPage io p).1 = .ok none ↔ s.AllPinned := by
  rcases h.fetchPage_miss hio hp hlt with ⟨hn, hall⟩ | ⟨f, t, s', d, hs', -, hall, -⟩
  · simp [hn, hall]
  · simp [hs', hall]

/-- Every state that permitted calls reach from the constructor, as long as none of them overflows a
pin count, satisfies the representation invariant, and its pin counts are `int`s that are not
negative. The replacer counts the unpinned resident frames, pinned pages keep their frames, no call
throws, and `nullptr` means that all frames are pinned. -/
theorem pool_invariant_of_run (hio : io.Reliable) {poolSize k : ℕ} {disk : δ} {next : PageId}
    (hnext : 0 ≤ next) {ops : List PoolOp}
    (hrun : Transition.Run (Step io) (init poolSize k disk next) ops s) :
    s.poolSize = poolSize ∧ s.Consistent none ∧
      (∀ f, 0 ≤ (s.pages f).pinCount ∧ (s.pages f).pinCount ≤ maxPinCount) ∧
      (∃ frames : Finset FrameId, s.replacer.size = frames.card ∧
        ∀ f, f ∈ frames ↔ ∃ p, s.Resident p f ∧ (s.pages f).pinCount = 0) ∧
      (∀ op, s.Permits op → ¬ s.Overflows op →
        ∃ s', s.perform io op = (.ok (), s') ∧ s.KeepsPinned s') ∧
      ((s.newPage io).1 = .ok none ↔ s.AllPinned) ∧
      ∀ p, (∀ f, ¬ s.Resident p f) → 0 ≤ p → p < s.nextPageId →
        ((s.fetchPage io p).1 = .ok none ↔ s.AllPinned) := by
  obtain ⟨h, hps, hfit⟩ := consistent_of_run hio hnext hrun
  refine ⟨hps, h, fun f => ⟨h.pin_nonneg f, hfit f⟩,
    ⟨s.replacer.evictableFrames, h.size_ok, h.mem_evictableFrames⟩, ?_,
    h.newPage_eq_none_iff hio, fun p hp h0 hlt => h.fetchPage_eq_none_iff hio hp ⟨h0, hlt⟩⟩
  intro op hop _
  obtain ⟨s', hs', hpres⟩ := h.perform hio hop
  exact ⟨s', hs', hpres.keeps⟩

end Steps

/-- The ideal disk: `ReadPage` returns the bytes of the last `WritePage` of the page. -/
def idealDisk (D : Type) : DiskIO (PageId → D) D where
  readPage p d := (.ok (d p), d)
  writePage p x d := (.ok (), Function.update d p x)

/-- The ideal disk does not throw. -/
lemma idealDisk_reliable (D : Type) : (idealDisk D).Reliable where
  read p d := ⟨d p, rfl⟩
  write _ _ _ := rfl

/-- A pool of one frame on the ideal disk, in which the page 0 is fetched and unpinned, then unpinned
once more, evicted by the page 1 and deleted in vain: the frame is pinned again, so `NewPage` now
returns `nullptr`. -/
theorem pool_invariant_of_run_newPage :
    ∃ s : BufferPoolManager ℕ (PageId → ℕ),
      Transition.Run (Step (idealDisk ℕ)) (init 1 1 (fun _ => 0) 0)
        [.newPage, .fetchPage 0, .unpinPage 0 true, .unpinPage 0 false, .newPage,
          .deletePage 1] s ∧
        s.replacer.size = 0 ∧ ((s.newPage (idealDisk ℕ)).1 = .ok none ↔ s.AllPinned) := by
  have hrun : ∃ s : BufferPoolManager ℕ (PageId → ℕ),
      Transition.Run (Step (idealDisk ℕ)) (init 1 1 (fun _ => 0) 0)
        [.newPage, .fetchPage 0, .unpinPage 0 true, .unpinPage 0 false, .newPage,
          .deletePage 1] s ∧ s.replacer.size = 0 := by
    refine ⟨_, .cons ⟨trivial, id, rfl⟩ (.cons ⟨⟨le_rfl, by decide⟩, ?_, rfl⟩
      (.cons ⟨trivial, id, rfl⟩ (.cons ⟨trivial, id, rfl⟩ (.cons ⟨trivial, id, rfl⟩
        (.cons ⟨trivial, id, rfl⟩ (.nil _)))))), rfl⟩
    rintro ⟨f, hf, hpin⟩
    cases hf
    revert hpin
    decide
  obtain ⟨s, hrun, hsize⟩ := hrun
  exact ⟨s, hrun, hsize, (pool_invariant_of_run (idealDisk_reliable ℕ) le_rfl hrun).2.2.2.2.2.1⟩

/-- After one `NewPage`, the page can be fetched until its pin count is any `int` that is wanted. -/
lemma exists_run_fetches (n : ℕ) (hn : (n : ℤ) + 1 ≤ maxPinCount) :
    ∃ s : BufferPoolManager ℕ (PageId → ℕ),
      Transition.Run (Step (idealDisk ℕ)) (init 1 1 (fun _ => 0) 0)
        (.newPage :: List.replicate n (.fetchPage 0)) s ∧
      s.Consistent none ∧ s.Resident 0 0 ∧ (s.pages 0).pinCount = n + 1 ∧ s.nextPageId = 1 := by
  induction n with
  | zero =>
    have hrun : Transition.Run (Step (idealDisk ℕ)) (init 1 1 (fun _ => 0) 0) [.newPage]
        ((init 1 1 (fun _ => 0) 0 : BufferPoolManager ℕ (PageId → ℕ)).perform (idealDisk ℕ)
          .newPage).2 := .cons ⟨trivial, id, rfl⟩ (.nil _)
    exact ⟨_, hrun, (consistent_of_run (idealDisk_reliable ℕ) le_rfl hrun).1, rfl, rfl, rfl⟩
  | succ n ih =>
    obtain ⟨s, hrun, hcons, hres, hpin, hnext⟩ := ih (by push_cast at hn; omega)
    obtain ⟨s', hs', hpres, -, hnext', hpages, hres'⟩ := hcons.fetchPage_hit (idealDisk ℕ) hres
    have hstep : Step (idealDisk ℕ) s (.fetchPage 0) s' := by
      refine ⟨⟨le_rfl, by rw [hnext]; decide⟩, ?_, ?_⟩
      · rintro ⟨f, hf, hmax⟩
        obtain rfl : f = 0 := Option.some.inj (hf.symm.trans hres)
        push_cast at hn
        omega
      · simp [BufferPoolManager.perform, hs', Except.map]
    refine ⟨s', ?_, hpres.consistent, (hres' 0 0).2 hres, ?_, hnext'.trans hnext⟩
    · rw [List.replicate_succ', ← List.cons_append]
      exact hrun.append (.cons hstep (.nil s'))
    · rw [hpages, Function.update_self]
      dsimp only
      rw [hpin]
      omega

/-- After `NewPage` and 2^31 - 2 calls of `FetchPage(0)`, a further one is a call that a client may
make, and increments a `pin_count_` that is the largest `int`; in the 32 bits of an `int` the new
count is negative. -/
theorem fetchPage_overflows :
    ∃ s : BufferPoolManager ℕ (PageId → ℕ),
      Transition.Run (Step (idealDisk ℕ)) (init 1 1 (fun _ => 0) 0)
        (.newPage :: List.replicate (2 ^ 31 - 2) (.fetchPage 0)) s ∧
      s.Permits (.fetchPage 0) ∧ s.Overflows (.fetchPage 0) ∧
      (BitVec.ofInt 32 (((s.perform (idealDisk ℕ) (.fetchPage 0)).2.pages 0).pinCount)).toInt < 0 := by
  obtain ⟨s, hrun, hcons, hres, hpin, hnext⟩ :=
    exists_run_fetches (2 ^ 31 - 2) (by unfold maxPinCount; norm_num)
  obtain ⟨s', hs', -, -, -, hpages, -⟩ := hcons.fetchPage_hit (idealDisk ℕ) hres
  have hcount : (s.pages 0).pinCount = 2 ^ 31 - 1 := by
    rw [hpin]
    norm_num
  refine ⟨s, hrun, ⟨le_rfl, by rw [hnext]; decide⟩, ⟨0, hres, hcount⟩, ?_⟩
  simp only [BufferPoolManager.perform, hs', hpages, Function.update_self, hcount]
  decide

end BufferPoolManager

end OneBase
