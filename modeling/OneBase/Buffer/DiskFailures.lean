import OneBase.Buffer.PoolConsistency

set_option relaxedAutoImplicit false
set_option autoImplicit false

/-!
# Disk failures

`NewPage` and `FetchPage` take a frame from the free list or from the replacer before they use the
disk, and an exception of the disk leaves them before the frame has got a page. The disk may throw
in any call here.

## Main definitions

* `OneBase.BufferPoolManager.FaultyStep` — a call that may throw.
* `OneBase.BufferPoolManager.Survives` — what a pool should keep when a call throws.
* `OneBase.BufferPoolManager.Loose` — the invariant of the pools whose disk may throw.

## Main results

* `OneBase.BufferPoolManager.Loose.step` — every call keeps the invariant.
* `OneBase.BufferPoolManager.not_survives_of_run` — every call that throws loses a frame.
-/

namespace OneBase

namespace BufferPoolManager

variable {D δ : Type} {s s' : BufferPoolManager D δ} {p q : PageId} {f g : FrameId}

/-! ## Frames in use -/

/-- The frame is free, or it holds a page and the replacer has an entry for it, which is evictable
if and only if the page is not pinned. -/
def Usable (s : BufferPoolManager D δ) (f : FrameId) : Prop :=
  f ∈ s.freeList ∨ ∃ p, s.Resident p f ∧ s.replacer.IsTracked f ∧
    (s.replacer.IsEvictable f ↔ (s.pages f).pinCount = 0)

/-- What a pool that takes disk failures keeps when a call throws: all frames are in use, the pages
with changes that are not on disk are resident, and as soon as the disk does not throw any more,
calls can fill the pool with pages. -/
structure Survives [Inhabited D] (io : DiskIO δ D) (s s' : BufferPoolManager D δ) : Prop where
  frames : ∀ f < s'.poolSize, s'.Usable f
  unwritten : ∀ p f, s.Resident p f → (s.pages f).isDirty = true →
    (∃ g, s'.Resident p g) ∨ (io.writePage p (s.pages f).data s.disk).1 = .ok ()
  capacity : ∀ io' : DiskIO δ D, io'.Reliable → ∃ ops s'', Transition.Run (Step io') s' ops s'' ∧
    s'.poolSize ≤ s''.pageTable.keys.length

/-- A permitted call, on a disk that may throw. -/
def FaultyStep [Inhabited D] (s : BufferPoolManager D δ) (op : PoolOp)
    (s' : BufferPoolManager D δ) : Prop :=
  s.Permits op ∧ ∃ (io : DiskIO δ D) (r : Except Exception Unit), s.perform io op = (r, s')

/-- What holds of a pool from which frames may have been lost. -/
structure Loose (s : BufferPoolManager D δ) : Prop where
  free_nodup : s.freeList.Nodup
  free_lt : ∀ f ∈ s.freeList, f < s.poolSize
  resident_lt : ∀ p f, s.Resident p f → f < s.poolSize
  resident_not_free : ∀ p f, s.Resident p f → f ∉ s.freeList
  resident_inj : ∀ p q f, s.Resident p f → s.Resident q f → p = q
  pageId_eq : ∀ p f, s.Resident p f → (s.pages f).pageId = p
  pin_nonneg : ∀ f, 0 ≤ (s.pages f).pinCount
  tracked : ∀ f, s.replacer.IsTracked f → ∃ p, s.Resident p f
  evictable_iff : ∀ p f, s.Resident p f → s.replacer.IsTracked f →
    (s.replacer.IsEvictable f ↔ (s.pages f).pinCount = 0)
  maxFrames_eq : s.replacer.maxFrames = s.poolSize
  resident_lt_next : ∀ p f, s.Resident p f → p < s.nextPageId

/-- The pages of such a pool are filed. -/
lemma Loose.filed (h : s.Loose) : s.Filed where
  free_nodup := h.free_nodup
  free_lt := h.free_lt
  resident_lt := h.resident_lt
  resident_not_free := h.resident_not_free
  resident_inj := h.resident_inj
  pageId_eq := h.pageId_eq
  pin_nonneg := h.pin_nonneg
  resident_lt_next := h.resident_lt_next

/-- Beyond that, the invariant is about the frames that the replacer tracks. -/
lemma Filed.loose (h : s.Filed) (htracked : ∀ f, s.replacer.IsTracked f → ∃ p, s.Resident p f)
    (hevictable : ∀ p f, s.Resident p f → s.replacer.IsTracked f →
      (s.replacer.IsEvictable f ↔ (s.pages f).pinCount = 0))
    (hmax : s.replacer.maxFrames = s.poolSize) : s.Loose where
  free_nodup := h.free_nodup
  free_lt := h.free_lt
  resident_lt := h.resident_lt
  resident_not_free := h.resident_not_free
  resident_inj := h.resident_inj
  pageId_eq := h.pageId_eq
  pin_nonneg := h.pin_nonneg
  tracked := htracked
  evictable_iff := hevictable
  maxFrames_eq := hmax
  resident_lt_next := h.resident_lt_next

/-- A consistent pool has lost no frame. -/
lemma Consistent.loose (h : s.Consistent none) : s.Loose :=
  h.filed.loose (fun f hf => (h.tracked_iff f).1 hf) (fun p f hp _ => h.evictable_iff p f hp)
    h.maxFrames_eq

/-! ## Taking a frame -/

/-- The frame was taken: it is neither free, nor does it hold a page. -/
structure Spare (s : BufferPoolManager D δ) (f : FrameId) : Prop where
  lt : f < s.poolSize
  not_free : f ∉ s.freeList
  not_resident : ∀ p, ¬ s.Resident p f

/-- A frame that was taken is not in use. -/
lemma Spare.not_usable (h : s.Spare f) : ¬ s.Usable f := by
  rintro (hfree | ⟨p, hp, -⟩)
  · exact h.not_free hfree
  · exact h.not_resident p hp

/-- The disk does not matter. -/
lemma Loose.setDisk (h : s.Loose) (disk : δ) :
    ({ s with disk := disk } : BufferPoolManager D δ).Loose := by
  obtain ⟨h1, h2, h3, h4, h5, h6, h7, h8, h9, h10, h11⟩ := h
  exact ⟨h1, h2, h3, h4, h5, h6, h7, h8, h9, h10, h11⟩

/-- The disk does not matter for a frame that was taken. -/
lemma Spare.setDisk (h : s.Spare f) (disk : δ) :
    ({ s with disk := disk } : BufferPoolManager D δ).Spare f :=
  ⟨h.lt, h.not_free, h.not_resident⟩

/-- The front of the free list is taken. -/
lemma Loose.takeFree {rest : List FrameId} (h : s.Loose) (hfree : s.freeList = f :: rest) :
    ({ s with freeList := rest } : BufferPoolManager D δ).Loose ∧
      ({ s with freeList := rest } : BufferPoolManager D δ).Spare f := by
  have hnodup := h.free_nodup
  rw [hfree, List.nodup_cons] at hnodup
  have hmem : f ∈ s.freeList := by
    rw [hfree]
    exact List.mem_cons_self
  have hsub : ∀ g ∈ rest, g ∈ s.freeList := by
    intro g hg
    rw [hfree]
    exact List.mem_cons_of_mem f hg
  refine ⟨⟨hnodup.2, fun g hg => h.free_lt g (hsub g hg), h.resident_lt,
    fun q g hq hg => h.resident_not_free q g hq (hsub g hg), h.resident_inj, h.pageId_eq,
    h.pin_nonneg, h.tracked, h.evictable_iff, h.maxFrames_eq, h.resident_lt_next⟩, ?_⟩
  exact ⟨h.free_lt f hmem, hnodup.1, fun p hp => h.resident_not_free p f hp hmem⟩

/-- The replacer forgets a frame. -/
lemma Loose.forget (h : s.Loose) (f : FrameId) (disk : δ) :
    ({ s with replacer := s.replacer.eraseFrame f, disk := disk } :
      BufferPoolManager D δ).Loose := by
  refine ⟨h.free_nodup, h.free_lt, h.resident_lt, h.resident_not_free, h.resident_inj,
    h.pageId_eq, h.pin_nonneg, ?_, ?_, h.maxFrames_eq, h.resident_lt_next⟩
  · intro g hg
    exact h.tracked g (LRUKReplacer.eraseFrame_isTracked.1 hg).2
  · intro q g hq hg
    obtain ⟨hgf, hg⟩ := LRUKReplacer.eraseFrame_isTracked.1 hg
    have hiff := h.evictable_iff q g hq hg
    rw [← hiff]
    exact LRUKReplacer.eraseFrame_isEvictable.trans (and_iff_right hgf)

/-- The page table forgets a page, whose frame the replacer has forgotten. -/
lemma Loose.unmap (h : s.Loose) (hp : s.Resident p f) (hf : ¬ s.replacer.IsTracked f) :
    ({ s with pageTable := s.pageTable.erase p } : BufferPoolManager D δ).Loose ∧
      ({ s with pageTable := s.pageTable.erase p } : BufferPoolManager D δ).Spare f := by
  have hres : ∀ q g, ({ s with pageTable := s.pageTable.erase p } :
      BufferPoolManager D δ).Resident q g ↔ q ≠ p ∧ s.Resident q g := fun q g => erase_resident
  refine ⟨⟨h.free_nodup, h.free_lt, ?_, ?_, ?_, ?_, h.pin_nonneg, ?_, ?_, h.maxFrames_eq, ?_⟩, ?_⟩
  · exact fun q g hq => h.resident_lt q g ((hres q g).1 hq).2
  · exact fun q g hq => h.resident_not_free q g ((hres q g).1 hq).2
  · exact fun q r g hq hr => h.resident_inj q r g ((hres q g).1 hq).2 ((hres r g).1 hr).2
  · exact fun q g hq => h.pageId_eq q g ((hres q g).1 hq).2
  · intro g hg
    obtain ⟨q, hq⟩ := h.tracked g hg
    refine ⟨q, (hres q g).2 ⟨?_, hq⟩⟩
    rintro rfl
    obtain rfl : f = g := Option.some.inj (hp.symm.trans hq)
    exact hf hg
  · exact fun q g hq hg => h.evictable_iff q g ((hres q g).1 hq).2 hg
  · exact fun q g hq => h.resident_lt_next q g ((hres q g).1 hq).2
  · refine ⟨h.resident_lt p f hp, h.resident_not_free p f hp, fun q hq => ?_⟩
    obtain ⟨hne, hq⟩ := (hres q f).1 hq
    exact hne (h.resident_inj q p f hq hp)

/-- A frame that was taken and that the replacer does not track is free again. -/
lemma Loose.release [Inhabited D] (h : s.Loose) (hspare : s.Spare f)
    (hf : ¬ s.replacer.IsTracked f) :
    (({ s with freeList := s.freeList ++ [f] } : BufferPoolManager D δ).setPage f default).Loose := by
  set t := ({ s with freeList := s.freeList ++ [f] } : BufferPoolManager D δ).setPage f default
    with ht
  have hself : t.pages f = default := Function.update_self ..
  have hpages : ∀ g, g ≠ f → t.pages g = s.pages g := by
    intro g hg
    exact Function.update_of_ne hg ..
  have hother : ∀ q g, s.Resident q g → g ≠ f := by
    rintro q g hq rfl
    exact hspare.not_resident q hq
  refine ⟨?_, ?_, h.resident_lt, ?_, h.resident_inj, ?_, ?_, h.tracked, ?_, h.maxFrames_eq,
    h.resident_lt_next⟩
  · show (s.freeList ++ [f]).Nodup
    refine List.nodup_append.2 ⟨h.free_nodup, List.nodup_singleton f, fun g hg g' hg' heq => ?_⟩
    rw [List.mem_singleton] at hg'
    rw [heq, hg'] at hg
    exact hspare.not_free hg
  · intro g hg
    rcases List.mem_append.1 hg with hg | hg
    · exact h.free_lt g hg
    · rw [List.mem_singleton.1 hg]
      exact hspare.lt
  · intro q g hq hg
    rcases List.mem_append.1 hg with hg | hg
    · exact h.resident_not_free q g hq hg
    · exact hother q g hq (List.mem_singleton.1 hg)
  · intro q g hq
    rw [hpages g (hother q g hq)]
    exact h.pageId_eq q g hq
  · intro g
    by_cases hg : g = f
    · rw [hg, hself]
      exact le_refl (0 : ℤ)
    · rw [hpages g hg]
      exact h.pin_nonneg g
  · intro q g hq hg
    rw [hpages g (hother q g hq)]
    exact h.evictable_iff q g hq hg

/-- How `takeFrame` ends: there is no frame, the disk throws, or it takes a frame. -/
lemma Loose.takeFrame (h : s.Loose) (io : DiskIO δ D) :
    s.takeFrame io = (.ok none, s) ∨
      (∃ e t f, s.takeFrame io = (.error e, t) ∧ t.Loose ∧ t.poolSize = s.poolSize ∧
        f < t.poolSize ∧ ¬ t.Usable f) ∨
      ∃ f t, s.takeFrame io = (.ok (some f), t) ∧ t.Loose ∧ t.Spare f ∧
        t.poolSize = s.poolSize ∧ t.nextPageId = s.nextPageId ∧
        ∀ q g, t.Resident q g → s.Resident q g := by
  cases hfree : s.freeList with
  | cons f rest =>
    obtain ⟨hl, hspare⟩ := h.takeFree hfree
    exact .inr (.inr ⟨f, _, takeFrame_free hfree, hl, hspare, rfl, rfl, fun _ _ hq => hq⟩)
  | nil =>
    cases hev : s.replacer.evict with
    | none => exact .inl (takeFrame_full hfree hev)
    | some x =>
      obtain ⟨f, r⟩ := x
      obtain ⟨hevictable, rfl⟩ := LRUKReplacer.evict_spec hev
      obtain ⟨p, hp⟩ := h.tracked f hevictable.isTracked
      obtain rfl := h.pageId_eq p f hp
      have huntracked : ¬ (s.replacer.eraseFrame f).IsTracked f := by
        rw [LRUKReplacer.eraseFrame_isTracked]
        exact fun hf => hf.1 rfl
      -- the victim is written back, if it is dirty
      have hwrite : ∃ (w : Except Exception Unit) (disk : δ), (if (s.pages f).isDirty then
          ({ s with replacer := s.replacer.eraseFrame f } : BufferPoolManager D δ).writeFrame io
            (s.pages f).pageId f
        else (.ok (), { s with replacer := s.replacer.eraseFrame f })) =
          (w, { s with replacer := s.replacer.eraseFrame f, disk := disk }) := by
        split
        · exact ⟨_, _, rfl⟩
        · exact ⟨_, s.disk, rfl⟩
      obtain ⟨w, disk, hwrite⟩ := hwrite
      have hloose := h.forget f disk
      simp only [hfree] at hwrite
      cases w with
      | error e =>
        refine .inr (.inl ⟨e, _, f, ?_, hloose, rfl, h.resident_lt _ f hp, ?_⟩)
        · simp only [BufferPoolManager.takeFrame, hfree, hev, hwrite]
        · rintro (hmem | ⟨q, -, hf, -⟩)
          · exact h.resident_not_free _ f hp hmem
          · exact huntracked hf
      | ok _ =>
        obtain ⟨hl, hspare⟩ := hloose.unmap (p := (s.pages f).pageId) hp huntracked
        refine .inr (.inr ⟨f, _, ?_, hl, hspare, rfl, rfl, ?_⟩)
        · simp only [BufferPoolManager.takeFrame, hfree, hev, hwrite]
        · exact fun q g hq => (erase_resident.1 hq).2

/-! ## Calls -/

/-- A page is installed in a frame that was taken. -/
lemma Loose.installPage (h : s.Loose) (hspare : s.Spare f) (hp : ∀ g, ¬ s.Resident p g)
    (data : D) :
    ∃ s', s.installPage f p data = (.ok (), s') ∧ (p < s.nextPageId → s'.Loose) ∧
      s'.poolSize = s.poolSize := by
  set page : Page D := { data := data, pageId := p, pinCount := 1, isDirty := false } with hpage
  set t : BufferPoolManager D δ :=
    { s.setPage f page with pageTable := s.pageTable.insert p f } with ht
  obtain ⟨r, hr, hmax, -, htr, hev⟩ := accessFrame_spec (s := t) f
    (by simpa [ht, setPage, h.maxFrames_eq] using hspare.lt)
  have hres : ∀ q g, ({ t with replacer := r } : BufferPoolManager D δ).Resident q g ↔
      if q = p then g = f else s.Resident q g := by
    intro q g
    exact insert_resident (s := s.setPage f page)
  have hself : t.pages f = page := Function.update_self ..
  refine ⟨{ t with replacer := r }, hr, fun hlt => ?_, rfl⟩
  have hfiled : ({ t with replacer := r } : BufferPoolManager D δ).Filed :=
    h.filed.insert hspare.lt hspare.not_free hspare.not_resident hlt data r
  refine hfiled.loose ?_ ?_ (hmax.trans h.maxFrames_eq)
  · intro g hg
    rcases (htr g).1 hg with rfl | hg
    · exact ⟨p, (hres p g).2 (by rw [if_pos rfl])⟩
    · obtain ⟨q, hq⟩ := h.tracked g hg
      have hqp : q ≠ p := by
        rintro rfl
        exact hp g hq
      exact ⟨q, (hres q g).2 (by rwa [if_neg hqp])⟩
  · intro q g hq hg
    rw [hres] at hq
    show r.IsEvictable g ↔ (t.pages g).pinCount = 0
    split_ifs at hq with hqp
    · rw [hev, hq, hself]
      simp [hpage]
    · have hgf : g ≠ f := by
        rintro rfl
        exact hspare.not_resident q hq
      have hg' : s.replacer.IsTracked g := ((htr g).1 hg).resolve_left hgf
      have hsame : t.pages g = s.pages g := Function.update_of_ne hgf ..
      rw [hev, hsame, ← h.evictable_iff q g hq hg']
      exact and_iff_right hgf

variable {io : DiskIO δ D} {e : Exception}

/-- `NewPage` keeps the invariant; if it throws, a frame is lost. -/
lemma Loose.newPage [Inhabited D] (h : s.Loose) (io : DiskIO δ D) :
    ∃ r s', s.newPage io = (r, s') ∧ s'.Loose ∧ s'.poolSize = s.poolSize ∧
      ∀ e, r = .error e → ∃ f < s'.poolSize, ¬ s'.Usable f := by
  rcases h.takeFrame io with htake | ⟨e, t, f, htake, hl, hsize, hf, hlost⟩ |
    ⟨f, t, htake, hl, hspare, hsize, hnext, hsub⟩
  · exact ⟨.ok none, s, by simp [BufferPoolManager.newPage, htake], h, rfl, by simp⟩
  · exact ⟨.error e, t, by simp [BufferPoolManager.newPage, htake], hl, hsize,
      fun _ _ => ⟨f, hf, hlost⟩⟩
  · have hfresh : ∀ g, ¬ t.Resident t.nextPageId g :=
      fun g hg => lt_irrefl _ (hl.resident_lt_next _ g hg)
    have hl' : ({ t with nextPageId := t.nextPageId + 1 } : BufferPoolManager D δ).Loose := by
      obtain ⟨h1, h2, h3, h4, h5, h6, h7, h8, h9, h10, h11⟩ := hl
      refine ⟨h1, h2, h3, h4, h5, h6, h7, h8, h9, h10, fun q g hq => ?_⟩
      have := h11 q g hq
      show q < t.nextPageId + 1
      lia
    have hlt : t.nextPageId <
        ({ t with nextPageId := t.nextPageId + 1 } : BufferPoolManager D δ).nextPageId := by
      show t.nextPageId < t.nextPageId + 1
      lia
    obtain ⟨s', hinstall, hl'', hsize'⟩ := hl'.installPage (p := t.nextPageId) (f := f)
      ⟨hspare.lt, hspare.not_free, hspare.not_resident⟩ hfresh default
    exact ⟨.ok (some (t.nextPageId, f)), s', by simp [BufferPoolManager.newPage, htake, hinstall],
      hl'' hlt, hsize'.trans hsize, by simp⟩

/-- A page that is resident is pinned once more. -/
lemma Loose.fetchPage_hit (h : s.Loose) (hp : s.Resident p f) :
    ∃ s', s.fetchPage io p = (.ok (some f), s') ∧ s'.Loose ∧ s'.poolSize = s.poolSize := by
  set page : Page D := { s.pages f with pinCount := (s.pages f).pinCount + 1 } with hpage
  obtain ⟨r, hr, hmax, -, htr, hev⟩ := accessFrame_spec (s := s.setPage f page) f
    (by simpa [setPage, h.maxFrames_eq] using h.resident_lt p f hp)
  have hlk : s.pageTable.lookup p = some f := hp
  have hself : (s.setPage f page).pages f = page := Function.update_self ..
  have hnonneg := h.pin_nonneg f
  have hfiled := h.filed.setPage f page rfl (by rw [hpage]; dsimp only; omega) r
  refine ⟨{ s.setPage f page with replacer := r }, by simp [fetchPage, hlk, hr, ← hpage],
    hfiled.loose ?_ ?_ (hmax.trans h.maxFrames_eq), rfl⟩
  · intro g hg
    rcases (htr g).1 hg with rfl | hg
    · exact ⟨p, hp⟩
    · exact h.tracked g hg
  · intro q g hq hg
    show r.IsEvictable g ↔ ((s.setPage f page).pages g).pinCount = 0
    by_cases hgf : g = f
    · rw [hev, hgf, hself, hpage]
      dsimp only
      constructor
      · exact fun hfalse => absurd rfl hfalse.1
      · intro hzero
        omega
    · have hg' : s.replacer.IsTracked g := ((htr g).1 hg).resolve_left hgf
      have hsame : (s.setPage f page).pages g = s.pages g := Function.update_of_ne hgf ..
      rw [hev, hsame, ← h.evictable_iff q g hq hg']
      exact and_iff_right hgf

/-- `FetchPage` keeps the invariant; if it throws, a frame is lost. -/
lemma Loose.fetchPage (h : s.Loose) (io : DiskIO δ D) (p : PageId) :
    (∃ r s', s.fetchPage io p = (r, s') ∧ (p < s.nextPageId → s'.Loose) ∧
      ∀ e, r = .error e → ∃ f < s'.poolSize, ¬ s'.Usable f) := by
  cases hlk : s.pageTable.lookup p with
  | some f =>
    obtain ⟨s', hcall, hl, -⟩ := (h.fetchPage_hit hlk : ∃ s', s.fetchPage io p = _ ∧ _)
    exact ⟨_, s', hcall, fun _ => hl, by simp⟩
  | none =>
    rcases h.takeFrame io with htake | ⟨e, t, f, htake, hl, -, hf, hlost⟩ |
      ⟨f, t, htake, hl, hspare, hsize, hnext, hsub⟩
    · exact ⟨.ok none, s, by simp [BufferPoolManager.fetchPage, hlk, htake], fun _ => h, by simp⟩
    · exact ⟨.error e, t, by simp [BufferPoolManager.fetchPage, hlk, htake], fun _ => hl,
        fun _ _ => ⟨f, hf, hlost⟩⟩
    · cases hread : io.readPage p t.disk with
      | mk x disk =>
        cases x with
        | error e =>
          refine ⟨.error e, { t with disk := disk },
            by simp [BufferPoolManager.fetchPage, hlk, htake, hread], fun _ => hl.setDisk disk,
            fun _ _ => ⟨f, hspare.lt, (hspare.setDisk disk).not_usable⟩⟩
        | ok data =>
          have hp : ∀ g, ¬ t.Resident p g := by
            intro g hg
            cases hlk.symm.trans (hsub p g hg)
          obtain ⟨s', hinstall, hl', -⟩ :=
            (hl.setDisk disk).installPage (hspare.setDisk disk) (p := p) hp data
          refine ⟨.ok (some f), s',
            by simp [BufferPoolManager.fetchPage, hlk, htake, hread, hinstall], fun hlt => ?_,
            by simp⟩
          exact hl' (hlt.trans_eq hnext.symm)

/-- `UnpinPage` keeps the invariant. -/
lemma Loose.unpinPage (h : s.Loose) (p : PageId) (d : Bool) : (s.unpinPage p d).2.Loose := by
  unfold BufferPoolManager.unpinPage
  cases hlk : s.pageTable.lookup p with
  | none => exact h
  | some f =>
    dsimp only
    by_cases hpos : (s.pages f).pinCount ≤ 0
    · rw [if_pos hpos]
      exact h
    rw [if_neg hpos]
    set page : Page D := { s.pages f with
      pinCount := (s.pages f).pinCount - 1
      isDirty := if d then true else (s.pages f).isDirty } with hpage
    have hself : (s.setPage f page).pages f = page := Function.update_self ..
    have hfiled := fun r => h.filed.setPage f page rfl (by rw [hpage]; dsimp only; omega) r
    -- the replacer is told if there is no pin left
    have hmain : ∀ r : LRUKReplacer, r.maxFrames = s.replacer.maxFrames →
        (∀ g, r.IsTracked g ↔ s.replacer.IsTracked g) →
        (∀ g, r.IsTracked g → (r.IsEvictable g ↔
          if g = f then page.pinCount = 0 else s.replacer.IsEvictable g)) →
        ({ s.setPage f page with replacer := r } : BufferPoolManager D δ).Loose := by
      intro r hmax htr hev
      refine (hfiled r).loose (fun g hg => h.tracked g ((htr g).1 hg)) (fun q g hq hg => ?_)
        (hmax.trans h.maxFrames_eq)
      show r.IsEvictable g ↔ ((s.setPage f page).pages g).pinCount = 0
      rw [hev g hg]
      by_cases hgf : g = f
      · rw [if_pos hgf, hgf, hself]
      · have hsame : (s.setPage f page).pages g = s.pages g := Function.update_of_ne hgf ..
        rw [if_neg hgf, hsame]
        exact h.evictable_iff q g hq ((htr g).1 hg)
    by_cases hzero : page.pinCount = 0
    · rw [if_pos hzero]
      refine hmain (s.replacer.setEvictable f true) (by simp) (fun g => by simp) fun g hg => ?_
      by_cases hf : s.replacer.IsTracked f
      · rw [LRUKReplacer.setEvictable_isEvictable true hf]
        simp [hzero]
      · have he : s.replacer.entries.lookup f = none := AList.lookup_eq_none.2 hf
        have hgf : g ≠ f := by
          rintro rfl
          exact hf (by simpa using hg)
        simp [LRUKReplacer.setEvictable, he, hgf]
    · rw [if_neg hzero]
      refine hmain s.replacer rfl (fun _ => Iff.rfl) fun g hg => ?_
      split_ifs with hgf
      · subst hgf
        have hne : (s.pages g).pinCount ≠ 0 := by omega
        rw [h.evictable_iff p g hlk hg]
        exact iff_of_false hne hzero
      · rfl

/-- `DeletePage` keeps the invariant. -/
lemma Loose.deletePage [Inhabited D] (h : s.Loose) (p : PageId) : (s.deletePage p).2.Loose := by
  unfold BufferPoolManager.deletePage
  cases hlk : s.pageTable.lookup p with
  | none => exact h
  | some f =>
    dsimp only
    by_cases hpin : (s.pages f).pinCount ≠ 0
    · rw [if_pos hpin]
      exact h
    rw [if_neg hpin]
    -- the replacer forgets the frame, if it has an entry for it
    have hremove : s.replacer.remove f = .ok (s.replacer.eraseFrame f) ∨
        (s.replacer.remove f = .ok s.replacer ∧ ¬ s.replacer.IsTracked f) := by
      by_cases hf : s.replacer.IsTracked f
      · left
        apply LRUKReplacer.remove_of_isEvictable
        exact (h.evictable_iff p f hlk hf).2 (by simpa using hpin)
      · right
        have he : s.replacer.entries.lookup f = none := AList.lookup_eq_none.2 hf
        exact ⟨by simp [LRUKReplacer.remove, he], hf⟩
    have hmain : ∀ r : LRUKReplacer,
        ({ s with replacer := r } : BufferPoolManager D δ).Loose → ¬ r.IsTracked f →
        (({ s with
            pageTable := s.pageTable.erase p
            replacer := r
            freeList := s.freeList ++ [f] } : BufferPoolManager D δ).setPage f default).Loose := by
      intro r hl hf
      obtain ⟨hl, hspare⟩ := hl.unmap (p := p) hlk hf
      exact hl.release hspare hf
    rcases hremove with hremove | ⟨hremove, hf⟩
    · rw [hremove]
      refine hmain _ (h.forget f s.disk) ?_
      rw [LRUKReplacer.eraseFrame_isTracked]
      exact fun hf => hf.1 rfl
    · rw [hremove]
      exact hmain _ h hf

/-- The data and the dirty flag of a frame do not matter. -/
lemma Loose.setPage_data (h : s.Loose) (f : FrameId) (page : Page D)
    (hid : page.pageId = (s.pages f).pageId) (hpin : page.pinCount = (s.pages f).pinCount) :
    (s.setPage f page).Loose := by
  have hfiled : (s.setPage f page).Filed :=
    h.filed.setPage f page hid (hpin ▸ h.pin_nonneg f) s.replacer
  refine hfiled.loose h.tracked (fun q g hq hg => ?_) h.maxFrames_eq
  have hsame : ((s.setPage f page).pages g).pinCount = (s.pages g).pinCount := by
    by_cases hgf : g = f
    · subst hgf
      simp [setPage, hpin]
    · simp [setPage, hgf]
  rw [hsame]
  exact h.evictable_iff q g hq hg

/-- Writing a frame out keeps the invariant, also when the disk throws. -/
lemma Loose.flushFrame (h : s.Loose) (io : DiskIO δ D) (p : PageId) (f : FrameId) :
    (s.flushFrame io p f).2.Loose := by
  unfold BufferPoolManager.flushFrame writeFrame
  cases hw : io.writePage p (s.pages f).data s.disk with
  | mk r disk =>
    cases r with
    | error e => exact h.setDisk disk
    | ok _ => exact (h.setDisk disk).setPage_data f _ rfl rfl

/-- The loop of `FlushAllPages`. -/
lemma Loose.flushEntries (io : DiskIO δ D) (es : List (Sigma fun _ : PageId => FrameId))
    (h : s.Loose) : (BufferPoolManager.flushEntries io es s).2.Loose := by
  induction es generalizing s with
  | nil => exact h
  | cons it es ih =>
    have hone := h.flushFrame io it.1 it.2
    unfold BufferPoolManager.flushEntries
    cases hw : s.flushFrame io it.1 it.2 with
    | mk r t =>
      rw [hw] at hone
      cases r with
      | error e => exact hone
      | ok _ => exact ih hone

variable [Inhabited D] {op : PoolOp} {ops : List PoolOp}

/-- A call keeps the invariant, whether it throws or not. -/
lemma Loose.step (h : s.Loose) (hstep : s.FaultyStep op s') : s'.Loose := by
  obtain ⟨hpermits, io, r, hperform⟩ := hstep
  have hs' : (s.perform io op).2 = s' := by rw [hperform]
  rw [← hs']
  cases op with
  | newPage =>
    obtain ⟨r, t, hcall, hl, -⟩ := h.newPage io
    simp only [perform, hcall]
    exact hl
  | fetchPage p =>
    obtain ⟨r, t, hcall, hl, -⟩ := h.fetchPage io p
    simp only [perform, hcall]
    exact hl hpermits.2
  | unpinPage p d => exact h.unpinPage p d
  | deletePage p => exact h.deletePage p
  | flushPage p =>
    simp only [perform, flushPage]
    cases hlk : s.pageTable.lookup p with
    | none => exact h
    | some f =>
      have hone := h.flushFrame io p f
      dsimp only
      cases hw : s.flushFrame io p f with
      | mk r t =>
        rw [hw] at hone
        cases r with
        | error e => exact hone
        | ok _ => exact hone
  | flushAllPages => exact h.flushEntries io _

/-- Every state that calls reach, whether they throw or not, has the invariant. -/
lemma loose_of_run {poolSize k : ℕ} {disk : δ} {next : PageId} (hnext : 0 ≤ next)
    (hrun : Transition.Run FaultyStep (init poolSize k disk next) ops s) : s.Loose :=
  hrun.invariant (fun _ _ _ h hstep => h.step hstep)
    (consistent_init poolSize k disk next hnext).loose

/-- The exception is thrown when a frame was taken and has no page yet. -/
lemma Loose.not_survives (h : s.Loose)
    (hthrow : s.newPage io = (.error e, s') ∨ ∃ p, s.fetchPage io p = (.error e, s')) :
    ∃ f < s'.poolSize, ¬ s'.Usable f := by
  rcases hthrow with hthrow | ⟨p, hthrow⟩
  · obtain ⟨r, t, hcall, -, -, hlost⟩ := h.newPage io
    obtain ⟨rfl, rfl⟩ := Prod.mk.inj (hcall.symm.trans hthrow)
    exact hlost e rfl
  · obtain ⟨r, t, hcall, -, hlost⟩ := h.fetchPage io p
    obtain ⟨rfl, rfl⟩ := Prod.mk.inj (hcall.symm.trans hthrow)
    exact hlost e rfl

/-- A disk that cannot be read. -/
def brokenDisk : DiskIO Unit ℕ where
  readPage _ disk := (.error (.runtimeError "I/O error while seeking to read page"), disk)
  writePage _ _ disk := (.ok (), disk)

/-- A pool of one frame fetches page 0 from this disk. Its frame is then neither free nor does it
hold a page. -/
theorem not_survives_brokenDisk :
    ∃ (e : Exception) (s' : BufferPoolManager ℕ Unit),
      (init 1 1 () 1 : BufferPoolManager ℕ Unit).fetchPage brokenDisk 0 = (.error e, s') ∧
        s'.freeList = [] ∧ (∀ p, ¬ s'.Resident p 0) ∧
        ¬ Survives brokenDisk (init 1 1 () 1) s' := by
  have hres : ∀ p,
      ¬ ((init 1 1 () 1 : BufferPoolManager ℕ Unit).fetchPage brokenDisk 0).2.Resident p 0 := by
    intro p hp
    cases (AList.lookup_empty p).symm.trans hp
  refine ⟨_, _, rfl, rfl, hres, fun hsurvives => ?_⟩
  rcases hsurvives.frames 0 Nat.one_pos with hfree | ⟨p, hp, -⟩
  · cases hfree
  · exact hres p hp

/-- **Disk failures.** In every state that calls reach, whether they threw or not, a call of
`NewPage` or `FetchPage` that throws leaves a pool that has lost a frame. -/
theorem not_survives_of_run {poolSize k : ℕ} {disk : δ} {next : PageId} (hnext : 0 ≤ next)
    (hrun : Transition.Run FaultyStep (init poolSize k disk next) ops s)
    (hthrow : s.newPage io = (.error e, s') ∨ ∃ p, s.fetchPage io p = (.error e, s')) :
    ¬ Survives io s s' := by
  intro hsurvives
  obtain ⟨f, hf, hlost⟩ := (loose_of_run hnext hrun).not_survives hthrow
  exact hlost (hsurvives.frames f hf)

/-- The pool of one frame and the disk that cannot be read. -/
theorem not_survives_of_run_brokenDisk :
    ¬ Survives brokenDisk (init 1 1 () 1)
      ((init 1 1 () 1 : BufferPoolManager ℕ Unit).fetchPage brokenDisk 0).2 :=
  not_survives_of_run (zero_le_one : (0 : ℤ) ≤ 1) (.nil _) (.inr ⟨0, rfl⟩)

end BufferPoolManager

end OneBase
