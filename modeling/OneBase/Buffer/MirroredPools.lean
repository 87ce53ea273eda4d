import OneBase.Buffer.PoolConsistency

set_option relaxedAutoImplicit false
set_option autoImplicit false

/-!
# One pool over two disks

A pool sees its disk only through `ReadPage` and `WritePage`. Where two disks answer these calls
alike, as long as the pages that are read are there, two pools that differ in their disk only stay
so: every call has the same result on both, and leaves them with disks that answer alike again.

## Main definitions

* `OneBase.DiskIO.Mirrors` — one disk answers as the other one, while the pages read are there.
* `OneBase.BufferPoolManager.withDisk` — the same pool on another disk.
* `OneBase.BufferPoolManager.Mirrored` — two outcomes that differ in the disk only.

## Main results

* `OneBase.BufferPoolManager.newPage_mirrored`, `fetchPage_mirrored`, `flushAllPages_mirrored`, … —
  every call of the pool.
-/

namespace OneBase

/-- The disk `io` answers as the disk `io'` does, and stays in the relation `R` with it: for every
write of a page, and for every read of a page that is `there` on the second disk. Writing removes
no page. -/
structure DiskIO.Mirrors {δ δ' D : Type} (io : DiskIO δ D) (io' : DiskIO δ' D) (R : δ → δ' → Prop)
    (there : δ' → PageId → Prop) : Prop where
  read : ∀ p d d', R d d' → 0 ≤ p → there d' p →
    (io'.readPage p d').1 = (io.readPage p d).1 ∧ R (io.readPage p d).2 (io'.readPage p d').2
  write : ∀ p x d d', R d d' → 0 ≤ p →
    (io'.writePage p x d').1 = (io.writePage p x d).1 ∧
      R (io.writePage p x d).2 (io'.writePage p x d').2
  there_write : ∀ p x d' q, 0 ≤ p → there d' q → there (io'.writePage p x d').2 q

namespace BufferPoolManager

variable {D δ δ' : Type}

/-- The same pool on another disk. -/
def withDisk (s : BufferPoolManager D δ) (disk : δ') : BufferPoolManager D δ' where
  poolSize := s.poolSize
  disk := disk
  nextPageId := s.nextPageId
  replacer := s.replacer
  pages := s.pages
  pageTable := s.pageTable
  freeList := s.freeList

/-- The outcome on the second disk is the same but for the disk, and the disks are related. -/
def Mirrored {α : Type} (R : δ → δ' → Prop) (o : Outcome (BufferPoolManager D δ) α)
    (o' : Outcome (BufferPoolManager D δ') α) : Prop :=
  ∃ d', o' = (o.1, o.2.withDisk d') ∧ R o.2.disk d'

section Disk

variable {s : BufferPoolManager D δ} {d' : δ'} {held : Option FrameId} {p : PageId} {f : FrameId}

/-- The disk does not matter for the pages that are resident. -/
@[simp] lemma withDisk_resident : (s.withDisk d').Resident p f ↔ s.Resident p f := Iff.rfl

/-- The frames are the same on another disk. -/
@[simp] lemma withDisk_pages : (s.withDisk d').pages = s.pages := rfl

/-- The disk is the other one. -/
@[simp] lemma withDisk_disk : (s.withDisk d').disk = d' := rfl

/-- The page table is the same on another disk. -/
@[simp] lemma withDisk_pageTable : (s.withDisk d').pageTable = s.pageTable := rfl

/-- The replacer is the same on another disk. -/
@[simp] lemma withDisk_replacer : (s.withDisk d').replacer = s.replacer := rfl

/-- The next page is the same on another disk. -/
@[simp] lemma withDisk_nextPageId : (s.withDisk d').nextPageId = s.nextPageId := rfl

/-- The size of the pool is the same on another disk. -/
@[simp] lemma withDisk_poolSize : (s.withDisk d').poolSize = s.poolSize := rfl

/-- On its own disk the pool is itself. -/
@[simp] lemma withDisk_self : s.withDisk s.disk = s := rfl

/-- The last disk counts. -/
@[simp] lemma withDisk_withDisk {δ'' : Type} (d'' : δ'') :
    (s.withDisk d').withDisk d'' = s.withDisk d'' := rfl

/-- Whether all frames are pinned does not depend on the disk. -/
@[simp] lemma withDisk_allPinned : (s.withDisk d').AllPinned ↔ s.AllPinned := Iff.rfl

/-- The disk plays no part in the invariant. -/
lemma Consistent.withDisk (h : s.Consistent held) (d' : δ') : (s.withDisk d').Consistent held := by
  obtain ⟨h1, h2, h3, h4, h5, h6, h7, h8, h9, h10, h11, h12, h13, h14, h15, h16, h17⟩ := h
  exact ⟨h1, h2, h3, h4, h5, h6, h7, h8, h9, h10, h11, h12, h13, h14, h15, h16, h17⟩

/-- The constructor on another disk. -/
@[simp] lemma init_withDisk [Inhabited D] (poolSize k : ℕ) (disk : δ) (next : PageId) :
    (init poolSize k disk next : BufferPoolManager D δ).withDisk d' =
      init poolSize k d' next := rfl

/-- The access of a frame. -/
lemma accessFrame_withDisk : (s.withDisk d').accessFrame f =
    ((s.accessFrame f).1, (s.accessFrame f).2.withDisk d') := by
  simp only [accessFrame, withDisk]
  cases s.replacer.recordAccess f <;> rfl

/-- The access of a frame leaves the disk alone. -/
lemma accessFrame_disk : (s.accessFrame f).2.disk = s.disk := by
  simp only [accessFrame]
  cases s.replacer.recordAccess f <;> rfl

/-- Installing a page leaves the disk alone and does not read it. -/
lemma installPage_withDisk (d' : δ') (data : D) : (s.withDisk d').installPage f p data =
    ((s.installPage f p data).1, (s.installPage f p data).2.withDisk d') ∧
      (s.installPage f p data).2.disk = s.disk := by
  constructor
  · rw [installPage, installPage, ← accessFrame_withDisk]
    rfl
  · rw [installPage, accessFrame_disk]
    rfl

/-- `UnpinPage` leaves the disk alone and does not read it. -/
lemma unpinPage_withDisk (d' : δ') (isDirty : Bool) : (s.withDisk d').unpinPage p isDirty =
    ((s.unpinPage p isDirty).1, (s.unpinPage p isDirty).2.withDisk d') ∧
      (s.unpinPage p isDirty).2.disk = s.disk := by
  cases hl : s.pageTable.lookup p with
  | none => simp [unpinPage, hl]
  | some f =>
    by_cases hpin : (s.pages f).pinCount ≤ 0
    · simp [unpinPage, hl, hpin]
    · by_cases hone : (s.pages f).pinCount - 1 = 0 <;>
        simp [unpinPage, hl, hpin, hone, setPage, withDisk]

/-- `DeletePage` leaves the disk alone and does not read it. -/
lemma deletePage_withDisk [Inhabited D] (d' : δ') : (s.withDisk d').deletePage p =
    ((s.deletePage p).1, (s.deletePage p).2.withDisk d') ∧
      (s.deletePage p).2.disk = s.disk := by
  cases hl : s.pageTable.lookup p with
  | none => simp [deletePage, hl]
  | some f =>
    by_cases hpin : (s.pages f).pinCount = 0
    · cases hr : s.replacer.remove f <;>
        simp [deletePage, hl, hpin, hr, setPage, withDisk]
    · simp [deletePage, hl, hpin]

end Disk

section Calls

variable {io : DiskIO δ D} {io' : DiskIO δ' D} {R : δ → δ' → Prop} {there : δ' → PageId → Prop}
  {s : BufferPoolManager D δ} {d' : δ'} {p : PageId} {f : FrameId}

/-- Writing a frame out. -/
lemma writeFrame_mirrored (hm : io.Mirrors io' R there) (hd : R s.disk d') (hp : 0 ≤ p) :
    Mirrored R (s.writeFrame io p f) ((s.withDisk d').writeFrame io' p f) := by
  obtain ⟨hres, hrel⟩ := hm.write p (s.pages f).data s.disk d' hd hp
  refine ⟨(io'.writePage p (s.pages f).data d').2, ?_, hrel⟩
  apply Prod.ext
  · exact hres
  · rfl

/-- `takeFrame` by eviction: the victim is written back if it is dirty, and leaves the table. -/
lemma takeFrame_victim {r : LRUKReplacer} (hfree : s.freeList = [])
    (hev : s.replacer.evict = some (f, r)) :
    s.takeFrame io =
      match if (s.pages f).isDirty then
          ({ s with replacer := r } : BufferPoolManager D δ).writeFrame io (s.pages f).pageId f
        else (.ok (), { s with replacer := r }) with
      | (.error e, u) => (.error e, u)
      | (.ok (), u) =>
        (.ok (some f), { u with pageTable := u.pageTable.erase (s.pages f).pageId }) := by
  rw [takeFrame]
  split
  · next heq => simp [hfree] at heq
  · split
    · next heq => simp [hev] at heq
    · next heq =>
      obtain ⟨rfl, rfl⟩ := Prod.mk.inj (Option.some.inj (hev.symm.trans heq))
      rfl

/-- Taking a frame; every page that was there is there still. -/
lemma takeFrame_mirrored (hm : io.Mirrors io' R there) (hs : s.Consistent none)
    (hd : R s.disk d') :
    ∃ d'', (s.withDisk d').takeFrame io' = ((s.takeFrame io).1, (s.takeFrame io).2.withDisk d'') ∧
      R (s.takeFrame io).2.disk d'' ∧ ∀ q, there d' q → there d'' q := by
  cases hfree : s.freeList with
  | cons f rest =>
    have hfree' : (s.withDisk d').freeList = f :: rest := hfree
    rw [takeFrame_free hfree, takeFrame_free hfree']
    exact ⟨d', rfl, hd, fun q hq => hq⟩
  | nil =>
    have hfree' : (s.withDisk d').freeList = [] := hfree
    cases hev : s.replacer.evict with
    | none =>
      have hev' : (s.withDisk d').replacer.evict = none := hev
      rw [takeFrame_full hfree hev, takeFrame_full hfree' hev']
      exact ⟨d', rfl, hd, fun q hq => hq⟩
    | some fr =>
      obtain ⟨f, r⟩ := fr
      have hev' : (s.withDisk d').replacer.evict = some (f, r) := hev
      -- the victim is tracked, hence resident, and the id of a resident page is not negative
      obtain ⟨hf, -⟩ := LRUKReplacer.evict_spec hev
      obtain ⟨v, hv⟩ := (hs.tracked_iff f).1 hf.isTracked
      have hid : 0 ≤ (s.pages f).pageId := by
        rw [hs.pageId_eq v f hv]
        exact (hs.resident_allocated v f hv).1
      rw [takeFrame_victim hfree hev, takeFrame_victim hfree' hev', withDisk_pages]
      by_cases hdirty : (s.pages f).isDirty = true
      · obtain ⟨hres, hrel⟩ := hm.write (s.pages f).pageId (s.pages f).data s.disk d' hd hid
        have hthere := hm.there_write (s.pages f).pageId (s.pages f).data d'
        rw [if_pos hdirty, if_pos hdirty]
        refine ⟨(io'.writePage (s.pages f).pageId (s.pages f).data d').2, ?_, ?_,
          fun q hq => hthere q hid hq⟩
        · simp only [writeFrame, withDisk_disk, hres]
          cases (io.writePage (s.pages f).pageId (s.pages f).data s.disk).1 <;> rfl
        · simp only [writeFrame]
          cases (io.writePage (s.pages f).pageId (s.pages f).data s.disk).1 <;> exact hrel
      · rw [if_neg hdirty, if_neg hdirty]
        exact ⟨d', rfl, hd, fun q hq => hq⟩

/-- Returning a value after a call that did not throw. -/
lemma Mirrored.andReturn {β : Type} (b : β) :
    ∀ {o : Outcome (BufferPoolManager D δ) Unit} {o' : Outcome (BufferPoolManager D δ') Unit},
      Mirrored R o o' → Mirrored R
        (match o with
          | (.error e, s) => (.error e, s)
          | (.ok (), s) => (.ok b, s))
        (match o' with
          | (.error e, s) => (.error e, s)
          | (.ok (), s) => (.ok b, s)) := by
  rintro ⟨res, u⟩ - ⟨d'', rfl, hrel⟩
  cases res <;> exact ⟨d'', rfl, hrel⟩

/-- Installing a page. -/
lemma installPage_mirrored (hd : R s.disk d') (data : D) :
    Mirrored R (s.installPage f p data) ((s.withDisk d').installPage f p data) := by
  obtain ⟨heq, hdisk⟩ := installPage_withDisk (s := s) (f := f) (p := p) d' data
  exact ⟨d', heq, hdisk ▸ hd⟩

/-- The access of a frame. -/
lemma accessFrame_mirrored (hd : R s.disk d') :
    Mirrored R (s.accessFrame f) ((s.withDisk d').accessFrame f) :=
  ⟨d', accessFrame_withDisk, (accessFrame_disk (s := s) (f := f)) ▸ hd⟩

/-- `NewPage`. -/
lemma newPage_mirrored [Inhabited D] (hm : io.Mirrors io' R there) (hs : s.Consistent none)
    (hd : R s.disk d') : Mirrored R (s.newPage io) ((s.withDisk d').newPage io') := by
  obtain ⟨d'', htake, hrel, -⟩ := takeFrame_mirrored hm hs hd
  rw [newPage, newPage, htake]
  generalize s.takeFrame io = o at hrel ⊢
  obtain ⟨_ | _ | f, u⟩ := o
  · exact ⟨d'', rfl, hrel⟩
  · exact ⟨d'', rfl, hrel⟩
  · have hinst := installPage_mirrored (s := { u with nextPageId := u.nextPageId + 1 }) (f := f)
      (p := u.nextPageId) hrel default
    exact hinst.andReturn (some (u.nextPageId, f))

/-- `FetchPage` of a resident page, or of one that is there. -/
lemma fetchPage_mirrored [Inhabited D] (hm : io.Mirrors io' R there) (hs : s.Consistent none)
    (hd : R s.disk d') (hp : 0 ≤ p) (hthere : (∃ f, s.Resident p f) ∨ there d' p) :
    Mirrored R (s.fetchPage io p) ((s.withDisk d').fetchPage io' p) := by
  cases hl : s.pageTable.lookup p with
  | some f =>
    simp only [fetchPage, withDisk_pageTable, hl]
    have hacc := accessFrame_mirrored (f := f)
      (s := s.setPage f { s.pages f with pinCount := (s.pages f).pinCount + 1 }) hd
    exact hacc.andReturn (some f)
  | none =>
    have hon : there d' p := by
      rcases hthere with ⟨f, hf⟩ | hon
      · have hf : s.pageTable.lookup p = some f := hf
        simp [hl] at hf
      · exact hon
    obtain ⟨d'', htake, hrel, hkeep⟩ := takeFrame_mirrored hm hs hd
    simp only [fetchPage, withDisk_pageTable, hl]
    rw [htake]
    generalize s.takeFrame io = o at hrel ⊢
    obtain ⟨_ | _ | f, u⟩ := o
    · exact ⟨d'', rfl, hrel⟩
    · exact ⟨d'', rfl, hrel⟩
    · obtain ⟨hres, hread⟩ := hm.read p u.disk d'' hrel hp (hkeep p hon)
      simp only [withDisk_disk]
      rw [show io'.readPage p d'' = ((io.readPage p u.disk).1, (io'.readPage p d'').2) from
        Prod.ext hres rfl]
      generalize io.readPage p u.disk = r at hread ⊢
      obtain ⟨_ | data, d⟩ := r
      · exact ⟨_, rfl, hread⟩
      · have hinst := installPage_mirrored (s := { u with disk := d }) (f := f) (p := p) hread data
        exact hinst.andReturn (some f)

/-- Writing a frame out and clearing its flag. -/
lemma flushFrame_mirrored (hm : io.Mirrors io' R there) (hd : R s.disk d') (hp : 0 ≤ p) :
    Mirrored R (s.flushFrame io p f) ((s.withDisk d').flushFrame io' p f) := by
  obtain ⟨d'', hw, hrel⟩ := writeFrame_mirrored (s := s) (f := f) hm hd hp
  rw [flushFrame, flushFrame, hw]
  generalize s.writeFrame io p f = o at hrel ⊢
  obtain ⟨_ | _, u⟩ := o
  · exact ⟨d'', rfl, hrel⟩
  · exact ⟨d'', rfl, hrel⟩

/-- `FlushPage`. -/
lemma flushPage_mirrored (hm : io.Mirrors io' R there) (hs : s.Consistent none)
    (hd : R s.disk d') : Mirrored R (s.flushPage io p) ((s.withDisk d').flushPage io' p) := by
  cases hl : s.pageTable.lookup p with
  | none =>
    simp only [flushPage, withDisk_pageTable, hl]
    exact ⟨d', rfl, hd⟩
  | some f =>
    simp only [flushPage, withDisk_pageTable, hl]
    exact (flushFrame_mirrored hm hd (hs.resident_allocated p f hl).1).andReturn true

/-- The loop of `FlushAllPages`. -/
lemma flushEntries_mirrored (hm : io.Mirrors io' R there)
    (es : List (Sigma fun _ : PageId => FrameId)) (hes : ∀ e ∈ es, 0 ≤ e.1) (hd : R s.disk d') :
    Mirrored R (flushEntries io es s) (flushEntries io' es (s.withDisk d')) := by
  induction es generalizing s d' with
  | nil => exact ⟨d', rfl, hd⟩
  | cons e es ih =>
    obtain ⟨d'', hone, hrel⟩ := flushFrame_mirrored (s := s) (f := e.2) hm hd
      (hes e List.mem_cons_self)
    rw [flushEntries, flushEntries, hone]
    generalize s.flushFrame io e.1 e.2 = o at hrel ⊢
    obtain ⟨_ | _, u⟩ := o
    · exact ⟨d'', rfl, hrel⟩
    · exact ih (fun e' he' => hes e' (List.mem_cons_of_mem e he')) hrel

/-- `FlushAllPages`. -/
lemma flushAllPages_mirrored (hm : io.Mirrors io' R there) (hs : s.Consistent none)
    (hd : R s.disk d') :
    Mirrored R (s.flushAllPages io) ((s.withDisk d').flushAllPages io') :=
  flushEntries_mirrored hm _
    (fun e he => (hs.resident_allocated e.1 e.2 (AList.mem_lookup_iff.2 he)).1) hd

end Calls

end BufferPoolManager

end OneBase
