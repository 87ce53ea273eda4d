import OneBase.Buffer.MirroredPools
import OneBase.Buffer.Transparency
import OneBase.Storage.Disk.DiskManager

set_option relaxedAutoImplicit false
set_option autoImplicit false

/-!
# The buffer pool on the database file

The disk under a buffer pool is the disk manager with its one file stream, which fails for good
once a page beyond the end of the file is read. Between the file and the ideal disk stands the log
of what was written: it has the pages of the ideal disk, and it knows how far the file reaches.

## Main definitions

* `OneBase.DiskManager.fileDisk` — the disk manager as the disk of a pool.
* `OneBase.DiskLog.logDisk` — the log as the disk of a pool.
* `OneBase.BufferPoolManager.Happens` — an event of a client takes place on a pool.

## Main results

* `OneBase.DiskManager.fileDisk_mirrors`, `OneBase.DiskLog.logDisk_mirrors` — the file answers as
  the log, as long as no page beyond its end is read, and the log as the ideal disk.
* `OneBase.BufferPoolManager.Happens.mirrored` — what happens on a pool happens on its mirror.
-/

namespace OneBase

instance : Inhabited PageBytes := ⟨.zeros⟩

/-! ## Three disks -/

namespace DiskManager

/-- `ReadPage` fills the whole page. -/
lemma length_readPage {dm : DiskManager} {p : PageId} {l : List UInt8}
    (h : (dm.readPage p).1 = .ok l) : l.length = pageSize := by
  have hcount : (((dm.dbIo.seekg (p * pageSize)).read pageSize).1).length ≤ pageSize := by
    simp only [FileStream.read]
    split_ifs
    · simp
    · simp
    · simp
  simp only [readPage] at h
  split_ifs at h
  obtain rfl := Except.ok.inj h
  simp only [List.length_append, List.length_replicate]
  omega

/-- The disk manager as the disk of a pool. The pool counts `next_page_id_` itself; the copy in
the disk manager stays what it was when the file was opened. -/
def fileDisk : DiskIO DiskManager PageBytes where
  readPage p dm :=
    match h : (dm.readPage p).1 with
    | .error e => (.error e, (dm.readPage p).2)
    | .ok l => (.ok ⟨l, length_readPage h⟩, (dm.readPage p).2)
  writePage p data dm := dm.writePage p data

/-- `ReadPage`, when it does not throw. -/
lemma fileDisk_readPage {dm : DiskManager} {p : PageId} {x : PageBytes}
    (h : (dm.readPage p).1 = .ok x.bytes) :
    fileDisk.readPage p dm = (.ok x, (dm.readPage p).2) := by
  simp only [fileDisk]
  split
  · next e heq => simp [h] at heq
  · next l heq =>
    obtain rfl := Except.ok.inj (h.symm.trans heq)
    rfl

end DiskManager

namespace DiskLog

/-- The log as the disk of a pool. -/
def logDisk : DiskIO DiskLog PageBytes where
  readPage p log := (.ok (log.page p.toNat), log)
  writePage p data log := (.ok (), log.after (.writePage p.toNat data))

/-- No call on the log throws. -/
lemma logDisk_reliable : logDisk.Reliable where
  read p log := ⟨log.page p.toNat, rfl⟩
  write _ _ _ := rfl

/-- The file reaches beyond the page. -/
def Reaches (log : DiskLog) (p : PageId) : Prop := p.toNat < log.extent

/-- The pages of the ideal disk are those of the log. -/
def Shows (log : DiskLog) (disk : PageId → PageBytes) : Prop :=
  ∀ p, 0 ≤ p → disk p = log.page p.toNat

/-- Writing a page to the log changes this page only. -/
lemma page_after_writePage (log : DiskLog) (p q : ℕ) (data : PageBytes) :
    (log.after (.writePage p data)).page q = if q = p then data else log.page q := by
  by_cases h : q = p <;> simp [page, after, h]

/-- After a page was written the file reaches this page, and the pages that it reached before. -/
lemma reaches_after_writePage (log : DiskLog) (p q : PageId) (data : PageBytes) (hp : 0 ≤ p) :
    (log.after (.writePage p.toNat data)).Reaches q ↔ log.Reaches q ∨ q ≤ p := by
  simp only [Reaches, after]
  lia

/-- The log answers as the ideal disk with the same pages. -/
lemma logDisk_mirrors :
    logDisk.Mirrors (BufferPoolManager.idealDisk PageBytes) Shows fun _ _ => True where
  read p log disk h hp _ := ⟨by simp [BufferPoolManager.idealDisk, logDisk, h p hp], h⟩
  write p data log disk h hp := by
    refine ⟨rfl, fun q hq => ?_⟩
    show Function.update disk p data q = (log.after (.writePage p.toNat data)).page q.toNat
    rw [page_after_writePage, Function.update_apply, h q hq]
    have hiff : q.toNat = p.toNat ↔ q = p := by lia
    simp [hiff]
  there_write _ _ _ _ _ _ := trivial

end DiskLog

namespace DiskManager

open DiskLog

/-- The file holds the pages of the log, and its stream has not failed. -/
def Holds (dm : DiskManager) (log : DiskLog) : Prop := Agrees dm log ∧ log.readPastEnd = false

/-- The file answers as the log, as long as no page beyond its end is read. -/
lemma fileDisk_mirrors : fileDisk.Mirrors logDisk Holds Reaches where
  read p dm log h hp hthere := by
    obtain ⟨hagrees, hgood⟩ := h
    obtain ⟨n, rfl⟩ := Int.eq_ofNat_of_zero_le hp
    obtain ⟨hok, -⟩ := hagrees.readPage_of_good hgood n
    have hafter := (hagrees.perform_of_good hgood (.readPage n)).2
    have hlog : log.after (.readPage n) = log := by
      have hlt : ¬ log.extent ≤ n := not_le.2 hthere
      simp only [DiskLog.after, hgood, Bool.false_or, decide_eq_false hlt]
      rw [← hgood]
    rw [hlog] at hafter
    rw [fileDisk_readPage hok]
    exact ⟨rfl, hafter, hgood⟩
  write p data dm log h hp := by
    obtain ⟨hagrees, hgood⟩ := h
    obtain ⟨n, rfl⟩ := Int.eq_ofNat_of_zero_le hp
    obtain ⟨hok, -⟩ := hagrees.writePage_of_good hgood n data
    have hafter := (hagrees.perform_of_good hgood (.writePage n data)).2
    exact ⟨hok.symm, hafter, hgood⟩
  there_write p data log q hp hq := (reaches_after_writePage log p q data hp).2 (.inl hq)

/-- Opening the file again. -/
lemma Holds.openFile {dm : DiskManager} {log : DiskLog} (h : Holds dm log) :
    Holds (openFile dm.dbIo.file) { log with allocated := log.extent } := by
  obtain ⟨hagrees, hgood⟩ := h
  refine ⟨⟨?_, hagrees.size, hagrees.page, hagrees.lt_extent, hgood.symm, ?_, rfl⟩, hgood⟩
  · have hdiv : dm.dbIo.file.size / pageSize = log.extent := by
      rw [hagrees.size]
      exact Nat.mul_div_cancel _ (by decide)
    show ((dm.dbIo.file.size / pageSize : ℕ) : ℤ) = (log.extent : ℤ)
    rw [hdiv]
  · intro h
    cases h

end DiskManager

/-! ## Events on a pool -/

namespace BufferPoolManager

variable {D δ δ' : Type} [Inhabited D]

/-- The event takes place on the pool with the given disk. -/
def Happens (io : DiskIO δ D) (s : BufferPoolManager D δ) (e : PoolEvent D)
    (s' : BufferPoolManager D δ) : Prop :=
  match e with
  | .newPage r => ∃ x, s.newPage io = (.ok x, s') ∧ x.map Prod.fst = r
  | .fetchPage p ok => ∃ x, s.fetchPage io p = (.ok x, s') ∧ x.isSome = ok
  | .write p _ d => ∃ f, s.Resident p f ∧ s' = s.setPage f { s.pages f with data := d }
  | .unpinPage p _ isDirty ok => s.unpinPage p isDirty = (ok, s')
  | .flushPage p => ∃ ok, s.flushPage io p = (.ok ok, s')
  | .flushAllPages => s.flushAllPages io = (.ok (), s')
  | .deletePage p ok => s.deletePage p = (.ok ok, s')

/-- On the ideal disk this is what the clients see. -/
lemma happens_idealDisk {s s' : BufferPoolManager D (PageId → D)} {e : PoolEvent D} :
    Happens (idealDisk D) s e s' ↔ Occurs s e s' := by
  cases e <;> rfl

/-- What happens on a pool happens on its mirror: a page that is fetched must be resident or on
the mirror's disk.

**Proof sketch.** One case for each event, by the lemma about the call. -/
lemma Happens.mirrored {io : DiskIO δ D} {io' : DiskIO δ' D} {R : δ → δ' → Prop}
    {there : δ' → PageId → Prop} (hm : io.Mirrors io' R there) {s s' : BufferPoolManager D δ}
    {d' : δ'} {e : PoolEvent D} (h : Happens io s e s') (hs : s.Consistent none)
    (hd : R s.disk d')
    (hfetch : ∀ p ok, e = .fetchPage p ok → 0 ≤ p ∧ ((∃ f, s.Resident p f) ∨ there d' p)) :
    ∃ d'', Happens io' (s.withDisk d') e (s'.withDisk d'') ∧ R s'.disk d'' := by
  cases e with
  | newPage r =>
    obtain ⟨x, hx, rfl⟩ := h
    obtain ⟨d'', heq, hrel⟩ := newPage_mirrored hm hs hd
    rw [hx] at heq hrel
    exact ⟨d'', ⟨x, heq, rfl⟩, hrel⟩
  | fetchPage p ok =>
    obtain ⟨x, hx, rfl⟩ := h
    obtain ⟨hp, hthere⟩ := hfetch p _ rfl
    obtain ⟨d'', heq, hrel⟩ := fetchPage_mirrored hm hs hd hp hthere
    rw [hx] at heq hrel
    exact ⟨d'', ⟨x, heq, rfl⟩, hrel⟩
  | write p wrote d =>
    obtain ⟨f, hf, rfl⟩ := h
    exact ⟨d', ⟨f, hf, rfl⟩, hd⟩
  | unpinPage p wrote isDirty ok =>
    have h : s.unpinPage p isDirty = (ok, s') := h
    obtain ⟨heq, hdisk⟩ := unpinPage_withDisk (s := s) (p := p) d' isDirty
    rw [h] at heq hdisk
    exact ⟨d', heq, hdisk.symm ▸ hd⟩
  | flushPage p =>
    obtain ⟨ok, hok⟩ := h
    obtain ⟨d'', heq, hrel⟩ := flushPage_mirrored (p := p) hm hs hd
    rw [hok] at heq hrel
    exact ⟨d'', ⟨ok, heq⟩, hrel⟩
  | flushAllPages =>
    have h : s.flushAllPages io = (.ok (), s') := h
    obtain ⟨d'', heq, hrel⟩ := flushAllPages_mirrored hm hs hd
    rw [h] at heq hrel
    exact ⟨d'', heq, hrel⟩
  | deletePage p ok =>
    have h : s.deletePage p = (.ok ok, s') := h
    obtain ⟨heq, hdisk⟩ := deletePage_withDisk (s := s) (p := p) d'
    rw [h] at heq hdisk
    exact ⟨d', heq, hdisk.symm ▸ hd⟩

end BufferPoolManager

end OneBase
