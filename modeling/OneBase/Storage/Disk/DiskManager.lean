import OneBase.Common.Types
import OneBase.Lib.FileStream
import OneBase.Lib.Transition

set_option relaxedAutoImplicit false
set_option autoImplicit false

/-!
# The disk manager

`storage/disk/disk_manager.cpp`: the pages of the database file behind one file stream, and what
the pages hold over a sequence of calls.

## Main definitions

* `OneBase.DiskManager` and its operations `readPage`, `writePage`, `allocatePage`.
* `OneBase.DiskLog` — what a sequence of calls should leave: the bytes last written to each page.
* `OneBase.DiskManager.ReadAfterWrite` — every call answers as it should, and every page that was
  written is in the file.

## Main results

* `OneBase.DiskManager.Agrees.perform` — one call.
* `OneBase.DiskManager.readAfterWrite_iff` — a read beyond the end of the file leaves the stream in
  a failed state, so that the calls after it are answered rightly only if they do not need the file.
-/

namespace OneBase

/-- The bytes of a page. -/
structure PageBytes where
  bytes : List UInt8
  length_eq : bytes.length = pageSize

namespace PageBytes

/-- The page of zeros. -/
def zeros : PageBytes := ⟨List.replicate pageSize 0, List.length_replicate⟩

/-- Pages with the same bytes are the same. -/
@[ext] lemma ext {x y : PageBytes} (h : x.bytes = y.bytes) : x = y := by
  cases x
  cases y
  cases h
  rfl

end PageBytes

/-- `DiskManager`. -/
structure DiskManager where
  dbIo : FileStream
  nextPageId : PageId := 0
  numPages : ℕ := 0

namespace DiskManager

/-- `DiskManager(db_file)`, where the file is there or was just created. -/
def openFile (f : File) : DiskManager where
  dbIo := { file := f, pos := f.size }
  numPages := f.size / pageSize
  nextPageId := (f.size / pageSize : ℕ)

/-- `ReadPage`. -/
def readPage (dm : DiskManager) (p : PageId) : Except Exception (List UInt8) × DiskManager :=
  let s := dm.dbIo.seekg (p * pageSize)
  if s.bad then
    (.error (.runtimeError "I/O error while seeking to read page"), { dm with dbIo := s })
  else
    let r := s.read pageSize
    (.ok (r.1 ++ List.replicate (pageSize - r.1.length) 0), { dm with dbIo := r.2 })

/-- `static_cast<size_t>`. -/
def toSize (p : PageId) : ℕ := (p % 2 ^ 64).toNat

/-- `WritePage`. -/
def writePage (dm : DiskManager) (p : PageId) (data : PageBytes) :
    Except Exception Unit × DiskManager :=
  let s := (dm.dbIo.seekp (p * pageSize)).write data.bytes
  if s.bad then (.error (.runtimeError "I/O error while writing page"), { dm with dbIo := s })
  else
    (.ok (), { dm with
      dbIo := s
      numPages := if dm.numPages ≤ toSize p then toSize (p + 1) else dm.numPages })

/-- `AllocatePage`. -/
def allocatePage (dm : DiskManager) : PageId × DiskManager :=
  (dm.nextPageId, { dm with nextPageId := dm.nextPageId + 1 })

end DiskManager

/-- A call on the disk manager; the page ids are not negative. -/
inductive DiskOp
  | allocatePage
  | writePage (p : ℕ) (data : PageBytes)
  | readPage (p : ℕ)

/-- What a call returns. -/
inductive DiskResult
  | pageId (p : PageId)
  | done
  | bytes (l : List UInt8)

namespace DiskManager

/-- One call. -/
def perform (dm : DiskManager) : DiskOp → Except Exception DiskResult × DiskManager
  | .allocatePage => (.ok (.pageId dm.allocatePage.1), dm.allocatePage.2)
  | .writePage p data =>
    ((fun _ => .done) <$> (dm.writePage p data).1, (dm.writePage p data).2)
  | .readPage p => (.bytes <$> (dm.readPage p).1, (dm.readPage p).2)

/-- A sequence of calls. -/
def performAll (dm : DiskManager) (ops : List DiskOp) : DiskManager :=
  ops.foldl (fun dm op => (dm.perform op).2) dm

end DiskManager

/-- What a sequence of calls should leave: the bytes last written to each page, the number of
pages up to the last one written, the number of pages allocated, and whether a page beyond the end
of the file was read. -/
structure DiskLog where
  contents : ℕ → Option PageBytes := fun _ => none
  extent : ℕ := 0
  allocated : ℕ := 0
  readPastEnd : Bool := false

namespace DiskLog

/-- What reading a page should return: the bytes last written, or else zeros. -/
def page (log : DiskLog) (p : ℕ) : PageBytes := (log.contents p).getD .zeros

/-- What a call should return. -/
def answer (log : DiskLog) : DiskOp → Except Exception DiskResult
  | .allocatePage => .ok (.pageId log.allocated)
  | .writePage _ _ => .ok .done
  | .readPage p => .ok (.bytes (log.page p).bytes)

/-- The log after one more call. -/
def after (log : DiskLog) : DiskOp → DiskLog
  | .allocatePage => { log with allocated := log.allocated + 1 }
  | .writePage p data =>
    { log with
      contents := Function.update log.contents p (some data)
      extent := max log.extent (p + 1) }
  | .readPage p => { log with readPastEnd := log.readPastEnd || decide (log.extent ≤ p) }

/-- The log of a sequence of calls on an empty file. -/
def ofOps (ops : List DiskOp) : DiskLog := ops.foldl after {}

/-- The call does not need the file: it allocates, it reads a page of zeros, or it writes what the
page of the file holds already. -/
def Harmless (log : DiskLog) : DiskOp → Prop
  | .allocatePage => True
  | .writePage p data => p < log.extent ∧ log.page p = data
  | .readPage p => log.page p = .zeros

end DiskLog

namespace DiskManager

/-- Every page that was written is in the file, as it was last written. -/
def Persisted (dm : DiskManager) (log : DiskLog) : Prop :=
  ∀ p data, log.contents p = some data →
    (p + 1) * pageSize ≤ dm.dbIo.file.size ∧
      dm.dbIo.file.block (p * pageSize) pageSize = data.bytes

/-- The call answers as it should, and leaves in the file what it should. -/
def Correct (dm : DiskManager) (log : DiskLog) (op : DiskOp) : Prop :=
  (dm.perform op).1 = log.answer op ∧ (dm.perform op).2.Persisted (log.after op)

/-- Every call of the sequence on an empty file is right. -/
def ReadAfterWrite (ops : List DiskOp) : Prop :=
  ∀ pre op post, ops = pre ++ op :: post →
    ((openFile {}).performAll pre).Correct (.ofOps pre) op

/-! ## One call -/

/-- Seeking to a page. -/
lemma seek_page {s : FileStream} (h : s.fail = false) (p : ℕ) :
    s.seek (p * pageSize) = { s with pos := p * pageSize } := by
  have hoff : (p : ℤ) * (pageSize : ℤ) = ((p * pageSize : ℕ) : ℤ) := (Int.natCast_mul _ _).symm
  rw [hoff, FileStream.seek_eq h (Int.natCast_nonneg _), Int.toNat_natCast]

/-- The file holds the pages of the log, and the stream has failed if a page beyond the end of the
file was read. -/
structure Agrees (dm : DiskManager) (log : DiskLog) : Prop where
  next : dm.nextPageId = log.allocated
  size : dm.dbIo.file.size = log.extent * pageSize
  page : ∀ p, dm.dbIo.file.block (p * pageSize) pageSize = (log.page p).bytes
  lt_extent : ∀ p data, log.contents p = some data → p < log.extent
  failbit : dm.dbIo.failbit = log.readPastEnd
  eofbit : dm.dbIo.eofbit = true → dm.dbIo.failbit = true
  badbit : dm.dbIo.badbit = false

namespace Agrees

variable {dm : DiskManager} {log : DiskLog} {p : ℕ} {data : PageBytes}

/-- The empty file. -/
lemma openFile : Agrees (openFile {}) {} where
  next := rfl
  size := rfl
  page p := File.block_of_size_le (Nat.zero_le _)
  lt_extent _ _ h := by cases h
  failbit := rfl
  eofbit h := h
  badbit := rfl

/-- Whatever was written is in the file. -/
lemma persisted (h : Agrees dm log) : dm.Persisted log := by
  intro p data hp
  have hlt := h.lt_extent p data hp
  refine ⟨?_, ?_⟩
  · rw [h.size]
    exact Nat.mul_le_mul_right _ hlt
  · rw [h.page, DiskLog.page, hp, Option.getD_some]

/-- A page beyond the end was never written. -/
lemma page_of_extent_le (h : Agrees dm log) (hp : log.extent ≤ p) : log.page p = .zeros := by
  cases hc : log.contents p with
  | none => simp [DiskLog.page, hc]
  | some data => exact absurd (h.lt_extent p data hc) (not_lt.2 hp)

/-- A call on a stream that has failed: reading returns zeros, writing does nothing, and neither
throws. -/
lemma perform_of_fail (h : Agrees dm log) (hf : log.readPastEnd = true) (op : DiskOp) :
    (dm.perform op).1 = (match op with
      | .allocatePage => .ok (.pageId dm.nextPageId)
      | .writePage _ _ => .ok .done
      | .readPage _ => .ok (.bytes PageBytes.zeros.bytes)) ∧
    (dm.perform op).2.dbIo.file = dm.dbIo.file ∧
    (dm.perform op).2.dbIo.failbit = true ∧ (dm.perform op).2.dbIo.badbit = false := by
  have hfail : dm.dbIo.failbit = true := by rw [h.failbit, hf]
  cases op with
  | allocatePage => exact ⟨rfl, rfl, hfail, h.badbit⟩
  | writePage p data =>
    have hs : (dm.dbIo.seekp (p * pageSize)).write data.bytes = dm.dbIo := by
      rw [FileStream.seekp, FileStream.seek_of_fail (by simp [FileStream.fail, hfail]),
        FileStream.write_of_fail (by simp [FileStream.fail, hfail])]
    have hw : dm.writePage p data = (.ok (), { dm with
        numPages := if dm.numPages ≤ toSize p then toSize (p + 1) else dm.numPages }) := by
      simp [writePage, hs, FileStream.bad, h.badbit]
    simp [perform, hw, hfail, h.badbit]
  | readPage p =>
    have hs : dm.dbIo.seekg (p * pageSize) = { dm.dbIo with eofbit := false } := by
      rw [FileStream.seekg, FileStream.seek_of_fail (by simp [FileStream.fail, hfail])]
    have hr : dm.readPage p = (.ok PageBytes.zeros.bytes,
        { dm with dbIo := { dm.dbIo with eofbit := false, failbit := true } }) := by
      rw [readPage, hs, FileStream.read_of_fail (by simp [FileStream.fail, hfail])]
      simp [FileStream.bad, h.badbit, PageBytes.zeros]
    simp [perform, hr, h.badbit]

/-- Reading with a good stream. -/
lemma readPage_of_good (h : Agrees dm log) (hf : log.readPastEnd = false) (p : ℕ) :
    (dm.readPage p).1 = .ok (log.page p).bytes ∧
      (dm.readPage p).2.dbIo.file = dm.dbIo.file ∧
      (dm.readPage p).2.nextPageId = dm.nextPageId ∧
      (dm.readPage p).2.dbIo.failbit = decide (log.extent ≤ p) ∧
      (dm.readPage p).2.dbIo.eofbit = decide (log.extent ≤ p) ∧
      (dm.readPage p).2.dbIo.badbit = false := by
  have hfail : dm.dbIo.failbit = false := by rw [h.failbit, hf]
  obtain ⟨s, hs, hfile, hpos, hsfail, hseof, hsbad⟩ : ∃ s, dm.dbIo.seekg (p * pageSize) = s ∧
      s.file = dm.dbIo.file ∧ s.pos = p * pageSize ∧ s.failbit = false ∧ s.eofbit = false ∧
      s.badbit = false :=
    ⟨_, seek_page (by simp [FileStream.fail, hfail, h.badbit]) p, rfl, rfl, hfail, rfl, h.badbit⟩
  have hgood : s.good = true := by
    simp [FileStream.good, hsfail, hseof, hsbad]
  by_cases hp : log.extent ≤ p
  · -- nothing is left to read
    have hread := FileStream.read_of_size_le (n := pageSize) hgood (by decide) (by
      rw [hfile, hpos, h.size]
      exact Nat.mul_le_mul_right _ hp)
    simp only [readPage, hs, hread, FileStream.bad, hsbad, h.page_of_extent_le hp]
    simp [hp, hfile, PageBytes.zeros]
  · -- the whole page is there
    have hread := FileStream.read_of_le (n := pageSize) hgood (by
      rw [hfile, hpos, h.size, ← Nat.succ_mul]
      exact Nat.mul_le_mul_right _ (not_le.1 hp))
    simp only [readPage, hs, hread, FileStream.bad, hsbad, hfile, hpos, h.page]
    simp [hp, hsfail, hseof, (log.page p).length_eq]

/-- Writing with a good stream. -/
lemma writePage_of_good (h : Agrees dm log) (hf : log.readPastEnd = false) (p : ℕ)
    (data : PageBytes) :
    (dm.writePage p data).1 = .ok () ∧
      (dm.writePage p data).2.dbIo =
        { dm.dbIo with
          file := dm.dbIo.file.write (p * pageSize) data.bytes
          pos := p * pageSize + data.bytes.length } ∧
      (dm.writePage p data).2.nextPageId = dm.nextPageId := by
  have hfail : dm.dbIo.failbit = false := by rw [h.failbit, hf]
  have heof : dm.dbIo.eofbit = false := by
    by_contra hne
    have := h.eofbit (by simpa using hne)
    simp [hfail] at this
  have hs : (dm.dbIo.seekp (p * pageSize)).write data.bytes =
      { dm.dbIo with
        file := dm.dbIo.file.write (p * pageSize) data.bytes
        pos := p * pageSize + data.bytes.length } := by
    rw [FileStream.seekp, seek_page (by simp [FileStream.fail, hfail, h.badbit]) p]
    simp [FileStream.write, FileStream.good, hfail, heof, h.badbit]
  have hw : dm.writePage p data = (.ok (), { dm with
      dbIo := (dm.dbIo.seekp (p * pageSize)).write data.bytes
      numPages := if dm.numPages ≤ toSize p then toSize (p + 1) else dm.numPages }) := by
    rw [writePage, hs]
    simp [FileStream.bad, h.badbit]
  rw [hw]
  exact ⟨rfl, hs, rfl⟩

/-- The file after a page was written. -/
lemma write_page (h : Agrees dm log) (p : ℕ) (data : PageBytes) :
    (dm.dbIo.file.write (p * pageSize) data.bytes).size =
        (log.after (.writePage p data)).extent * pageSize ∧
      ∀ q, (dm.dbIo.file.write (p * pageSize) data.bytes).block (q * pageSize) pageSize =
        ((log.after (.writePage p data)).page q).bytes := by
  refine ⟨?_, fun q => ?_⟩
  · have hne : data.bytes ≠ [] := by
      rw [← List.length_pos_iff, data.length_eq]
      decide
    show (if data.bytes = [] then _ else max dm.dbIo.file.size (p * pageSize + data.bytes.length)) =
      max log.extent (p + 1) * pageSize
    rw [if_neg hne, data.length_eq, h.size, ← Nat.succ_mul, Nat.succ_eq_add_one]
    exact Nat.mul_max_mul_right _ _ _
  · by_cases hq : q = p
    · subst hq
      have hback := File.block_write (f := dm.dbIo.file) (a := q * pageSize) (l := data.bytes)
      rw [data.length_eq] at hback
      rw [hback]
      simp [DiskLog.page, DiskLog.after]
    · have hdisj : q * pageSize + pageSize ≤ p * pageSize ∨
          p * pageSize + data.bytes.length ≤ q * pageSize := by
        rw [data.length_eq, ← Nat.succ_mul, ← Nat.succ_mul]
        rcases Nat.lt_or_gt_of_ne hq with hlt | hgt
        · exact .inl (Nat.mul_le_mul_right _ hlt)
        · exact .inr (Nat.mul_le_mul_right _ hgt)
      rw [File.block_write_of_disjoint hdisj, h.page]
      simp [DiskLog.page, DiskLog.after, hq]

/-- A call on a good stream is right. -/
lemma perform_of_good (h : Agrees dm log) (hf : log.readPastEnd = false) (op : DiskOp) :
    (dm.perform op).1 = log.answer op ∧ Agrees (dm.perform op).2 (log.after op) := by
  cases op with
  | allocatePage =>
    refine ⟨by rw [DiskLog.answer, ← h.next]; rfl, ?_, h.size, h.page, h.lt_extent, h.failbit,
      h.eofbit, h.badbit⟩
    show dm.nextPageId + 1 = ((log.allocated + 1 : ℕ) : ℤ)
    rw [h.next]
    rfl
  | writePage p data =>
    obtain ⟨hok, hio, hnext⟩ := h.writePage_of_good hf p data
    obtain ⟨hsize, hpage⟩ := h.write_page p data
    have hio' : (dm.perform (.writePage p data)).2.dbIo = _ := hio
    refine ⟨by simp [perform, hok, DiskLog.answer], hnext.trans h.next, ?_, ?_, fun q d hq => ?_,
      ?_, ?_, ?_⟩
    · rw [hio']
      exact hsize
    · rw [hio']
      exact hpage
    · show q < max log.extent (p + 1)
      by_cases hqp : q = p
      · omega
      · have := h.lt_extent q d (by simpa [DiskLog.after, hqp] using hq)
        omega
    · rw [hio']
      exact h.failbit
    · rw [hio']
      exact h.eofbit
    · rw [hio']
      exact h.badbit
  | readPage p =>
    obtain ⟨hok, hfile, hnext, hfail, heof, hbad⟩ := h.readPage_of_good hf p
    refine ⟨by simp [perform, hok, DiskLog.answer], hnext.trans h.next, ?_, ?_, h.lt_extent, ?_, ?_,
      hbad⟩
    all_goals simp only [perform, hfile]
    · exact h.size
    · exact h.page
    · simp [hfail, DiskLog.after, hf]
    · rw [hfail, heof]
      exact id

/-- A harmless call leaves the file as the log says. -/
lemma perform_of_harmless (h : Agrees dm log) (hf : log.readPastEnd = true) {op : DiskOp}
    (hop : log.Harmless op) :
    (dm.perform op).1 = log.answer op ∧ Agrees (dm.perform op).2 (log.after op) := by
  obtain ⟨hans, hfile, hfail, hbad⟩ := h.perform_of_fail hf op
  cases op with
  | allocatePage =>
    refine ⟨by rw [DiskLog.answer, ← h.next]; rfl, ?_, h.size, h.page, h.lt_extent, h.failbit,
      h.eofbit, h.badbit⟩
    show dm.nextPageId + 1 = ((log.allocated + 1 : ℕ) : ℤ)
    rw [h.next]
    rfl
  | writePage p data =>
    obtain ⟨hlt, hdata⟩ := hop
    have hextent : (log.after (.writePage p data)).extent = log.extent :=
      max_eq_left hlt
    have hpage : ∀ q, (log.after (.writePage p data)).page q = log.page q := by
      intro q
      by_cases hq : q = p
      · subst hq
        simp [DiskLog.page, DiskLog.after, ← hdata]
      · simp [DiskLog.page, DiskLog.after, hq]
    refine ⟨hans, ?_, ?_, ?_, fun q d hq => ?_, ?_, fun _ => hfail, hbad⟩
    · have hnext : (dm.perform (.writePage p data)).2.nextPageId = dm.nextPageId := by
        simp only [perform, writePage]
        split_ifs <;> rfl
      exact hnext.trans h.next
    · rw [hfile, hextent]
      exact h.size
    · intro q
      rw [hfile, hpage]
      exact h.page q
    · rw [hextent]
      by_cases hqp : q = p
      · exact hqp ▸ hlt
      · exact h.lt_extent q d (by simpa [DiskLog.after, hqp] using hq)
    · rw [hfail]
      exact hf.symm
  | readPage p =>
    have hzero : log.page p = .zeros := hop
    refine ⟨by rw [hans, DiskLog.answer, hzero], ?_, ?_, ?_, h.lt_extent, ?_, fun _ => hfail, hbad⟩
    · have hnext : (dm.perform (.readPage p)).2.nextPageId = dm.nextPageId := by
        simp only [perform, readPage]
        split_ifs <;> rfl
      exact hnext.trans h.next
    · rw [hfile]
      exact h.size
    · rw [hfile]
      exact h.page
    · rw [hfail]
      simp [DiskLog.after, hf]

/-- A call that is answered rightly on a failed stream is harmless. -/
lemma harmless_of_correct (h : Agrees dm log) (hf : log.readPastEnd = true) {op : DiskOp}
    (hop : dm.Correct log op) : log.Harmless op := by
  obtain ⟨hans, hfile, -, -⟩ := h.perform_of_fail hf op
  obtain ⟨hres, hpers⟩ := hop
  cases op with
  | allocatePage => trivial
  | writePage p data =>
    obtain ⟨hsize, hblock⟩ := hpers p data (by simp [DiskLog.after])
    rw [hfile] at hsize hblock
    rw [h.size] at hsize
    refine ⟨Nat.le_of_mul_le_mul_right hsize (by decide), PageBytes.ext ?_⟩
    rw [← h.page, hblock]
  | readPage p =>
    rw [hans] at hres
    refine PageBytes.ext ?_
    have := Except.ok.inj hres
    exact (DiskResult.bytes.inj this).symm

/-- One call: it is right iff the stream has not failed or the call is harmless. -/
lemma perform (h : Agrees dm log) (op : DiskOp) :
    (dm.Correct log op ↔ (log.readPastEnd = true → log.Harmless op)) ∧
      ((log.readPastEnd = true → log.Harmless op) → Agrees (dm.perform op).2 (log.after op)) := by
  cases hf : log.readPastEnd with
  | false =>
    obtain ⟨hans, hagrees⟩ := h.perform_of_good hf op
    exact ⟨⟨fun _ hne => by simp at hne, fun _ => ⟨hans, hagrees.persisted⟩⟩, fun _ => hagrees⟩
  | true =>
    refine ⟨⟨fun hop _ => h.harmless_of_correct hf hop, fun hop => ?_⟩, fun hop => ?_⟩
    · obtain ⟨hans, hagrees⟩ := h.perform_of_harmless hf (hop rfl)
      exact ⟨hans, hagrees.persisted⟩
    · exact (h.perform_of_harmless hf (hop rfl)).2

end Agrees

/-! ## Every sequence of calls -/

/-- **Read after write.** On an empty file every call of a sequence is right iff, after the first
read beyond the end of the file, no call needs the file. -/
theorem readAfterWrite_iff (ops : List DiskOp) :
    ReadAfterWrite ops ↔
      ∀ pre op post, ops = pre ++ op :: post →
        (DiskLog.ofOps pre).readPastEnd = true → (DiskLog.ofOps pre).Harmless op := by
  refine Transition.forall_split_iff
    (A := fun pre => Agrees ((openFile {}).performAll pre) (.ofOps pre)) .openFile
    (fun pre op hpre => (hpre.perform op).1) (fun pre op hpre hop => ?_) ops
  have hnext := (hpre.perform op).2 hop
  simpa only [performAll, DiskLog.ofOps, List.foldl_append, List.foldl_cons, List.foldl_nil]
    using hnext

/-- A page that was allocated but never written is read, and the page that is written then is
lost. -/
theorem readAfterWrite_fails :
    ¬ ReadAfterWrite [.allocatePage, .readPage 0,
      .writePage 0 ⟨List.replicate pageSize 72, List.length_replicate⟩] := by
  intro h
  have halloc := (Agrees.openFile.perform_of_good rfl .allocatePage).2
  have hread := (halloc.perform_of_good rfl (.readPage 0)).2
  have hwrite := h [.allocatePage, .readPage 0] _ [] rfl
  obtain ⟨hlt, -⟩ := hread.harmless_of_correct rfl hwrite
  exact absurd hlt (by decide)

end DiskManager

end OneBase
