import OneBase.Buffer.FilePool

set_option relaxedAutoImplicit false
set_option autoImplicit false

/-!
# No page is read before it is in the file

A pool whose clients fetch pages only that are in use, and that do not give up a page with
`is_dirty = false` while it holds nothing but zeros, never reads beyond the end of the file: a page
that is in use and that the file does not reach yet is in a frame, and will be written before it
leaves the frame.

## Main definitions

* `OneBase.PageStore.Keeps` — what the clients do beyond the discipline of `PageStore.Allows`.
* `OneBase.BufferPoolManager.Kept` — the page is in the file, or it will be written to it.
* `OneBase.BufferPoolManager.Durable` — every page that is in use is kept.

## Main results

* `OneBase.BufferPoolManager.Durable.flushAllPages` — every page that is in use is in the file.
* `OneBase.BufferPoolManager.Durable.step` — every event of such clients keeps the pages.
-/

namespace OneBase

/-- The clients fetch pages only that were allocated and not deleted, and do not end a pin with
`is_dirty = false` as long as the page holds nothing but zeros. -/
def PageStore.Keeps {D : Type} [Inhabited D] (t : PageStore D) : PoolEvent D → Prop
  | .fetchPage p _ => t.content p ≠ none
  | .unpinPage p _ isDirty _ => isDirty = true ∨ t.content p ≠ some default ∨ t.pinCount p = 0
  | _ => True

namespace BufferPoolManager

open DiskLog

variable {s s' u w : BufferPoolManager PageBytes DiskLog} {t t' : PageStore PageBytes}
  {p q : PageId} {f g : FrameId} {e : PoolEvent PageBytes}

/-- The page is in the file, or in a frame that will be written before it is given away: it is
dirty, or the holder of a pin has written under it, or it is new and nobody gave it up yet. -/
def Kept (s : BufferPoolManager PageBytes DiskLog) (t : PageStore PageBytes) (p : PageId) : Prop :=
  s.disk.Reaches p ∨ ∃ f, s.Resident p f ∧ ((s.pages f).isDirty = true ∨ (p, true) ∈ t.pins ∨
    t.content p = some default ∧ t.pinCount p ≠ 0)

/-- The pool on the log refines the page store, and keeps the pages that are in use. -/
structure Durable (s : BufferPoolManager PageBytes DiskLog) (t : PageStore PageBytes) : Prop where
  refines : ∃ disk, s.disk.Shows disk ∧ Refines (s.withDisk disk) t
  kept : ∀ p d, t.content p = some d → s.Kept t p

/-- A page that stays in its frame stays kept. -/
lemma Kept.stays (h : s.Kept t q) (hreach : s.disk.Reaches q → s'.disk.Reaches q)
    (hres : ∀ g, s.Resident q g →
      s'.Resident q g ∧ ((s.pages g).isDirty = true → (s'.pages g).isDirty = true))
    (hpins : (q, true) ∈ t.pins → (q, true) ∈ t'.pins)
    (hnew : t.content q = some default ∧ t.pinCount q ≠ 0 →
      t'.content q = some default ∧ t'.pinCount q ≠ 0) : s'.Kept t' q := by
  rcases h with h | ⟨g, hg, hwhy⟩
  · exact .inl (hreach h)
  · obtain ⟨hg', hdirty⟩ := hres g hg
    exact .inr ⟨g, hg', hwhy.imp hdirty (Or.imp hpins hnew)⟩

/-- Writing a frame out keeps every page, and the file reaches the page that was written. -/
lemma Kept.flushFrame (h : s.Kept t q) (hc : s.Consistent none) (hf : s.Resident p f) :
    Kept { s with
      disk := s.disk.after (.writePage p.toNat (s.pages f).data)
      pages := Function.update s.pages f { s.pages f with isDirty := false } } t q ∧
    ∀ x, (s.disk.after (.writePage p.toNat (s.pages f).data)).Reaches x ↔
      s.disk.Reaches x ∨ x ≤ p := by
  have hreach := fun x => reaches_after_writePage s.disk p x (s.pages f).data
    (hc.resident_allocated p f hf).1
  refine ⟨?_, hreach⟩
  by_cases hqp : q = p
  · exact .inl ((hreach q).2 (.inr hqp.le))
  · refine h.stays (fun hx => (hreach q).2 (.inl hx)) (fun g hg => ⟨hg, ?_⟩) id id
    have hgf : g ≠ f := by
      rintro rfl
      exact hqp (hc.resident_inj q p g hg hf)
    simp [hgf]

/-- The loop of `FlushAllPages` keeps every page, and afterwards the file reaches every page that
was written. -/
lemma flushEntries_kept {es : List (Sigma fun _ : PageId => FrameId)} (hc : s.Consistent none)
    (h : s.Kept t q) (hes : ∀ e ∈ es, s.Resident e.1 e.2)
    (hs' : flushEntries logDisk es s = (.ok (), s')) :
    s'.Kept t q ∧ (s.disk.Reaches q ∨ q ∈ es.map Sigma.fst → s'.disk.Reaches q) := by
  induction es generalizing s with
  | nil =>
    obtain ⟨-, rfl⟩ := Prod.mk.inj hs'
    exact ⟨h, by simp⟩
  | cons e es ih =>
    have hf := hes e List.mem_cons_self
    obtain ⟨hkept, hreach⟩ := h.flushFrame hc hf
    simp only [BufferPoolManager.flushEntries, flushFrame_eq logDisk_reliable] at hs'
    obtain ⟨hkept', hreach'⟩ := ih (hc.flushFrame logDisk e.1 e.2).consistent hkept
      (fun e' he' => hes e' (List.mem_cons_of_mem e he')) hs'
    refine ⟨hkept', fun hq => hreach' ?_⟩
    rw [List.map_cons, List.mem_cons] at hq
    rcases hq with hq | rfl | hq
    · exact .inl ((hreach q).2 (.inl hq))
    · exact .inl ((hreach e.1).2 (.inr le_rfl))
    · exact .inr hq

/-- `FlushAllPages` keeps every page, and afterwards the file reaches it. -/
lemma Kept.flushAllPages (h : s.Kept t q) (hc : s.Consistent none)
    (hs' : s.flushAllPages logDisk = (.ok (), s')) : s'.Kept t q ∧ s'.disk.Reaches q := by
  have hes : ∀ e ∈ s.pageTable.entries, s.Resident e.1 e.2 :=
    fun e he => AList.mem_lookup_iff.2 he
  obtain ⟨hkept, hreach⟩ := flushEntries_kept hc h hes hs'
  refine ⟨hkept, hreach ?_⟩
  rcases h with h | ⟨f, hf, -⟩
  · exact .inl h
  · exact .inr (List.mem_map.2 ⟨⟨q, f⟩, AList.mem_lookup_iff.1 hf, rfl⟩)

/-- What the loop of `FlushAllPages` leaves on the disk: the page of a frame that was written or
held what the disk did, and otherwise what was there. -/
lemma flushEntries_page {es : List (Sigma fun _ : PageId => FrameId)} (hc : s.Consistent none)
    (hes : ∀ e ∈ es, s.Resident e.1 e.2) (hs' : flushEntries logDisk es s = (.ok (), s'))
    (hq : 0 ≤ q) :
    (∀ f, s.Resident q f → q ∈ es.map Sigma.fst ∨ s.disk.page q.toNat = (s.pages f).data →
      s'.disk.page q.toNat = (s.pages f).data) ∧
    ((∀ f, ¬ s.Resident q f) → s'.disk.page q.toNat = s.disk.page q.toNat) := by
  induction es generalizing s with
  | nil =>
    obtain ⟨-, rfl⟩ := Prod.mk.inj hs'
    exact ⟨fun f _ h => h.resolve_left (by simp), fun _ => rfl⟩
  | cons e es ih =>
    have hf := hes e List.mem_cons_self
    have he0 := (hc.resident_allocated e.1 e.2 hf).1
    have hpage : (s.disk.after (.writePage e.1.toNat (s.pages e.2).data)).page q.toNat =
        if q = e.1 then (s.pages e.2).data else s.disk.page q.toNat := by
      have hiff : q.toNat = e.1.toNat ↔ q = e.1 := by lia
      simp [page_after_writePage, hiff]
    simp only [BufferPoolManager.flushEntries, flushFrame_eq logDisk_reliable] at hs'
    obtain ⟨hin, hout⟩ := ih (hc.flushFrame logDisk e.1 e.2).consistent
      (fun e' he' => hes e' (List.mem_cons_of_mem e he')) hs'
    refine ⟨fun f hqf hwhy => ?_, fun hno => ?_⟩
    · have hdata : (Function.update s.pages e.2 { s.pages e.2 with isDirty := false } f).data =
          (s.pages f).data := by
        by_cases hfe : f = e.2
        · subst hfe
          simp
        · simp [hfe]
      rw [← hdata]
      apply hin f hqf
      by_cases hqe : q = e.1
      · obtain rfl : e.2 = f := Option.some.inj (hf.symm.trans (hqe ▸ hqf))
        exact .inr (by rw [hdata]; exact hpage.trans (if_pos hqe))
      · rw [List.map_cons, List.mem_cons, or_iff_right hqe] at hwhy
        refine hwhy.imp id fun hsame => ?_
        rw [hdata]
        exact (hpage.trans (if_neg hqe)).trans hsame
    · have hqe : q ≠ e.1 := by
        rintro rfl
        exact hno e.2 hf
      exact (hout hno).trans (hpage.trans (if_neg hqe))

namespace Durable

/-- The pool is consistent, with whatever disk the log shows. -/
lemma consistent (h : Durable s t) : s.Consistent none := by
  obtain ⟨disk, -, hr⟩ := h.refines
  exact hr.consistent.withDisk s.disk

/-- The pool and the store allocate the same page next. -/
lemma next_eq (h : Durable s t) : s.nextPageId = t.nextPageId := by
  obtain ⟨disk, -, hr⟩ := h.refines
  exact hr.next_eq

/-- A resident page has the pins of the store. -/
lemma pin_eq (h : Durable s t) (hf : s.Resident p f) : (s.pages f).pinCount = t.pinCount p := by
  obtain ⟨disk, -, hr⟩ := h.refines
  exact hr.pin_eq p f hf

/-- A page with a content has been allocated. -/
lemma content_lt (h : Durable s t) {d : PageBytes} (hd : t.content p = some d) :
    0 ≤ p ∧ p < t.nextPageId := by
  obtain ⟨disk, -, hr⟩ := h.refines
  exact hr.content_lt p d hd

/-- A page with a pin is resident, and its frame counts the pin. -/
lemma resident_of_pin (h : Durable s t) {b : Bool} (hmem : (p, b) ∈ t.pins) :
    ∃ f, s.Resident p f ∧ 0 < (s.pages f).pinCount := by
  obtain ⟨disk, -, hr⟩ := h.refines
  exact hr.resident_of_pin hmem

/-- A frame that nobody pins, and that is not dirty, holds a page that the file reaches. -/
lemma reaches_of_unpinned (h : Durable s t) {d : PageBytes} (hd : t.content p = some d)
    (hf : s.Resident p f) (hpin : (s.pages f).pinCount = 0) (hclean : (s.pages f).isDirty = false) :
    s.disk.Reaches p := by
  have hzero : t.pinCount p = 0 := by
    have := h.pin_eq hf
    omega
  rcases h.kept p d hd with hreach | ⟨g, hg, hdirty | hmem | ⟨-, hne⟩⟩
  · exact hreach
  · obtain rfl : f = g := Option.some.inj (hf.symm.trans hg)
    simp [hclean] at hdirty
  · exact absurd hzero (PageStore.pinCount_ne_zero.2 ⟨true, hmem⟩)
  · exact absurd hzero hne

/-- Giving a frame to another page: the victim is in the file by then.

**Proof sketch.** A victim is not pinned. If it is dirty it was written just now, and the file
reaches it; if it is not, the file reached it before. -/
lemma kept_of_installed (h : Durable s t) (htaken : Taken logDisk s f u) (hpages : u.pages = s.pages)
    {data : PageBytes} (hinst : Installed w f p data s') (hw : w.pages = u.pages)
    (hwres : ∀ q g, w.Resident q g ↔ u.Resident q g) (hwdisk : w.disk = u.disk) (hqp : q ≠ p)
    {d : PageBytes} (hd : t.content q = some d) (hcontent : t'.content q = t.content q)
    (hpins : t'.pins = (p, false) ::ₘ t.pins) : s'.Kept t' q := by
  have hdisk : s'.disk = u.disk := hinst.disk_eq.trans hwdisk
  have hcount : t'.pinCount q = t.pinCount q := by
    rw [PageStore.pinCount, PageStore.pinCount, hpins]
    simp [hqp]
  have hstays : ∀ g, u.Resident q g →
      s'.Resident q g ∧ ((s.pages g).isDirty = true → (s'.pages g).isDirty = true) := by
    intro g hg
    have hgf : g ≠ f := by
      rintro rfl
      exact htaken.not_resident h.consistent q hg
    refine ⟨?_, ?_⟩
    · rw [hinst.resident_iff, if_neg hqp, hwres]
      exact hg
    · rw [hinst.pages_eq, Function.update_of_ne hgf, hw, hpages]
      exact id
  have hmem : (q, true) ∈ t.pins → (q, true) ∈ t'.pins := by
    rw [hpins]
    exact Multiset.mem_cons_of_mem
  cases htaken with
  | free hf hudisk hres =>
    refine (h.kept q d hd).stays ?_ (fun g hg => hstays g ((hres q g).2 hg)) hmem ?_
    · rw [hdisk, hudisk]
      exact id
    · rw [hcontent, hcount]
      exact id
  | evict v hv hpin hudisk hres =>
    have hid := h.consistent.pageId_eq v f hv
    have hv0 := (h.consistent.resident_allocated v f hv).1
    have hreach : ∀ x, s.disk.Reaches x ∨ (s.pages f).isDirty = true ∧ x = v →
        s'.disk.Reaches x := by
      intro x hx
      rw [hdisk, hudisk, writeBackDisk, hid]
      split_ifs with hdirty
      · exact (reaches_after_writePage _ v x _ hv0).2 (hx.imp id fun hx => hx.2.le)
      · exact hx.resolve_right fun hx => hdirty hx.1
    by_cases hqv : q = v
    · subst hqv
      refine .inl (hreach q ?_)
      cases hdirty : (s.pages f).isDirty with
      | false => exact .inl (h.reaches_of_unpinned hd hv hpin hdirty)
      | true => exact .inr ⟨rfl, rfl⟩
    · refine (h.kept q d hd).stays (fun hx => hreach q (.inl hx))
        (fun g hg => hstays g ((hres q g).2 ⟨hqv, hg⟩)) hmem ?_
      rw [hcontent, hcount]
      exact id

/-- The page whose pin was ended is still kept: a pin under which somebody wrote ends with
`is_dirty = true`, and so does one of a page of zeros. -/
lemma kept_unpinned (h : Durable s t) {b isDirty ok : Bool} {d : PageBytes}
    (hd : t.content p = some d) (hmem : (p, b) ∈ t.pins) (hwrote : b = true → isDirty = true)
    (hkeeps : t.Keeps (.unpinPage p b isDirty ok)) (hf : s.Resident p f) (hf' : s'.Resident p f)
    (hpage : s'.pages f = { s.pages f with
      pinCount := (s.pages f).pinCount - 1
      isDirty := if isDirty then true else (s.pages f).isDirty })
    (hdisk : s'.disk = s.disk) : s'.Kept (t.unpin p b) p := by
  cases hdirty : isDirty with
  | true => exact .inr ⟨f, hf', .inl (by rw [hpage, hdirty]; rfl)⟩
  | false =>
    obtain rfl : b = false := by
      by_contra hne
      simp [hwrote (by simpa using hne)] at hdirty
    rcases h.kept p d hd with hreach | ⟨g, hg, hwas | hin | ⟨hnew, hne⟩⟩
    · exact .inl (hdisk ▸ hreach)
    · obtain rfl : f = g := Option.some.inj (hf.symm.trans hg)
      exact .inr ⟨f, hf', .inl (by rw [hpage, hwas]; simp)⟩
    · exact .inr ⟨f, hf', .inr (.inl ((Multiset.mem_erase_of_ne (by simp)).2 hin))⟩
    · rcases hkeeps with hyes | hold | hzero
      · simp [hdirty] at hyes
      · exact absurd hnew hold
      · exact absurd hzero hne

/-- `NewPage` keeps the pages: the new one is resident, pinned, and holds nothing but zeros, and the
page that left the frame is in the file. -/
lemma kept_newPage (h : Durable s t) {r : Option PageId}
    (hh : Happens logDisk s (.newPage r) s') {d : PageBytes}
    (hd : (t.after (.newPage r)).content q = some d) :
    s'.Kept (t.after (.newPage r)) q := by
  have hc := h.consistent
  obtain ⟨x, hx, rfl⟩ := hh
  rcases hc.newPage logDisk_reliable with
    ⟨hnone, -⟩ | ⟨f, u, s'', hs'', -, -, htaken, hpages, hn, hinst⟩
  · obtain ⟨hx', rfl⟩ := Prod.mk.inj (hnone.symm.trans hx)
    obtain rfl := Except.ok.inj hx'
    exact h.kept q d hd
  · obtain ⟨hx', rfl⟩ := Prod.mk.inj (hs''.symm.trans hx)
    obtain rfl := Except.ok.inj hx'
    by_cases hqp : q = s.nextPageId
    · -- the new page is resident, pinned, and holds zeros
      subst hqp
      refine .inr ⟨f, (hinst.resident_iff _ f).2 (by simp), .inr (.inr ⟨?_, ?_⟩)⟩
      · show t.allocate.content s.nextPageId = some default
        rw [PageStore.content_allocate, if_pos h.next_eq]
      · show t.allocate.pinCount s.nextPageId ≠ 0
        rw [PageStore.pinCount_allocate, if_pos h.next_eq]
        omega
    · have hqt : q ≠ t.nextPageId := h.next_eq ▸ hqp
      have hsame : t.allocate.content q = t.content q := by
        rw [PageStore.content_allocate, if_neg hqt]
      refine h.kept_of_installed htaken hpages hinst rfl (fun _ _ => Iff.rfl)
        rfl hqp (hsame ▸ hd) hsame ?_
      rw [h.next_eq]
      rfl

/-- `FetchPage` keeps the pages. A page that it reads was not resident, so that the file reached it
before, and the page that left the frame is in the file. -/
lemma kept_fetchPage (h : Durable s t) {ok : Bool} (hallows : t.Allows (.fetchPage p ok))
    (hh : Happens logDisk s (.fetchPage p ok) s') {d : PageBytes}
    (hd : (t.after (.fetchPage p ok)).content q = some d) :
    s'.Kept (t.after (.fetchPage p ok)) q := by
  have hc := h.consistent
  obtain ⟨x, hx, rfl⟩ := hh
  by_cases hres : ∃ f, s.Resident p f
  · obtain ⟨f, hf⟩ := hres
    obtain ⟨s'', hs'', -, hdisk, -, hpages, hiff⟩ := hc.fetchPage_hit logDisk hf
    obtain ⟨hx', rfl⟩ := Prod.mk.inj (hs''.symm.trans hx)
    obtain rfl := Except.ok.inj hx'
    refine (h.kept q d hd).stays ?_ (fun g hg => ⟨(hiff q g).2 hg, ?_⟩)
      (Multiset.mem_cons_of_mem) ?_
    · rw [hdisk]
      exact id
    · rw [hpages]
      by_cases hg : g = f
      · subst hg
        simp
      · simp [hg]
    · rintro ⟨hnew, hne⟩
      refine ⟨hnew, ?_⟩
      show (t.pin p).pinCount q ≠ 0
      rw [PageStore.pinCount_pin]
      omega
  · have hlt : 0 ≤ p ∧ p < s.nextPageId := by
      rw [h.next_eq]
      exact hallows.1
    rcases hc.fetchPage_miss logDisk_reliable (not_exists.1 hres) hlt with
      ⟨hnone, -⟩ | ⟨f, u, s'', data, hs'', -, -, htaken, hpages, -, hdata, hinst⟩
    · obtain ⟨hx', rfl⟩ := Prod.mk.inj (hnone.symm.trans hx)
      obtain rfl := Except.ok.inj hx'
      exact h.kept q d hd
    · obtain ⟨hx', rfl⟩ := Prod.mk.inj (hs''.symm.trans hx)
      obtain rfl := Except.ok.inj hx'
      by_cases hqp : q = p
      · -- the page was not resident, so that the file reached it before
        subst hqp
        have hreach : s.disk.Reaches q :=
          (h.kept q d hd).resolve_right fun ⟨g, hg, _⟩ => hres ⟨g, hg⟩
        refine .inl ?_
        rw [hinst.disk_eq]
        show u.disk.Reaches q
        cases htaken with
        | free _ hudisk _ => exact hudisk ▸ hreach
        | evict v hv _ hudisk _ =>
          have hv0 := (hc.resident_allocated v f hv).1
          rw [hudisk, writeBackDisk, hc.pageId_eq v f hv]
          split_ifs
          · exact (reaches_after_writePage _ v q _ hv0).2 (.inl hreach)
          · exact hreach
      · have hsame : (t.pin p).content q = t.content q := rfl
        exact h.kept_of_installed htaken hpages hinst rfl (fun _ _ => Iff.rfl) rfl hqp hd hsame
          rfl

/-- A write keeps the pages: the page that is written stays resident, and its pin remembers the
write. -/
lemma kept_write (h : Durable s t) {wrote : Bool} {x : PageBytes}
    (hallows : t.Allows (.write p wrote x))
    (hh : Happens logDisk s (.write p wrote x) s') {d : PageBytes}
    (hd : (t.after (.write p wrote x)).content q = some d) :
    s'.Kept (t.after (.write p wrote x)) q := by
  have hc := h.consistent
  obtain ⟨f, hf, rfl⟩ := hh
  have hmem : (p, wrote) ∈ t.pins := hallows
  have hsame : t.pinCount q = (t.write p wrote x).pinCount q :=
    (PageStore.pinCount_write hmem x q).symm
  by_cases hqp : q = p
  · subst hqp
    exact .inr ⟨f, hf, .inr (.inl (Multiset.mem_cons_self _ _))⟩
  · have hcontent : (t.write p wrote x).content q = t.content q := by
      rw [PageStore.content_write, if_neg hqp]
    refine (h.kept q d (hcontent ▸ hd)).stays id (fun g hg => ⟨hg, ?_⟩) (fun hin => ?_) ?_
    · have hgf : g ≠ f := by
        rintro rfl
        exact hqp (hc.resident_inj q p g hg hf)
      simp [setPage, hgf]
    · exact Multiset.mem_cons_of_mem ((Multiset.mem_erase_of_ne (by simp [hqp])).2 hin)
    · show t.content q = some default ∧ t.pinCount q ≠ 0 →
        (t.write p wrote x).content q = some default ∧ (t.write p wrote x).pinCount q ≠ 0
      rw [hcontent, ← hsame]
      exact id

/-- `UnpinPage` keeps the pages, if the clients do not give up a page that holds nothing but zeros with
`is_dirty = false`: they hand over what they wrote (`kept_unpinned`). -/
lemma kept_unpinPage (h : Durable s t) {wrote isDirty ok : Bool}
    (hallows : t.Allows (.unpinPage p wrote isDirty ok))
    (hkeeps : t.Keeps (.unpinPage p wrote isDirty ok))
    (hh : Happens logDisk s (.unpinPage p wrote isDirty ok) s') {d : PageBytes}
    (hd : (t.after (.unpinPage p wrote isDirty ok)).content q = some d) :
    s'.Kept (t.after (.unpinPage p wrote isDirty ok)) q := by
  have hc := h.consistent
  have hh : s.unpinPage p isDirty = (ok, s') := hh
  rcases hallows with ⟨hmem, hwrote⟩ | hzero
  · obtain ⟨f, hf, hpos⟩ := h.resident_of_pin hmem
    obtain ⟨s'', hs'', -, hdisk, -, hpages, hres⟩ := hc.unpinPage hf hpos isDirty
    obtain ⟨rfl, rfl⟩ := Prod.mk.inj (hs''.symm.trans hh)
    have hcount := PageStore.pinCount_unpin hmem q
    by_cases hqp : q = p
    · subst hqp
      exact h.kept_unpinned hd hmem hwrote hkeeps hf ((hres q f).2 hf)
        (by rw [hpages, Function.update_self]) hdisk
    · rw [if_neg hqp, Nat.add_zero] at hcount
      refine (h.kept q d hd).stays ?_ (fun g hg => ⟨(hres q g).2 hg, ?_⟩) (fun hin => ?_) ?_
      · rw [hdisk]
        exact id
      · have hgf : g ≠ f := by
          rintro rfl
          exact hqp (hc.resident_inj q p g hg hf)
        rw [hpages, Function.update_of_ne hgf]
        exact id
      · exact (Multiset.mem_erase_of_ne (by simp [hqp])).2 hin
      · rintro ⟨hnew, hne⟩
        exact ⟨hnew, by show (t.unpin p wrote).pinCount q ≠ 0; omega⟩
  · have hrefused : s.unpinPage p isDirty = (false, s) := by
      refine unpinPage_refused (fun f hf => ?_) isDirty
      rw [h.pin_eq hf]
      omega
    obtain ⟨rfl, rfl⟩ := Prod.mk.inj (hrefused.symm.trans hh)
    exact h.kept q d hd

/-- `FlushPage` keeps the pages: it writes a page to the file, or does nothing. -/
lemma kept_flushPage (h : Durable s t)
    (hh : Happens logDisk s (.flushPage p) s') {d : PageBytes}
    (hd : (t.after (.flushPage p)).content q = some d) :
    s'.Kept (t.after (.flushPage p)) q := by
  have hc := h.consistent
  obtain ⟨ok, hok⟩ := hh
  cases hl : s.pageTable.lookup p with
  | none =>
    obtain ⟨-, rfl⟩ : _ ∧ s = s' := by simpa [flushPage, hl] using hok
    exact h.kept q d hd
  | some f =>
    simp only [flushPage, hl, flushFrame_eq logDisk_reliable] at hok
    obtain ⟨-, rfl⟩ := Prod.mk.inj hok
    exact ((h.kept q d hd).flushFrame hc hl).1

/-- `DeletePage` keeps the pages that remain: only the deleted one leaves its frame. -/
lemma kept_deletePage (h : Durable s t) {ok : Bool}
    (hh : Happens logDisk s (.deletePage p ok) s') {d : PageBytes}
    (hd : (t.after (.deletePage p ok)).content q = some d) :
    s'.Kept (t.after (.deletePage p ok)) q := by
  have hc := h.consistent
  have hh : s.deletePage p = (.ok ok, s') := hh
  by_cases hres : ∃ f, s.Resident p f
  · obtain ⟨f, hf⟩ := hres
    by_cases hpin : (s.pages f).pinCount = 0
    · obtain ⟨s'', hs'', -, hdisk, -, hpages, hiff⟩ := hc.deletePage hf hpin
      obtain ⟨hok, rfl⟩ := Prod.mk.inj (hs''.symm.trans hh)
      obtain rfl := Except.ok.inj hok
      have hd : (t.delete p).content q = some d := hd
      rw [PageStore.content_delete] at hd
      split_ifs at hd with hqp
      have hcontent : (t.delete p).content q = t.content q := by
        rw [PageStore.content_delete, if_neg hqp]
      refine (h.kept q d hd).stays ?_ (fun g hg => ⟨(hiff q g).2 ⟨hqp, hg⟩, ?_⟩) id ?_
      · rw [hdisk]
        exact id
      · have hgf : g ≠ f := by
          rintro rfl
          exact hqp (hc.resident_inj q p g hg hf)
        rw [hpages, Function.update_of_ne hgf]
        exact id
      · rintro ⟨hnew, hne⟩
        exact ⟨hcontent.trans hnew, hne⟩
    · have hpos := lt_of_le_of_ne (hc.pin_nonneg f) (Ne.symm hpin)
      obtain ⟨hok, rfl⟩ := Prod.mk.inj ((deletePage_pinned hf hpos).symm.trans hh)
      obtain rfl := Except.ok.inj hok
      exact h.kept q d hd
  · obtain ⟨hok, rfl⟩ := Prod.mk.inj ((deletePage_absent (not_exists.1 hres)).symm.trans hh)
    obtain rfl := Except.ok.inj hok
    have hd : (t.delete p).content q = some d := hd
    rw [PageStore.content_delete] at hd
    split_ifs at hd with hqp
    refine (h.kept q d hd).stays id (fun g hg => ⟨hg, id⟩) id ?_
    rintro ⟨hnew, hne⟩
    refine ⟨?_, hne⟩
    show (t.delete p).content q = some default
    rw [PageStore.content_delete, if_neg hqp, hnew]

/-- What a step leaves of the pages besides the new contents and the refinement.

**Proof sketch.** One case for each event. A page of the store stays kept as long as it stays in its
frame with its dirty bit, its pins and its zeros (`Kept.stays`); what remains are the page that an
event is about and the page that leaves a frame (`kept_of_installed`). -/
lemma kept_step (h : Durable s t) (hallows : t.Allows e) (hkeeps : t.Keeps e)
    (hh : Happens logDisk s e s') (q : PageId) (d : PageBytes)
    (hd : (t.after e).content q = some d) : s'.Kept (t.after e) q := by
  cases e with
  | newPage r => exact h.kept_newPage hh hd
  | fetchPage p ok => exact h.kept_fetchPage hallows hh hd
  | write p wrote x => exact h.kept_write hallows hh hd
  | unpinPage p wrote isDirty ok => exact h.kept_unpinPage hallows hkeeps hh hd
  | flushPage p => exact h.kept_flushPage hh hd
  | flushAllPages => exact ((h.kept q d hd).flushAllPages h.consistent hh).1
  | deletePage p ok => exact h.kept_deletePage hh hd

/-- `FlushAllPages` leaves every page that is in use in the file. -/
lemma flushAllPages (h : Durable s t) (hs' : s.flushAllPages logDisk = (.ok (), s'))
    {d : PageBytes} (hd : t.content p = some d) :
    0 ≤ p ∧ s'.disk.Reaches p ∧ s'.disk.page p.toNat = d := by
  have hp := (h.content_lt hd).1
  have hes : ∀ e ∈ s.pageTable.entries, s.Resident e.1 e.2 :=
    fun e he => AList.mem_lookup_iff.2 he
  obtain ⟨hin, hout⟩ := flushEntries_page h.consistent hes hs' hp
  refine ⟨hp, ((h.kept p d hd).flushAllPages h.consistent hs').2, ?_⟩
  obtain ⟨disk, hshows, hr⟩ := h.refines
  have hview := hr.content_eq p d hd
  by_cases hres : ∃ f, s.Resident p f
  · obtain ⟨f, hf⟩ := hres
    rw [hin f hf (.inl (List.mem_map.2 ⟨⟨p, f⟩, AList.mem_lookup_iff.1 hf, rfl⟩)), ← hview]
    exact (view_of_resident (s := s.withDisk disk) hf).symm
  · rw [hout (not_exists.1 hres), ← hview, view_of_absent (s := s.withDisk disk) (not_exists.1 hres)]
    exact (hshows p hp).symm

/-- Every event of clients that keep their pages keeps the pages that are in use, and the page
store follows the trace. -/
lemma step (h : Durable s t) (hallows : t.Allows e) (hkeeps : t.Keeps e)
    (hh : Happens logDisk s e s') :
    Durable s' (t.after e) ∧ (t.after e).content = e.contentAfter t.content := by
  obtain ⟨disk, hshows, hr⟩ := h.refines
  obtain ⟨disk', hh', hshows'⟩ := hh.mirrored logDisk_mirrors h.consistent hshows
    (fun p ok he => ⟨by subst he; exact hallows.1.1, .inr trivial⟩)
  obtain ⟨hr', hcontent⟩ := hr.step ⟨hallows, happens_idealDisk.1 hh', rfl⟩
  exact ⟨⟨⟨disk', hshows', hr'⟩, h.kept_step hallows hkeeps hh⟩, hcontent⟩

end Durable

end BufferPoolManager

end OneBase
