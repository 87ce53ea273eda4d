import OneBase.Buffer.PageStore
import OneBase.Buffer.PoolConsistency

set_option relaxedAutoImplicit false
set_option autoImplicit false

/-!
# The buffer pool is transparent

On an ideal disk, the buffer pool refines the page store: whatever is evicted, flushed and fetched
again, the pages have the contents that the clients gave them.

## Main definitions

* `OneBase.BufferPoolManager.Refines` — the pool, with its frames and its disk, holds the pages of
  the page store.

## Main results

* `OneBase.BufferPoolManager.Refines.newPage`, `fetchPage`, … — every operation keeps the
  refinement.
* `OneBase.BufferPoolManager.handler_simulates` — programs run on the pool as on the page store.
* `OneBase.BufferPoolManager.fetchPage_lastWritten` — a fetched page has the bytes last written.
-/

namespace OneBase

namespace BufferPoolManager

variable {D : Type}

/-- What the pool holds for a page: the data of its frame, or else what is on disk. -/
def view (s : BufferPoolManager D (PageId → D)) (p : PageId) : D :=
  match s.pageTable.lookup p with
  | some f => (s.pages f).data
  | none => s.disk p

/-- The pool holds the pages and the pins of the page store. A frame that is neither dirty nor
going to be marked dirty by a pin that is still held agrees with the disk. -/
structure Refines [Inhabited D] (s : BufferPoolManager D (PageId → D)) (t : PageStore D) :
    Prop where
  consistent : s.Consistent none
  next_eq : s.nextPageId = t.nextPageId
  pin_eq : ∀ p f, s.Resident p f → (s.pages f).pinCount = t.pinCount p
  pinned : ∀ p, t.pinCount p ≠ 0 → ∃ f, s.Resident p f
  content_eq : ∀ p d, t.content p = some d → s.view p = d
  content_lt : ∀ p d, t.content p = some d → 0 ≤ p ∧ p < t.nextPageId
  clean : ∀ p f, s.Resident p f → (s.pages f).isDirty = false → (p, true) ∉ t.pins →
    s.disk p = (s.pages f).data
  fresh : ∀ p, t.nextPageId ≤ p → s.disk p = default

section View

variable {s s' u : BufferPoolManager D (PageId → D)} {p q : PageId} {f g : FrameId}

/-- A resident page is seen in its frame. -/
lemma view_of_resident (h : s.Resident p f) : s.view p = (s.pages f).data := by
  have hlk : s.pageTable.lookup p = some f := h
  simp only [view, hlk]

/-- A page that is not resident is seen on disk. -/
lemma view_of_absent (h : ∀ f, ¬ s.Resident p f) : s.view p = s.disk p := by
  simp only [view]
  cases hl : s.pageTable.lookup p with
  | none => rfl
  | some f => exact absurd hl (h f)

/-- Two pools that agree on the frame of a page, or else on the disk, agree on the page. -/
lemma view_congr (hres : ∀ f, s'.Resident p f ↔ s.Resident p f)
    (hpage : ∀ f, s.Resident p f → (s'.pages f).data = (s.pages f).data)
    (hdisk : s'.disk p = s.disk p) : s'.view p = s.view p := by
  by_cases h : ∃ f, s.Resident p f
  · obtain ⟨f, hf⟩ := h
    rw [view_of_resident hf, view_of_resident ((hres f).2 hf), hpage f hf]
  · have hs := not_exists.1 h
    rw [view_of_absent hs, view_of_absent fun f hf => hs f ((hres f).1 hf), hdisk]

end View

section Operations

variable [Inhabited D] {s s' u : BufferPoolManager D (PageId → D)} {t : PageStore D} {p q : PageId}
  {f g : FrameId}

/-- Taking a frame writes the page in it back, if anything would be lost. -/
lemma Refines.taken (h : Refines s t) (htaken : Taken (idealDisk D) s f u)
    (hpages : u.pages = s.pages) (q : PageId) :
    u.view q = s.view q ∧ (∀ g, u.Resident q g → u.disk q = s.disk q) ∧
      (t.nextPageId ≤ q → u.disk q = s.disk q) := by
  cases htaken with
  | free hf hdisk hres =>
    rw [hdisk]
    exact ⟨view_congr (hres q) (fun g _ => by rw [hpages]) (by rw [hdisk]), fun _ _ => rfl,
      fun _ => rfl⟩
  | evict v hv hpin hdisk hres =>
    have hid := h.consistent.pageId_eq v f hv
    have hother : q ≠ v → u.disk q = s.disk q := by
      intro hqv
      rw [hdisk, writeBackDisk]
      split_ifs
      · exact Function.update_of_ne (by rwa [hid]) _ _
      · rfl
    refine ⟨?_, fun g hg => hother ((hres q g).1 hg).1, fun hq => hother ?_⟩
    · by_cases hqv : q = v
      · subst hqv
        rw [view_of_absent fun g hg => ((hres q g).1 hg).1 rfl, view_of_resident hv, hdisk,
          writeBackDisk]
        split_ifs with hd
        · rw [hid]
          exact Function.update_self ..
        · refine h.clean q f hv (by simpa using hd) fun hmem => ?_
          have := h.pin_eq q f hv
          have := PageStore.pinCount_ne_zero.2 ⟨true, hmem⟩
          omega
      · refine view_congr (fun g => ?_) (fun g _ => by rw [hpages]) (hother hqv)
        rw [hres q g]
        simp [hqv]
    · rintro rfl
      have := (h.consistent.resident_allocated q f hv).2
      have := h.next_eq
      lia

/-- Installing in a frame that was taken the page `p`, which was on disk only, keeps the
refinement when the page store gains a pin of `p`. -/
lemma Refines.install (h : Refines s t) (htaken : Taken (idealDisk D) s f u)
    (hpages : u.pages = s.pages) {w : BufferPoolManager D (PageId → D)}
    (hinst : Installed w f p (s.disk p) s') (hw : w.pages = u.pages)
    (hwres : ∀ q g, w.Resident q g ↔ u.Resident q g) (hwdisk : w.disk = u.disk)
    (hp : ∀ g, ¬ s.Resident p g) (hpdisk : u.disk p = s.disk p) (hpres : s.Preserved s')
    {t' : PageStore D}
    (hpins : t'.pins = (p, false) ::ₘ t.pins) (hnext : s'.nextPageId = t'.nextPageId)
    (hcontent : ∀ q d, t'.content q = some d →
      (0 ≤ q ∧ q < t'.nextPageId) ∧ if q = p then d = s.disk p else t.content q = some d)
    (hle : t.nextPageId ≤ t'.nextPageId) : Refines s' t' := by
  have hgf : ∀ q g, u.Resident q g → g ≠ f := by
    rintro q g hg rfl
    exact htaken.not_resident h.consistent q hg
  have hpage : ∀ g, g ≠ f → s'.pages g = s.pages g := by
    intro g hg
    rw [hinst.pages_eq, Function.update_of_ne hg, hw, hpages]
  have hnew : s'.Resident p f := by
    rw [hinst.resident_iff]
    simp
  have hnewpage : s'.pages f =
      { data := s.disk p, pageId := p, pinCount := 1, isDirty := false } := by
    rw [hinst.pages_eq, Function.update_self]
  have hdisk : s'.disk = u.disk := by rw [hinst.disk_eq, hwdisk]
  have hother : ∀ q g, q ≠ p → s'.Resident q g →
      s.Resident q g ∧ s'.pages g = s.pages g ∧ s'.disk q = s.disk q := by
    intro q g hq hg
    rw [hinst.resident_iff, if_neg hq, hwres] at hg
    refine ⟨htaken.resident hg, hpage g (hgf q g hg), ?_⟩
    rw [hdisk, (h.taken htaken hpages q).2.1 g hg]
  have hview : ∀ q, q ≠ p → s'.view q = s.view q := by
    intro q hq
    rw [← (h.taken htaken hpages q).1]
    refine view_congr (fun g => ?_) (fun g hg => ?_) (by rw [hdisk])
    · rw [hinst.resident_iff, if_neg hq, hwres]
    · rw [hpage g (hgf q g hg), hpages]
  have hzero : t.pinCount p = 0 := by
    by_contra hne
    obtain ⟨g, hg⟩ := h.pinned p hne
    exact hp g hg
  have hcount : ∀ q, t'.pinCount q = t.pinCount q + if q = p then 1 else 0 := by
    intro q
    rw [PageStore.pinCount, hpins, ← PageStore.pinCount_pin]
    rfl
  refine ⟨hpres.consistent, hnext, ?_, ?_, ?_, fun q d hd => (hcontent q d hd).1, ?_, ?_⟩
  · intro q g hg
    rw [hcount]
    by_cases hq : q = p
    · subst hq
      obtain rfl : f = g := Option.some.inj (hnew.symm.trans hg)
      rw [hnewpage, hzero]
      simp
    · obtain ⟨hs, hpg, -⟩ := hother q g hq hg
      rw [hpg, h.pin_eq q g hs, if_neg hq, Nat.add_zero]
  · intro q hne
    by_cases hq : q = p
    · exact ⟨f, hq ▸ hnew⟩
    · rw [hcount, if_neg hq, Nat.add_zero] at hne
      obtain ⟨g, hg⟩ := h.pinned q hne
      have hpos : 0 < (s.pages g).pinCount := by
        rw [h.pin_eq q g hg]
        omega
      exact ⟨g, hpres.keeps q g hg hpos⟩
  · intro q d hd
    have hc := (hcontent q d hd).2
    split_ifs at hc with hq
    · rw [hq, view_of_resident hnew, hnewpage, hc]
    · rw [hview q hq]
      exact h.content_eq q d hc
  · intro q g hg hclean hmem
    by_cases hq : q = p
    · subst hq
      obtain rfl : f = g := Option.some.inj (hnew.symm.trans hg)
      rw [hnewpage, hdisk, hpdisk]
    · obtain ⟨hs, hpg, hdq⟩ := hother q g hq hg
      rw [hpins] at hmem
      rw [hpg] at hclean ⊢
      rw [hdq]
      exact h.clean q g hs hclean fun hin => hmem (Multiset.mem_cons_of_mem hin)
  · intro q hq
    rw [hdisk, (h.taken htaken hpages q).2.2 (hle.trans hq)]
    exact h.fresh q (hle.trans hq)

/-- `NewPage` either finds all frames pinned, or allocates. -/
lemma Refines.newPage (h : Refines s t) :
    (s.newPage (idealDisk D) = (.ok none, s) ∧ s.AllPinned) ∨
      ∃ f s', s.newPage (idealDisk D) = (.ok (some (t.nextPageId, f)), s') ∧
        Refines s' t.allocate ∧ s'.Resident t.nextPageId f ∧ s'.poolSize = s.poolSize ∧
        ¬ s.AllPinned := by
  rcases h.consistent.newPage (idealDisk_reliable D) with
    hnone | ⟨f, u, s', hs', hpres, hall, htaken, hpages, hn, hinst⟩
  · exact .inl hnone
  · right
    have hnext := h.next_eq
    have hnn := h.consistent.next_nonneg
    have hfresh : s.disk s.nextPageId = default := h.fresh _ hnext.ge
    have hp : ∀ g, ¬ s.Resident s.nextPageId g := by
      intro g hg
      exact lt_irrefl _ (h.consistent.resident_allocated _ g hg).2
    have hpdisk := (h.taken htaken hpages s.nextPageId).2.2 hnext.ge
    rw [← hfresh] at hinst
    refine ⟨f, s', by rw [← hnext]; exact hs', ?_, ?_, hpres.poolSize_eq, hall⟩
    · refine h.install htaken hpages hinst rfl (fun q g => Iff.rfl) rfl hp hpdisk hpres
        (by rw [hnext]; rfl) ?_ ?_ ?_
      · rw [hinst.nextPageId_eq, hn, hnext]
        rfl
      · intro q d hd
        rw [PageStore.content_allocate, ← hnext] at hd
        change (0 ≤ q ∧ q < t.nextPageId + 1) ∧ _
        split_ifs at hd ⊢ with hq
        · rw [hfresh]
          exact ⟨⟨by lia, by lia⟩, (Option.some.inj hd).symm⟩
        · have := h.content_lt q d hd
          exact ⟨⟨this.1, by lia⟩, hd⟩
      · change t.nextPageId ≤ t.nextPageId + 1
        lia
    · rw [← hnext, hinst.resident_iff]
      simp

/-- `FetchPage` of an allocated page either finds all frames pinned, none of them by this page,
or pins the page. -/
lemma Refines.fetchPage (h : Refines s t) (hlt : 0 ≤ p ∧ p < t.nextPageId) :
    (s.fetchPage (idealDisk D) p = (.ok none, s) ∧ s.AllPinned ∧ t.pinCount p = 0) ∨
      ∃ f s', s.fetchPage (idealDisk D) p = (.ok (some f), s') ∧ Refines s' (t.pin p) ∧
        s'.Resident p f ∧ s'.poolSize = s.poolSize := by
  by_cases hres : ∃ f, s.Resident p f
  · right
    obtain ⟨f, hf⟩ := hres
    obtain ⟨s', hs', hpres, hdisk, hnext, hpages, hiff⟩ :=
      h.consistent.fetchPage_hit (idealDisk D) hf
    refine ⟨f, s', hs', ?_, (hiff p f).2 hf, hpres.poolSize_eq⟩
    have hpage : ∀ g, (s'.pages g).data = (s.pages g).data ∧
        (s'.pages g).isDirty = (s.pages g).isDirty := by
      intro g
      rw [hpages]
      by_cases hg : g = f
      · subst hg
        simp
      · simp [hg]
    refine ⟨hpres.consistent, by rw [hnext]; exact h.next_eq, ?_, ?_, ?_, h.content_lt, ?_, ?_⟩
    · intro q g hg
      have hg := (hiff q g).1 hg
      rw [PageStore.pinCount_pin, hpages]
      by_cases hq : q = p
      · subst hq
        obtain rfl : f = g := Option.some.inj (hf.symm.trans hg)
        have := h.pin_eq q f hg
        simp [this]
      · have hgf : g ≠ f := by
          rintro rfl
          exact hq (h.consistent.resident_inj q p g hg hf)
        rw [Function.update_of_ne hgf, h.pin_eq q g hg, if_neg hq, Nat.add_zero]
    · intro q hne
      rw [PageStore.pinCount_pin] at hne
      by_cases hq : q = p
      · exact ⟨f, hq ▸ (hiff p f).2 hf⟩
      · rw [if_neg hq, Nat.add_zero] at hne
        obtain ⟨g, hg⟩ := h.pinned q hne
        exact ⟨g, (hiff q g).2 hg⟩
    · intro q d hd
      rw [view_congr (hiff q) (fun g _ => (hpage g).1) (by rw [hdisk])]
      exact h.content_eq q d hd
    · intro q g hg hclean hmem
      rw [(hpage g).1, hdisk]
      refine h.clean q g ((hiff q g).1 hg) (by rw [← (hpage g).2]; exact hclean) fun hin => ?_
      exact hmem (Multiset.mem_cons_of_mem hin)
    · intro q hq
      rw [hdisk]
      exact h.fresh q hq
  · have hp := not_exists.1 hres
    have hzero : t.pinCount p = 0 := by
      by_contra hne
      exact hres (h.pinned p hne)
    rcases h.consistent.fetchPage_miss (idealDisk_reliable D) hp (by rw [h.next_eq]; exact hlt) with
      ⟨hnone, hall⟩ | ⟨f, u, s', data, hs', hpres, hall, htaken, hpages, hn, hdata, hinst⟩
    · exact .inl ⟨hnone, hall, hzero⟩
    · right
      obtain rfl : u.disk p = data := Except.ok.inj hdata
      have hpdisk : u.disk p = s.disk p := by
        cases htaken with
        | free hf hdisk hres => rw [hdisk]
        | evict v hv hpin hdisk hres =>
          have hpv : p ≠ v := by
            rintro rfl
            exact hp f hv
          rw [hdisk, writeBackDisk, h.consistent.pageId_eq v f hv]
          split_ifs
          · exact Function.update_of_ne hpv _ _
          · rfl
      rw [hpdisk] at hinst
      refine ⟨f, s', hs', ?_, by rw [hinst.resident_iff]; simp, hpres.poolSize_eq⟩
      refine h.install htaken hpages hinst rfl (fun q g => Iff.rfl) rfl hp hpdisk hpres rfl ?_ ?_
        le_rfl
      · rw [hinst.nextPageId_eq]
        exact hn.trans h.next_eq
      · intro q d hd
        refine ⟨h.content_lt q d hd, ?_⟩
        split_ifs with hq
        · subst hq
          rw [← view_of_absent hp]
          exact (h.content_eq q d hd).symm
        · exact hd

/-- A pinned page is resident. -/
lemma Refines.resident_of_pin (h : Refines s t) {b : Bool} (hmem : (p, b) ∈ t.pins) :
    ∃ f, s.Resident p f ∧ 0 < (s.pages f).pinCount := by
  have hne := PageStore.pinCount_ne_zero.2 ⟨b, hmem⟩
  obtain ⟨f, hf⟩ := h.pinned p hne
  refine ⟨f, hf, ?_⟩
  rw [h.pin_eq p f hf]
  omega

/-- `UnpinPage` ends a pin, with `is_dirty = true` if its holder wrote. -/
lemma Refines.unpinPage (h : Refines s t) {b d : Bool} (hmem : (p, b) ∈ t.pins)
    (hd : b = true → d = true) :
    ∃ s', s.unpinPage p d = (true, s') ∧ Refines s' (t.unpin p b) ∧
      s'.poolSize = s.poolSize := by
  obtain ⟨f, hf, hpos⟩ := h.resident_of_pin hmem
  obtain ⟨s', hs', hpres, hdisk, hnext, hpages, hres⟩ := h.consistent.unpinPage hf hpos d
  have hdata : ∀ g, (s'.pages g).data = (s.pages g).data := by
    intro g
    rw [hpages]
    by_cases hg : g = f
    · subst hg
      simp
    · simp [hg]
  have hother : ∀ q g, s.Resident q g → q ≠ p → s'.pages g = s.pages g := by
    intro q g hg hq
    have hgf : g ≠ f := by
      rintro rfl
      exact hq (h.consistent.resident_inj q p g hg hf)
    rw [hpages, Function.update_of_ne hgf]
  refine ⟨s', hs', ⟨hpres.consistent, by rw [hnext]; exact h.next_eq, ?_, ?_, ?_, h.content_lt,
    ?_, ?_⟩, hpres.poolSize_eq⟩
  · intro q g hg
    have hg := (hres q g).1 hg
    have hcount := PageStore.pinCount_unpin hmem q
    have hold := h.pin_eq q g hg
    by_cases hq : q = p
    · subst hq
      obtain rfl : f = g := Option.some.inj (hf.symm.trans hg)
      rw [if_pos rfl] at hcount
      rw [hpages, Function.update_self]
      dsimp only
      omega
    · rw [if_neg hq, Nat.add_zero] at hcount
      rw [hother q g hg hq, hcount, hold]
  · intro q hne
    have hcount := PageStore.pinCount_unpin hmem q
    obtain ⟨g, hg⟩ := h.pinned q (by omega)
    exact ⟨g, (hres q g).2 hg⟩
  · intro q x hx
    rw [view_congr (hres q) (fun g _ => hdata g) (by rw [hdisk])]
    exact h.content_eq q x hx
  · intro q g hg hclean hout
    have hg := (hres q g).1 hg
    rw [hdata, hdisk]
    by_cases hq : q = p
    · subst hq
      obtain rfl : f = g := Option.some.inj (hf.symm.trans hg)
      rw [hpages, Function.update_self] at hclean
      have hdfalse : d = false := by
        by_contra hne
        simp [hne] at hclean
      have hbfalse : b = false := by
        by_contra hne
        exact absurd (hd (by simpa using hne)) (by simp [hdfalse])
      subst hdfalse hbfalse
      refine h.clean q f hg (by simpa using hclean) fun hin => hout ?_
      exact (Multiset.mem_erase_of_ne (by simp)).2 hin
    · rw [hother q g hg hq] at hclean
      refine h.clean q g hg hclean fun hin => hout ?_
      exact (Multiset.mem_erase_of_ne (by simp [hq])).2 hin
  · intro q hq
    rw [hdisk]
    exact h.fresh q hq

/-- `UnpinPage` of a page without pins is refused. -/
lemma Refines.unpinPage_refused (h : Refines s t) (hzero : t.pinCount p = 0) (d : Bool) :
    s.unpinPage p d = (false, s) := by
  refine BufferPoolManager.unpinPage_refused (fun f hf => ?_) d
  rw [h.pin_eq p f hf]
  omega

/-- `DeletePage` of a pinned page is refused. -/
lemma Refines.deletePage_pinned (h : Refines s t) (hne : t.pinCount p ≠ 0) :
    s.deletePage p = (.ok false, s) := by
  obtain ⟨f, hf⟩ := h.pinned p hne
  refine BufferPoolManager.deletePage_pinned hf ?_
  rw [h.pin_eq p f hf]
  omega

/-- `DeletePage` of a page without pins. -/
lemma Refines.deletePage (h : Refines s t) (hzero : t.pinCount p = 0) :
    ∃ s', s.deletePage p = (.ok true, s') ∧ Refines s' (t.delete p) ∧
      s'.poolSize = s.poolSize := by
  have hcontent : ∀ q d, (t.delete p).content q = some d → q ≠ p ∧ t.content q = some d := by
    intro q d hd
    rw [PageStore.content_delete] at hd
    split_ifs at hd with hq
    exact ⟨hq, hd⟩
  by_cases hres : ∃ f, s.Resident p f
  · obtain ⟨f, hf⟩ := hres
    have hpin : (s.pages f).pinCount = 0 := by
      rw [h.pin_eq p f hf, hzero]
      rfl
    obtain ⟨s', hs', hpres, hdisk, hnext, hpages, hiff⟩ := h.consistent.deletePage hf hpin
    have hother : ∀ q g, s'.Resident q g → s.Resident q g ∧ s'.pages g = s.pages g := by
      intro q g hg
      obtain ⟨hq, hg⟩ := (hiff q g).1 hg
      refine ⟨hg, ?_⟩
      have hgf : g ≠ f := by
        rintro rfl
        exact hq (h.consistent.resident_inj q p g hg hf)
      rw [hpages, Function.update_of_ne hgf]
    refine ⟨s', hs', ⟨hpres.consistent, by rw [hnext]; exact h.next_eq, ?_, ?_, ?_, ?_, ?_, ?_⟩,
      hpres.poolSize_eq⟩
    · intro q g hg
      obtain ⟨hs, hpg⟩ := hother q g hg
      rw [hpg]
      exact h.pin_eq q g hs
    · intro q hne
      have hq : q ≠ p := by
        rintro rfl
        exact hne hzero
      obtain ⟨g, hg⟩ := h.pinned q hne
      exact ⟨g, (hiff q g).2 ⟨hq, hg⟩⟩
    · intro q d hd
      obtain ⟨hq, hd⟩ := hcontent q d hd
      rw [view_congr (s := s) (fun g => by simp [hiff, hq])
        (fun g hg => by rw [(hother q g ((hiff q g).2 ⟨hq, hg⟩)).2]) (by rw [hdisk])]
      exact h.content_eq q d hd
    · intro q d hd
      exact h.content_lt q d (hcontent q d hd).2
    · intro q g hg hclean hout
      obtain ⟨hs, hpg⟩ := hother q g hg
      rw [hpg] at hclean ⊢
      rw [hdisk]
      exact h.clean q g hs hclean hout
    · intro q hq
      rw [hdisk]
      exact h.fresh q hq
  · refine ⟨s, deletePage_absent (not_exists.1 hres), ?_, rfl⟩
    exact ⟨h.consistent, h.next_eq, h.pin_eq, h.pinned,
      fun q d hd => h.content_eq q d (hcontent q d hd).2,
      fun q d hd => h.content_lt q d (hcontent q d hd).2, h.clean, h.fresh⟩

/-- Writing to a page under a pin. -/
lemma Refines.write (h : Refines s t) {b : Bool} (hmem : (p, b) ∈ t.pins) (hf : s.Resident p f)
    (d : D) : Refines (s.setPage f { s.pages f with data := d }) (t.write p b d) := by
  have hpage : ∀ g, g ≠ f → (s.setPage f { s.pages f with data := d }).pages g = s.pages g :=
    fun g hg => Function.update_of_ne hg _ _
  have hself : (s.setPage f { s.pages f with data := d }).pages f = { s.pages f with data := d } :=
    Function.update_self ..
  have hne : ∀ q g, s.Resident q g → q ≠ p → g ≠ f := by
    rintro q g hg hq rfl
    exact hq (h.consistent.resident_inj q p g hg hf)
  have hpin : ∀ g, ((s.setPage f { s.pages f with data := d }).pages g).pinCount =
      (s.pages g).pinCount := by
    intro g
    by_cases hg : g = f
    · rw [hg, hself]
    · rw [hpage g hg]
  refine ⟨h.consistent.setPage_data f _ rfl rfl, h.next_eq, ?_, ?_, ?_, ?_, ?_, h.fresh⟩
  · intro q g hg
    rw [hpin, PageStore.pinCount_write hmem]
    exact h.pin_eq q g hg
  · intro q hq
    rw [PageStore.pinCount_write hmem] at hq
    exact h.pinned q hq
  · intro q x hx
    rw [PageStore.content_write] at hx
    split_ifs at hx with hq
    · subst hq
      rw [view_of_resident (s := s.setPage f { s.pages f with data := d }) hf, hself]
      obtain ⟨-, -, rfl⟩ := Option.map_eq_some_iff.1 hx
      rfl
    · have hview : (s.setPage f { s.pages f with data := d }).view q = s.view q :=
        view_congr (fun g => Iff.rfl) (fun g hg => by rw [hpage g (hne q g hg hq)]) rfl
      rw [hview]
      exact h.content_eq q x hx
  · intro q x hx
    rw [PageStore.content_write] at hx
    split_ifs at hx with hq
    · subst hq
      obtain ⟨y, hy, -⟩ := Option.map_eq_some_iff.1 hx
      exact h.content_lt q y hy
    · exact h.content_lt q x hx
  · intro q g hg hclean hout
    have hq : q ≠ p := by
      rintro rfl
      exact hout (Multiset.mem_cons_self _ _)
    rw [hpage g (hne q g hg hq)] at hclean ⊢
    refine h.clean q g hg hclean fun hin => hout (Multiset.mem_cons_of_mem ?_)
    exact (Multiset.mem_erase_of_ne (by simp [hq])).2 hin

/-- Writing a resident page out. -/
lemma Refines.flushFrame (h : Refines s t) (hf : s.Resident p f) (hcons : s'.Consistent none)
    (hnext : s'.nextPageId = s.nextPageId) (hres : ∀ q g, s'.Resident q g ↔ s.Resident q g)
    (hdisk : s'.disk = Function.update s.disk p (s.pages f).data)
    (hpages : s'.pages = Function.update s.pages f { s.pages f with isDirty := false }) :
    Refines s' t := by
  have hpage : ∀ g, (s'.pages g).data = (s.pages g).data ∧
      (s'.pages g).pinCount = (s.pages g).pinCount := by
    intro g
    rw [hpages]
    by_cases hg : g = f
    · subst hg
      simp
    · simp [hg]
  refine ⟨hcons, hnext.trans h.next_eq, ?_, ?_, ?_, h.content_lt, ?_, ?_⟩
  · intro q g hg
    rw [(hpage g).2]
    exact h.pin_eq q g ((hres q g).1 hg)
  · intro q hne
    obtain ⟨g, hg⟩ := h.pinned q hne
    exact ⟨g, (hres q g).2 hg⟩
  · intro q d hd
    have hview : s'.view q = s.view q := by
      by_cases hq : q = p
      · subst hq
        rw [view_of_resident ((hres q f).2 hf), (hpage f).1, view_of_resident hf]
      · exact view_congr (hres q) (fun g _ => (hpage g).1) (by rw [hdisk, Function.update_of_ne hq])
    rw [hview]
    exact h.content_eq q d hd
  · intro q g hg hclean hout
    have hg := (hres q g).1 hg
    rw [(hpage g).1, hdisk]
    by_cases hq : q = p
    · subst hq
      obtain rfl : f = g := Option.some.inj (hf.symm.trans hg)
      rw [Function.update_self]
    · have hgf : g ≠ f := by
        rintro rfl
        exact hq (h.consistent.resident_inj q p g hg hf)
      rw [hpages, Function.update_of_ne hgf] at hclean
      rw [Function.update_of_ne hq]
      exact h.clean q g hg hclean hout
  · intro q hq
    have hqp : q ≠ p := by
      rintro rfl
      have := (h.consistent.resident_allocated q f hf).2
      have := h.next_eq
      lia
    rw [hdisk, Function.update_of_ne hqp]
    exact h.fresh q hq

/-- The loop of `FlushAllPages`. -/
lemma Refines.flushEntries {es : List (Sigma fun _ : PageId => FrameId)} (h : Refines s t)
    (hes : ∀ e ∈ es, s.Resident e.1 e.2) :
    ∃ s', BufferPoolManager.flushEntries (idealDisk D) es s = (.ok (), s') ∧ Refines s' t := by
  induction es generalizing s with
  | nil => exact ⟨s, rfl, h⟩
  | cons e es ih =>
    have hone := h.flushFrame (hes e List.mem_cons_self)
      (h.consistent.flushFrame (idealDisk D) e.1 e.2).consistent rfl (fun q g => Iff.rfl) rfl rfl
    obtain ⟨s', hs', hr⟩ := ih hone (fun e' he' => hes e' (List.mem_cons_of_mem e he'))
    refine ⟨s', ?_, hr⟩
    simp only [BufferPoolManager.flushEntries, flushFrame_eq (idealDisk_reliable D)]
    exact hs'

end Operations

/-! ## Programs -/

section Programs

variable [Inhabited D] {s : BufferPoolManager D (PageId → D)} {t : PageStore D} {p : PageId}

omit [Inhabited D] in

/-- A page is pinned if its count is not zero. -/
lemma mem_pinnedPages : p ∈ t.pinnedPages ↔ t.pinCount p ≠ 0 := by
  rw [PageStore.pinnedPages, Multiset.mem_toFinset, PageStore.pinCount, Multiset.count_ne_zero]

/-- If fewer pages are pinned than there are frames, not all frames are pinned. -/
lemma Refines.not_allPinned (h : Refines s t) (hcard : t.pinnedPages.card < s.poolSize) :
    ¬ s.AllPinned := by
  intro hall
  have hsub : Finset.range s.poolSize ⊆
      t.pinnedPages.image fun p => (s.pageTable.lookup p).getD 0 := by
    intro f hf
    obtain ⟨p, hp, hpos⟩ := hall f (Finset.mem_range.1 hf)
    refine Finset.mem_image.2 ⟨p, mem_pinnedPages.2 ?_, ?_⟩
    · have := h.pin_eq p f hp
      omega
    · have hlk : s.pageTable.lookup p = some f := hp
      rw [hlk]
      rfl
  have hle := (Finset.card_le_card hsub).trans Finset.card_image_le
  rw [Finset.card_range] at hle
  omega

/-- A call on the page store that keeps the discipline is matched by the pool, which keeps its
size. -/
lemma Refines.handler (h : Refines s t) {frames : ℕ} (hframes : frames ≤ s.poolSize) {β : Type}
    {e : PoolCall D β} {b : β} {t' : PageStore D}
    (hrun : PageStore.handler (frames : ℕ∞) _ e t = some (b, t')) :
    ∃ s', PoolCall.neverNull (BufferPoolManager.handler (idealDisk D)) _ e s = some (b, s') ∧
      Refines s' t' ∧ s'.poolSize = s.poolSize := by
  have hroom : (t.pinnedPages.card : ℕ∞) < frames → ¬ s.AllPinned := by
    intro hcard
    have hcard : t.pinnedPages.card < frames := by exact_mod_cast hcard
    exact h.not_allPinned (by omega)
  cases e with
  | newPage =>
    simp only [PageStore.handler] at hrun
    split_ifs at hrun with hcard
    obtain ⟨rfl, rfl⟩ := Prod.mk.inj (Option.some.inj hrun)
    rcases h.newPage with ⟨-, hall⟩ | ⟨f, s', hs', hr, -, hps, -⟩
    · exact absurd hall (hroom hcard)
    · exact ⟨s', by simp [PoolCall.neverNull, BufferPoolManager.handler, hs'], hr, hps⟩
  | fetchPage p =>
    simp only [PageStore.handler] at hrun
    split_ifs at hrun with hnone hcard
    obtain ⟨rfl, rfl⟩ := Prod.mk.inj (Option.some.inj hrun)
    obtain ⟨d, hd⟩ := Option.ne_none_iff_exists'.1 hnone
    rcases h.fetchPage (h.content_lt p d hd) with ⟨-, hall, hzero⟩ | ⟨f, s', hs', hr, -, hps⟩
    · rcases hcard with hpin | hcard
      · exact absurd hzero (mem_pinnedPages.1 hpin)
      · exact absurd hall (hroom hcard)
    · exact ⟨s', by simp [PoolCall.neverNull, BufferPoolManager.handler, hs'], hr, hps⟩
  | unpinPage p d =>
    simp only [PageStore.handler] at hrun
    split_ifs at hrun with hmem hmem
    · obtain ⟨rfl, rfl⟩ := Prod.mk.inj (Option.some.inj hrun)
      obtain ⟨s', hs', hr, hps⟩ := h.unpinPage hmem id
      exact ⟨s', by simp [PoolCall.neverNull, BufferPoolManager.handler, hs'], hr, hps⟩
    · obtain ⟨rfl, rfl⟩ := Prod.mk.inj (Option.some.inj hrun)
      obtain ⟨hmem, rfl⟩ := hmem
      obtain ⟨s', hs', hr, hps⟩ := h.unpinPage hmem fun _ => rfl
      exact ⟨s', by simp [PoolCall.neverNull, BufferPoolManager.handler, hs'], hr, hps⟩
  | deletePage p =>
    simp only [PageStore.handler] at hrun
    split_ifs at hrun with hnone hpin
    · obtain ⟨rfl, rfl⟩ := Prod.mk.inj (Option.some.inj hrun)
      have hs := h.deletePage_pinned (mem_pinnedPages.1 hpin)
      exact ⟨s, by simp [PoolCall.neverNull, BufferPoolManager.handler, hs], h, rfl⟩
    · obtain ⟨rfl, rfl⟩ := Prod.mk.inj (Option.some.inj hrun)
      have hzero : t.pinCount p = 0 := by
        by_contra hne
        exact hpin (mem_pinnedPages.2 hne)
      obtain ⟨s', hs', hr, hps⟩ := h.deletePage hzero
      exact ⟨s', by simp [PoolCall.neverNull, BufferPoolManager.handler, hs'], hr, hps⟩
  | read p =>
    simp only [PageStore.handler] at hrun
    split_ifs at hrun with hpin
    obtain ⟨d, hd, heq⟩ := Option.map_eq_some_iff.1 hrun
    obtain ⟨rfl, rfl⟩ := Prod.mk.inj heq
    obtain ⟨f, hf⟩ := h.pinned p (mem_pinnedPages.1 hpin)
    have hlk : s.pageTable.lookup p = some f := hf
    have hview := h.content_eq p d hd
    rw [view_of_resident hf] at hview
    exact ⟨s, by simp [PoolCall.neverNull, BufferPoolManager.handler, hlk, hview], h, rfl⟩
  | write p d =>
    simp only [PageStore.handler] at hrun
    split_ifs at hrun with hnone hmem hmem
    · obtain ⟨-, rfl⟩ := Prod.mk.inj (Option.some.inj hrun)
      obtain ⟨f, hf, -⟩ := h.resident_of_pin hmem
      have hlk : s.pageTable.lookup p = some f := hf
      exact ⟨_, by simp [PoolCall.neverNull, BufferPoolManager.handler, hlk], h.write hmem hf d, rfl⟩
    · obtain ⟨-, rfl⟩ := Prod.mk.inj (Option.some.inj hrun)
      obtain ⟨f, hf, -⟩ := h.resident_of_pin hmem
      have hlk : s.pageTable.lookup p = some f := hf
      exact ⟨_, by simp [PoolCall.neverNull, BufferPoolManager.handler, hlk], h.write hmem hf d, rfl⟩

/-- A client that keeps the discipline and never pins more than `frames` pages at once runs on
every pool of at least so many frames as it runs on the page store, and never sees `nullptr`. -/
theorem handler_simulates (frames : ℕ) :
    Effect.Handler.Simulates (PageStore.handler (frames : ℕ∞))
      (PoolCall.neverNull (handler (idealDisk D)))
      fun t s => Refines s t ∧ frames ≤ s.poolSize := by
  rintro β e t s b t' ⟨h, hframes⟩ hrun
  obtain ⟨s', hs', hr, hsize⟩ := h.handler hframes hrun
  exact ⟨s', hs', hr, hsize ▸ hframes⟩

end Programs

/-! ## Traces -/

section Traces

variable [Inhabited D] {s s' : BufferPoolManager D (PageId → D)} {t t' : PageStore D}
  {e : PoolEvent D} {events : List (PoolEvent D)}

/-- The event takes place on the pool. -/
def Occurs (s : BufferPoolManager D (PageId → D)) (e : PoolEvent D)
    (s' : BufferPoolManager D (PageId → D)) : Prop :=
  match e with
  | .newPage r => ∃ x, s.newPage (idealDisk D) = (.ok x, s') ∧ x.map Prod.fst = r
  | .fetchPage p ok => ∃ x, s.fetchPage (idealDisk D) p = (.ok x, s') ∧ x.isSome = ok
  | .write p _ d => ∃ f, s.Resident p f ∧ s' = s.setPage f { s.pages f with data := d }
  | .unpinPage p _ isDirty ok => s.unpinPage p isDirty = (ok, s')
  | .flushPage p => ∃ ok, s.flushPage (idealDisk D) p = (.ok ok, s')
  | .flushAllPages => s.flushAllPages (idealDisk D) = (.ok (), s')
  | .deletePage p ok => s.deletePage p = (.ok ok, s')

/-- An event of disciplined clients takes place. -/
def ClientStep (x : BufferPoolManager D (PageId → D) × PageStore D) (e : PoolEvent D)
    (y : BufferPoolManager D (PageId → D) × PageStore D) : Prop :=
  x.2.Allows e ∧ Occurs x.1 e y.1 ∧ y.2 = x.2.after e

/-- The constructor builds a pool without pages. -/
lemma refines_init (poolSize k : ℕ) (next : PageId) (hnext : 0 ≤ next) :
    Refines (init poolSize k (fun _ => (default : D)) next) { nextPageId := next } where
  consistent := consistent_init poolSize k _ next hnext
  next_eq := rfl
  pin_eq p f hf := by cases (AList.lookup_empty p).symm.trans hf
  pinned p hne := absurd rfl hne
  content_eq p d hd := by cases hd
  content_lt p d hd := by cases hd
  clean p f hf := by cases (AList.lookup_empty p).symm.trans hf
  fresh p _ := rfl

/-- Every event of disciplined clients keeps the refinement, and the page store follows the trace.

**Proof sketch.** One case for each event; each result determines which case of the lemma about
the operation took place. -/
lemma Refines.step (h : Refines s t) (hst : ClientStep (s, t) e (s', t')) :
    Refines s' t' ∧ t'.content = e.contentAfter t.content := by
  obtain ⟨hallows, hocc, rfl⟩ := hst
  cases e with
  | newPage r =>
    obtain ⟨x, hx, rfl⟩ := hocc
    rcases h.newPage with ⟨hnone, -⟩ | ⟨f, s'', hs'', hr, -⟩
    · obtain ⟨hx', rfl⟩ := Prod.mk.inj (hnone.symm.trans hx)
      obtain rfl := Except.ok.inj hx'
      exact ⟨h, rfl⟩
    · obtain ⟨hx', rfl⟩ := Prod.mk.inj (hs''.symm.trans hx)
      obtain rfl := Except.ok.inj hx'
      exact ⟨hr, rfl⟩
  | fetchPage p ok =>
    obtain ⟨x, hx, rfl⟩ := hocc
    rcases h.fetchPage hallows.1 with ⟨hnone, -⟩ | ⟨f, s'', hs'', hr, -⟩
    · obtain ⟨hx', rfl⟩ := Prod.mk.inj (hnone.symm.trans hx)
      obtain rfl := Except.ok.inj hx'
      exact ⟨h, rfl⟩
    · obtain ⟨hx', rfl⟩ := Prod.mk.inj (hs''.symm.trans hx)
      obtain rfl := Except.ok.inj hx'
      exact ⟨hr, rfl⟩
  | write p wrote d =>
    obtain ⟨f, hf, rfl⟩ := hocc
    exact ⟨h.write hallows hf d, rfl⟩
  | unpinPage p wrote isDirty ok =>
    rcases hallows with ⟨hmem, hd⟩ | hzero
    · obtain ⟨s'', hs'', hr, -⟩ := h.unpinPage hmem hd
      obtain ⟨rfl, rfl⟩ := Prod.mk.inj (hs''.symm.trans hocc)
      exact ⟨hr, rfl⟩
    · obtain ⟨rfl, rfl⟩ := Prod.mk.inj ((h.unpinPage_refused hzero isDirty).symm.trans hocc)
      exact ⟨h, rfl⟩
  | flushPage p =>
    obtain ⟨ok, hok⟩ := hocc
    cases hl : s.pageTable.lookup p with
    | none =>
      obtain ⟨-, rfl⟩ : _ ∧ s = s' := by simpa [flushPage, hl] using hok
      exact ⟨h, rfl⟩
    | some f =>
      have hone := h.flushFrame (p := p) (f := f) hl
        (h.consistent.flushFrame (idealDisk D) p f).consistent rfl (fun q g => Iff.rfl) rfl rfl
      simp only [flushPage, hl, flushFrame_eq (idealDisk_reliable D)] at hok
      obtain ⟨-, rfl⟩ := Prod.mk.inj hok
      exact ⟨hone, rfl⟩
  | flushAllPages =>
    have hes : ∀ e ∈ s.pageTable.entries, s.Resident e.1 e.2 :=
      fun e he => AList.mem_lookup_iff.2 he
    obtain ⟨s'', hs'', hr⟩ := h.flushEntries hes
    obtain ⟨-, rfl⟩ := Prod.mk.inj (hs''.symm.trans hocc)
    exact ⟨hr, rfl⟩
  | deletePage p ok =>
    by_cases hzero : t.pinCount p = 0
    · obtain ⟨s'', hs'', hr, -⟩ := h.deletePage hzero
      obtain ⟨hok, rfl⟩ := Prod.mk.inj (hs''.symm.trans hocc)
      obtain rfl := Except.ok.inj hok
      exact ⟨hr, rfl⟩
    · obtain ⟨hok, rfl⟩ := Prod.mk.inj ((h.deletePage_pinned hzero).symm.trans hocc)
      obtain rfl := Except.ok.inj hok
      exact ⟨h, rfl⟩

/-- Runs of disciplined clients keep the refinement, and the page store follows the trace. -/
lemma Refines.run {x y : BufferPoolManager D (PageId → D) × PageStore D} (hx : Refines x.1 x.2)
    (hrun : Transition.Run ClientStep x events y) :
    Refines y.1 y.2 ∧ y.2.content = events.foldl PoolEvent.contentAfter x.2.content := by
  induction hrun with
  | nil x => exact ⟨hx, rfl⟩
  | cons hst _ ih =>
    obtain ⟨hy, hcontent⟩ := hx.step hst
    obtain ⟨hz, hfold⟩ := ih hy
    exact ⟨hz, by rw [hfold, hcontent, List.foldl_cons]⟩

/-- **Transparency.** After every run of disciplined clients on a pool of any size, a successful
`FetchPage` of a page that was allocated and not deleted returns the bytes last written to it. -/
theorem fetchPage_lastWritten {poolSize k : ℕ} {next : PageId} (hnext : 0 ≤ next)
    (hrun : Transition.Run ClientStep
      (init poolSize k (fun _ => (default : D)) next, { nextPageId := next }) events (s, t))
    {p : PageId} {d : D} (hd : PoolEvent.lastWritten events p = some d) {f : FrameId}
    (hfetch : s.fetchPage (idealDisk D) p = (.ok (some f), s')) : (s'.pages f).data = d := by
  obtain ⟨h, hcontent⟩ := (refines_init poolSize k next hnext).run hrun
  have hd : t.content p = some d := by
    rw [hcontent]
    exact hd
  rcases h.fetchPage (h.content_lt p d hd) with ⟨hnone, -⟩ | ⟨g, s'', hs'', hr, hres, -⟩
  · cases (hnone.symm.trans hfetch)
  · obtain ⟨hx, rfl⟩ := Prod.mk.inj (hs''.symm.trans hfetch)
    obtain rfl : g = f := by simpa using hx
    rw [← view_of_resident hres]
    exact hr.content_eq p d hd

end Traces

section Events

variable [Inhabited D] {s s' : BufferPoolManager D (PageId → D)} {t : PageStore D} {p : PageId}
  {f : FrameId}

/-- `NewPage` may always be called. -/
lemma ClientStep.newPage (h : s.newPage (idealDisk D) = (.ok (some (p, f)), s')) :
    ClientStep (s, t) (.newPage (some p)) (s', t.allocate) := ⟨trivial, ⟨_, h, rfl⟩, rfl⟩

/-- A page is written under a pin. -/
lemma ClientStep.write {wrote : Bool} (h : (p, wrote) ∈ t.pins) (hf : s.Resident p f) (d : D) :
    ClientStep (s, t) (.write p wrote d)
      (s.setPage f { s.pages f with data := d }, t.write p wrote d) := ⟨h, ⟨f, hf, rfl⟩, rfl⟩

/-- A pin is ended, with `is_dirty = true` after a write. -/
lemma ClientStep.unpinPage {wrote isDirty : Bool} (h : (p, wrote) ∈ t.pins)
    (hd : wrote = true → isDirty = true) (hs : s.unpinPage p isDirty = (true, s')) :
    ClientStep (s, t) (.unpinPage p wrote isDirty true) (s', t.unpin p wrote) :=
  ⟨.inl ⟨h, hd⟩, hs, rfl⟩

end Events

/-- A pool of one frame, in which page 0 was allocated and written. -/
def writtenPool : BufferPoolManager ℕ (PageId → ℕ) :=
  let s := ((init 1 1 (fun _ => default) 0).newPage (idealDisk ℕ)).2
  s.setPage 0 { s.pages 0 with data := 7 }

/-- The same pool, after page 0 was unpinned and page 1 took its frame. -/
def evictedPool : BufferPoolManager ℕ (PageId → ℕ) :=
  ((writtenPool.unpinPage 0 true).2.newPage (idealDisk ℕ)).2

/-- The run to this pool, and the last pin of page 1. -/
lemma run_evictedPool :
    Transition.Run ClientStep (init 1 1 (fun _ => default) 0, {})
      [.newPage (some 0), .write 0 false 7, .unpinPage 0 true true true, .newPage (some 1),
        .unpinPage 1 false false true] ((evictedPool.unpinPage 1 false).2,
          ((({} : PageStore ℕ).allocate.write 0 false 7).unpin 0 true).allocate.unpin 1 false) := by
  set t₁ : PageStore ℕ := ({} : PageStore ℕ).allocate with ht₁
  set t₂ := t₁.write 0 false 7 with ht₂
  set t₄ := (t₂.unpin 0 true).allocate with ht₄
  have hpin₁ : ((0 : PageId), false) ∈ t₁.pins := by simp [ht₁, PageStore.allocate]
  have hpin₂ : ((0 : PageId), true) ∈ t₂.pins := by simp [ht₂, PageStore.write]
  have hpin₄ : ((1 : PageId), false) ∈ t₄.pins := by
    simp [ht₄, ht₂, ht₁, PageStore.allocate, PageStore.unpin, PageStore.write]
  have hnew : ClientStep (init 1 1 (fun _ => default) 0, {}) (.newPage (some 0))
      (((init 1 1 (fun _ => default) 0).newPage (idealDisk ℕ)).2, t₁) :=
    ClientStep.newPage (f := 0) rfl
  have hwrite : ClientStep (((init 1 1 (fun _ => default) 0).newPage (idealDisk ℕ)).2, t₁)
      (.write 0 false 7) (writtenPool, t₂) :=
    ClientStep.write (s := ((init 1 1 (fun _ => default) 0).newPage (idealDisk ℕ)).2) (f := 0)
      hpin₁ rfl 7
  have hunpin : ClientStep (writtenPool, t₂) (.unpinPage 0 true true true)
      ((writtenPool.unpinPage 0 true).2, t₂.unpin 0 true) :=
    ClientStep.unpinPage hpin₂ (fun _ => rfl) rfl
  have hevict : ClientStep ((writtenPool.unpinPage 0 true).2, t₂.unpin 0 true)
      (.newPage (some 1)) (evictedPool, t₄) := ClientStep.newPage (f := 0) rfl
  exact .cons hnew (.cons hwrite (.cons hunpin (.cons hevict
    (.cons (ClientStep.unpinPage hpin₄ id rfl) (.nil _)))))

/-- The page that was evicted is fetched again with the bytes that were written to it. -/
theorem fetchPage_lastWritten_newPage :
    ∃ (s s' : BufferPoolManager ℕ (PageId → ℕ)) (t : PageStore ℕ),
      Transition.Run ClientStep (init 1 1 (fun _ => default) 0, {})
        [.newPage (some 0), .write 0 false 7, .unpinPage 0 true true true, .newPage (some 1),
          .unpinPage 1 false false true] (s, t) ∧
      s.pageTable.lookup 0 = none ∧
      s.fetchPage (idealDisk ℕ) 0 = (.ok (some 0), s') ∧ (s'.pages 0).data = 7 := by
  have hfetch : (evictedPool.unpinPage 1 false).2.fetchPage (idealDisk ℕ) 0 =
      (.ok (some 0), ((evictedPool.unpinPage 1 false).2.fetchPage (idealDisk ℕ) 0).2) := rfl
  exact ⟨_, _, _, run_evictedPool, rfl, hfetch,
    fetchPage_lastWritten le_rfl run_evictedPool rfl hfetch⟩

end BufferPoolManager

end OneBase
