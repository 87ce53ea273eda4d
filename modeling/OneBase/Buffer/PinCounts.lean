import OneBase.Buffer.PoolConsistency
import Mathlib.Algebra.Group.Pi.Basic

set_option relaxedAutoImplicit false
set_option autoImplicit false

/-!
# Pin counts

The pin count of a frame is the number of pins that the callers of the pool got from `NewPage` and
`FetchPage` and did not give back with `UnpinPage`.

## Main definitions

* `OneBase.BufferPoolManager.granted` — the pins that a call gives its caller.
* `OneBase.BufferPoolManager.PinsResident` — only resident pages are pinned.

## Main results

* `OneBase.BufferPoolManager.Counted.step` — a call changes the pin counts by what it grants.
-/

namespace OneBase

namespace BufferPoolManager

variable {D δ : Type} [Inhabited D] {io : DiskIO δ D} {s s' t : BufferPoolManager D δ}
  {p : PageId} {f g : FrameId} {change : FrameId → ℤ}

/-- The pins of each frame that a call gives its caller, negative for those that it takes back. -/
def granted (io : DiskIO δ D) (s : BufferPoolManager D δ) : PoolOp → FrameId → ℤ
  | .newPage =>
    match (s.newPage io).1 with
    | .ok (some (_, f)) => Pi.single f 1
    | _ => 0
  | .fetchPage p =>
    match (s.fetchPage io p).1 with
    | .ok (some f) => Pi.single f 1
    | _ => 0
  | .unpinPage p isDirty =>
    match (s.unpinPage p isDirty).1, s.pageTable.lookup p with
    | true, some f => Pi.single f (-1)
    | _, _ => 0
  | .deletePage _ => 0
  | .flushPage _ => 0
  | .flushAllPages => 0

/-- Only resident pages are pinned. -/
def PinsResident (s : BufferPoolManager D δ) : Prop :=
  ∀ f, 0 < (s.pages f).pinCount → ∃ p, s.Resident p f

/-- The pool is consistent and only resident pages are pinned. -/
structure Counted (s : BufferPoolManager D δ) : Prop where
  consistent : s.Consistent none
  pins_resident : s.PinsResident

/-- The pool goes from `s` to `s'` with this change of the pin counts. -/
structure Counts (s s' : BufferPoolManager D δ) (change : FrameId → ℤ) : Prop where
  preserved : s.Preserved s'
  pinCount_eq : ∀ f, (s'.pages f).pinCount = (s.pages f).pinCount + change f
  resident_of_pos : ∀ f, 0 < change f → ∃ p, s'.Resident p f

/-- A new pool has no pins. -/
lemma counted_init (poolSize k : ℕ) (disk : δ) {next : PageId} (hnext : 0 ≤ next) :
    (init poolSize k disk next : BufferPoolManager D δ).Counted where
  consistent := consistent_init poolSize k disk next hnext
  pins_resident _ hpos := absurd hpos (lt_irrefl 0)

omit [Inhabited D] in
/-- Pinned pages stay resident, and what is newly pinned becomes so. -/
lemma Counts.counted (h : s.Counts s' change) (hs : s.Counted) : s'.Counted where
  consistent := h.preserved.consistent
  pins_resident := by
    intro f hpos
    rcases (hs.consistent.pin_nonneg f).lt_or_eq with hold | hold
    · obtain ⟨p, hp⟩ := hs.pins_resident f hold
      exact ⟨p, h.preserved.keeps p f hp hold⟩
    · rw [h.pinCount_eq, ← hold, zero_add] at hpos
      exact h.resident_of_pos f hpos

omit [Inhabited D] in

/-- A call that does nothing changes no pin count. -/
lemma Counted.counts_self (h : s.Counted) : s.Counts s 0 where
  preserved := h.consistent.preserved_self
  pinCount_eq f := by simp
  resident_of_pos f hpos := absurd hpos (lt_irrefl 0)

omit [Inhabited D] in
/-- Metadata that is updated without the pin count. -/
lemma Counts.of_pages (h : s.Preserved s')
    (hpages : ∀ f, (s'.pages f).pinCount = (s.pages f).pinCount) : s.Counts s' 0 where
  preserved := h
  pinCount_eq f := by rw [hpages, Pi.zero_apply, add_zero]
  resident_of_pos f hpos := absurd hpos (lt_irrefl 0)

omit [Inhabited D] in
/-- A frame that is taken was not pinned. -/
lemma Counted.pinCount_taken (h : s.Counted) (htaken : Taken io s f t) :
    (s.pages f).pinCount = 0 := by
  cases htaken with
  | free hf =>
    refine le_antisymm (not_lt.1 fun hpos => ?_) (h.consistent.pin_nonneg f)
    obtain ⟨p, hp⟩ := h.pins_resident f hpos
    exact hf p hp
  | evict v hv hpin => exact hpin

omit [Inhabited D] in
/-- A page that is installed in a taken frame gets the first pin of the frame. -/
lemma Counted.counts_installed {data : D} (h : s.Counted) (hpres : s.Preserved s')
    (htaken : Taken io s f t) {u : BufferPoolManager D δ} (hpages : u.pages = s.pages)
    (hinst : Installed u f p data s') : s.Counts s' (Pi.single f 1) where
  preserved := hpres
  pinCount_eq g := by
    rw [hinst.pages_eq, hpages]
    by_cases hg : g = f
    · subst hg
      simp [h.pinCount_taken htaken]
    · simp [hg]
  resident_of_pos g hpos := by
    obtain rfl : g = f := by
      by_contra hg
      simp [hg] at hpos
    exact ⟨p, (hinst.resident_iff p g).2 (by simp)⟩

/-- `NewPage` counts the pin that it grants. -/
lemma Counted.newPage (h : s.Counted) (hio : io.Reliable) :
    s.Counts (s.newPage io).2 (s.granted io .newPage) := by
  rcases h.consistent.newPage hio with
    ⟨hnew, -⟩ | ⟨f, t, s', hnew, hpres, -, htaken, hpages, -, hinst⟩
  · have hgranted : s.granted io .newPage = 0 := by simp only [granted, hnew]
    rw [hgranted, hnew]
    exact h.counts_self
  · have hgranted : s.granted io .newPage = Pi.single f 1 := by simp only [granted, hnew]
    rw [hgranted, hnew]
    refine h.counts_installed hpres htaken ?_ hinst
    exact hpages

/-- `FetchPage` counts the pin that it grants. -/
lemma Counted.fetchPage (h : s.Counted) (hio : io.Reliable) (hlt : 0 ≤ p ∧ p < s.nextPageId) :
    s.Counts (s.fetchPage io p).2 (s.granted io (.fetchPage p)) := by
  by_cases hres : ∃ f, s.Resident p f
  · obtain ⟨f, hf⟩ := hres
    obtain ⟨s', hfetch, hpres, -, -, hpages, hsame⟩ := h.consistent.fetchPage_hit io hf
    have hgranted : s.granted io (.fetchPage p) = Pi.single f 1 := by simp only [granted, hfetch]
    rw [hgranted, hfetch]
    refine ⟨hpres, fun g => ?_, fun g hpos => ?_⟩
    · rw [hpages]
      by_cases hg : g = f
      · subst hg
        simp
      · simp [hg]
    · obtain rfl : g = f := by
        by_contra hg
        simp [hg] at hpos
      exact ⟨p, (hsame p g).2 hf⟩
  · rcases h.consistent.fetchPage_miss hio (not_exists.1 hres) hlt with
      ⟨hfetch, -⟩ | ⟨f, t, s', data, hfetch, hpres, -, htaken, hpages, -, -, hinst⟩
    · have hgranted : s.granted io (.fetchPage p) = 0 := by simp only [granted, hfetch]
      rw [hgranted, hfetch]
      exact h.counts_self
    · have hgranted : s.granted io (.fetchPage p) = Pi.single f 1 := by simp only [granted, hfetch]
      rw [hgranted, hfetch]
      refine h.counts_installed hpres htaken ?_ hinst
      exact hpages

omit [Inhabited D] in
/-- `UnpinPage` of a pinned page. -/
lemma Counted.unpinPage_pinned (h : s.Counted) (hp : s.Resident p f)
    (hpos : 0 < (s.pages f).pinCount) (d : Bool) :
    s.Counts (s.unpinPage p d).2 (Pi.single f (-1)) := by
  obtain ⟨s', hunpin, hpres, -, -, hpages, hsame⟩ := h.consistent.unpinPage hp hpos d
  rw [hunpin]
  refine ⟨hpres, fun g => ?_, fun g hg => ?_⟩
  · rw [hpages]
    by_cases hg : g = f
    · subst hg
      simp [sub_eq_add_neg]
    · simp [hg]
  · by_cases hgf : g = f
    · subst hgf
      simp at hg
    · simp [hgf] at hg

/-- `UnpinPage` counts the pin that it takes back. -/
lemma Counted.unpinPage (h : s.Counted) (io : DiskIO δ D) (d : Bool) :
    s.Counts (s.unpinPage p d).2 (s.granted io (.unpinPage p d)) := by
  by_cases hres : ∃ f, s.Resident p f ∧ 0 < (s.pages f).pinCount
  · obtain ⟨f, hf, hpos⟩ := hres
    obtain ⟨s', hunpin, -⟩ := h.consistent.unpinPage hf hpos d
    have hlk : s.pageTable.lookup p = some f := hf
    have hgranted : s.granted io (.unpinPage p d) = Pi.single f (-1) := by
      simp only [granted, hunpin, hlk]
    rw [hgranted]
    exact h.unpinPage_pinned hf hpos d
  · have hrefused := unpinPage_refused (s := s) (p := p)
      (fun f hf => not_lt.1 fun hpos => hres ⟨f, hf, hpos⟩) d
    have hgranted : s.granted io (.unpinPage p d) = 0 := by simp only [granted, hrefused]
    rw [hgranted, hrefused]
    exact h.counts_self

omit [Inhabited D] in
/-- The loop of `FlushAllPages` leaves the pins alone. -/
lemma pinCount_flushEntries (hio : io.Reliable) (es : List (Sigma fun _ : PageId => FrameId))
    (s : BufferPoolManager D δ) (g : FrameId) :
    ((flushEntries io es s).2.pages g).pinCount = (s.pages g).pinCount := by
  induction es generalizing s with
  | nil => rfl
  | cons e es ih =>
    simp only [flushEntries, flushFrame_eq hio]
    rw [ih]
    by_cases hg : g = e.2
    · subst hg
      simp
    · simp [hg]

omit [Inhabited D] in

/-- One pin of a frame is not a negative number. -/
lemma single_nonneg (f g : FrameId) : 0 ≤ (Pi.single f 1 : FrameId → ℤ) g := by
  rw [Pi.single_apply]
  split <;> norm_num

/-- Only `UnpinPage` takes back a pin, of a pinned page. -/
lemma granted_cases (io : DiskIO δ D) (s : BufferPoolManager D δ) (op : PoolOp) (f : FrameId) :
    0 ≤ s.granted io op f ∨ s.granted io op f = -1 ∧ ∃ p d, op = .unpinPage p d ∧
      s.Resident p f ∧ 0 < (s.pages f).pinCount := by
  cases op with
  | newPage =>
    left
    rcases hresult : (s.newPage io).1 with e | (_ | ⟨p, g⟩)
    · simp [granted, hresult]
    · simp [granted, hresult]
    · simp only [granted, hresult]
      exact single_nonneg g f
  | fetchPage p =>
    left
    rcases hresult : (s.fetchPage io p).1 with e | (_ | g)
    · simp [granted, hresult]
    · simp [granted, hresult]
    · simp only [granted, hresult]
      exact single_nonneg g f
  | unpinPage p d =>
    rcases hlk : s.pageTable.lookup p with _ | g
    · left
      simp [granted, hlk]
    by_cases hpos : (s.pages g).pinCount ≤ 0
    · left
      simp [granted, BufferPoolManager.unpinPage, hlk, hpos]
    have htrue : (s.unpinPage p d).1 = true := by
      simp only [BufferPoolManager.unpinPage, hlk, if_neg hpos]
      split <;> rfl
    simp only [granted, htrue, hlk]
    by_cases hfg : f = g
    · subst hfg
      exact .inr ⟨Pi.single_eq_same _ _, p, d, rfl, hlk, not_le.1 hpos⟩
    · left
      rw [Pi.single_eq_of_ne hfg]
  | deletePage p => exact .inl le_rfl
  | flushPage p => exact .inl le_rfl
  | flushAllPages => exact .inl le_rfl

/-- **A call changes the pin counts by what it grants.** -/
lemma Counted.step (h : s.Counted) (hio : io.Reliable) {op : PoolOp} (hst : Step io s op s') :
    s.Counts s' (s.granted io op) := by
  have hpres := h.consistent.step hio hst
  obtain ⟨hop, -, hperform⟩ := hst
  obtain rfl : s' = (s.perform io op).2 := by rw [hperform]
  cases op with
  | newPage => exact h.newPage hio
  | fetchPage p => exact h.fetchPage hio hop
  | unpinPage p d => exact h.unpinPage io d
  | deletePage p =>
    refine Counts.of_pages hpres fun g => ?_
    show ((s.deletePage p).2.pages g).pinCount = _
    by_cases hres : ∃ f, s.Resident p f
    · obtain ⟨f, hf⟩ := hres
      rcases (h.consistent.pin_nonneg f).eq_or_lt with hz | hpos
      · obtain ⟨s', hdelete, -, -, -, hpages, -⟩ := h.consistent.deletePage hf hz.symm
        rw [hdelete, hpages]
        by_cases hg : g = f
        · subst hg
          rw [Function.update_self, ← hz]
          rfl
        · rw [Function.update_of_ne hg]
      · rw [deletePage_pinned hf hpos]
    · rw [deletePage_absent (not_exists.1 hres)]
  | flushPage p =>
    refine Counts.of_pages hpres fun g => ?_
    show ((s.flushPage io p).2.pages g).pinCount = _
    cases hlk : s.pageTable.lookup p with
    | none => simp only [flushPage, hlk]
    | some f =>
      simp only [flushPage, hlk, flushFrame_eq hio]
      by_cases hg : g = f
      · subst hg
        simp
      · simp [hg]
  | flushAllPages =>
    exact Counts.of_pages hpres (pinCount_flushEntries hio s.pageTable.entries s)

end BufferPoolManager

end OneBase
