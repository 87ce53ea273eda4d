import Mathlib.Data.List.AList
import Mathlib.Data.Finset.Card
import Mathlib.Data.ENat.Basic
import OneBase.Common.Types

set_option relaxedAutoImplicit false
set_option autoImplicit false

/-!
# The LRU-K replacer

`buffer/lru_k_replacer.cpp`. The hash map `entries_` is an association list with distinct keys;
its order stands for the unspecified iteration order of the hash map.

## Main definitions

* `OneBase.LRUKReplacer` and its operations `evict`, `recordAccess`, `setEvictable`, `remove`,
  `size`.
* `OneBase.LRUKReplacer.evictableFrames` — the frames that may be evicted.
* `OneBase.LRUKReplacer.SizeOk` — `curr_size_` counts them.

## Main results

* `OneBase.LRUKReplacer.evict_eq_none_iff`, `evict_spec` — what an eviction does.
* `OneBase.LRUKReplacer.SizeOk.recordAccess` and so on — every operation keeps the count.
-/

namespace OneBase

/-- `LRUKReplacer::FrameEntry`: the last accesses of a frame, oldest first. -/
structure FrameEntry where
  history : List ℕ := []
  isEvictable : Bool := false

/-- `LRUKReplacer`. -/
structure LRUKReplacer where
  maxFrames : ℕ
  k : ℕ
  currSize : ℕ := 0
  currentTimestamp : ℕ := 0
  entries : AList (fun _ : FrameId => FrameEntry) := ∅

namespace LRUKReplacer

/-- The victim found so far by the loop of `Evict`. The initial time is the largest `size_t`,
which no timestamp reaches. -/
structure Victim where
  frameId : Option FrameId := none
  time : ℕ∞ := ⊤
  foundLessThanK : Bool := false

/-- `entry.history_.front()`. -/
def FrameEntry.front (e : FrameEntry) : ℕ := e.history.headD 0

/-- One round of the loop of `Evict`. -/
def evictStep (k : ℕ) (v : Victim) (it : Sigma fun _ : FrameId => FrameEntry) : Victim :=
  let entry := it.2
  if !entry.isEvictable then v
  else if entry.history.length < k then
    if (FrameEntry.front entry : ℕ∞) < v.time ∨ v.foundLessThanK = false then
      { frameId := some it.1, time := FrameEntry.front entry, foundLessThanK := true }
    else v
  else if (FrameEntry.front entry : ℕ∞) < v.time ∧ v.foundLessThanK = false then
    { v with frameId := some it.1, time := FrameEntry.front entry }
  else v

/-- `entries_.erase(frame_id); curr_size_--`, as `Evict` and `Remove` end. -/
def eraseFrame (r : LRUKReplacer) (f : FrameId) : LRUKReplacer :=
  { r with entries := r.entries.erase f, currSize := r.currSize - 1 }

/-- `Evict`: the evicted frame and the replacer without it, or `none` for `false`. -/
def evict (r : LRUKReplacer) : Option (FrameId × LRUKReplacer) :=
  match (r.entries.entries.foldl (evictStep r.k) {}).frameId with
  | some f => some (f, r.eraseFrame f)
  | none => none

/-- `hist` after an access at time `t`: at most the last `k` accesses are kept. -/
def pushHistory (k t : ℕ) (hist : List ℕ) : List ℕ :=
  if hist.length = k then hist.tail ++ [t] else hist ++ [t]

/-- `RecordAccess`. -/
def recordAccess (r : LRUKReplacer) (f : FrameId) : Except Exception LRUKReplacer :=
  if r.maxFrames ≤ f then .error (.oneBase "invalid frameid" .outOfRange)
  else
    let entry := (r.entries.lookup f).getD {}
    .ok { r with
      entries := r.entries.insert f
        { entry with history := pushHistory r.k r.currentTimestamp entry.history }
      currentTimestamp := r.currentTimestamp + 1 }

/-- `SetEvictable`. -/
def setEvictable (r : LRUKReplacer) (f : FrameId) (b : Bool) : LRUKReplacer :=
  match r.entries.lookup f with
  | none => r
  | some entry =>
    if entry.isEvictable != b then
      { r with
        currSize := if b then r.currSize + 1 else r.currSize - 1
        entries := r.entries.insert f { entry with isEvictable := b } }
    else r

/-- `Remove`. -/
def remove (r : LRUKReplacer) (f : FrameId) : Except Exception LRUKReplacer :=
  match r.entries.lookup f with
  | none => .ok r
  | some entry =>
    if entry.isEvictable then .ok (r.eraseFrame f)
    else .error (.oneBase "Not Evictable While Removing." .execution)

/-- `Size`. -/
def size (r : LRUKReplacer) : ℕ := r.currSize

/-! ## The evictable frames -/

/-- The frame `f` is tracked and evictable. -/
def IsEvictable (r : LRUKReplacer) (f : FrameId) : Prop :=
  ∃ e, r.entries.lookup f = some e ∧ e.isEvictable = true

/-- The frame `f` has an entry. -/
def IsTracked (r : LRUKReplacer) (f : FrameId) : Prop := f ∈ r.entries

instance (r : LRUKReplacer) (f : FrameId) : Decidable (r.IsEvictable f) :=
  decidable_of_iff ((r.entries.lookup f).any (·.isEvictable) = true) (by
    simp [IsEvictable, Option.any_eq_true])

/-- The set of evictable frames. -/
def evictableFrames (r : LRUKReplacer) : Finset FrameId :=
  r.entries.keys.toFinset.filter r.IsEvictable

/-- `curr_size_` is the number of evictable frames. -/
def SizeOk (r : LRUKReplacer) : Prop := r.currSize = r.evictableFrames.card

/-- An evictable frame is tracked. -/
lemma IsEvictable.isTracked {r : LRUKReplacer} {f : FrameId} (h : r.IsEvictable f) :
    r.IsTracked f := by
  obtain ⟨e, he, -⟩ := h
  exact AList.lookup_isSome.1 (by rw [he]; rfl)

/-- The frames that `Evict` chooses from are the evictable ones. -/
@[simp] lemma mem_evictableFrames {r : LRUKReplacer} {f : FrameId} :
    f ∈ r.evictableFrames ↔ r.IsEvictable f := by
  simp only [evictableFrames, Finset.mem_filter, List.mem_toFinset, and_iff_right_iff_imp]
  exact fun h => AList.mem_keys.1 h.isTracked

/-! ## Eviction -/

/-- A round of the loop skips an entry that is not evictable. -/
lemma evictStep_of_not_evictable {k : ℕ} {v : Victim} {it : Sigma fun _ : FrameId => FrameEntry}
    (h : it.2.isEvictable = false) : evictStep k v it = v := by
  simp [evictStep, h]

/-- A round of the loop on an evictable entry leaves some victim: this frame, or the one chosen
before. -/
lemma evictStep_of_evictable {k : ℕ} {v : Victim} {it : Sigma fun _ : FrameId => FrameEntry}
    (hv : v.frameId = none → v.time = ⊤ ∧ v.foundLessThanK = false)
    (h : it.2.isEvictable = true) :
    (evictStep k v it).frameId = some it.1 ∨ (evictStep k v it = v ∧ v.frameId ≠ none) := by
  by_cases hnone : v.frameId = none
  · obtain ⟨ht, hf⟩ := hv hnone
    have hlt : (FrameEntry.front it.2 : ℕ∞) < v.time := by
      rw [ht]; exact ENat.natCast_lt_top _
    left
    simp only [evictStep, h, hf, hlt]
    split_ifs <;> simp_all
  · simp only [evictStep, h]
    split_ifs <;> simp [hnone]

/-- The loop chooses a frame iff it meets an evictable entry, and only an evictable one.

**Proof sketch.** Induction on the list. While no frame is chosen, the initial time `⊤` stands
and no frame with fewer than `k` accesses was found, so the first evictable entry is taken. -/
lemma foldl_evictStep (k : ℕ) (l : List (Sigma fun _ : FrameId => FrameEntry)) (v : Victim)
    (hv : v.frameId = none → v.time = ⊤ ∧ v.foundLessThanK = false) :
    ((l.foldl (evictStep k) v).frameId = none ↔
        v.frameId = none ∧ ∀ it ∈ l, it.2.isEvictable = false) ∧
      ∀ f, (l.foldl (evictStep k) v).frameId = some f →
        v.frameId = some f ∨ ∃ it ∈ l, it.1 = f ∧ it.2.isEvictable = true := by
  induction l generalizing v with
  | nil => simp
  | cons it l ih =>
    simp only [List.foldl_cons, List.forall_mem_cons, List.exists_mem_cons_iff]
    cases hev : it.2.isEvictable with
    | false =>
      rw [evictStep_of_not_evictable hev]
      simpa using ih v hv
    | true =>
      rcases evictStep_of_evictable (k := k) hv hev with hsome | ⟨heq, hne⟩
      · obtain ⟨ih₁, ih₂⟩ := ih (evictStep k v it) (by simp [hsome])
        refine ⟨by rw [ih₁, hsome]; simp, fun f hf => ?_⟩
        rcases ih₂ f hf with h | h
        · exact .inr (.inl ⟨Option.some.inj (hsome.symm.trans h), rfl⟩)
        · exact .inr (.inr h)
      · rw [heq]
        obtain ⟨ih₁, ih₂⟩ := ih v hv
        refine ⟨by rw [ih₁]; simp [hne], fun f hf => ?_⟩
        exact (ih₂ f hf).imp_right .inr

/-- `Evict` fails iff no frame is evictable. -/
lemma evict_eq_none_iff (r : LRUKReplacer) : r.evict = none ↔ ∀ f, ¬ r.IsEvictable f := by
  obtain ⟨h, -⟩ := foldl_evictStep r.k r.entries.entries {} (by simp)
  have hnone : r.evict = none ↔ ∀ it ∈ r.entries.entries, it.2.isEvictable = false := by
    rw [← h.trans (and_iff_right rfl)]
    unfold evict
    split <;> rename_i heq <;> simp [heq]
  rw [hnone]
  constructor
  · rintro hall f ⟨e, he, hev⟩
    have := hall ⟨f, e⟩ (AList.mem_lookup_iff.1 he)
    simp [hev] at this
  · intro hall it hit
    by_contra hev
    exact hall it.1 ⟨it.2, AList.mem_lookup_iff.2 hit, by simpa using hev⟩

/-- `Evict` removes the entry of an evictable frame. -/
lemma evict_spec {r r' : LRUKReplacer} {f : FrameId} (h : r.evict = some (f, r')) :
    r.IsEvictable f ∧ r' = r.eraseFrame f := by
  obtain ⟨-, hinv⟩ := foldl_evictStep r.k r.entries.entries {} (by simp)
  unfold evict at h
  split at h
  · rename_i g hg
    obtain ⟨rfl, rfl⟩ : g = f ∧ r.eraseFrame g = r' := by simpa using h
    refine ⟨?_, rfl⟩
    rcases hinv g hg with h' | ⟨it, hit, rfl, hev⟩
    · cases h'
    · exact ⟨it.2, AList.mem_lookup_iff.2 hit, hev⟩
  · cases h

/-! ## What the operations do to the entries -/

section Entries

variable {r : LRUKReplacer} {f g : FrameId}

/-- A frame that was erased is not tracked any more, and the others are as before. -/
@[simp] lemma eraseFrame_isTracked : (r.eraseFrame f).IsTracked g ↔ g ≠ f ∧ r.IsTracked g := by
  simp [IsTracked, eraseFrame]

/-- A frame that was erased is not evictable any more, and the others are as before. -/
@[simp] lemma eraseFrame_isEvictable :
    (r.eraseFrame f).IsEvictable g ↔ g ≠ f ∧ r.IsEvictable g := by
  by_cases h : g = f
  · subst h
    simp [IsEvictable, eraseFrame]
  · simp [IsEvictable, eraseFrame, AList.lookup_erase_ne h, h]

/-- Erasing an evictable frame keeps the count. -/
lemma SizeOk.eraseFrame (h : r.SizeOk) (hf : r.IsEvictable f) : (r.eraseFrame f).SizeOk := by
  have hset : (r.eraseFrame f).evictableFrames = r.evictableFrames.erase f := by
    ext g; simp
  rw [SizeOk, hset, Finset.card_erase_of_mem (mem_evictableFrames.2 hf), ← h]
  rfl

/-- `RecordAccess` succeeds on the frames in range. -/
lemma recordAccess_ok (hf : f < r.maxFrames) : ∃ r', r.recordAccess f = .ok r' := by
  simp [recordAccess, Nat.not_le.2 hf]

/-- `RecordAccess` tracks the frame and leaves evictability alone. -/
lemma recordAccess_spec {r' : LRUKReplacer} (h : r.recordAccess f = .ok r') :
    r'.maxFrames = r.maxFrames ∧ r'.currSize = r.currSize ∧
      (∀ g, r'.IsTracked g ↔ g = f ∨ r.IsTracked g) ∧
      ∀ g, r'.IsEvictable g ↔ r.IsEvictable g := by
  unfold recordAccess at h
  split at h
  · cases h
  cases h
  refine ⟨rfl, rfl, fun g => by simp [IsTracked], fun g => ?_⟩
  by_cases hg : g = f
  · subst hg
    cases he : r.entries.lookup g <;> simp [IsEvictable, he]
  · simp [IsEvictable, AList.lookup_insert_ne hg]

/-- `SetEvictable` does not change how many frames the replacer has. -/
@[simp] lemma setEvictable_maxFrames (b : Bool) :
    (r.setEvictable f b).maxFrames = r.maxFrames := by
  unfold setEvictable
  split
  · rfl
  · split <;> rfl

/-- `SetEvictable` does not change which frames are tracked. -/
@[simp] lemma setEvictable_isTracked (b : Bool) :
    (r.setEvictable f b).IsTracked g ↔ r.IsTracked g := by
  unfold setEvictable
  split
  · rfl
  · rename_i e he
    split
    · have hf : f ∈ r.entries := AList.lookup_isSome.1 (by rw [he]; rfl)
      simp only [IsTracked, AList.mem_insert, or_iff_right_iff_imp]
      rintro rfl
      exact hf
    · rfl

/-- `SetEvictable` on a tracked frame sets exactly its flag. -/
lemma setEvictable_isEvictable (b : Bool) (hf : r.IsTracked f) :
    (r.setEvictable f b).IsEvictable g ↔ if g = f then b = true else r.IsEvictable g := by
  obtain ⟨e, he⟩ := Option.isSome_iff_exists.1 (AList.lookup_isSome.2 hf)
  have heq : (r.setEvictable f b).entries.lookup f = some { e with isEvictable := b } ∧
      ∀ g, g ≠ f → (r.setEvictable f b).entries.lookup g = r.entries.lookup g := by
    simp only [setEvictable, he]
    split
    · exact ⟨AList.lookup_insert _, fun g hg => AList.lookup_insert_ne hg⟩
    · rename_i hb
      obtain rfl : e.isEvictable = b := by simpa using hb
      exact ⟨he, fun _ _ => rfl⟩
  split_ifs with hg
  · subst hg
    simp [IsEvictable, heq.1]
  · simp [IsEvictable, heq.2 g hg]

/-- `SetEvictable` keeps the count. -/
lemma SizeOk.setEvictable (h : r.SizeOk) (f : FrameId) (b : Bool) :
    (r.setEvictable f b).SizeOk := by
  by_cases hf : r.IsTracked f
  · obtain ⟨e, he⟩ := Option.isSome_iff_exists.1 (AList.lookup_isSome.2 hf)
    have hev : r.IsEvictable f ↔ e.isEvictable = true := by simp [IsEvictable, he]
    have hmem := fun g => setEvictable_isEvictable (r := r) (g := g) b hf
    unfold SizeOk at h ⊢
    cases b with
    | true =>
      have hset : (r.setEvictable f true).evictableFrames = insert f r.evictableFrames := by
        ext g
        rw [mem_evictableFrames, hmem, Finset.mem_insert, mem_evictableFrames]
        split_ifs with hg <;> simp [hg]
      rw [hset]
      cases hb : e.isEvictable with
      | true => simp [LRUKReplacer.setEvictable, he, hb, h, Finset.insert_eq_of_mem, hev]
      | false =>
        rw [Finset.card_insert_of_notMem (by simp [hev, hb]), ← h]
        simp [LRUKReplacer.setEvictable, he, hb]
    | false =>
      have hset : (r.setEvictable f false).evictableFrames = r.evictableFrames.erase f := by
        ext g
        rw [mem_evictableFrames, hmem, Finset.mem_erase, mem_evictableFrames]
        split_ifs with hg <;> simp [hg]
      rw [hset]
      cases hb : e.isEvictable with
      | true =>
        rw [Finset.card_erase_of_mem (by simp [hev, hb]), ← h]
        simp [LRUKReplacer.setEvictable, he, hb]
      | false =>
        rw [Finset.erase_eq_of_notMem (by simp [hev, hb]), ← h]
        simp [LRUKReplacer.setEvictable, he, hb]
  · have he : r.entries.lookup f = none := AList.lookup_eq_none.2 hf
    simpa [LRUKReplacer.setEvictable, he] using h

/-- `RecordAccess` keeps the count. -/
lemma SizeOk.recordAccess (h : r.SizeOk) {r' : LRUKReplacer} (hr : r.recordAccess f = .ok r') :
    r'.SizeOk := by
  obtain ⟨-, hsize, -, hev⟩ := recordAccess_spec hr
  have hset : r'.evictableFrames = r.evictableFrames := by
    ext g; simp [hev]
  rw [SizeOk, hsize, hset, h]

/-- `Remove` succeeds on an evictable frame, and erases it. -/
lemma remove_of_isEvictable (h : r.IsEvictable f) : r.remove f = .ok (r.eraseFrame f) := by
  obtain ⟨e, he, hev⟩ := h
  simp [remove, he, hev]

end Entries

end LRUKReplacer

end OneBase
