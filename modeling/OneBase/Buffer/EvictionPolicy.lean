import OneBase.Buffer.LRUKReplacer
import OneBase.Lib.Transition
import Mathlib.Order.Interval.Finset.Nat
import Mathlib.Data.List.GetD

set_option relaxedAutoImplicit false
set_option autoImplicit false

/-!
# The eviction policy

Which frame LRU-K evicts, in terms of the whole log of accesses since each frame was last inserted,
and that the replacer, which keeps a truncated history of each frame and looks at its hash map in
any order, evicts this frame.

## Main definitions

* `OneBase.AccessLog` — the log that a trace of calls leaves.
* `OneBase.AccessLog.IsVictim` — the frame to evict.
* `OneBase.ReplacerEvent` — the calls, and a change of the iteration order of the hash map.

## Main results

* `OneBase.LRUKReplacer.Victim.foldl_chosen` — what the loop of `Evict` finds.
* `OneBase.LRUKReplacer.Tracks.run` — the replacer follows the log over every run.
* `OneBase.LRUKReplacer.evict_isVictim` — eviction equals its specification.
-/

namespace OneBase

/-- A call on a replacer with what it returns; `remove` returns whether it did not throw. -/
inductive ReplacerEvent
  | recordAccess (f : FrameId)
  | setEvictable (f : FrameId) (b : Bool)
  | remove (f : FrameId) (ok : Bool)
  | evict (result : Option FrameId)
  /-- The hash map changes its iteration order. -/
  | rehash

/-- The log of the accesses: the times of all accesses to each frame since it was last inserted,
oldest first, and whether it may be evicted. -/
structure AccessLog where
  time : ℕ := 0
  accesses : FrameId → List ℕ := fun _ => []
  evictable : FrameId → Bool := fun _ => false

namespace AccessLog

/-- The frame is forgotten. -/
def forget (log : AccessLog) (f : FrameId) : AccessLog :=
  { log with
    accesses := Function.update log.accesses f []
    evictable := Function.update log.evictable f false }

/-- The log after one more call. -/
def after (log : AccessLog) : ReplacerEvent → AccessLog
  | .recordAccess f =>
    { log with
      time := log.time + 1
      accesses := Function.update log.accesses f (log.accesses f ++ [log.time]) }
  | .setEvictable f b =>
    if log.accesses f = [] then log
    else { log with evictable := Function.update log.evictable f b }
  | .remove f true => log.forget f
  | .evict (some f) => log.forget f
  | _ => log

/-- The log of a trace. -/
def ofTrace (events : List ReplacerEvent) : AccessLog := events.foldl after {}

/-- The frame is tracked and may be evicted. -/
def Evictable (log : AccessLog) (f : FrameId) : Prop :=
  log.accesses f ≠ [] ∧ log.evictable f = true

instance (log : AccessLog) (f : FrameId) : Decidable (log.Evictable f) :=
  inferInstanceAs (Decidable (_ ∧ _))

/-- The `i`-th access to the frame; the first one has the index 0. -/
def access (log : AccessLog) (f : FrameId) (i : ℕ) : ℕ := (log.accesses f).getD i 0

/-- The first access to the frame. -/
def firstAccess (log : AccessLog) (f : FrameId) : ℕ := log.access f 0

/-- The `k`-th most recent access to the frame. -/
def kthRecentAccess (k : ℕ) (log : AccessLog) (f : FrameId) : ℕ :=
  log.access f ((log.accesses f).length - k)

/-- The frame to evict: among the evictable frames with fewer than `k` accesses the one whose first
access is the earliest, and if there is none, the evictable frame whose `k`-th most recent access is
the earliest. -/
def IsVictim (k : ℕ) (log : AccessLog) (f : FrameId) : Prop :=
  log.Evictable f ∧
  (((log.accesses f).length < k ∧
      ∀ g, g ≠ f → log.Evictable g → (log.accesses g).length < k →
        log.firstAccess f < log.firstAccess g) ∨
    ((∀ g, log.Evictable g → k ≤ (log.accesses g).length) ∧
      ∀ g, g ≠ f → log.Evictable g → log.kthRecentAccess k f < log.kthRecentAccess k g))

/-- The entry of the replacer that keeps the last `k` accesses to the frame. -/
def entry (log : AccessLog) (k : ℕ) (f : FrameId) : Option FrameEntry :=
  if log.accesses f = [] then none
  else some ⟨(log.accesses f).drop ((log.accesses f).length - k), log.evictable f⟩

/-- The times of the accesses increase, no two accesses are at one time, and a frame without
accesses may not be evicted. -/
structure Ordered (log : AccessLog) : Prop where
  sorted : ∀ f, (log.accesses f).Pairwise (· < ·)
  lt_time : ∀ f, ∀ t ∈ log.accesses f, t < log.time
  disjoint : ∀ f g t, t ∈ log.accesses f → t ∈ log.accesses g → f = g
  idle : ∀ f, log.accesses f = [] → log.evictable f = false

namespace Ordered

variable {log : AccessLog} {f : FrameId}

/-- The empty log. -/
lemma empty : Ordered {} where
  sorted _ := .nil
  lt_time _ _ ht := absurd ht List.not_mem_nil
  disjoint _ _ _ ht := absurd ht List.not_mem_nil
  idle _ _ := rfl

/-- A frame is forgotten. -/
lemma forget (h : log.Ordered) (f : FrameId) : (log.forget f).Ordered := by
  have hacc : ∀ g t, t ∈ (log.forget f).accesses g → t ∈ log.accesses g := by
    intro g t ht
    by_cases hg : g = f
    · subst hg
      simp [AccessLog.forget] at ht
    · simpa [AccessLog.forget, hg] using ht
  refine ⟨fun g => ?_, fun g t ht => h.lt_time g t (hacc g t ht),
    fun g g' t ht ht' => h.disjoint g g' t (hacc g t ht) (hacc g' t ht'), fun g hg => ?_⟩
  · by_cases hg : g = f
    · subst hg
      simp [AccessLog.forget]
    · simpa [AccessLog.forget, hg] using h.sorted g
  · by_cases hgf : g = f
    · simp [AccessLog.forget, hgf]
    · simpa [AccessLog.forget, hgf] using h.idle g (by simpa [AccessLog.forget, hgf] using hg)

/-- An access at the current time. -/
lemma recordAccess (h : log.Ordered) (f : FrameId) : (log.after (.recordAccess f)).Ordered := by
  have hacc : ∀ g t, t ∈ (log.after (.recordAccess f)).accesses g →
      t ∈ log.accesses g ∨ (g = f ∧ t = log.time) := by
    intro g t ht
    by_cases hg : g = f
    · subst hg
      simpa [after] using ht
    · exact .inl (by simpa [after, hg] using ht)
  refine ⟨fun g => ?_, fun g t ht => ?_, fun g g' t ht ht' => ?_, fun g hg => ?_⟩
  · by_cases hg : g = f
    · subst hg
      simp only [after, Function.update_self, List.pairwise_append]
      refine ⟨h.sorted g, List.pairwise_singleton _ _, fun t ht u hu => ?_⟩
      rw [List.mem_singleton.1 hu]
      exact h.lt_time g t ht
    · simpa [after, hg] using h.sorted g
  · show t < log.time + 1
    rcases hacc g t ht with ht | ⟨-, rfl⟩
    · exact Nat.lt_succ_of_lt (h.lt_time g t ht)
    · exact Nat.lt_succ_self _
  · rcases hacc g t ht with hold | ⟨hg, htime⟩ <;> rcases hacc g' t ht' with hold' | ⟨hg', htime'⟩
    · exact h.disjoint g g' t hold hold'
    · exact absurd (h.lt_time g t hold) (by simp [htime'])
    · exact absurd (h.lt_time g' t hold') (by simp [htime])
    · rw [hg, hg']
  · by_cases hgf : g = f
    · subst hgf
      simp [after] at hg
    · exact h.idle g (by simpa [after, hgf] using hg)

/-- Every call keeps the log in order. -/
lemma after (h : log.Ordered) (e : ReplacerEvent) : (log.after e).Ordered := by
  match e with
  | .recordAccess f => exact h.recordAccess f
  | .setEvictable f b =>
    unfold AccessLog.after
    dsimp only
    split_ifs with hnil
    · exact h
    · refine ⟨h.sorted, h.lt_time, h.disjoint, fun g hg => ?_⟩
      have hgf : g ≠ f := by
        rintro rfl
        exact hnil hg
      simpa [hgf] using h.idle g hg
  | .remove f true => exact h.forget f
  | .remove f false => exact h
  | .evict (some f) => exact h.forget f
  | .evict none => exact h
  | .rehash => exact h

end Ordered

/-- A frame with fewer than `k` accesses: the oldest access that is kept is the first one. -/
lemma kthRecentAccess_of_lt {k : ℕ} {log : AccessLog} {f : FrameId}
    (h : (log.accesses f).length < k) : log.kthRecentAccess k f = log.firstAccess f := by
  unfold kthRecentAccess firstAccess
  rw [Nat.sub_eq_zero_of_le h.le]

/-- The `k`-th most recent access is an access. -/
lemma kthRecentAccess_mem {k : ℕ} {log : AccessLog} {f : FrameId} (hk : 1 ≤ k)
    (h : log.accesses f ≠ []) : log.kthRecentAccess k f ∈ log.accesses f := by
  have hpos := List.length_pos_iff.2 h
  have hlt : (log.accesses f).length - k < (log.accesses f).length := by omega
  unfold kthRecentAccess access
  rw [List.getD_eq_getElem _ _ hlt]
  exact List.getElem_mem hlt

/-- There is at most one such frame. -/
lemma IsVictim.unique {k : ℕ} {log : AccessLog} {f g : FrameId} (hf : log.IsVictim k f)
    (hg : log.IsVictim k g) : f = g := by
  by_contra hne
  obtain ⟨hevf, hf⟩ := hf
  obtain ⟨hevg, hg⟩ := hg
  rcases hf with ⟨hltf, hf⟩ | ⟨hallf, hf⟩ <;> rcases hg with ⟨hltg, hg⟩ | ⟨hallg, hg⟩
  · exact lt_asymm (hf g (Ne.symm hne) hevg hltg) (hg f hne hevf hltf)
  · exact absurd (hallg f hevf) (not_le.2 hltf)
  · exact absurd (hallf g hevg) (not_le.2 hltg)
  · exact lt_asymm (hf g (Ne.symm hne) hevg) (hg f hne hevf)

end AccessLog

namespace LRUKReplacer

/-! ## The loop of `Evict` -/

namespace Victim

/-- What the loop has found after it has seen the entries `seen`: nothing, if none is evictable; the
oldest one with fewer than `k` accesses, if there is one; else the oldest one. -/
structure Chosen (k : ℕ) (seen : List (Sigma fun _ : FrameId => FrameEntry)) (v : Victim) : Prop where
  none_iff : v.frameId = none ↔ ∀ it ∈ seen, it.2.isEvictable = false
  time_of_none : v.frameId = none → v.time = ⊤
  found_iff : v.foundLessThanK = true ↔ ∃ it ∈ seen, it.2.isEvictable = true ∧ it.2.history.length < k
  mem : ∀ f, v.frameId = some f → ∃ e : FrameEntry, ⟨f, e⟩ ∈ seen ∧ e.isEvictable = true ∧
    v.time = FrameEntry.front e ∧ (v.foundLessThanK = true → e.history.length < k)
  le : ∀ it ∈ seen, it.2.isEvictable = true →
    (v.foundLessThanK = true → it.2.history.length < k) → v.time ≤ FrameEntry.front it.2

variable {k : ℕ} {seen : List (Sigma fun _ : FrameId => FrameEntry)} {v : Victim}
  {it : Sigma fun _ : FrameId => FrameEntry}

/-- Before the first round. -/
lemma chosen_nil : Chosen k [] {} where
  none_iff := by simp
  time_of_none := by simp
  found_iff := by simp
  mem := by simp
  le := by simp

/-- The loop skips an entry that is not evictable. -/
lemma Chosen.skip (h : Chosen k seen v) (hit : it.2.isEvictable = false) :
    Chosen k (seen ++ [it]) v where
  none_iff := by simp [h.none_iff, or_imp, forall_and, hit]
  time_of_none := h.time_of_none
  found_iff := by simp [h.found_iff, or_and_right, exists_or, hit]
  mem f hf := by
    obtain ⟨e, he, hrest⟩ := h.mem f hf
    exact ⟨e, List.mem_append_left _ he, hrest⟩
  le it' hmem hev hlt := by
    rcases List.mem_append.1 hmem with hmem | hmem
    · exact h.le it' hmem hev hlt
    · obtain rfl := List.mem_singleton.1 hmem
      simp [hit] at hev

/-- The loop keeps its victim at an evictable entry that is not older, or that has `k` accesses
while the victim has fewer. -/
lemma Chosen.keep (h : Chosen k seen v) (hsome : v.frameId ≠ none)
    (hfound : v.foundLessThanK = false → ¬ it.2.history.length < k)
    (hle : (v.foundLessThanK = true → it.2.history.length < k) →
      v.time ≤ FrameEntry.front it.2) : Chosen k (seen ++ [it]) v where
  none_iff := by
    constructor
    · exact fun hnone => absurd hnone hsome
    · intro hall
      exact h.none_iff.2 fun it' hmem => hall it' (List.mem_append_left _ hmem)
  time_of_none := h.time_of_none
  found_iff := by
    constructor
    · intro hfound
      obtain ⟨it', hmem, hrest⟩ := h.found_iff.1 hfound
      exact ⟨it', List.mem_append_left _ hmem, hrest⟩
    · rintro ⟨it', hmem, hev, hlt⟩
      rcases List.mem_append.1 hmem with hmem | hmem
      · exact h.found_iff.2 ⟨it', hmem, hev, hlt⟩
      · obtain rfl := List.mem_singleton.1 hmem
        by_contra hne
        exact hfound (by simpa using hne) hlt
  mem f hf := by
    obtain ⟨e, he, hrest⟩ := h.mem f hf
    exact ⟨e, List.mem_append_left _ he, hrest⟩
  le it' hmem hev hlt := by
    rcases List.mem_append.1 hmem with hmem | hmem
    · exact h.le it' hmem hev hlt
    · obtain rfl := List.mem_singleton.1 hmem
      exact hle hlt

/-- The loop takes an evictable entry that is older than all of its class. -/
lemma Chosen.take {b : Bool} (hev : it.2.isEvictable = true) (hb : b = true ↔ it.2.history.length < k)
    (hfound : b = false → ∀ it' ∈ seen, it'.2.isEvictable = true → ¬ it'.2.history.length < k)
    (hle : ∀ it' ∈ seen, it'.2.isEvictable = true → (b = true → it'.2.history.length < k) →
      FrameEntry.front it.2 ≤ FrameEntry.front it'.2) :
    Chosen k (seen ++ [it])
      { frameId := some it.1, time := FrameEntry.front it.2, foundLessThanK := b } where
  none_iff := by
    simp only [reduceCtorEq, false_iff]
    intro hall
    have := hall it (by simp)
    simp [hev] at this
  time_of_none := by simp
  found_iff := by
    constructor
    · intro hb'
      exact ⟨it, by simp, hev, hb.1 hb'⟩
    · rintro ⟨it', hmem, hev', hlt⟩
      rcases List.mem_append.1 hmem with hmem | hmem
      · by_contra hne
        exact hfound (by simpa using hne) it' hmem hev' hlt
      · obtain rfl := List.mem_singleton.1 hmem
        exact hb.2 hlt
  mem f hf := by
    obtain rfl : it.1 = f := by simpa using hf
    exact ⟨it.2, by simp, hev, rfl, hb.1⟩
  le it' hmem hev' hlt := by
    rcases List.mem_append.1 hmem with hmem | hmem
    · show ((FrameEntry.front it.2 : ℕ) : ℕ∞) ≤ FrameEntry.front it'.2
      exact_mod_cast hle it' hmem hev' hlt
    · obtain rfl := List.mem_singleton.1 hmem
      exact le_rfl

/-- A round of the loop. -/
lemma Chosen.evictStep (h : Chosen k seen v) (it : Sigma fun _ : FrameId => FrameEntry) :
    Chosen k (seen ++ [it]) (evictStep k v it) := by
  cases hev : it.2.isEvictable with
  | false =>
    rw [evictStep_of_not_evictable hev]
    exact h.skip hev
  | true =>
    unfold LRUKReplacer.evictStep
    simp only [hev, Bool.not_true, Bool.false_eq_true, if_false]
    split_ifs with hlt hnew hold
    · -- fewer than `k` accesses, and older or the first of its class
      refine Chosen.take hev (by simpa using hlt) (by simp) fun it' hmem hev' hlt' => ?_
      rcases hnew with hnew | hnew
      · by_cases hf : v.foundLessThanK = true
        · have hle := h.le it' hmem hev' fun _ => hlt' rfl
          exact_mod_cast (hnew.trans_le hle).le
        · exact absurd (h.found_iff.2 ⟨it', hmem, hev', hlt' rfl⟩) hf
      · exact absurd (h.found_iff.2 ⟨it', hmem, hev', hlt' rfl⟩) (by simp [hnew])
    · -- fewer than `k` accesses, and not older than the victim of its class
      obtain ⟨hle, hfound⟩ := not_or.1 hnew
      refine h.keep (fun hnone => ?_) (fun hf => absurd hf hfound) fun _ => not_lt.1 hle
      rw [h.time_of_none hnone] at hle
      exact hle (ENat.natCast_lt_top _)
    · -- `k` accesses, and older than the victim, which has `k` accesses as well
      have hfound : ∀ it' ∈ seen, it'.2.isEvictable = true → ¬ it'.2.history.length < k := by
        intro it' hmem hev' hlt'
        have := h.found_iff.2 ⟨it', hmem, hev', hlt'⟩
        simp [hold.2] at this
      rw [hold.2]
      refine Chosen.take hev (by simpa using hlt) (fun _ => hfound) fun it' hmem hev' _ => ?_
      have hle := h.le it' hmem hev' (by simp [hold.2])
      exact_mod_cast (hold.1.trans_le hle).le
    · -- `k` accesses, and not older, or the victim has fewer accesses
      refine h.keep (fun hnone => ?_) (fun _ => hlt) fun himp => ?_
      · refine hold ⟨?_, ?_⟩
        · rw [h.time_of_none hnone]
          exact ENat.natCast_lt_top _
        · by_contra hf
          obtain ⟨it', hmem, hev', -⟩ := h.found_iff.1 (by simpa using hf)
          have := h.none_iff.1 hnone it' hmem
          simp [hev'] at this
      · by_contra hgt
        refine hold ⟨not_le.1 hgt, ?_⟩
        by_contra hf
        exact hlt (himp (by simpa using hf))

/-- What the loop of `Evict` finds.

**Proof sketch.** Induction on the entries that are left. -/
lemma Chosen.foldl (h : Chosen k seen v) (l : List (Sigma fun _ : FrameId => FrameEntry)) :
    Chosen k (seen ++ l) (l.foldl (LRUKReplacer.evictStep k) v) := by
  induction l generalizing seen v with
  | nil => simpa using h
  | cons it l ih =>
    have hnext := ih (h.evictStep it)
    rwa [List.append_assoc] at hnext

/-- What the loop of `Evict` finds in all entries. -/
lemma foldl_chosen (k : ℕ) (l : List (Sigma fun _ : FrameId => FrameEntry)) :
    Chosen k l (l.foldl (LRUKReplacer.evictStep k) {}) :=
  chosen_nil.foldl l

end Victim

/-! ## The replacer follows the log -/

/-- The last `k` accesses, after one more access. -/
lemma pushHistory_drop {k t : ℕ} {l : List ℕ} (hk : 1 ≤ k) :
    pushHistory k t (l.drop (l.length - k)) = (l ++ [t]).drop (l.length + 1 - k) := by
  unfold pushHistory
  rw [List.length_drop]
  split_ifs with hlen
  · rw [List.tail_drop, List.drop_append_of_le_length (by omega)]
    congr 2
    omega
  · rw [show l.length - k = 0 by omega, show l.length + 1 - k = 0 by omega]
    rfl

/-- The hash map iterates in another order. -/
structure Rehashed (r r' : LRUKReplacer) : Prop where
  perm : r.entries.entries.Perm r'.entries.entries
  maxFrames : r'.maxFrames = r.maxFrames
  k : r'.k = r.k
  currSize : r'.currSize = r.currSize
  currentTimestamp : r'.currentTimestamp = r.currentTimestamp

/-- The call happens on the replacer `r` and leaves `r'`. -/
inductive Occurs : LRUKReplacer → ReplacerEvent → LRUKReplacer → Prop
  | recordAccess {r r' : LRUKReplacer} {f : FrameId} :
    r.recordAccess f = .ok r' → Occurs r (.recordAccess f) r'
  | setEvictable (r : LRUKReplacer) (f : FrameId) (b : Bool) :
    Occurs r (.setEvictable f b) (r.setEvictable f b)
  | remove {r r' : LRUKReplacer} {f : FrameId} :
    r.remove f = .ok r' → Occurs r (.remove f true) r'
  | removeThrows {r : LRUKReplacer} {f : FrameId} {e : Exception} :
    r.remove f = .error e → Occurs r (.remove f false) r
  | evict {r r' : LRUKReplacer} {f : FrameId} :
    r.evict = some (f, r') → Occurs r (.evict (some f)) r'
  | evictFails {r : LRUKReplacer} : r.evict = none → Occurs r (.evict none) r
  | rehash {r r' : LRUKReplacer} : Rehashed r r' → Occurs r .rehash r'

/-- The replacer holds the last `k` accesses of every frame of the log. -/
structure Tracks (r : LRUKReplacer) (log : AccessLog) : Prop where
  time : r.currentTimestamp = log.time
  lookup : ∀ f, r.entries.lookup f = log.entry r.k f
  size : r.SizeOk
  inRange : ∀ f, log.accesses f ≠ [] → f < r.maxFrames

namespace Rehashed

variable {r r' : LRUKReplacer}

/-- The lookups do not depend on the order. -/
lemma lookup (h : Rehashed r r') (f : FrameId) : r'.entries.lookup f = r.entries.lookup f :=
  (AList.perm_lookup h.perm).symm

/-- The count stays right. -/
lemma sizeOk (h : Rehashed r r') (hsize : r.SizeOk) : r'.SizeOk := by
  have hset : r'.evictableFrames = r.evictableFrames := by
    ext f
    simp [IsEvictable, h.lookup]
  rw [SizeOk, h.currSize, hset, hsize]

end Rehashed

namespace Tracks

variable {r r' : LRUKReplacer} {log : AccessLog} {f : FrameId} {e : ReplacerEvent}

/-- A frame of the replacer is evictable iff it is in the log. -/
lemma isEvictable_iff (h : Tracks r log) : r.IsEvictable f ↔ log.Evictable f := by
  unfold IsEvictable AccessLog.Evictable
  rw [h.lookup]
  by_cases hf : log.accesses f = []
  · simp [AccessLog.entry, hf]
  · simp [AccessLog.entry, hf]

/-- A fresh replacer. -/
lemma fresh (maxFrames k : ℕ) : Tracks { maxFrames, k } {} where
  time := rfl
  lookup _ := rfl
  size := rfl
  inRange _ hf := absurd rfl hf

/-- A step that erases a frame. -/
lemma eraseFrame (h : Tracks r log) (hf : log.Evictable f) :
    Tracks (r.eraseFrame f) (log.forget f) where
  time := h.time
  lookup g := by
    by_cases hg : g = f
    · subst hg
      simp [LRUKReplacer.eraseFrame, AccessLog.entry, AccessLog.forget]
    · have := h.lookup g
      simpa [LRUKReplacer.eraseFrame, AccessLog.entry, AccessLog.forget, hg,
        AList.lookup_erase_ne hg] using this
  size := h.size.eraseFrame (h.isEvictable_iff.2 hf)
  inRange g hg := by
    refine h.inRange g fun hnil => hg ?_
    by_cases hgf : g = f
    · simp [AccessLog.forget, hgf]
    · simpa [AccessLog.forget, hgf] using hnil

/-- `RecordAccess` appends the access to the log. -/
lemma recordAccess (h : Tracks r log) (ho : log.Ordered) (hk : 1 ≤ r.k)
    (hr : r.recordAccess f = .ok r') : Tracks r' (log.after (.recordAccess f)) := by
  have hsize := h.size.recordAccess hr
  unfold LRUKReplacer.recordAccess at hr
  split at hr
  · cases hr
  rename_i hlt
  cases hr
  refine ⟨by simp [AccessLog.after, h.time], fun g => ?_, hsize, fun g hg => ?_⟩
  · by_cases hg : g = f
    · subst hg
      have hentry : (r.entries.lookup g).getD {} =
          ⟨(log.accesses g).drop ((log.accesses g).length - r.k), log.evictable g⟩ := by
        rw [h.lookup]
        by_cases hnil : log.accesses g = []
        · simp [AccessLog.entry, hnil, ho.idle g hnil]
        · simp [AccessLog.entry, hnil]
      simp only [hentry, AList.lookup_insert, h.time]
      simp [AccessLog.entry, AccessLog.after, pushHistory_drop hk]
    · have := h.lookup g
      simpa [AccessLog.entry, AccessLog.after, hg, AList.lookup_insert_ne hg] using this
  · by_cases hgf : g = f
    · subst hgf
      exact not_le.1 hlt
    · exact h.inRange g (by simpa [AccessLog.after, hgf] using hg)

/-- `SetEvictable` sets the flag of the log. -/
lemma setEvictable (h : Tracks r log) (f : FrameId) (b : Bool) :
    Tracks (r.setEvictable f b) (log.after (.setEvictable f b)) := by
  have hsize := h.size.setEvictable f b
  have hlookup := h.lookup f
  by_cases hnil : log.accesses f = []
  · have hr : r.setEvictable f b = r := by
      simp [LRUKReplacer.setEvictable, hlookup, AccessLog.entry, hnil]
    rw [hr]
    simpa [AccessLog.after, hnil] using h
  · simp only [AccessLog.entry, hnil, if_false] at hlookup
    simp only [AccessLog.after, hnil, if_false]
    unfold LRUKReplacer.setEvictable at hsize ⊢
    simp only [hlookup] at hsize ⊢
    by_cases hb : log.evictable f = b
    · simp only [hb, bne_self_eq_false, Bool.false_eq_true, if_false]
      have hlog : { log with evictable := Function.update log.evictable f b } = log := by
        rw [← hb, Function.update_eq_self]
      rwa [hlog]
    · have hbne : (log.evictable f != b) = true := by simpa using hb
      simp only [hbne, if_true] at hsize ⊢
      refine ⟨h.time, fun g => ?_, hsize, h.inRange⟩
      by_cases hg : g = f
      · subst hg
        simp [AccessLog.entry, hnil]
      · have := h.lookup g
        simpa [AccessLog.entry, hg, AList.lookup_insert_ne hg] using this

/-- `Remove` forgets the frame. -/
lemma remove (h : Tracks r log) (ho : log.Ordered) (hr : r.remove f = .ok r') :
    Tracks r' (log.after (.remove f true)) := by
  have hlookup := h.lookup f
  by_cases hnil : log.accesses f = []
  · simp only [AccessLog.entry, hnil, if_true] at hlookup
    obtain rfl : r = r' := by simpa [LRUKReplacer.remove, hlookup] using hr
    have hlog : log.forget f = log := by
      unfold AccessLog.forget
      rw [← hnil, Function.update_eq_self, ← ho.idle f hnil, Function.update_eq_self]
    simpa [AccessLog.after, hlog] using h
  · simp only [AccessLog.entry, hnil, if_false] at hlookup
    unfold LRUKReplacer.remove at hr
    simp only [hlookup] at hr
    split at hr
    · rename_i hev
      cases hr
      exact h.eraseFrame ⟨hnil, hev⟩
    · cases hr

/-- A change of the iteration order. -/
lemma rehash (h : Tracks r log) (hr : Rehashed r r') : Tracks r' log where
  time := by rw [hr.currentTimestamp, h.time]
  lookup g := by rw [hr.lookup, h.lookup, hr.k]
  size := hr.sizeOk h.size
  inRange g hg := by rw [hr.maxFrames]; exact h.inRange g hg

/-- Every call keeps the replacer on the log. -/
lemma step (h : Tracks r log) (ho : log.Ordered) (hk : 1 ≤ r.k) (hocc : Occurs r e r') :
    Tracks r' (log.after e) := by
  cases hocc with
  | recordAccess hr => exact h.recordAccess ho hk hr
  | setEvictable => exact h.setEvictable _ _
  | remove hr => exact h.remove ho hr
  | removeThrows _ => exact h
  | evict hr =>
    obtain ⟨hev, rfl⟩ := evict_spec hr
    exact h.eraseFrame (h.isEvictable_iff.1 hev)
  | evictFails _ => exact h
  | rehash hr => exact h.rehash hr

end Tracks

/-- The calls do not change the parameters of the replacer. -/
lemma Occurs.params {r r' : LRUKReplacer} {e : ReplacerEvent} (h : Occurs r e r') :
    r'.k = r.k ∧ r'.maxFrames = r.maxFrames := by
  cases h with
  | recordAccess hr =>
    unfold LRUKReplacer.recordAccess at hr
    split at hr
    · cases hr
    · cases hr
      exact ⟨rfl, rfl⟩
  | setEvictable =>
    unfold LRUKReplacer.setEvictable
    split
    · exact ⟨rfl, rfl⟩
    · split <;> exact ⟨rfl, rfl⟩
  | remove hr =>
    unfold LRUKReplacer.remove at hr
    split at hr
    · cases hr
      exact ⟨rfl, rfl⟩
    · split at hr
      · cases hr
        exact ⟨rfl, rfl⟩
      · cases hr
  | removeThrows _ => exact ⟨rfl, rfl⟩
  | evict hr =>
    obtain ⟨-, rfl⟩ := evict_spec hr
    exact ⟨rfl, rfl⟩
  | evictFails _ => exact ⟨rfl, rfl⟩
  | rehash hr => exact ⟨hr.k, hr.maxFrames⟩

/-- The replacer follows the log over every run. -/
lemma Tracks.run {r r' : LRUKReplacer} {log : AccessLog} {events : List ReplacerEvent}
    (hrun : Transition.Run Occurs r events r') (h : Tracks r log) (ho : log.Ordered) (hk : 1 ≤ r.k) :
    Tracks r' (events.foldl AccessLog.after log) ∧ (events.foldl AccessLog.after log).Ordered ∧
      r'.k = r.k ∧ r'.maxFrames = r.maxFrames := by
  induction hrun generalizing log with
  | nil s => exact ⟨h, ho, rfl, rfl⟩
  | cons hst _ ih =>
    obtain ⟨hk', hmax⟩ := hst.params
    obtain ⟨ih₁, ih₂, ih₃, ih₄⟩ := ih (h.step ho hk hst) (ho.after _) (by rwa [hk'])
    exact ⟨ih₁, ih₂, ih₃.trans hk', ih₄.trans hmax⟩

/-! ## The eviction -/

namespace Tracks

variable {r r' : LRUKReplacer} {log : AccessLog} {f : FrameId}

/-- An evictable entry, in terms of the log. -/
lemma of_mem_entries (h : Tracks r log) {it : Sigma fun _ : FrameId => FrameEntry}
    (hmem : it ∈ r.entries.entries) (hev : it.2.isEvictable = true) :
    log.Evictable it.1 ∧ FrameEntry.front it.2 = log.kthRecentAccess r.k it.1 ∧
      (it.2.history.length < r.k ↔ (log.accesses it.1).length < r.k) := by
  have hlookup : r.entries.lookup it.1 = some it.2 := AList.mem_lookup_iff.2 hmem
  rw [h.lookup] at hlookup
  by_cases hnil : log.accesses it.1 = []
  · simp [AccessLog.entry, hnil] at hlookup
  · simp only [AccessLog.entry, hnil, if_false, Option.some.injEq] at hlookup
    rw [← hlookup] at hev ⊢
    refine ⟨⟨hnil, hev⟩, ?_, ?_⟩
    · simp [FrameEntry.front, AccessLog.kthRecentAccess, AccessLog.access, List.headD_eq_head?_getD,
        List.getD_eq_getElem?_getD]
    · rw [List.length_drop]
      omega

/-- An evictable frame of the log has its entry. -/
lemma mem_entries (h : Tracks r log) (hf : log.Evictable f) :
    ∃ e : FrameEntry, ⟨f, e⟩ ∈ r.entries.entries ∧ e.isEvictable = true := by
  obtain ⟨e, he, hev⟩ := h.isEvictable_iff.2 hf
  exact ⟨e, AList.mem_lookup_iff.1 he, hev⟩

/-- The evicted frame is the victim of the log. -/
lemma victim (h : Tracks r log) (ho : log.Ordered) (hk : 1 ≤ r.k) (hev : r.evict = some (f, r')) :
    log.IsVictim r.k f := by
  have hchosen := Victim.foldl_chosen r.k r.entries.entries
  unfold evict at hev
  split at hev
  · rename_i g hg
    obtain ⟨rfl, -⟩ : g = f ∧ r.eraseFrame g = r' := by simpa using hev
    obtain ⟨e, hmem, hevict, htime, hfew⟩ := hchosen.mem g hg
    obtain ⟨hevg, hfront, hlen⟩ := h.of_mem_entries hmem hevict
    -- two frames have no access in common, so the oldest access is older than the others
    have hlt : ∀ g', g' ≠ g → log.Evictable g' →
        ((r.entries.entries.foldl (evictStep r.k) {}).foundLessThanK = true →
          (log.accesses g').length < r.k) →
        log.kthRecentAccess r.k g < log.kthRecentAccess r.k g' := by
      intro g' hne hevg' hclass
      obtain ⟨e', hmem', hevict'⟩ := h.mem_entries hevg'
      obtain ⟨-, hfront', hlen'⟩ := h.of_mem_entries hmem' hevict'
      have hle := hchosen.le _ hmem' hevict' fun hfound => hlen'.2 (hclass hfound)
      rw [htime, hfront, hfront'] at hle
      refine lt_of_le_of_ne (by exact_mod_cast hle) fun heq => hne ?_
      refine ho.disjoint g' g _ (AccessLog.kthRecentAccess_mem hk hevg'.1) ?_
      rw [← heq]
      exact AccessLog.kthRecentAccess_mem hk hevg.1
    refine ⟨hevg, ?_⟩
    cases hfound : (r.entries.entries.foldl (evictStep r.k) {}).foundLessThanK with
    | true =>
      refine .inl ⟨hlen.1 (hfew hfound), fun g' hne hevg' hfew' => ?_⟩
      have := hlt g' hne hevg' fun _ => hfew'
      rwa [AccessLog.kthRecentAccess_of_lt (hlen.1 (hfew hfound)),
        AccessLog.kthRecentAccess_of_lt hfew'] at this
    | false =>
      refine .inr ⟨fun g' hevg' => ?_, fun g' hne hevg' => hlt g' hne hevg' (by simp [hfound])⟩
      by_contra hlt'
      obtain ⟨e', hmem', hevict'⟩ := h.mem_entries hevg'
      obtain ⟨-, -, hlen'⟩ := h.of_mem_entries hmem' hevict'
      have := hchosen.found_iff.2 ⟨_, hmem', hevict', hlen'.2 (not_le.1 hlt')⟩
      simp [hfound] at this
  · cases hev

/-- `Evict` fails iff the log has no evictable frame. -/
lemma evict_eq_none_iff (h : Tracks r log) : r.evict = none ↔ ∀ f, ¬ log.Evictable f := by
  rw [LRUKReplacer.evict_eq_none_iff]
  exact forall_congr' fun f => not_congr h.isEvictable_iff

/-- The victim does not depend on the iteration order. -/
lemma evict_rehashed (h : Tracks r log) (ho : log.Ordered) (hk : 1 ≤ r.k) (hr : Rehashed r r') :
    r'.evict.map Prod.fst = r.evict.map Prod.fst := by
  have h' := h.rehash hr
  cases hev : r.evict with
  | none =>
    have := h'.evict_eq_none_iff.2 (h.evict_eq_none_iff.1 hev)
    rw [this]
  | some p =>
    cases hev' : r'.evict with
    | none =>
      have := h.evict_eq_none_iff.2 (h'.evict_eq_none_iff.1 hev')
      simp [this] at hev
    | some p' =>
      have hvictim' := h'.victim ho (by rwa [hr.k]) hev'
      rw [hr.k] at hvictim'
      have heq : p'.1 = p.1 := hvictim'.unique (h.victim ho hk hev)
      simp [heq]

/-- `Size` counts the evictable frames of the log. -/
lemma size_eq (h : Tracks r log) :
    r.size = ((Finset.range r.maxFrames).filter log.Evictable).card := by
  have hset : r.evictableFrames = (Finset.range r.maxFrames).filter log.Evictable := by
    ext f
    simp only [mem_evictableFrames, h.isEvictable_iff, Finset.mem_filter, Finset.mem_range]
    exact ⟨fun hf => ⟨h.inRange f hf.1, hf⟩, fun hf => hf.2⟩
  rw [← hset]
  exact h.size

end Tracks

/-- **Eviction equals its specification**: on every run from a fresh replacer, `Evict` fails iff no
frame may be evicted, and otherwise erases exactly the victim of the log, whatever the iteration
order of the hash map; `Size` counts the frames that may be evicted. -/
theorem evict_isVictim {maxFrames k : ℕ} (hk : 1 ≤ k) {events : List ReplacerEvent}
    {r : LRUKReplacer} (hrun : Transition.Run Occurs { maxFrames, k } events r) :
    (r.evict = none ↔ ∀ f, ¬ (AccessLog.ofTrace events).Evictable f) ∧
    (∀ f r', r.evict = some (f, r') → (AccessLog.ofTrace events).IsVictim k f ∧
      ∀ g, r'.entries.lookup g = if g = f then none else r.entries.lookup g) ∧
    (∀ r', Rehashed r r' → r'.evict.map Prod.fst = r.evict.map Prod.fst) ∧
    r.size = ((Finset.range maxFrames).filter (AccessLog.ofTrace events).Evictable).card := by
  obtain ⟨h, ho, hrk, hmax⟩ := Tracks.run hrun (.fresh maxFrames k) .empty hk
  have hk' : 1 ≤ r.k := by rwa [hrk]
  refine ⟨h.evict_eq_none_iff, fun f r' hev => ⟨?_, fun g => ?_⟩,
    fun r' hr => h.evict_rehashed ho hk' hr, ?_⟩
  · have hvictim := h.victim ho hk' hev
    rwa [hrk] at hvictim
  · obtain ⟨-, rfl⟩ := evict_spec hev
    split_ifs with hg
    · subst hg
      exact AList.lookup_erase _ _
    · exact AList.lookup_erase_ne hg
  · have hsize := h.size_eq
    rwa [hmax] at hsize

/-- Two frames, the second one with two accesses: the first one is the victim, although its access
is the most recent one. -/
theorem evict_isVictim_sample :
    ∃ r : LRUKReplacer,
      Transition.Run Occurs { maxFrames := 3, k := 2 }
        [.recordAccess 1, .recordAccess 1, .recordAccess 0, .setEvictable 0 true,
          .setEvictable 1 true] r ∧
      r.evict.map Prod.fst = some 0 ∧ r.size = 2 ∧
      AccessLog.IsVictim 2 (.ofTrace [.recordAccess 1, .recordAccess 1, .recordAccess 0,
        .setEvictable 0 true, .setEvictable 1 true]) 0 := by
  have hrun := Transition.Run.cons (Occurs.recordAccess (r := { maxFrames := 3, k := 2 }) (f := 1) rfl)
    (.cons (Occurs.recordAccess (f := 1) rfl) (.cons (Occurs.recordAccess (f := 0) rfl)
      (.cons (Occurs.setEvictable _ 0 true) (.cons (Occurs.setEvictable _ 1 true) (.nil _)))))
  exact ⟨_, hrun, by decide, by decide, ((evict_isVictim (by decide) hrun).2.1 0 _ rfl).1⟩

end LRUKReplacer

end OneBase
