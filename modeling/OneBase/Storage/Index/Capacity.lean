import OneBase.Storage.Index.FiniteMap
import Mathlib.Data.Finset.Card

set_option relaxedAutoImplicit false
set_option autoImplicit false

/-!
# A B+ tree of the capacity that its constructor computes

The constructor lets a leaf have as many entries as a page has slots for, but a leaf is split only
after it has received one more entry. So the tree stays within its pages as long as no key is
inserted into a leaf that is full, and as the first leaf is never split before that, this is as long
as the tree has no more keys than a leaf.

## Main definitions

* `OneBase.IndexCall.keysAfter` — the keys in the tree after a sequence of calls.

## Main results

* `OneBase.BPlusTree.performAll_defined_iff` — when a tree whose leaves cannot take the entry too
  many stays within its pages.
* `OneBase.BPlusTree.init_within_pages_iff` — the same for the default capacities.
-/

namespace OneBase

open Effect Effect.Program SearchTree

namespace IndexCall

variable {K V : Type} [DecidableEq K]

/-- The keys after a call. -/
def keyAfter (keys : Finset K) : IndexCall K V → Finset K
  | .insert key _ => Insert.insert key keys
  | .remove key => keys.erase key
  | _ => keys

/-- The keys after the calls, in a tree that has the keys `keys` before. -/
def keysAfter (keys : Finset K) (calls : List (IndexCall K V)) : Finset K :=
  calls.foldl keyAfter keys

/-- At no time are there more than `n` keys. -/
def AtMost (n : ℕ) (keys : Finset K) (calls : List (IndexCall K V)) : Prop :=
  ∀ i, (keysAfter keys (calls.take i)).card ≤ n

/-- A call keeps a bound on the number of keys if the bound holds before it and the rest of the
calls keep it after it. -/
lemma atMost_cons {n : ℕ} {keys : Finset K} {c : IndexCall K V} {calls : List (IndexCall K V)} :
    AtMost n keys (c :: calls) ↔ keys.card ≤ n ∧ AtMost n (keyAfter keys c) calls := by
  constructor
  · intro h
    exact ⟨h 0, fun i => h (i + 1)⟩
  · intro h i
    cases i with
    | zero => exact h.1
    | succ i => exact h.2 i

end IndexCall

namespace BPlusTree

open PageStore.Owned IndexCall

variable {K V : Type} [LinearOrder K] {tree : BPlusTree}
  {frame : PageId → Option (BPlusTreePage K V)} {s : PageStore (BPlusTreePage K V)} {root : PageId}
  {T T' : Whole K V} {keys : Finset K} {frames : ℕ∞} {fuel : ℕ}

/-- The tree has these keys. -/
def HasKeys (T : Whole K V) (keys : Finset K) : Prop := ∀ key, key ∈ keys ↔ ∃ v, (key, v) ∈ T.entries

/-- A tree has as many entries as keys. -/
lemma HasKeys.length_eq (hkeys : HasKeys T keys) (hT : T.WellFormed tree) :
    T.entries.length = keys.card := by
  have hnodup : (T.entries.map Prod.fst).Nodup := by
    rw [List.nodup_iff_pairwise_ne, List.pairwise_map]
    exact hT.sorted.imp fun hlt => ne_of_lt hlt
  have heq : (T.entries.map Prod.fst).toFinset = keys := by
    ext key
    rw [hkeys key]
    simp
  rw [← heq, List.toFinset_card_of_nodup hnodup, List.length_map]

omit [LinearOrder K] in
/-- In a tree of one level the only leaf is the root. -/
lemma entries_of_levels {ctx : Context K V 0} {p : PageId} {es : List (K × V)}
    (hone : T.levels ≤ 1) (hT : T = some (ctx.plug (leaf p es))) : es = T.entries := by
  subst hT
  have hheight := Context.height_plug ctx (leaf p es)
  simp only [Whole.levels] at hone
  cases ctx with
  | root => rfl
  | node q before key after up =>
    rw [Context.depth_node] at hheight
    omega

variable [Inhabited K] [Inhabited V]

/-- A call that leaves no more keys than a leaf may have stays within the page of the root. -/
lemma Represents.perform_leaf (hv : tree.Sound) (hnot : ¬ tree.Valid)
    (h : tree.Represents frame T root s) (hone : T.levels ≤ 1) (hfuel : 1 ≤ fuel)
    (hkeys : HasKeys T keys) (c : IndexCall K V)
    (hcard : (keyAfter keys c).card ≤ tree.leafMaxSize) :
    wp (PageStore.handler ⊤) (tree.perform fuel root c)
      (fun r s' => ∃ T', tree.Represents frame T' r.2 s' ∧ T'.levels ≤ 1 ∧
        HasKeys T' (keyAfter keys c)) s := by
  have hlevels : T.levels ≤ fuel := hone.trans hfuel
  have hpos : (0 : ℕ∞) < ⊤ := ENat.natCast_lt_top 0
  cases c with
  | insert key value =>
    have hroom : ∀ (ctx : Context K V 0) (p : PageId) (es : List (K × V)),
        T = some (ctx.plug (leaf p es)) → es.length < tree.leafMaxSize ∨ ∃ v, (key, v) ∈ es := by
      intro ctx p es hT
      obtain rfl := entries_of_levels hone hT
      rw [← hkeys key]
      by_cases hmem : key ∈ keys
      · exact .inr hmem
      · left
        rw [keyAfter, Finset.card_insert_of_notMem hmem] at hcard
        rw [hkeys.length_eq h.wellFormed]
        omega
    refine wp_seq (h.insert hv le_top hlevels (.inr hroom) value) ?_
    intro r s' hr
    obtain ⟨T', hrep, hgrow, hr⟩ := hr
    refine (wp_pure ..).2 ⟨T', hrep, ?_, ?_⟩
    · rcases hgrow with hle | ⟨hvalid, -⟩
      · exact hle.trans (max_le le_rfl hone)
      · exact absurd hvalid hnot
    · intro k
      rw [keyAfter, Finset.mem_insert, hkeys k]
      rcases hr with ⟨⟨v, hmem⟩, -, rfl⟩ | ⟨-, -, hT'⟩
      · constructor
        · rintro (rfl | hk)
          · exact ⟨v, hmem⟩
          · exact hk
        · exact .inr
      · simp only [hT', Prod.mk.injEq, exists_or, exists_and_left, exists_eq, and_true]
  | remove key =>
    refine wp_seq (h.remove hv le_top hlevels key) ?_
    intro r s' hr
    obtain ⟨T', hrep, hle, hT'⟩ := hr
    refine (wp_pure ..).2 ⟨T', hrep, hle.trans hone, ?_⟩
    intro k
    rw [keyAfter, Finset.mem_erase, hkeys k]
    simp only [hT', exists_and_right]
    exact and_comm
  | getValue key result =>
    refine wp_seq (h.getValue hv hpos hlevels key result) ?_
    intro r s' hr
    exact (wp_pure ..).2 ⟨T, hr.2, hone, hkeys⟩
  | isEmpty => exact (wp_pure ..).2 ⟨T, h, hone, hkeys⟩

/-- A new key for a leaf that is full goes into a slot that it does not have. -/
lemma Represents.insert_undefined (hv : tree.Sound)
    (hfull : tree.leafFits tree.leafMaxSize = false) (h : tree.Represents frame T root s)
    (hone : T.levels ≤ 1) (hfuel : 1 ≤ fuel) (hlen : T.entries.length = tree.leafMaxSize) {key : K}
    (habsent : ∀ v, (key, v) ∉ T.entries) (value : V) :
    (tree.insert fuel root key value).run (PageStore.handler ⊤) s = none := by
  have hmax := hv.two_le_leafMaxSize
  have hpos : (0 : ℕ∞) < ⊤ := ENat.natCast_lt_top 0
  rcases h.cases with ⟨rfl, hroot⟩ | ⟨n, t, rfl, hroot, hne⟩
  · rw [Whole.entries, List.length_nil] at hlen
    omega
  rw [BPlusTree.insert, if_neg hne, hroot]
  obtain ⟨p, s₁, hfind, ctx, es, hplug, -, hctx, hadmits, howned⟩ :=
    h.owned.findLeaf_lookup (n := n) (t := t) hv hpos (hone.trans hfuel) h.wellFormed key
  have hleaf : wp (PageStore.handler ⊤) (BPlusTree.readLeaf p) _ s₁ := howned.readLeaf
  obtain ⟨page, s₂, hread, hshows, howned⟩ := hleaf
  have hes : es = t.entries := entries_of_levels hone (congrArg some hplug.symm)
  have hsize : es.length ≤ tree.leafMaxSize := hadmits.1.2
  have hinsert : page.insert tree.leafFits key value = none := by
    rcases BPlusTreeLeafPage.cut_cases hadmits.2.1 key with
      ⟨A, v, B, hcut, -, -⟩ | ⟨A, B, hcut, hA, hB⟩
    · change es = _ at hcut
      exact absurd (by rw [Whole.entries, ← hes, hcut]; simp) (habsent v)
    · change es = _ at hcut
      have hfull' : tree.leafFits es.length = false := by
        rw [hes, ← hfull]
        exact congrArg tree.leafFits hlen
      subst hcut
      exact hshows.1.insert_eq_none (hv.leafFits.mono hsize) hA hB hfull' value
  rw [run_bind, hfind, Option.bind_some, run_bind, hread, Option.bind_some, run_bind, run_ofOption,
    hinsert]
  rfl

/-- Where the leaves do not have the slot for the entry too many, the calls stay within the pages
exactly as long as there are no more keys than a leaf may have. -/
lemma Represents.performAll_defined_iff (hv : tree.Sound)
    (hfull : tree.leafFits tree.leafMaxSize = false) (h : tree.Represents frame T root s)
    (hone : T.levels ≤ 1) (hfuel : 1 ≤ fuel) (hkeys : HasKeys T keys)
    (hcard : keys.card ≤ tree.leafMaxSize) (calls : List (IndexCall K V)) :
    (tree.performAll fuel root calls).run (PageStore.handler ⊤) s ≠ none ↔
      AtMost tree.leafMaxSize keys calls := by
  have hnot : ¬ tree.Valid := by
    intro hvalid
    rw [hvalid.leafFits tree.leafMaxSize (Nat.lt_succ_self _)] at hfull
    cases hfull
  induction calls generalizing T root s keys with
  | nil =>
    constructor
    · intro _ i
      simpa [keysAfter] using hcard
    · intro _ hnone
      cases hnone
  | cons c calls ih =>
    rw [atMost_cons, BPlusTree.performAll, run_bind]
    by_cases hnext : (keyAfter keys c).card ≤ tree.leafMaxSize
    · obtain ⟨r, s', hrun, T', hrep, hone', hkeys'⟩ :=
        h.perform_leaf hv hnot hone hfuel hkeys c hnext
      have hrest := ih hrep hone' hkeys' hnext
      rw [hrun, Option.bind_some, run_bind]
      constructor
      · intro hne
        refine ⟨hcard, hrest.1 ?_⟩
        intro hnone
        apply hne
        rw [hnone]
        rfl
      · rintro ⟨-, hle⟩ hnone
        obtain ⟨x, hx⟩ := Option.ne_none_iff_exists'.1 (hrest.2 hle)
        rw [hx] at hnone
        cases hnone
    · have hfirst : ¬ AtMost tree.leafMaxSize (keyAfter keys c) calls := fun hle => hnext (hle 0)
      have hnone : (tree.perform fuel root c).run (PageStore.handler ⊤) s = none := by
        cases c with
        | insert key value =>
          rw [keyAfter] at hnext
          have hmem : key ∉ keys := by
            intro hmem
            rw [Finset.insert_eq_of_mem hmem] at hnext
            exact hnext hcard
          rw [Finset.card_insert_of_notMem hmem] at hnext
          have hlen : T.entries.length = tree.leafMaxSize := by
            rw [hkeys.length_eq h.wellFormed]
            omega
          have habsent : ∀ v, (key, v) ∉ T.entries := fun v hv => hmem ((hkeys key).2 ⟨v, hv⟩)
          rw [BPlusTree.perform, run_bind, h.insert_undefined hv hfull hone hfuel hlen habsent]
          rfl
        | remove key => exact absurd ((Finset.card_erase_le).trans hcard) hnext
        | getValue key result => exact absurd hcard hnext
        | isEmpty => exact absurd hcard hnext
      rw [hnone]
      simp [hfirst]

/-- With enough fuel, the calls on an empty tree stay within the pages. There is no other way for
such a run to be undefined than a slot of `array_` that does not lie in its page: with unbounded
arrays every run is defined. -/
def WithinPages (tree : BPlusTree) (calls : List (IndexCall K V)) : Prop :=
  ∃ N, ∀ fuel ≥ N,
    (tree.performAll fuel invalidPageId calls).run (PageStore.handler ⊤) {} ≠ none

omit [LinearOrder K] [Inhabited K] [Inhabited V] in
/-- The default capacities fill a page. -/
lemma init_sound : (init 0 0).Sound ∧ (init 0 0).leafFits (init 0 0).leafMaxSize = false := by
  refine ⟨⟨by decide, by decide, ?_, ?_⟩, by decide⟩
  · intro i hi
    change i < 339 at hi
    apply decide_eq_true
    rw [pageSize]
    omega
  · intro i hi
    change i < 510 at hi
    apply decide_eq_true
    rw [pageSize]
    omega

/-- The tree of the default capacities stays within its pages as long as it has at most 339 keys. -/
lemma withinPages_iff (calls : List (IndexCall K V)) :
    (init 0 0).WithinPages calls ↔ AtMost 339 ∅ calls := by
  obtain ⟨hv, hfull⟩ := init_sound
  have hkeys : HasKeys (none : Whole K V) ∅ := fun key => by simp [Whole.entries]
  have hiff := fun fuel (hfuel : 1 ≤ fuel) =>
    (represents_empty (init 0 0)).performAll_defined_iff hv hfull (Nat.zero_le 1) hfuel hkeys
      (Nat.zero_le _) calls
  constructor
  · rintro ⟨N, hN⟩
    exact (hiff (max N 1) (le_max_right N 1)).1 (hN _ (le_max_left N 1))
  · intro hle
    exact ⟨1, fun fuel hfuel => (hiff fuel hfuel).2 hle⟩

/-- With the capacities that the constructor computes, the calls on an initially empty tree of
integers stay within the pages if and only if there are never more than 339 keys. -/
theorem init_within_pages_iff (calls : List (IndexCall ℤ RID)) :
    (init 0 0).WithinPages calls ↔ AtMost 339 ∅ calls := withinPages_iff calls

/-- Insertions of 340 keys write the slot 339 of the first leaf, up to byte 4100. -/
theorem init_overflows :
    ¬ (init 0 0).WithinPages
      ((List.range 340).map fun i : ℕ => (.insert (i : ℤ) ⟨0, i⟩ : IndexCall ℤ RID)) := by
  rw [withinPages_iff]
  intro hle
  have hkeys : ∀ n, keysAfter (∅ : Finset ℤ)
      ((List.range n).map fun i : ℕ => (.insert (i : ℤ) ⟨0, i⟩ : IndexCall ℤ RID)) =
        (Finset.range n).image fun i : ℕ => (i : ℤ) := by
    intro n
    induction n with
    | zero => rfl
    | succ n ih =>
      rw [List.range_succ, List.map_append, keysAfter, List.foldl_append]
      change keyAfter (keysAfter ∅ _) (.insert (n : ℤ) ⟨0, n⟩ : IndexCall ℤ RID) = _
      rw [ih, Finset.range_add_one, Finset.image_insert]
      rfl
  have hcard := hle 340
  have hlength : ((List.range 340).map fun i : ℕ =>
      (.insert (i : ℤ) ⟨0, i⟩ : IndexCall ℤ RID)).length ≤ 340 := by
    rw [List.length_map, List.length_range]
  rw [List.take_of_length_le hlength, hkeys,
    Finset.card_image_of_injective _ Nat.cast_injective, Finset.card_range] at hcard
  omega

end BPlusTree

end OneBase
