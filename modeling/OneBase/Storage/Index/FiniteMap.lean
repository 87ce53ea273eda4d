import OneBase.Storage.Index.Remove

set_option relaxedAutoImplicit false
set_option autoImplicit false

/-!
# The B+ tree as a finite map

Any sequence of calls on an initially empty tree has the results that a map would give.

## Main definitions

* `OneBase.IndexCall` — the calls on a tree.
* `OneBase.BPlusTree.performAll` — a sequence of calls as a program.
* `OneBase.FiniteMap` — the map that the tree is for, with the same calls.

## Main results

* `OneBase.BPlusTree.Represents.perform` — one call, on a tree that denotes a map.
* `OneBase.BPlusTree.performAll_refines` — a sequence of calls, from the empty tree.
-/

namespace OneBase

open Effect Effect.Program SearchTree

/-- A call of a client of the index; `getValue` comes with the vector that it appends to. -/
inductive IndexCall (K V : Type)
  | insert (key : K) (value : V)
  | remove (key : K)
  | getValue (key : K) (result : List V)
  | isEmpty

/-- What a call returns. -/
inductive IndexResult (V : Type)
  | inserted (ok : Bool)
  | removed
  | found (ok : Bool) (result : List V)
  | empty (b : Bool)
  deriving DecidableEq

namespace BPlusTree

variable {K V : Type} [Inhabited K] [Inhabited V] [LinearOrder K] (tree : BPlusTree) (fuel : ℕ)

/-- The call on the tree with the root page `root`: the result and `root_page_id_`. -/
def perform (root : PageId) :
    IndexCall K V → Program (PoolCall (BPlusTreePage K V)) (IndexResult V × PageId)
  | .insert key value => do
    let (ok, root) ← tree.insert fuel root key value
    pure (.inserted ok, root)
  | .remove key => do
    let root ← tree.remove fuel root key
    pure (.removed, root)
  | .getValue key result => do
    let (ok, result) ← tree.getValue fuel root key result
    pure (.found ok result, root)
  | .isEmpty => pure (.empty (isEmpty root), root)

/-- The calls in turn: their results and `root_page_id_`. -/
def performAll :
    PageId → List (IndexCall K V) →
    Program (PoolCall (BPlusTreePage K V)) (List (IndexResult V) × PageId)
  | root, [] => pure ([], root)
  | root, c :: calls => do
    let (r, root) ← tree.perform fuel root c
    let (rs, root) ← performAll root calls
    pure (r :: rs, root)

end BPlusTree

/-! ## Maps -/

/-- A map from keys to values. -/
abbrev FiniteMap (K V : Type) : Type := K → Option V

namespace FiniteMap

open scoped Classical in
/-- The call on the map: the result and the map afterwards. -/
noncomputable def perform {K V : Type} [DecidableEq K] (m : FiniteMap K V) :
    IndexCall K V → IndexResult V × FiniteMap K V
  | .insert key value =>
    match m key with
    | none => (.inserted true, Function.update m key (some value))
    | some _ => (.inserted false, m)
  | .remove key => (.removed, Function.update m key none)
  | .getValue key result =>
    match m key with
    | none => (.found false result, m)
    | some v => (.found true (result ++ [v]), m)
  | .isEmpty => (.empty (decide (∀ key, m key = none)), m)

/-- The calls in turn: their results and the map afterwards. -/
noncomputable def performAll {K V : Type} [DecidableEq K] :
    FiniteMap K V → List (IndexCall K V) → List (IndexResult V) × FiniteMap K V
  | m, [] => ([], m)
  | m, c :: calls =>
    let (r, m) := m.perform c
    let (rs, m) := performAll m calls
    (r :: rs, m)

end FiniteMap

namespace SearchTree

/-- A root has at least one entry or child, if it is not a leaf. -/
lemma one_le_rootMinSize (n : ℕ) : 1 ≤ BPlusTree.rootMinSize n := by
  cases n with
  | zero => exact le_refl 1
  | succ n => exact one_le_two

variable {K V : Type} [LinearOrder K] {tree : BPlusTree}

/-- A node with children or entries has entries. -/
lemma Shaped.entries_ne_nil (hv : tree.Sound) {n : ℕ} {t : SearchTree K V n} {lo : WithBot K}
    {hi : WithTop (WithBot K)} (h : t.Shaped tree lo hi) (hsize : 1 ≤ t.size) :
    t.entries ≠ [] := by
  induction n generalizing lo hi with
  | zero =>
    obtain ⟨p, es, rfl⟩ := t.exists_leaf
    rw [entries_leaf]
    exact List.ne_nil_of_length_pos hsize
  | succ n ih =>
    obtain ⟨p, cs, rfl⟩ := t.exists_node
    obtain ⟨-, hcs⟩ := shaped_node.1 h
    cases cs with
    | nil => cases hsize
    | cons c cs =>
      obtain ⟨-, hfit, -⟩ := hcs
      have hmin : BPlusTree.rootMinSize n ≤ tree.minSize n :=
        PageStore.Owned.minSize_le hv (.root : Context K V n)
      intro hnil
      rw [entries_node, entriesOf_cons, List.append_eq_nil_iff] at hnil
      exact ih hfit.2 ((one_le_rootMinSize n).trans (hmin.trans hfit.1.1)) hnil.1

/-- A tree is not empty. -/
lemma WellFormed.entries_ne_nil (hv : tree.Sound) {n : ℕ} {t : SearchTree K V n}
    (h : t.WellFormed tree) : t.entries ≠ [] :=
  h.2.entries_ne_nil hv ((one_le_rootMinSize n).trans h.1.1)

namespace Whole

/-- The entries of the tree are those of the map. -/
def Denotes (T : Whole K V) (m : FiniteMap K V) : Prop :=
  ∀ key v, (key, v) ∈ T.entries ↔ m key = some v

omit [LinearOrder K] in
/-- A key that no entry has is not in the map. -/
lemma Denotes.eq_none {T : Whole K V} {m : FiniteMap K V} {key : K} (hm : T.Denotes m)
    (h : ∀ v, (key, v) ∉ T.entries) : m key = none := by
  apply Option.eq_none_iff_forall_ne_some.2
  intro v hv
  exact h v ((hm key v).2 hv)

variable {T T' : Whole K V} {m : FiniteMap K V} {key : K}

/-- The tree without a root is the empty map, and only this one. -/
lemma Denotes.eq_none_iff (hv : tree.Sound) (hm : T.Denotes m) (hT : T.WellFormed tree) :
    T = none ↔ ∀ key, m key = none := by
  constructor
  · rintro rfl key
    exact hm.eq_none fun v hmem => by cases hmem
  · intro hempty
    match T, hT with
    | none, _ => rfl
    | some ⟨n, t⟩, hT =>
      obtain ⟨x, hx⟩ := List.exists_mem_of_ne_nil _ (hT.entries_ne_nil hv)
      have hsome := (hm x.1 x.2).1 hx
      rw [hempty] at hsome
      cases hsome

/-- The map with a new entry. -/
lemma Denotes.insert (hm : T.Denotes m) (h : m key = none) {value : V}
    (hT' : ∀ x, x ∈ T'.entries ↔ x = (key, value) ∨ x ∈ T.entries) :
    T'.Denotes (Function.update m key (some value)) := by
  intro k v
  rw [hT', hm k v]
  by_cases hk : k = key
  · subst hk
    simp [h, eq_comm]
  · simp [hk]

/-- The map without a key. -/
lemma Denotes.remove (hm : T.Denotes m)
    (hT' : ∀ x, x ∈ T'.entries ↔ x ∈ T.entries ∧ x.1 ≠ key) :
    T'.Denotes (Function.update m key none) := by
  intro k v
  rw [hT', hm k v]
  by_cases hk : k = key
  · subst hk
    simp
  · simp [hk]

end Whole

end SearchTree

/-! ## Refinement -/

namespace BPlusTree

variable {K V : Type} [Inhabited K] [Inhabited V] [LinearOrder K] {tree : BPlusTree}
  {frame : PageId → Option (BPlusTreePage K V)} {s : PageStore (BPlusTreePage K V)} {root : PageId}
  {T : Whole K V} {m : FiniteMap K V} {frames : ℕ∞} {fuel : ℕ}

/-- A call on a tree that denotes a map does what the map would do. -/
lemma Represents.perform (hv : tree.Valid) (hframes : ((4 : ℕ) : ℕ∞) ≤ frames)
    (h : tree.Represents frame T root s) (hm : T.Denotes m) (hfuel : T.levels ≤ fuel)
    (c : IndexCall K V) :
    wp (PageStore.handler frames) (tree.perform fuel root c)
      (fun r s' => r.1 = (m.perform c).1 ∧ ∃ T', tree.Represents frame T' r.2 s' ∧
        T'.Denotes (m.perform c).2 ∧ T'.levels ≤ T.levels + 1) s := by
  have hthree : ((3 : ℕ) : ℕ∞) ≤ frames := le_trans (by norm_cast) hframes
  have hpos : (0 : ℕ∞) < frames := lt_of_lt_of_le (by norm_cast) hframes
  cases c with
  | insert key value =>
    refine wp_seq (h.insert hv.sound hthree hfuel (.inl hv) value) ?_
    intro r s' hr
    obtain ⟨T', hrep, hlevels, hr⟩ := hr
    have hlevels : T'.levels ≤ T.levels + 1 := by omega
    rcases hr with ⟨⟨v, hmem⟩, hr, rfl⟩ | ⟨habsent, hr, hT'⟩
    · have hsome := (hm key v).1 hmem
      refine (wp_pure ..).2 ⟨?_, T', hrep, ?_, hlevels⟩
      · simp [FiniteMap.perform, hsome, hr]
      · simpa [FiniteMap.perform, hsome] using hm
    · have hnone := hm.eq_none habsent
      refine (wp_pure ..).2 ⟨?_, T', hrep, ?_, hlevels⟩
      · simp [FiniteMap.perform, hnone, hr]
      · simpa [FiniteMap.perform, hnone] using hm.insert hnone hT'
  | remove key =>
    refine wp_seq (h.remove hv.sound hframes hfuel key) ?_
    intro root' s' hr
    obtain ⟨T', hrep, hlevels, hT'⟩ := hr
    exact (wp_pure ..).2 ⟨rfl, T', hrep, hm.remove hT', by omega⟩
  | getValue key result =>
    refine wp_seq (h.getValue hv.sound hpos hfuel key result) ?_
    intro r s' hr
    obtain ⟨⟨v, hmem, rfl⟩ | ⟨habsent, rfl⟩, hrep⟩ := hr
    · have hsome := (hm key v).1 hmem
      refine (wp_pure ..).2 ⟨?_, T, hrep, ?_, Nat.le_succ _⟩
      · simp [FiniteMap.perform, hsome]
      · simpa [FiniteMap.perform, hsome] using hm
    · have hnone := hm.eq_none habsent
      refine (wp_pure ..).2 ⟨?_, T, hrep, ?_, Nat.le_succ _⟩
      · simp [FiniteMap.perform, hnone]
      · simpa [FiniteMap.perform, hnone] using hm
  | isEmpty =>
    refine (wp_pure ..).2 ⟨?_, T, h, hm, Nat.le_succ _⟩
    have hiff := hm.eq_none_iff hv.sound h.wellFormed
    have hroot : root = invalidPageId ↔ T = none := by
      rcases h.cases with ⟨rfl, hroot⟩ | ⟨n, t, rfl, -, hne⟩
      · simp [hroot]
      · simp [hne]
    have hb : isEmpty root = true ↔ ∀ key, m key = none := by
      rw [isEmpty, beq_iff_eq]
      exact hroot.trans hiff
    rw [FiniteMap.perform, IndexResult.empty.injEq, Bool.eq_iff_iff, hb]
    simp

/-- The calls in turn. -/
lemma Represents.performAll (hv : tree.Valid) (hframes : ((4 : ℕ) : ℕ∞) ≤ frames)
    (h : tree.Represents frame T root s) (hm : T.Denotes m) (calls : List (IndexCall K V))
    (hfuel : T.levels + calls.length ≤ fuel) :
    wp (PageStore.handler frames) (tree.performAll fuel root calls)
      (fun r s' => r.1 = (m.performAll calls).1 ∧ ∃ T', tree.Represents frame T' r.2 s' ∧
        T'.Denotes (m.performAll calls).2 ∧ T'.levels ≤ T.levels + calls.length) s := by
  induction calls generalizing T root m s with
  | nil => exact (wp_pure ..).2 ⟨rfl, T, h, hm, le_rfl⟩
  | cons c calls ih =>
    rw [List.length_cons] at hfuel
    refine wp_seq (h.perform hv hframes hm (by omega) c) ?_
    intro r s₁ hr
    obtain ⟨hr, T', hrep, hm', hlevels⟩ := hr
    refine wp_seq (ih hrep hm' (by omega)) ?_
    intro rs s₂ hrs
    obtain ⟨hrs, T'', hrep', hm'', hlevels'⟩ := hrs
    refine (wp_pure ..).2 ⟨?_, T'', hrep', hm'', ?_⟩
    · rw [hr, hrs, FiniteMap.performAll]
    · rw [List.length_cons]
      omega

omit [Inhabited K] [Inhabited V] in
/-- The empty tree, on a pool without pages. -/
lemma represents_empty (tree : BPlusTree) :
    tree.Represents (fun _ => none) (none : Whole K V) invalidPageId {} where
  wellFormed := trivial
  root_eq := rfl
  owned := by
    have hallocated : ∀ q, (({} : PageStore (BPlusTreePage K V)).content q ≠ none) →
        0 ≤ q ∧ q < ({} : PageStore (BPlusTreePage K V)).nextPageId := fun _ h => absurd rfl h
    exact PageStore.Owned.zero tree.Shows rfl hallocated le_rfl

/-- A tree whose slots are not bounded is valid. -/
lemma valid_of_unbounded {tree : BPlusTree} (hleaf : 2 ≤ tree.leafMaxSize)
    (hinternal : 3 ≤ tree.internalMaxSize) (hleafFits : tree.leafFits = fun _ => true)
    (hinternalFits : tree.internalFits = fun _ => true) : tree.Valid := by
  refine ⟨hleaf, hinternal, ?_, ?_⟩
  · intro i _
    rw [hleafFits]
  · intro i _
    rw [hinternalFits]

/-- The calls in turn, on an initially empty tree. -/
lemma Valid.performAll (hv : tree.Valid) (calls : List (IndexCall K V))
    (hfuel : calls.length ≤ fuel) :
    wp (PageStore.handler ⊤) (tree.performAll fuel invalidPageId calls)
      (fun r s' => r.1 = (FiniteMap.performAll (fun _ => none) calls).1 ∧
        ∃ T, tree.Represents (fun _ => none) T r.2 s' ∧
          T.Denotes (FiniteMap.performAll (fun _ => none) calls).2 ∧ T.levels ≤ calls.length) {} := by
  have hm : Whole.Denotes (none : Whole K V) fun _ => none := by
    intro key v
    simp [Whole.entries]
  have hlen : Whole.levels (none : Whole K V) + calls.length = calls.length := by
    rw [Whole.levels, Nat.zero_add]
  have hrun := (represents_empty tree).performAll hv (le_top : 4 ≤ (⊤ : ℕ∞)) hm calls
    (hlen.trans_le hfuel)
  rwa [hlen] at hrun

/-- Any sequence of calls on an initially empty tree returns, with enough fuel for its loops, and
has the results of the same calls on the empty map. The slots of the pages are not bounded here,
and the pool is never exhausted. -/
theorem performAll_refines (tree : BPlusTree) (hleaf : 2 ≤ tree.leafMaxSize)
    (hinternal : 3 ≤ tree.internalMaxSize) (hleafFits : tree.leafFits = fun _ => true)
    (hinternalFits : tree.internalFits = fun _ => true) (calls : List (IndexCall K V)) :
    ∃ N, ∀ fuel ≥ N, ∃ root s,
      (tree.performAll fuel invalidPageId calls).run (PageStore.handler ⊤) {} =
        some (((FiniteMap.performAll (fun _ => none) calls).1, root), s) := by
  have hv := valid_of_unbounded hleaf hinternal hleafFits hinternalFits
  refine ⟨calls.length, fun fuel hfuel => ?_⟩
  obtain ⟨⟨rs, root⟩, s, hrun, rfl, -⟩ := hv.performAll calls hfuel
  exact ⟨root, s, hrun⟩

/-- A leaf of two entries is split by the third one, and merged again. -/
theorem performAll_refines_split :
    ∃ N, ∀ fuel ≥ N, ∃ root s,
      ((⟨2, 3, fun _ => true, fun _ => true⟩ : BPlusTree).performAll fuel invalidPageId
        ([.insert 1 ⟨0, 1⟩, .insert 2 ⟨0, 2⟩, .insert 3 ⟨0, 3⟩, .remove 1, .getValue 2 [], .isEmpty] :
          List (IndexCall ℤ RID))).run (PageStore.handler ⊤) {} =
        some (((FiniteMap.performAll (fun _ => none)
          ([.insert 1 ⟨0, 1⟩, .insert 2 ⟨0, 2⟩, .insert 3 ⟨0, 3⟩, .remove 1, .getValue 2 [],
            .isEmpty] : List (IndexCall ℤ RID))).1, root), s) :=
  performAll_refines ⟨2, 3, fun _ => true, fun _ => true⟩ (by decide) (by decide) rfl rfl _

end BPlusTree

end OneBase
