import OneBase.Storage.Index.Iterator

set_option relaxedAutoImplicit false
set_option autoImplicit false

/-!
# Range iteration over a B+ tree

A client goes from an iterator to `End()` with `operator*` and `operator++`. The tree may have been
left by any sequence of calls; what the client sees is the map that these calls denote.

## Main definitions

* `OneBase.BPlusTree.walk` — the loop of the client.
* `OneBase.FiniteMap.Lists` — a list of the entries of a map in the order of their keys.

## Main results

* `OneBase.BPlusTree.Represents.walk` — the loop, from any iterator.
* `OneBase.BPlusTree.iterate_lists` — iteration, after any sequence of calls.
-/

namespace OneBase

open Effect Effect.Program SearchTree

namespace FiniteMap

variable {K V : Type} [LinearOrder K] {m : FiniteMap K V} {es es' : List (K × V)}

/-- The entries of the map, once each and in strictly increasing order of their keys. -/
def Lists (m : FiniteMap K V) (es : List (K × V)) : Prop :=
  es.Pairwise (fun x y => x.1 < y.1) ∧ ∀ key v, (key, v) ∈ es ↔ m key = some v

/-- The map without the keys before `key`. -/
def tailFrom (m : FiniteMap K V) (key : K) : FiniteMap K V :=
  fun k => if key ≤ k then m k else none

/-- A map has only one list of its entries. -/
lemma Lists.unique (h : m.Lists es) (h' : m.Lists es') : es = es' := by
  have hnodup : ∀ {xs : List (K × V)}, xs.Pairwise (fun x y => x.1 < y.1) → xs.Nodup :=
    fun hxs => hxs.imp fun {x y} hlt hxy => absurd hlt (by rw [hxy]; exact lt_irrefl _)
  have hperm : es.Perm es' := by
    apply (List.perm_ext_iff_of_nodup (hnodup h.1) (hnodup h'.1)).2
    intro x
    rw [h.2, h'.2]
  exact hperm.eq_of_pairwise (fun x y _ _ hxy hyx => absurd hyx (lt_asymm hxy)) h.1 h'.1

/-- The entries from a key on. -/
lemma Lists.filter (h : m.Lists es) (key : K) :
    (m.tailFrom key).Lists (es.filter fun x => key ≤ x.1) := by
  refine ⟨h.1.filter _, ?_⟩
  intro k v
  rw [List.mem_filter, h.2, tailFrom]
  by_cases hle : key ≤ k
  · simp [hle]
  · simp [hle]

end FiniteMap

namespace SearchTree.Whole

variable {K V : Type} [LinearOrder K] {tree : BPlusTree} {T : Whole K V} {m : FiniteMap K V}

/-- The entries of the tree are listed in order. -/
lemma Denotes.lists (hm : T.Denotes m) (hT : T.WellFormed tree) : m.Lists T.entries :=
  ⟨hT.sorted, hm⟩

end SearchTree.Whole

namespace BPlusTree

variable {K V : Type} (tree : BPlusTree)

/-- `while (it != End()) { use *it; ++it; }`: the entries that it meets. -/
def walk : ℕ → BPlusTreeIterator → Program (PoolCall (BPlusTreePage K V)) (List (K × V))
  | 0, _ => .fail
  | fuel + 1, it =>
    if it = «end» then pure []
    else do
      let x ← it.deref tree
      let it ← it.next (K := K) (V := V)
      let xs ← walk fuel it
      pure (x :: xs)

/-- The loop from `Begin()` on. -/
def iterate (fuel : ℕ) (root : PageId) :
    Program (PoolCall (BPlusTreePage K V)) (List (K × V)) := do
  let it ← tree.begin fuel root
  tree.walk fuel it

/-- The loop from `Begin(key)` on; it also says where it starts. -/
def iterateFrom [LinearOrder K] (fuel : ℕ) (root : PageId) (key : K) :
    Program (PoolCall (BPlusTreePage K V)) (BPlusTreeIterator × List (K × V)) := do
  let it ← tree.beginAt fuel root key
  let xs ← tree.walk fuel it
  pure (it, xs)

variable [LinearOrder K] {tree} {frame : PageId → Option (BPlusTreePage K V)}
  {s : PageStore (BPlusTreePage K V)} {root : PageId} {T : Whole K V} {m : FiniteMap K V}
  {frames : ℕ∞} {fuel : ℕ} {it : BPlusTreeIterator} {rest : List (K × V)}

/-- An iterator in a leaf is not at page `INVALID_PAGE_ID`. -/
lemma Represents.ne_invalid {ctx : Context K V 0} {p : PageId} {es : List (K × V)}
    (h : tree.Represents frame (some (ctx.plug (leaf p es))) root s) : p ≠ invalidPageId := by
  refine h.owned.ne_invalid (c := .leaf es ctx.parent ctx.next) ?_
  change _ ∈ _ + (ctx.plug (leaf p es)).2.cells invalidPageId invalidPageId
  rw [Context.cells_plug, cells_eq]
  simp

/-- An iterator equals `End()` if and only if no entries are to come. -/
lemma Represents.eq_end_iff (h : tree.Represents frame T root s) (hit : T.At tree it rest) :
    it = «end» ↔ rest = [] := by
  rcases hit with ⟨rfl, rfl⟩ | ⟨ctx, es, rfl, -, -, hindex, rfl⟩
  · exact ⟨fun _ => rfl, fun _ => rfl⟩
  · constructor
    · intro hend
      exact absurd (congrArg BPlusTreeIterator.pageId hend) h.ne_invalid
    · intro hnil
      have hdrop := (List.append_eq_nil_iff.1 hnil).1
      rw [List.drop_eq_nil_iff] at hdrop
      exact absurd hdrop (not_le.2 hindex)

/-- The loop meets the entries that are to come. -/
lemma Represents.walk (hv : tree.Sound) (hframes : 0 < frames)
    (h : tree.Represents frame T root s) (hit : T.At tree it rest) (hfuel : rest.length < fuel) :
    wp (PageStore.handler frames) (tree.walk fuel it)
      (fun xs s' => xs = rest ∧ tree.Represents frame T root s') s := by
  induction fuel generalizing it rest s with
  | zero => omega
  | succ fuel ih =>
    rw [BPlusTree.walk]
    cases rest with
    | nil =>
      rw [if_pos ((h.eq_end_iff hit).2 rfl)]
      exact (wp_pure ..).2 ⟨rfl, h⟩
    | cons x rest =>
      have hne : it ≠ «end» := fun hend => List.cons_ne_nil _ _ ((h.eq_end_iff hit).1 hend)
      rw [if_neg hne]
      refine wp_seq (h.deref hv hframes hit) ?_
      rintro _ s₁ ⟨rfl, h₁⟩
      refine wp_seq (h₁.next hv hframes hit) ?_
      intro it' s₂ hnext
      obtain ⟨hit', h₂⟩ := hnext
      rw [List.length_cons] at hfuel
      refine wp_seq (ih h₂ hit' (by rw [List.tail_cons]; omega)) ?_
      rintro _ s₃ ⟨rfl, h₃⟩
      exact (wp_pure ..).2 ⟨rfl, h₃⟩

/-- The loop from `Begin()` on lists the map. -/
lemma Represents.iterate (hv : tree.Sound) (hframes : 0 < frames)
    (h : tree.Represents frame T root s) (hlevels : T.levels ≤ fuel)
    (hlength : T.entries.length < fuel) :
    wp (PageStore.handler frames) (tree.iterate fuel root)
      (fun xs s' => xs = T.entries ∧ tree.Represents frame T root s') s := by
  refine wp_seq (h.begin hv hframes hlevels) ?_
  intro it s₁ hbegin
  exact hbegin.2.walk hv hframes hbegin.1 hlength

/-- The loop from `Begin(key)` on lists the map from this key on, and `Begin(key)` is `End()` if
there is nothing to list. -/
lemma Represents.iterateFrom (hv : tree.Sound) (hframes : 0 < frames)
    (h : tree.Represents frame T root s) (hlevels : T.levels ≤ fuel)
    (hlength : T.entries.length < fuel) (key : K) :
    wp (PageStore.handler frames) (tree.iterateFrom fuel root key)
      (fun r s' => r.2 = T.entries.filter (fun x => key ≤ x.1) ∧ (r.1 = «end» ↔ r.2 = []) ∧
        tree.Represents frame T root s') s := by
  refine wp_seq (h.beginAt hv hframes hlevels key) ?_
  intro it s₁ hbegin
  obtain ⟨hit, h₁⟩ := hbegin
  have hshort := T.entries.length_filter_le fun x => key ≤ x.1
  refine wp_seq (h₁.walk hv hframes hit (hshort.trans_lt hlength)) ?_
  rintro _ s₂ ⟨rfl, h₂⟩
  exact (wp_pure ..).2 ⟨rfl, h₁.eq_end_iff hit, h₂⟩

/-- After any sequence of calls on an initially empty tree, with enough fuel for the loops: the
loop from `Begin()` on ends and lists the map that the calls denote, the loop from `Begin(key)` on
ends and lists it from `key` on, and `Begin(key)` equals `End()` exactly if it has no entry there.
Every leaf and every internal page has room for one slot more than its maximal size, and the pool
is never exhausted.

**Proof sketch.** The calls leave pages that represent a search tree, and the entries of this tree
are the list of the map they denote (`Valid.performAll`). Each loop goes along the chain of leaves,
so that it visits these entries, or a suffix of them (`Represents.iterate` and `iterateFrom`). -/
theorem iterate_lists [Inhabited K] [Inhabited V] {tree : BPlusTree} (hv : tree.Valid)
    (calls : List (IndexCall K V)) :
    ∃ N, ∀ fuel ≥ N, ∃ results root s,
      (tree.performAll fuel invalidPageId calls).run (PageStore.handler ⊤) {} =
        some ((results, root), s) ∧
      (∃ xs s', (tree.iterate fuel root).run (PageStore.handler ⊤) s = some (xs, s') ∧
        (FiniteMap.performAll (fun _ => none) calls).2.Lists xs) ∧
      ∀ key, ∃ it xs s',
        (tree.iterateFrom fuel root key).run (PageStore.handler ⊤) s = some ((it, xs), s') ∧
        ((FiniteMap.performAll (fun _ => none) calls).2.tailFrom key).Lists xs ∧
        (it = «end» ↔
          ∀ k ≥ key, (FiniteMap.performAll (fun _ => none) calls).2 k = none) := by
  have hpos : (0 : ℕ∞) < ⊤ := ENat.top_pos
  -- the list of the entries does not depend on the fuel
  obtain ⟨_, _, -, -, T₀, hrep₀, hm₀, -⟩ := hv.performAll calls le_rfl
  have hlists := hm₀.lists hrep₀.wellFormed
  refine ⟨calls.length + T₀.entries.length + 1, fun fuel hfuel => ?_⟩
  have hcalls : calls.length ≤ fuel := by omega
  obtain ⟨⟨results, root⟩, s, hrun, -, T, hrep, hdenotes, hlevels⟩ := hv.performAll calls hcalls
  have hentries : T.entries = T₀.entries := (hdenotes.lists hrep.wellFormed).unique hlists
  have hlevels : T.levels ≤ fuel := by omega
  have hlength : T.entries.length < fuel := by
    rw [hentries]
    omega
  refine ⟨results, root, s, hrun, ?_, ?_⟩
  · obtain ⟨xs, s', hiterate, rfl, -⟩ := hrep.iterate hv.sound hpos hlevels hlength
    exact ⟨_, s', hiterate, hdenotes.lists hrep.wellFormed⟩
  · intro key
    obtain ⟨⟨it, xs⟩, s', hiterate, rfl, hend, -⟩ :=
      hrep.iterateFrom hv.sound hpos hlevels hlength key
    have htail := (hdenotes.lists hrep.wellFormed).filter key
    refine ⟨it, _, s', hiterate, htail, hend.trans ?_⟩
    rw [List.eq_nil_iff_forall_not_mem]
    constructor
    · intro hempty k hk
      apply Option.eq_none_iff_forall_ne_some.2
      intro v hkv
      refine hempty (k, v) ((htail.2 k v).2 ?_)
      rw [FiniteMap.tailFrom, if_pos hk, hkv]
    · intro hnone x hx
      have hsome := (htail.2 x.1 x.2).1 hx
      rw [FiniteMap.tailFrom] at hsome
      split at hsome
      next hk => rw [hnone x.1 hk] at hsome; cases hsome
      next => cases hsome

/-- Iteration over the leaves that a split and a deletion left, in pages of their real size. -/
theorem iterate_lists_split :
    ∃ N, ∀ fuel ≥ N, ∃ results root s,
      ((init 2 3).performAll fuel invalidPageId
        ([.insert 1 ⟨0, 1⟩, .insert 2 ⟨0, 2⟩, .insert 3 ⟨0, 3⟩, .remove 2] :
          List (IndexCall ℤ RID))).run (PageStore.handler ⊤) {} = some ((results, root), s) ∧
      (∃ xs s', ((init 2 3).iterate fuel root).run (PageStore.handler ⊤) s = some (xs, s') ∧
        (FiniteMap.performAll (fun _ => none)
          ([.insert 1 ⟨0, 1⟩, .insert 2 ⟨0, 2⟩, .insert 3 ⟨0, 3⟩, .remove 2] :
            List (IndexCall ℤ RID))).2.Lists xs) ∧
      ∀ key, ∃ it xs s',
        ((init 2 3).iterateFrom fuel root key).run (PageStore.handler ⊤) s = some ((it, xs), s') ∧
        ((FiniteMap.performAll (fun _ => none)
          ([.insert 1 ⟨0, 1⟩, .insert 2 ⟨0, 2⟩, .insert 3 ⟨0, 3⟩, .remove 2] :
            List (IndexCall ℤ RID))).2.tailFrom key).Lists xs ∧
        (it = «end» ↔ ∀ k ≥ key, (FiniteMap.performAll (fun _ => none)
          ([.insert 1 ⟨0, 1⟩, .insert 2 ⟨0, 2⟩, .insert 3 ⟨0, 3⟩, .remove 2] :
            List (IndexCall ℤ RID))).2 k = none) :=
  iterate_lists (init_valid (by decide) (by decide)) _

end BPlusTree

end OneBase
