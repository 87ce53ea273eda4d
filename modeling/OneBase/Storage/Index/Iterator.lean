import OneBase.Storage.Index.FiniteMap

set_option relaxedAutoImplicit false
set_option autoImplicit false

/-!
# Iteration over a B+ tree

What an iterator stands for is the list of the entries that are still to come.

## Main definitions

* `OneBase.SearchTree.Whole.At` — an iterator with the entries from its position on.

## Main results

* `OneBase.BPlusTree.Represents.begin`, `beginAt`, `deref`, `next` — what the operations do.
-/

namespace OneBase

open Effect Effect.Program Segments SearchTree BPlusTree

namespace SearchTree

variable {K V : Type} [LinearOrder K] {tree : BPlusTree} {n : ℕ}

/-- A tree in a hole has a leftmost leaf, in a hole of its own. -/
lemma exists_firstLeaf (hv : tree.Sound) {ctx : Context K V n} {t : SearchTree K V n}
    (hctx : ctx.WellFormed tree) (ht : ctx.Admits tree t) :
    ∃ (ctx' : Context K V 0) (es : List (K × V)),
      ctx'.plug (leaf (t.firstLeaf ctx.next) es) = ctx.plug t ∧ ctx'.WellFormed tree ∧
      ctx'.Admits tree (leaf (t.firstLeaf ctx.next) es) ∧
      es ++ ctx'.right = t.entries ++ ctx.right := by
  induction n with
  | zero =>
    obtain ⟨p, es, rfl⟩ := t.exists_leaf
    exact ⟨ctx, es, rfl, hctx, ht, rfl⟩
  | succ n ih =>
    obtain ⟨q, cs, rfl⟩ := t.exists_node
    have htwo := PageStore.Owned.two_le_minSize hv ctx
    have hsize : ctx.minSize tree ≤ cs.length := ht.1.1
    cases cs with
    | nil =>
      rw [List.length_nil] at hsize
      omega
    | cons c cs =>
      have hnode : ctx.Admits tree (.node q ([] ++ (c.1, c.2) :: cs)) := ht
      obtain ⟨hctx', hshaped, hfit⟩ := Context.wellFormed_node.2 ⟨hctx, hnode⟩
      obtain ⟨ctx', es, hplug, hwf, hadmits, hright⟩ := ih hctx' ⟨hfit, hshaped⟩
      refine ⟨ctx', es, hplug, hwf, hadmits, ?_⟩
      rw [hright, Context.right_node, entries_node, entriesOf_cons, List.append_assoc]

/-- The link of a hole leads to the leaf behind it, if there is anything behind it. -/
lemma exists_next (hv : tree.Sound) {ctx : Context K V n} {t : SearchTree K V n}
    (hctx : ctx.WellFormed tree) (ht : ctx.Admits tree t) :
    (ctx.next = invalidPageId ∧ ctx.right = []) ∨
    ∃ (ctx' : Context K V 0) (es : List (K × V)),
      ctx'.plug (leaf ctx.next es) = ctx.plug t ∧ ctx'.WellFormed tree ∧
      ctx'.Admits tree (leaf ctx.next es) ∧ es ++ ctx'.right = ctx.right := by
  induction ctx with
  | root => exact .inl ⟨rfl, rfl⟩
  | node q before key after up ih =>
    obtain ⟨hup, hnode⟩ := Context.wellFormed_node.1 ⟨hctx, ht.2, ht.1⟩
    cases after with
    | nil => exact ih hup hnode
    | cons c after =>
      right
      have hnode' : up.Admits tree (.node q ((before ++ [(key, t)]) ++ (c.1, c.2) :: after)) := by
        rw [List.append_assoc]
        exact hnode
      obtain ⟨hctx', hshaped, hfit⟩ := Context.wellFormed_node.2 ⟨hup, hnode'⟩
      obtain ⟨ctx', es, hplug, hwf, hadmits, hright⟩ := exists_firstLeaf hv hctx' ⟨hfit, hshaped⟩
      refine ⟨ctx', es, ?_, hwf, hadmits, ?_⟩
      · refine hplug.trans ?_
        rw [Context.plug_node, Context.plug_node, List.append_assoc]
        rfl
      · rw [hright, Context.right_node, Context.right_node, entriesOf_cons, List.append_assoc]

namespace Whole

/-- The iterator is in the tree, and from its position on the entries `rest` come; at `End()` there
are none. -/
def At (tree : BPlusTree) (T : Whole K V) (it : BPlusTreeIterator) (rest : List (K × V)) : Prop :=
  (it = ⟨invalidPageId, 0⟩ ∧ rest = []) ∨
  ∃ (ctx : Context K V 0) (es : List (K × V)), T = some (ctx.plug (leaf it.pageId es)) ∧
    ctx.WellFormed tree ∧ ctx.Admits tree (leaf it.pageId es) ∧ it.index < es.length ∧
    rest = es.drop it.index ++ ctx.right

variable {T : Whole K V} {ctx : Context K V 0} {p : PageId} {es : List (K × V)}

/-- A leaf is not empty. -/
lemma length_pos_of_admits (hv : tree.Sound) (h : ctx.Admits tree (leaf p es)) : 0 < es.length := by
  have hmin : ctx.minSize tree ≤ es.length := h.1.1
  have hmax := hv.two_le_leafMaxSize
  cases ctx with
  | root => exact hmin
  | node q before key after up =>
    change tree.leafMaxSize / 2 ≤ es.length at hmin
    omega

/-- The position of the first entry behind a leaf. -/
lemma at_next (hv : tree.Sound) (hctx : ctx.WellFormed tree) (hadmits : ctx.Admits tree (leaf p es)) :
    At tree (some (ctx.plug (leaf p es))) ⟨ctx.next, 0⟩ ctx.right := by
  rcases exists_next hv hctx hadmits with ⟨hnext, hright⟩ | ⟨ctx', es', hplug, hwf, hadmits', hright⟩
  · exact .inl ⟨by rw [hnext], hright⟩
  · refine .inr ⟨ctx', es', by rw [hplug], hwf, hadmits', length_pos_of_admits hv hadmits', ?_⟩
    rw [← hright, List.drop_zero]

end Whole

end SearchTree

namespace BPlusTree

variable {K V : Type} [LinearOrder K] {tree : BPlusTree}
  {frame : PageId → Option (BPlusTreePage K V)} {s : PageStore (BPlusTreePage K V)} {root : PageId}
  {T : Whole K V} {frames : ℕ∞} {fuel : ℕ} {it : BPlusTreeIterator} {rest : List (K × V)}

/-- A leaf of the tree can be pinned. -/
lemma Represents.fetch_leaf {ctx : Context K V 0} {p : PageId} {es : List (K × V)}
    (hframes : 0 < frames) (h : tree.Represents frame (some (ctx.plug (leaf p es))) root s) :
    wp (PageStore.handler frames) (PageClient.fetch p)
      (fun _ s' => tree.Owned frame ({(p, .leaf es ctx.parent ctx.next, false)} + 0)
        (ctx.cells p p) s') s := by
  have howned : tree.Owned frame 0 ({(p, .leaf es ctx.parent ctx.next)} + ctx.cells p p) s := by
    refine h.owned.perm rfl ?_
    change (ctx.plug (leaf p es)).2.cells invalidPageId invalidPageId = _
    rw [Context.cells_plug, cells_eq]
    simp
  exact howned.fetch (by simpa using hframes)

/-- `Begin()` stands before all entries. -/
theorem Represents.begin (hv : tree.Sound) (hframes : 0 < frames)
    (h : tree.Represents frame T root s) (hfuel : T.levels ≤ fuel) :
    wp (PageStore.handler frames) (tree.begin fuel root)
      (fun it s' => T.At tree it T.entries ∧ tree.Represents frame T root s') s := by
  rcases h.cases with ⟨rfl, hroot⟩ | ⟨n, t, rfl, hroot, hne⟩
  · rw [BPlusTree.begin, if_pos hroot]
    exact (wp_pure ..).2 ⟨.inl ⟨rfl, rfl⟩, h⟩
  · rw [BPlusTree.begin, if_neg hne, hroot]
    have hwf : t.WellFormed tree := h.wellFormed
    have hchoose : ∀ {n : ℕ} {ctx : Context K V (n + 1)} {q : PageId}
        {cs : List (WithBot K × SearchTree K V n)} {page : BPlusTreeInternalPage K},
        ctx.left = [] → ctx.Admits tree (.node q cs) → page.Holds (slots cs) →
        ∃ before key c after, cs = before ++ (key, c) :: after ∧
          page.valueAt tree.internalFits 0 = some c.pid ∧
          (Context.node q before key after ctx).left = [] := by
      intro n ctx q cs page hleft hadmits hpage
      have htwo := PageStore.Owned.two_le_minSize hv ctx
      have hmin : ctx.minSize tree ≤ cs.length := hadmits.1.1
      have hmax : cs.length ≤ tree.internalMaxSize := hadmits.1.2
      cases cs with
      | nil =>
        rw [List.length_nil] at hmin
        omega
      | cons c cs =>
        refine ⟨[], c.1, c.2, cs, rfl, ?_, by simpa using hleft⟩
        have hfits : FitsBelow tree.internalFits (slots (c :: cs)).length := by
          rw [length_slots]
          exact hv.internalFits.mono (by omega)
        rw [hpage.valueAt_eq hfits (by simp)]
        rfl
    have howned : tree.Owned frame 0 (t.cells invalidPageId invalidPageId) s := h.owned
    refine wp_seq (howned.findLeaf (I := fun ctx => ctx.left = []) hframes hchoose hfuel rfl hwf) ?_
    intro p s₁ hleaf
    obtain ⟨ctx, es, hplug, hleft, hctx, hadmits, howned⟩ := hleaf
    refine wp_seq (howned.unpin fun h => h) ?_
    intro _ s₂ howned
    have hrep : tree.Represents frame (some ⟨n, t⟩) t.pid s₂ := by
      rw [← hroot]
      exact h.of_leaf hplug howned
    refine (wp_pure ..).2 ⟨.inr ⟨ctx, es, by rw [hplug], hctx, hadmits,
      Whole.length_pos_of_admits hv hadmits, ?_⟩, hrep⟩
    obtain ⟨hentries, -, -⟩ := Context.of_plug_eq hplug
    rw [Whole.entries, hentries, hleft, List.nil_append, entries_leaf, List.drop_zero]

/-- `Begin(key)` stands before the first entry whose key is not smaller. -/
theorem Represents.beginAt (hv : tree.Sound) (hframes : 0 < frames)
    (h : tree.Represents frame T root s) (hfuel : T.levels ≤ fuel) (key : K) :
    wp (PageStore.handler frames) (tree.beginAt fuel root key)
      (fun it s' => T.At tree it (T.entries.filter fun x => key ≤ x.1) ∧
        tree.Represents frame T root s') s := by
  rcases h.cases with ⟨rfl, hroot⟩ | ⟨n, t, rfl, hroot, hne⟩
  · rw [BPlusTree.beginAt, if_pos hroot]
    exact (wp_pure ..).2 ⟨.inl ⟨rfl, rfl⟩, h⟩
  rw [BPlusTree.beginAt, if_neg hne, hroot]
  refine wp_seq (h.owned.findLeaf_lookup (n := n) (t := t) hv hframes hfuel h.wellFormed key) ?_
  intro p s₁ hleaf
  obtain ⟨ctx, es, hplug, ⟨hlo, hhi⟩, hctx, hadmits, howned⟩ := hleaf
  obtain ⟨hentries, -, -⟩ := Context.of_plug_eq hplug
  refine wp_seq howned.readLeaf ?_
  intro page s₂ hread
  obtain ⟨hshows, howned⟩ := hread
  have hsize : es.length ≤ tree.leafMaxSize := hadmits.1.2
  obtain ⟨A, B, hes, hA, hB⟩ := BPlusTreeLeafPage.exists_cut hadmits.2.1 key
  change es = _ at hes
  subst hes
  have hfilter : t.entries.filter (fun x => key ≤ x.1) = B ++ ctx.right := by
    have hleft : ctx.left.filter (fun x => key ≤ x.1) = [] := by
      rw [List.filter_eq_nil_iff]
      intro x hx
      have hlt := WithBot.coe_lt_coe.1 ((hctx.left_lt x hx).trans_le hlo)
      simpa using hlt
    have hsmall : A.filter (fun x => key ≤ x.1) = [] := by
      rw [List.filter_eq_nil_iff]
      intro x hx
      simpa using hA x hx
    have hlarge : B.filter (fun x => key ≤ x.1) = B := by
      rw [List.filter_eq_self]
      intro x hx
      simpa using hB x hx
    have hright : ctx.right.filter (fun x => key ≤ x.1) = ctx.right := by
      rw [List.filter_eq_self]
      intro x hx
      have hlt := WithBot.coe_lt_coe.1 (WithTop.coe_lt_coe.1 (hhi.trans_le (hctx.le_right x hx)))
      simpa using hlt.le
    rw [hentries, entries_leaf, List.filter_append, List.filter_append, List.filter_append, hleft,
      hsmall, hlarge, hright]
    rfl
  have hindex : page.keyIndex tree.leafFits key = some A.length :=
    hshows.1.keyIndex_eq (hv.leafFits.mono (by omega)) hA hB
  refine (wp_bind ..).2 ((wp_ofOption ..).2 ⟨_, hindex, ?_⟩)
  refine wp_seq (howned.unpin fun h => h) ?_
  intro _ s₃ howned
  have hrep : tree.Represents frame (some ⟨n, t⟩) t.pid s₃ := by
    rw [← hroot]
    exact h.of_leaf hplug howned
  have hnext := Whole.at_next hv hctx hadmits
  rw [hplug] at hnext
  rw [Whole.entries, hfilter, hshows.1.size_eq, hshows.2.2.2, List.length_append]
  cases B with
  | nil =>
    rw [if_pos (by simp)]
    by_cases hend : ctx.next = invalidPageId
    · rw [if_pos hend, ← hend]
      exact (wp_pure ..).2 ⟨hnext, hrep⟩
    · rw [if_neg hend]
      exact (wp_pure ..).2 ⟨hnext, hrep⟩
  | cons x B =>
    rw [if_neg (by simp)]
    refine (wp_pure ..).2 ⟨.inr ⟨ctx, _, by rw [hplug], hctx, hadmits, by simp, ?_⟩, hrep⟩
    rw [List.drop_left]

/-- `operator*` reads the next entry. -/
theorem Represents.deref (hv : tree.Sound) (hframes : 0 < frames)
    (h : tree.Represents frame T root s) {x : K × V} (hit : T.At tree it (x :: rest)) :
    wp (PageStore.handler frames) (it.deref tree)
      (fun r s' => r = x ∧ tree.Represents frame T root s') s := by
  rcases hit with ⟨-, hnil⟩ | ⟨ctx, es, rfl, hctx, hadmits, hindex, hrest⟩
  · cases hnil
  have hx : es[it.index] = x := by
    rw [List.drop_eq_getElem_cons hindex] at hrest
    exact (List.cons.inj hrest).1.symm
  have hsize : es.length ≤ tree.leafMaxSize := hadmits.1.2
  have hfits : FitsBelow tree.leafFits es.length := hv.leafFits.mono (by omega)
  refine wp_seq (h.fetch_leaf hframes) ?_
  intro _ s₁ howned
  refine wp_seq howned.readLeaf ?_
  intro page s₂ hread
  obtain ⟨hshows, howned⟩ := hread
  refine (wp_bind ..).2 ((wp_ofOption ..).2 ⟨_, hshows.1.keyAt_eq hfits hindex, ?_⟩)
  refine (wp_bind ..).2 ((wp_ofOption ..).2 ⟨_, hshows.1.valueAt_eq hfits hindex, ?_⟩)
  refine wp_seq (howned.unpin fun h => h) ?_
  intro _ s₃ howned
  exact (wp_pure ..).2 ⟨hx, h.of_leaf rfl howned⟩

/-- `operator++` goes behind the next entry. -/
theorem Represents.next (hv : tree.Sound) (hframes : 0 < frames)
    (h : tree.Represents frame T root s) (hit : T.At tree it rest) :
    wp (PageStore.handler frames) it.next
      (fun it' s' => T.At tree it' rest.tail ∧ tree.Represents frame T root s') s := by
  rcases hit with ⟨rfl, rfl⟩ | ⟨ctx, es, rfl, hctx, hadmits, hindex, hrest⟩
  · exact (wp_pure ..).2 ⟨.inl ⟨rfl, rfl⟩, h⟩
  have hvalid : it.pageId ≠ invalidPageId := by
    refine h.owned.ne_invalid (c := .leaf es ctx.parent ctx.next) ?_
    change _ ∈ _ + (ctx.plug (leaf it.pageId es)).2.cells invalidPageId invalidPageId
    rw [Context.cells_plug, cells_eq]
    simp
  have hend : ¬ it.isEnd = true := by simpa [BPlusTreeIterator.isEnd] using hvalid
  have htail : rest.tail = es.drop (it.index + 1) ++ ctx.right := by
    rw [hrest, List.drop_eq_getElem_cons hindex, List.cons_append, List.tail_cons]
  rw [BPlusTreeIterator.next, if_neg hend]
  refine wp_seq (h.fetch_leaf hframes) ?_
  intro _ s₁ howned
  refine wp_seq howned.readLeaf ?_
  intro page s₂ hread
  obtain ⟨hshows, howned⟩ := hread
  refine wp_seq (howned.unpin fun h => h) ?_
  intro _ s₃ howned
  have hrep := h.of_leaf rfl howned
  have hnext : page.nextPageId = ctx.next := hshows.2.2.2
  rw [hshows.1.size_eq, hnext, htail]
  by_cases hlast : es.length ≤ it.index + 1
  · rw [if_pos hlast, List.drop_of_length_le hlast, List.nil_append]
    exact (wp_pure ..).2 ⟨Whole.at_next hv hctx hadmits, hrep⟩
  · rw [if_neg hlast]
    exact (wp_pure ..).2 ⟨.inr ⟨ctx, es, rfl, hctx, hadmits, by simpa using hlast, rfl⟩, hrep⟩

end BPlusTree

end OneBase
