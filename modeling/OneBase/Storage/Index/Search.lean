import OneBase.Buffer.SharedClient
import OneBase.Storage.Index.InsertFrames
import OneBase.Storage.Index.SearchTree

set_option relaxedAutoImplicit false
set_option autoImplicit false

/-!
# Searching in a B+ tree

The rules for the accesses to the pages of a tree, and what the search for a leaf finds.

## Main definitions

* `OneBase.BPlusTree.Owned` — the pages of a tree that are pinned and those that are not.

## Main results

* `OneBase.BPlusTree.Owned.adoptChildren` — the loop that sets the parents of children.
* `OneBase.BPlusTree.Owned.findLeaf` — the search ends at a leaf, and nothing has changed.
-/

namespace OneBase

open Effect Effect.Program Segments SearchTree

namespace BPlusTree

/-- The pages `held` of the tree are pinned, its pages `free` are not. -/
abbrev Owned {K V : Type} (tree : BPlusTree) (frame : PageId → Option (BPlusTreePage K V))
    (held : Multiset (PageId × Cell K V × Bool)) (free : Multiset (PageId × Cell K V))
    (s : PageStore (BPlusTreePage K V)) : Prop :=
  PageStore.Owned tree.Shows frame held free s

/-- The same, where others have pinned the pages `others`. -/
abbrev Shared {K V : Type} (tree : BPlusTree) (others : Finset PageId)
    (frame : PageId → Option (BPlusTreePage K V)) (held : Multiset (PageId × Cell K V × Bool))
    (free : Multiset (PageId × Cell K V)) (s : PageStore (BPlusTreePage K V)) : Prop :=
  PageStore.Shared tree.Shows others frame held free s

end BPlusTree

namespace PageStore.Owned

variable {K V : Type} {tree : BPlusTree} {frame : PageId → Option (BPlusTreePage K V)}
  {held : Multiset (PageId × Cell K V × Bool)} {free : Multiset (PageId × Cell K V)}
  {s : PageStore (BPlusTreePage K V)} {p q parent next : PageId} {b : Bool} {frames : ℕ∞} {n : ℕ}

/-- An owned page has a valid id. -/
lemma ne_invalid {c : Cell K V} (h : tree.Owned frame held free s)
    (hp : (p, c) ∈ held.map (fun x => (x.1, x.2.1)) + free) : p ≠ invalidPageId := by
  obtain ⟨x, hx, -⟩ := h.owns.shows_of_mem p c hp
  have hnonneg := (h.allocated p (by simp [hx])).1
  intro hp
  rw [hp, invalidPageId] at hnonneg
  lia

/-- A pinned leaf is read as such. -/
lemma readLeaf {es : List (K × V)}
    (h : tree.Owned frame ({(p, .leaf es parent next, b)} + held) free s) :
    wp (PageStore.handler frames) (BPlusTree.readLeaf p)
      (fun page s' => tree.Shows (.leaf page : BPlusTreePage K V) (.leaf es parent next) ∧
        tree.Owned frame ({(p, .leaf es parent next, b)} + held) free s') s := by
  refine wp_seq h.read ?_
  rintro (_ | page | page) s' ⟨hshows, h⟩
  · exact hshows.elim
  · exact (wp_pure ..).2 ⟨hshows, h⟩
  · exact hshows.elim

/-- A pinned internal page is read as such. -/
lemma readInternal {cs : List (WithBot K × PageId)}
    (h : tree.Owned frame ({(p, .internal cs parent, b)} + held) free s) :
    wp (PageStore.handler frames) (BPlusTree.readInternal p)
      (fun page s' => tree.Shows (.internal page : BPlusTreePage K V) (.internal cs parent) ∧
        tree.Owned frame ({(p, .internal cs parent, b)} + held) free s') s := by
  refine wp_seq h.read ?_
  rintro (_ | page | page) s' ⟨hshows, h⟩
  · exact hshows.elim
  · exact hshows.elim
  · exact (wp_pure ..).2 ⟨hshows, h⟩

/-- `SetParentPageId` on the pinned root of a tree. -/
lemma setParent {t : SearchTree K V n}
    (h : tree.Owned frame ({(p, t.rootCell parent next, b)} + held) free s) (q : PageId) :
    wp (PageStore.handler frames) (BPlusTree.setParent p q)
      (fun _ s' => tree.Owned frame ({(p, t.rootCell q next, true)} + held) free s') s := by
  refine wp_seq h.read ?_
  intro page s' hread
  obtain ⟨hshows, h⟩ := hread
  refine (wp_bind ..).2 ((wp_ofOption ..).2 ?_)
  cases n with
  | zero =>
    obtain ⟨r, es, rfl⟩ := t.exists_leaf
    match page, hshows with
    | .leaf page, hshows =>
      exact ⟨_, rfl, h.write ⟨⟨hshows.1.size_eq, hshows.1.array_eq⟩, hshows.2.1, rfl, hshows.2.2.2⟩⟩
  | succ n =>
    obtain ⟨r, cs, rfl⟩ := t.exists_node
    match page, hshows with
    | .internal page, hshows =>
      exact ⟨_, rfl, h.write ⟨⟨hshows.1.size_eq, hshows.1.array_eq⟩, hshows.2.1, rfl⟩⟩

/-- The loop over `m` children more is the loop over the first ones and that over the others. -/
lemma wp_adoptChildren_add (h : Handler (PoolCall (BPlusTreePage K V)) (PageStore (BPlusTreePage K V)))
    (page : BPlusTreeInternalPage K) (q : PageId) (i k m : ℕ)
    (Q : Unit → PageStore (BPlusTreePage K V) → Prop) (s : PageStore (BPlusTreePage K V)) :
    wp h (tree.adoptChildren page q i (k + m)) Q s ↔
      wp h (tree.adoptChildren page q i k)
        (fun _ s' => wp h (tree.adoptChildren page q (i + k) m) Q s') s := by
  induction k generalizing i s with
  | zero => simp [BPlusTree.adoptChildren]
  | succ k ih =>
    rw [Nat.succ_add]
    simp only [BPlusTree.adoptChildren, wp_bind, ih, Nat.add_right_comm i 1 k, Nat.add_assoc]

end PageStore.Owned

namespace PageStore.Shared

variable {K V : Type} {tree : BPlusTree} {others : Finset PageId}
  {frame : PageId → Option (BPlusTreePage K V)} {held : Multiset (PageId × Cell K V × Bool)}
  {free : Multiset (PageId × Cell K V)} {s : PageStore (BPlusTreePage K V)}
  {p q parent next : PageId} {b : Bool} {frames n : ℕ}

/-- Reading a leaf concerns a page that is pinned already. -/
lemma calls_readLeaf (p : PageId) :
    (BPlusTree.readLeaf p : Program (PoolCall (BPlusTreePage K V)) _).Calls PoolCall.IsQuiet := by
  refine Calls.bind (PageClient.calls_read p) fun page => ?_
  cases page <;> trivial

/-- Reading an internal node concerns a page that is pinned already. -/
lemma calls_readInternal (p : PageId) :
    (BPlusTree.readInternal p : Program (PoolCall (BPlusTreePage K V)) _).Calls
      PoolCall.IsQuiet := by
  refine Calls.bind (PageClient.calls_read p) fun page => ?_
  cases page <;> trivial

/-- Setting the parent of a page concerns a page that is pinned already. -/
lemma calls_setParent (p q : PageId) :
    (BPlusTree.setParent p q : Program (PoolCall (BPlusTreePage K V)) Unit).Calls
      PoolCall.IsQuiet :=
  Calls.bind (PageClient.calls_read p) fun _ =>
    Calls.bind (calls_ofOption _) fun page => PageClient.calls_write p page

/-- A pinned leaf is read as such. -/
lemma readLeaf {es : List (K × V)}
    (h : tree.Shared others frame ({(p, .leaf es parent next, b)} + held) free s) :
    (BPlusTree.readLeaf p).Clean (sharedHandler others frames) PoolCall.IsNull
      (fun page s' => tree.Shows (.leaf page : BPlusTreePage K V) (.leaf es parent next) ∧
        tree.Shared others frame ({(p, .leaf es parent next, b)} + held) free s') s :=
  (h.quiet (calls_readLeaf p) h.owned.readLeaf).mono fun _ _ hQ => ⟨hQ.1.1, hQ.1.2, hQ.2⟩

/-- A pinned internal page is read as such. -/
lemma readInternal {cs : List (WithBot K × PageId)}
    (h : tree.Shared others frame ({(p, .internal cs parent, b)} + held) free s) :
    (BPlusTree.readInternal p).Clean (sharedHandler others frames) PoolCall.IsNull
      (fun page s' => tree.Shows (.internal page : BPlusTreePage K V) (.internal cs parent) ∧
        tree.Shared others frame ({(p, .internal cs parent, b)} + held) free s') s :=
  (h.quiet (calls_readInternal p) h.owned.readInternal).mono fun _ _ hQ =>
    ⟨hQ.1.1, hQ.1.2, hQ.2⟩

/-- `SetParentPageId` on the pinned root of a tree. -/
lemma setParent {t : SearchTree K V n}
    (h : tree.Shared others frame ({(p, t.rootCell parent next, b)} + held) free s) (q : PageId) :
    (BPlusTree.setParent p q).Clean (sharedHandler others frames) PoolCall.IsNull
      (fun _ s' => tree.Shared others frame ({(p, t.rootCell q next, true)} + held) free s') s :=
  (h.quiet (calls_setParent p q) (h.owned.setParent q)).mono fun _ _ hQ => ⟨hQ.1, hQ.2⟩

/-- The loop over the children `cs`, which stand between `ds` and `es` in the page, needs a frame
for each of them. -/
lemma adoptChildren {page : BPlusTreeInternalPage K}
    {as ds cs es : List (WithBot K × SearchTree K V n)}
    (h : tree.Shared others frame held (cellsOf cs parent next + free) s)
    (has : as = ds ++ (cs ++ es)) (hpage : page.Holds (slots as))
    (hfits : FitsBelow tree.internalFits as.length) :
    (tree.adoptChildren page q ds.length cs.length).HingesOn (sharedHandler others frames)
      PoolCall.IsNull (∀ c ∈ cs, (insert c.2.pid (others ∪ pages held)).card ≤ frames)
      (fun _ s' => tree.Shared others frame held (cellsOf cs q next + free) s') s := by
  induction cs generalizing ds free s with
  | nil => exact .of_clean (by simp) (.ret h)
  | cons c cs ih =>
    have hvalue : page.valueAt tree.internalFits ds.length = some c.2.pid := by
      rw [hpage.valueAt_eq (by rwa [length_slots]) (by simp [has])]
      simp [slots, has]
    have has' : as = (ds ++ [c]) ++ (cs ++ es) := by simp [has]
    have hlen : (ds ++ [c]).length = ds.length + 1 := by simp
    refine .of_some hvalue (.congr ?_ List.forall_mem_cons)
    have h : tree.Shared others frame held ({(c.2.pid, c.2.rootCell parent (firstLeafs cs next))} +
        (c.2.below (firstLeafs cs next) + cellsOf cs parent next + free)) s := by
      refine h.perm rfl ?_
      rw [cellsOf_cons, cells_eq]
      abel
    refine .seq (h.fetch rfl) ?_
    intro _ s₁ h
    refine .step (h.setParent q) ?_
    intro _ s₂ h
    refine .step (h.unpin fun _ => rfl) ?_
    intro _ s₃ h
    have h : tree.Shared others frame held
        (cellsOf cs parent next + (c.2.cells q (firstLeafs cs next) + free)) s₃ := by
      refine h.perm rfl ?_
      rw [cells_eq]
      abel
    rw [← hlen]
    refine (ih h has').mono ?_
    intro _ s₄ h
    refine h.perm rfl ?_
    rw [cellsOf_cons]
    abel

end PageStore.Shared

namespace PageStore.Owned

variable {K V : Type} {tree : BPlusTree} {frame : PageId → Option (BPlusTreePage K V)}
  {held : Multiset (PageId × Cell K V × Bool)} {free : Multiset (PageId × Cell K V)}
  {s : PageStore (BPlusTreePage K V)} {p q parent next : PageId} {b : Bool} {frames : ℕ∞} {n : ℕ}

/-- Nobody else holds pins. -/
lemma shared (h : tree.Owned frame held free s) : tree.Shared ∅ frame held free s :=
  ⟨h, by simp⟩

/-- The loop over the children `cs`, with room for one more pin. -/
lemma adoptChildren {page : BPlusTreeInternalPage K}
    {as ds cs es : List (WithBot K × SearchTree K V n)}
    (h : tree.Owned frame held (cellsOf cs parent next + free) s)
    (hcard : (Multiset.card held : ℕ∞) < frames) (has : as = ds ++ (cs ++ es))
    (hpage : page.Holds (slots as)) (hfits : FitsBelow tree.internalFits as.length) :
    wp (PageStore.handler frames) (tree.adoptChildren page q ds.length cs.length)
      (fun _ s' => tree.Owned frame held (cellsOf cs q next + free) s') s := by
  have hroom : ((Multiset.card held + 1 : ℕ) : ℕ∞) ≤ frames := by
    rw [Nat.cast_add, Nat.cast_one]
    exact Order.add_one_le_of_lt hcard
  refine wp_mono (wp_of_clean hroom ((h.shared.adoptChildren has hpage hfits).clean ?_))
    fun _ _ h => h.owned
  intro c _
  rw [Finset.empty_union]
  exact (Finset.card_insert_le _ _).trans (Nat.succ_le_succ (card_pages_le held))

/-- The loop over all children of a page, of which the first ones have another parent so far than
the other ones. -/
lemma adoptChildren_append {page : BPlusTreeInternalPage K} {parent' : PageId}
    {cs ds : List (WithBot K × SearchTree K V n)}
    (h : tree.Owned frame held
      (cellsOf cs parent (firstLeafs ds next) + (cellsOf ds parent' next + free)) s)
    (hcard : (Multiset.card held : ℕ∞) < frames) (hpage : page.Holds (slots (cs ++ ds)))
    (hfits : FitsBelow tree.internalFits (cs ++ ds).length) :
    wp (PageStore.handler frames) (tree.adoptChildren page q 0 (cs.length + ds.length))
      (fun _ s' => tree.Owned frame held (cellsOf (cs ++ ds) q next + free) s') s := by
  have hcs : cs ++ ds = [] ++ (cs ++ ds) := by simp
  have hds : cs ++ ds = cs ++ (ds ++ []) := by simp
  rw [wp_adoptChildren_add, Nat.zero_add]
  refine wp_mono (h.adoptChildren hcard hcs hpage hfits) ?_
  intro _ s₁ h
  have h : tree.Owned frame held
      (cellsOf ds parent' next + (cellsOf cs q (firstLeafs ds next) + free)) s₁ :=
    h.perm rfl (add_left_comm ..)
  refine wp_mono (h.adoptChildren hcard hds hpage hfits) ?_
  intro _ s₂ h
  refine h.perm rfl ?_
  rw [cellsOf_append]
  abel

variable [LinearOrder K]

/-- The search below the pinned root of a tree in a hole: it ends at a leaf in a hole of the same
tree. The invariant `I` of the holes on the way is kept by `choose`. -/
lemma descend {choose : BPlusTreeInternalPage K → Option PageId}
    {I : {n : ℕ} → Context K V n → Prop} (hframes : 0 < frames)
    (hchoose : ∀ {n : ℕ} {ctx : Context K V (n + 1)} {q : PageId}
      {cs : List (WithBot K × SearchTree K V n)} {page : BPlusTreeInternalPage K},
      I ctx → ctx.Admits tree (.node q cs) → page.Holds (slots cs) →
      ∃ before key c after, cs = before ++ (key, c) :: after ∧ choose page = some c.pid ∧
        I (.node q before key after ctx))
    {fuel : ℕ} (hfuel : n < fuel) {ctx : Context K V n} {t : SearchTree K V n} (hI : I ctx)
    (hctx : ctx.WellFormed tree) (ht : ctx.Admits tree t)
    (h : tree.Owned frame ({(t.pid, t.rootCell ctx.parent ctx.next, false)} + 0)
      (t.below ctx.next + ctx.cells t.pid (t.firstLeaf ctx.next)) s) :
    wp (PageStore.handler frames) (BPlusTree.descend choose fuel t.pid)
      (fun p s' => ∃ (ctx' : Context K V 0) (es : List (K × V)),
        ctx'.plug (leaf p es) = ctx.plug t ∧ I ctx' ∧ ctx'.WellFormed tree ∧
        ctx'.Admits tree (leaf p es) ∧
        tree.Owned frame ({(p, .leaf es ctx'.parent ctx'.next, false)} + 0) (ctx'.cells p p) s')
      s := by
  induction n generalizing fuel s with
  | zero =>
    obtain ⟨fuel, rfl⟩ := Nat.exists_eq_add_of_lt hfuel
    obtain ⟨p, es, rfl⟩ := t.exists_leaf
    rw [Nat.zero_add]
    refine wp_seq h.read ?_
    intro page s' hread
    obtain ⟨hshows, h⟩ := hread
    match page, hshows with
    | .leaf page, hshows =>
      refine (wp_pure ..).2 ⟨ctx, es, rfl, hI, hctx, ht, ?_⟩
      exact h.perm rfl (by simp)
  | succ n ih =>
    obtain ⟨fuel, rfl⟩ : ∃ f, fuel = f + 1 := ⟨fuel - 1, by omega⟩
    obtain ⟨q, cs, rfl⟩ := t.exists_node
    refine wp_seq h.read ?_
    intro page s' hread
    obtain ⟨hshows, h⟩ := hread
    match page, hshows with
    | .internal page, hshows =>
      obtain ⟨before, key, c, after, rfl, hc, hI'⟩ := hchoose hI ht hshows.1
      refine (wp_bind ..).2 ((wp_ofOption ..).2 ⟨_, hc, ?_⟩)
      refine wp_seq (h.unpin fun h => h) ?_
      intro _ s₁ h
      have h : tree.Owned frame 0 ({(c.pid, c.rootCell q (firstLeafs after ctx.next))} +
          (c.below (firstLeafs after ctx.next) + (Context.node q before key after ctx).cells c.pid
            (c.firstLeaf (firstLeafs after ctx.next)))) s₁ := by
        refine h.perm rfl ?_
        simp only [pid_node, rootCell_node, below_node, firstLeaf_node, slots_append, slots_cons,
          cellsOf_append, cellsOf_cons, firstLeafs_append, firstLeafs_cons, Context.cells_node,
          cells_eq c]
        abel
      refine wp_seq (h.fetch (by simpa using hframes)) ?_
      intro _ s₂ h
      obtain ⟨hctx', hshaped, hsize⟩ := Context.wellFormed_node.2 ⟨hctx, ht⟩
      exact ih (by omega) hI' hctx' ⟨hsize, hshaped⟩ h

/-- The search with `Lookup` chooses the child for the key. -/
lemma choose_lookup (hv : tree.Sound) {key : K} {ctx : Context K V (n + 1)}
    {cs : List (WithBot K × SearchTree K V n)} {page : BPlusTreeInternalPage K}
    (hlo : ctx.lo ≤ key) (hhi : ((key : WithBot K) : WithTop (WithBot K)) < ctx.hi)
    (ht : ctx.Admits tree (.node q cs)) (hpage : page.Holds (slots cs)) :
    ∃ before k c after, cs = before ++ (k, c) :: after ∧
      page.lookup tree.internalFits key = some c.pid ∧
      (Context.node q before k after ctx).lo ≤ key ∧
      ((key : WithBot K) : WithTop (WithBot K)) < (Context.node q before k after ctx).hi := by
  obtain ⟨hsize, hshaped⟩ := ht
  obtain ⟨hstart, hcs⟩ := shaped_node.1 hshaped
  obtain ⟨before, k, c, after, rfl, hbefore, hk, hlt, hafter⟩ :=
    hcs.exists_cut (hstart ▸ WithTop.coe_le_coe.2 hlo) hhi
  refine ⟨before, k, c, after, rfl, ?_, hk, hlt⟩
  have hsize' : (before ++ (k, c) :: after).length ≤ tree.internalMaxSize := hsize.2
  rw [slots_append, slots_cons] at hpage
  refine hpage.lookup_eq (hv.internalFits.mono ?_) ?_ hk ?_
  · rw [← slots_cons, ← slots_append, length_slots]
    omega
  · intro x hx
    obtain ⟨d, hd, rfl⟩ := List.mem_map.1 hx
    exact hbefore d hd
  · intro x hx
    obtain ⟨d, hd, rfl⟩ := List.mem_map.1 hx
    exact hafter d hd

end PageStore.Owned

/-! ## Whole trees -/

namespace SearchTree

variable {K V : Type}

/-- A whole tree of some height, or the empty tree. -/
abbrev Whole (K V : Type) : Type := Option ((n : ℕ) × SearchTree K V n)

namespace Whole

/-- `root_page_id_`. -/
def rootPageId : Whole K V → PageId
  | none => invalidPageId
  | some T => T.2.pid

/-- The entries, from left to right. -/
def entries : Whole K V → List (K × V)
  | none => []
  | some T => T.2.entries

/-- The pages. -/
def cells : Whole K V → Multiset (PageId × Cell K V)
  | none => 0
  | some T => T.2.cells invalidPageId invalidPageId

/-- The number of levels. -/
def levels : Whole K V → ℕ
  | none => 0
  | some T => T.1 + 1

/-- The invariant. -/
def WellFormed [LinearOrder K] (tree : BPlusTree) : Whole K V → Prop
  | none => True
  | some T => T.2.WellFormed tree

/-- The keys of the entries are strictly increasing. -/
lemma WellFormed.sorted [LinearOrder K] {tree : BPlusTree} {T : Whole K V}
    (hT : T.WellFormed tree) : T.entries.Pairwise fun x y => x.1 < y.1 := by
  match T, hT with
  | none, _ => exact .nil
  | some T, hT => exact hT.2.sorted

end Whole

end SearchTree

namespace BPlusTree

variable {K V : Type} [LinearOrder K] {tree : BPlusTree}
  {frame : PageId → Option (BPlusTreePage K V)} {s : PageStore (BPlusTreePage K V)} {root : PageId}
  {T : Whole K V} {frames : ℕ∞} {fuel : ℕ}

/-- The pages of the store, apart from the frame, represent the tree `T`, and no page is pinned. -/
structure Represents (tree : BPlusTree) (frame : PageId → Option (BPlusTreePage K V))
    (T : Whole K V) (root : PageId) (s : PageStore (BPlusTreePage K V)) : Prop where
  wellFormed : T.WellFormed tree
  root_eq : root = T.rootPageId
  owned : tree.Owned frame 0 T.cells s

/-- What is stored under the key `key` according to the leaf `es` in its place. -/
lemma mem_entries_iff {ctx : Context K V 0} {p : PageId} {es : List (K × V)} {key : K}
    (hctx : ctx.WellFormed tree) (hlo : ctx.lo ≤ key)
    (hhi : ((key : WithBot K) : WithTop (WithBot K)) < ctx.hi) (v : V) :
    (key, v) ∈ (ctx.plug (leaf p es)).2.entries ↔ (key, v) ∈ es := by
  rw [Context.entries_plug, List.mem_append, List.mem_append, entries_leaf]
  constructor
  · rintro ((hl | hes) | hr)
    · exact absurd (hctx.left_lt _ hl) (not_lt.2 hlo)
    · exact hes
    · exact absurd (hctx.le_right _ hr) (not_le.2 hhi)
  · intro hes
    exact .inl (.inr hes)

end BPlusTree

namespace PageStore.Owned

variable {K V : Type} [LinearOrder K] {tree : BPlusTree}
  {frame : PageId → Option (BPlusTreePage K V)} {s : PageStore (BPlusTreePage K V)}
  {held : Multiset (PageId × Cell K V × Bool)} {free : Multiset (PageId × Cell K V)}
  {frames : ℕ∞} {n fuel : ℕ}

/-- The search from the root of a whole tree. -/
lemma findLeaf {choose : BPlusTreeInternalPage K → Option PageId}
    {I : {n : ℕ} → Context K V n → Prop} (hframes : 0 < frames)
    (hchoose : ∀ {n : ℕ} {ctx : Context K V (n + 1)} {q : PageId}
      {cs : List (WithBot K × SearchTree K V n)} {page : BPlusTreeInternalPage K},
      I ctx → ctx.Admits tree (.node q cs) → page.Holds (slots cs) →
      ∃ before key c after, cs = before ++ (key, c) :: after ∧ choose page = some c.pid ∧
        I (.node q before key after ctx))
    {t : SearchTree K V n} (hfuel : n < fuel) (hI : I (.root : Context K V n))
    (ht : t.WellFormed tree)
    (h : tree.Owned frame 0 (t.cells invalidPageId invalidPageId) s) :
    wp (PageStore.handler frames) (BPlusTree.findLeaf choose fuel t.pid)
      (fun p s' => ∃ (ctx : Context K V 0) (es : List (K × V)),
        ctx.plug (leaf p es) = ⟨n, t⟩ ∧ I ctx ∧ ctx.WellFormed tree ∧
        ctx.Admits tree (leaf p es) ∧
        tree.Owned frame ({(p, .leaf es ctx.parent ctx.next, false)} + 0) (ctx.cells p p) s')
      s := by
  rw [cells_eq] at h
  refine wp_seq (h.fetch (by simpa using hframes)) ?_
  intro _ s₁ h
  have hadmits : (Context.root : Context K V n).Admits tree t := ht
  exact (h.perm rfl (by simp)).descend hframes hchoose hfuel hI trivial hadmits

/-- The search for a key from the root of a whole tree. -/
lemma findLeaf_lookup (hv : tree.Sound) (hframes : 0 < frames) {t : SearchTree K V n}
    (hfuel : n < fuel) (ht : t.WellFormed tree)
    (h : tree.Owned frame 0 (t.cells invalidPageId invalidPageId) s) (key : K) :
    wp (PageStore.handler frames)
      (BPlusTree.findLeaf (fun page => page.lookup tree.internalFits key) fuel t.pid)
      (fun p s' => ∃ (ctx : Context K V 0) (es : List (K × V)),
        ctx.plug (leaf p es) = ⟨n, t⟩ ∧
        (ctx.lo ≤ key ∧ ((key : WithBot K) : WithTop (WithBot K)) < ctx.hi) ∧
        ctx.WellFormed tree ∧ ctx.Admits tree (leaf p es) ∧
        tree.Owned frame ({(p, .leaf es ctx.parent ctx.next, false)} + 0) (ctx.cells p p) s')
      s := by
  apply h.findLeaf hframes (I := fun ctx => ctx.lo ≤ key ∧
    ((key : WithBot K) : WithTop (WithBot K)) < ctx.hi) _ hfuel _ ht
  · intro n ctx q cs page hI hadmits hpage
    exact choose_lookup hv hI.1 hI.2 hadmits hpage
  · exact ⟨bot_le, WithTop.coe_lt_top _⟩

end PageStore.Owned

namespace PageStore.Shared

variable {K V : Type} [LinearOrder K] {tree : BPlusTree} {others : Finset PageId}
  {frame : PageId → Option (BPlusTreePage K V)} {s : PageStore (BPlusTreePage K V)}
  {frames n fuel : ℕ} {key : K}

/-- `Lookup` chooses the child in the hole for the keys between its bounds. -/
lemma lookup_of_context (hv : tree.Sound) {q : PageId}
    {before after : List (WithBot K × SearchTree K V n)} {k : WithBot K}
    {up : Context K V (n + 1)} {t : SearchTree K V n} {page : BPlusTreeInternalPage K}
    (hctx : (Context.node q before k after up).WellFormed tree) (hlo : k ≤ key)
    (hhi : ((key : WithBot K) : WithTop (WithBot K)) < start after up.hi)
    (hpage : page.Holds (slots (before ++ (k, t) :: after))) :
    page.lookup tree.internalFits key = some t.pid := by
  obtain ⟨⟨-, hsize⟩, -, hbefore, -, hafter, -⟩ := hctx
  have hsize' : before.length + 1 + after.length ≤ tree.internalMaxSize := hsize
  rw [slots_append, slots_cons] at hpage
  refine hpage.lookup_eq (hv.internalFits.mono ?_) ?_ hlo ?_
  · rw [List.length_append, List.length_cons, length_slots, length_slots]
    omega
  · intro x hx
    obtain ⟨⟨a, d⟩, hd, rfl⟩ := List.mem_map.1 hx
    obtain ⟨b, -, -, hab, hb⟩ := hbefore.bounds hd
    exact (WithTop.coe_lt_coe.1 (hab.trans_le hb)).le.trans hlo
  · intro x hx
    obtain ⟨⟨a, d⟩, hd, rfl⟩ := List.mem_map.1 hx
    obtain ⟨b, -, hstart, -, -⟩ := hafter.bounds hd
    exact WithTop.coe_lt_coe.1 (hhi.trans_le hstart)

/-- The search for a key from the root of a whole tree to a tree in a hole for the key, and on from
there. -/
lemma findLeaf {α : Type} (hv : tree.Sound) {ctx : Context K V n} {t : SearchTree K V n}
    {f : PageId → Program (PoolCall (BPlusTreePage K V)) α} {ok : Prop}
    {Q : α → PageStore (BPlusTreePage K V) → Prop} (hlo : ctx.lo ≤ key)
    (hhi : ((key : WithBot K) : WithTop (WithBot K)) < ctx.hi) (hctx : ctx.WellFormed tree)
    (ht : ctx.Admits tree t)
    (hnext : ∀ s', tree.Shared others frame ({(t.pid, t.rootCell ctx.parent ctx.next, false)} + 0)
        (t.below ctx.next + ctx.cells t.pid (t.firstLeaf ctx.next)) s' →
      (BPlusTree.descend (fun page => page.lookup tree.internalFits key) fuel t.pid >>= f).HingesOn
        (sharedHandler others frames) PoolCall.IsNull ok Q s')
    (h : tree.Shared others frame 0 ((ctx.plug t).2.cells invalidPageId invalidPageId) s) :
    (BPlusTree.findLeaf (fun page => page.lookup tree.internalFits key) (fuel + ctx.depth)
        (ctx.plug t).2.pid >>= f).HingesOn (sharedHandler others frames) PoolCall.IsNull
      (ctx.searchFrames others t.pid ≤ frames ∧ ok) Q s := by
  induction ctx generalizing fuel ok with
  | root =>
    have h : tree.Shared others frame 0
        ({(t.pid, t.rootCell invalidPageId invalidPageId)} + t.below invalidPageId) s :=
      h.perm rfl (cells_eq ..)
    rw [BPlusTree.findLeaf, Program.bind_assoc]
    refine .seq (h.fetch (by simp [Context.searchFrames])) ?_
    intro _ s₁ h
    exact hnext s₁ (h.perm rfl (add_zero _).symm)
  | node q before k after up ih =>
    have hle : up.lo ≤ k := WithTop.coe_le_coe.1 (hctx.2.1 ▸ hctx.2.2.1.start_le)
    have hup : start after up.hi ≤ up.hi := hctx.2.2.2.2.1.start_le
    obtain ⟨hctx', ht'⟩ := Context.wellFormed_node.1 ⟨hctx, ht.2, ht.1⟩
    have hok : (max (up.searchFrames others q) (insert t.pid others).card ≤ frames ∧ ok) ↔
        (up.searchFrames others q ≤ frames ∧ (insert t.pid others).card ≤ frames ∧ ok) := by
      rw [max_le_iff, and_assoc]
    rw [Context.depth_node, Nat.add_comm up.depth, ← Nat.add_assoc]
    refine .congr (ih (hle.trans hlo) (hhi.trans_le hup) hctx' ht' ?_ h) hok
    -- from the node above the hole to the tree in it
    intro s₁ h
    rw [BPlusTree.descend, Program.bind_assoc]
    refine .step h.read ?_
    intro page s₂ hread
    obtain ⟨hshows, h⟩ := hread
    match page, hshows with
    | .internal page, hshows =>
      have hlookup := lookup_of_context hv hctx hlo hhi hshows.1
      change ((ofOption _ >>= fun c => PageClient.unpin q false >>= fun _ =>
        PageClient.fetch c >>= fun _ => BPlusTree.descend _ fuel c) >>= f).HingesOn ..
      rw [hlookup]
      change ((PageClient.unpin q false >>= fun _ =>
        PageClient.fetch t.pid >>= fun _ => BPlusTree.descend _ fuel t.pid) >>= f).HingesOn ..
      simp only [Program.bind_assoc]
      refine .step (h.unpin id) ?_
      intro _ s₃ h
      have h : tree.Shared others frame 0 ({(t.pid, t.rootCell q (firstLeafs after up.next))} +
          (t.below (firstLeafs after up.next) + (Context.node q before k after up).cells t.pid
            (t.firstLeaf (firstLeafs after up.next)))) s₃ := by
        refine h.perm rfl ?_
        simp only [pid_node, rootCell_node, below_node, firstLeaf_node, slots_append, slots_cons,
          cellsOf_append, cellsOf_cons, firstLeafs_append, firstLeafs_cons, Context.cells_node,
          cells_eq t]
        abel
      refine .seq (h.fetch (by simp)) ?_
      intro _ s₄ h
      exact hnext s₄ h

end PageStore.Shared

namespace BPlusTree

open PageStore.Owned

variable {K V : Type} [LinearOrder K] {tree : BPlusTree}
  {frame : PageId → Option (BPlusTreePage K V)} {s : PageStore (BPlusTreePage K V)} {root : PageId}
  {T : Whole K V} {frames : ℕ∞} {fuel : ℕ}

/-- An empty tree has no root, and a tree with a root is not empty. -/
lemma Represents.cases (h : tree.Represents frame T root s) :
    (T = none ∧ root = invalidPageId) ∨
    ∃ n, ∃ t : SearchTree K V n, T = some ⟨n, t⟩ ∧ root = t.pid ∧ root ≠ invalidPageId := by
  obtain ⟨-, rfl, howned⟩ := h
  match T with
  | none => exact .inl ⟨rfl, rfl⟩
  | some ⟨n, t⟩ =>
    have howned' : tree.Owned frame 0 (t.cells invalidPageId invalidPageId) s := howned
    rw [cells_eq] at howned'
    have hne : t.pid ≠ invalidPageId :=
      howned'.ne_invalid (c := t.rootCell invalidPageId invalidPageId) (by simp)
    exact .inr ⟨n, t, rfl, rfl, hne⟩

/-- Pages that represent a tree around a hole and a tree that it admits represent the whole. -/
lemma represents_plug {n : ℕ} {ctx : Context K V n} {t : SearchTree K V n}
    (hctx : ctx.WellFormed tree) (ht : ctx.Admits tree t)
    (h : tree.Owned frame 0
      (t.cells ctx.parent ctx.next + ctx.cells t.pid (t.firstLeaf ctx.next)) s) :
    tree.Represents frame (some (ctx.plug t)) (ctx.rootPage t.pid) s where
  wellFormed := Context.wellFormed_plug hctx ht
  root_eq := (Context.pid_plug ctx t).symm
  owned := h.perm rfl (Context.cells_plug ctx t).symm

/-- The search for a leaf changes nothing: when it is unpinned, the store represents the tree. -/
lemma Represents.of_leaf {n : ℕ} {t : SearchTree K V n} {ctx : Context K V 0} {p : PageId}
    {es : List (K × V)} (h : tree.Represents frame (some ⟨n, t⟩) root s)
    (hplug : ctx.plug (leaf p es) = ⟨n, t⟩) {s' : PageStore (BPlusTreePage K V)}
    (howned : tree.Owned frame 0 ({(p, .leaf es ctx.parent ctx.next)} + ctx.cells p p) s') :
    tree.Represents frame (some ⟨n, t⟩) root s' where
  wellFormed := h.wellFormed
  root_eq := h.root_eq
  owned := by
    have hcells := Context.cells_plug ctx (leaf p es)
    rw [hplug, cells_eq (leaf p es)] at hcells
    refine howned.perm rfl ?_
    change _ = t.cells invalidPageId invalidPageId
    rw [hcells]
    simp

/-- There is a leaf for every key. -/
lemma Represents.exists_context {n : ℕ} {t : SearchTree K V n} (hv : tree.Sound)
    (h : tree.Represents frame (some ⟨n, t⟩) root s) (key : K) :
    ∃ (ctx : Context K V 0) (p : PageId) (es : List (K × V)), ctx.plug (leaf p es) = ⟨n, t⟩ ∧
      ctx.lo ≤ key ∧ ((key : WithBot K) : WithTop (WithBot K)) < ctx.hi := by
  obtain ⟨p, -, -, ctx, es, hplug, ⟨hlo, hhi⟩, -⟩ :=
    h.owned.findLeaf_lookup hv (WithTop.coe_lt_top 0) n.lt_succ_self h.wellFormed key
  exact ⟨ctx, p, es, hplug, hlo, hhi⟩

/-- `GetValue` appends the value of the key, if there is one, and changes nothing. -/
theorem Represents.getValue (hv : tree.Sound) (hframes : 0 < frames)
    (h : tree.Represents frame T root s) (hfuel : T.levels ≤ fuel) (key : K) (result : List V) :
    wp (PageStore.handler frames) (tree.getValue fuel root key result)
      (fun r s' => ((∃ v, (key, v) ∈ T.entries ∧ r = (true, result ++ [v])) ∨
          ((∀ v, (key, v) ∉ T.entries) ∧ r = (false, result))) ∧
        tree.Represents frame T root s') s := by
  rcases h.cases with ⟨rfl, hroot⟩ | ⟨n, t, rfl, hroot, hne⟩
  · rw [BPlusTree.getValue, if_pos hroot]
    exact (wp_pure ..).2 ⟨.inr ⟨by simp [Whole.entries], rfl⟩, h⟩
  · rw [BPlusTree.getValue, if_neg hne, hroot]
    refine wp_seq (h.owned.findLeaf_lookup hv hframes hfuel h.wellFormed key) ?_
    intro p s₁ hleaf
    obtain ⟨ctx, es, hplug, ⟨hlo, hhi⟩, hctx, hadmits, howned⟩ := hleaf
    have hentries : ∀ v, (key, v) ∈ (ctx.plug (leaf p es)).2.entries ↔ (key, v) ∈ es :=
      mem_entries_iff hctx hlo hhi
    rw [hplug] at hentries
    refine wp_seq howned.readLeaf ?_
    intro page s₂ hread
    obtain ⟨hshows, howned⟩ := hread
    have hsize : es.length ≤ tree.leafMaxSize := hadmits.1.2
    have hfits := hv.leafFits.mono hsize
    rcases BPlusTreeLeafPage.cut_cases hadmits.2.1 key with ⟨A, v, B, hes, hA, hB⟩ | ⟨A, B, hes, hA, hB⟩
    · change es = _ at hes
      subst hes
      have hlookup := hshows.1.lookup_of_eq hfits hA hB
      refine (wp_bind ..).2 ((wp_ofOption ..).2 ⟨_, hlookup, ?_⟩)
      refine wp_seq (howned.unpin fun h => h) ?_
      intro _ s₃ howned
      refine (wp_pure ..).2 ⟨.inl ⟨v, (hentries v).2 (by simp), rfl⟩, ?_⟩
      rw [← hroot]
      exact h.of_leaf hplug howned
    · change es = _ at hes
      subst hes
      have hlookup := hshows.1.lookup_of_lt hfits hA hB
      refine (wp_bind ..).2 ((wp_ofOption ..).2 ⟨_, hlookup, ?_⟩)
      refine wp_seq (howned.unpin fun h => h) ?_
      intro _ s₃ howned
      refine (wp_pure ..).2 ⟨.inr ⟨?_, rfl⟩, ?_⟩
      · intro v hmem
        rcases List.mem_append.1 ((hentries v).1 hmem) with hmem | hmem
        · exact lt_irrefl key (hA _ hmem)
        · exact lt_irrefl key (hB _ hmem)
      · rw [← hroot]
        exact h.of_leaf hplug howned

end BPlusTree

end OneBase
