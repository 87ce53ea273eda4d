import OneBase.Buffer.BoundedPool
import OneBase.Storage.Index.Insert

set_option relaxedAutoImplicit false
set_option autoImplicit false

/-!
# Insertion into a B+ tree when the pool is exhausted

Others may hold any pins in the pool. `Insert` checks the result of `NewPage` only where the tree
is empty. Everywhere else a `nullptr` is dereferenced, so `Insert` survives an exhausted pool iff
the tree is empty, and is not exposed to one iff there are as many frames as it needs.

## Main definitions

* `OneBase.BPlusTree.AtomicInsert` — a call of `Insert` that meets `nullptr` returns false and
  leaves everything as it was.
* `OneBase.BPlusTree.HasInsertFrames` — the pool has the frames that a call of `Insert` needs.

## Main results

* `OneBase.BPlusTree.trusts_insert` — `Insert` into a tree with a root checks no result.
* `OneBase.BPlusTree.atomicInsert_iff` — when `Insert` is atomic.
-/

namespace OneBase

open Effect Effect.Program SearchTree BufferPoolManager PageClient

namespace BPlusTree

variable {K V : Type}

/-! ## Nothing is checked -/

/-- The loop that tells the children of a new node their parent does not check whether it gets their
pages.

**Proof sketch.** Induction on the number of children that are left. Only `FetchPage` can return
`nullptr`, and then the write behind it is not defined. -/
lemma trusts_adoptChildren (tree : BPlusTree) (node : BPlusTreeInternalPage K) (parent : PageId)
    (i n : ℕ) : (tree.adoptChildren node parent i n :
      Program (PoolCall (BPlusTreePage K V)) Unit).Trusts PoolCall.IsNull := by
  induction n generalizing i with
  | zero => exact trusts_pure _
  | succ n ih =>
    refine Trusts.bind (trusts_ofOption _) fun child => ?_
    refine Trusts.bind (trusts_fetch child) fun _ => ?_
    refine Trusts.bind (trusts_of_quiet (PageStore.Shared.calls_setParent child parent)) fun _ => ?_
    exact Trusts.bind (trusts_of_quiet (calls_unpin child true)) fun _ => ih (i + 1)

/-- The way down to a leaf does not check whether it gets the pages: what it does next with a page is
to read it. -/
lemma trusts_descend (next : BPlusTreeInternalPage K → Option PageId) (fuel : ℕ) (p : PageId) :
    (descend next fuel p : Program (PoolCall (BPlusTreePage K V)) PageId).Trusts
      PoolCall.IsNull := by
  induction fuel generalizing p with
  | zero => exact trusts_fail
  | succ fuel ih =>
    refine Trusts.bind (trusts_of_quiet (calls_read p)) fun page => ?_
    cases page with
    | invalid => exact trusts_fail
    | leaf page => exact trusts_pure p
    | internal page =>
      refine Trusts.bind (trusts_ofOption _) fun q => ?_
      refine Trusts.bind (trusts_of_quiet (calls_unpin p false)) fun _ => ?_
      exact Trusts.bind (trusts_fetch q) fun _ => ih q

variable [Inhabited K] [Inhabited V] [LinearOrder K] (tree : BPlusTree)

omit [Inhabited V] [LinearOrder K] in
/-- The loop that splits the ancestors does not check whether it gets the pages of the new nodes.

**Proof sketch.** Induction on the fuel. In a round the calls that can return `nullptr` are the
allocation of a new root, the way to the parent and the allocation of its right half; all others
concern pages that the loop has pinned. -/
lemma trusts_splitLoop (root : PageId) (fuel : ℕ) (left : PageId) (middleKey : K)
    (right : PageId) :
    (tree.splitLoop root fuel left middleKey right :
      Program (PoolCall (BPlusTreePage K V)) PageId).Trusts PoolCall.IsNull := by
  have hsetParent : ∀ p parent : PageId, (setParent p parent :
      Program (PoolCall (BPlusTreePage K V)) Unit).Trusts PoolCall.IsNull := fun p parent =>
    trusts_of_quiet (PageStore.Shared.calls_setParent p parent)
  have hwrite : ∀ (p : PageId) (page : BPlusTreePage K V),
      (write p page).Trusts PoolCall.IsNull := fun p page => trusts_of_quiet (calls_write p page)
  have hunpin : ∀ (p : PageId) (isDirty : Bool), (unpin p isDirty :
      Program (PoolCall (BPlusTreePage K V)) Unit).Trusts PoolCall.IsNull := fun p isDirty =>
    trusts_of_quiet (calls_unpin p isDirty)
  induction fuel generalizing left middleKey right with
  | zero => exact trusts_fail
  | succ fuel ih =>
    refine Trusts.bind (trusts_of_quiet (calls_read left)) fun leftPage => ?_
    split_ifs
    · refine Trusts.bind trusts_new fun parent => ?_
      refine Trusts.bind (trusts_ofOption _) fun node => ?_
      refine Trusts.bind (hwrite parent _) fun _ => ?_
      refine Trusts.bind (hsetParent left parent) fun _ => ?_
      refine Trusts.bind (hsetParent right parent) fun _ => ?_
      refine Trusts.bind (hunpin parent true) fun _ => ?_
      refine Trusts.bind (hunpin left true) fun _ => ?_
      exact Trusts.bind (hunpin right true) fun _ => trusts_pure parent
    · refine Trusts.bind (hsetParent right _) fun _ => ?_
      refine Trusts.bind (trusts_fetch _) fun _ => ?_
      refine Trusts.bind (trusts_of_quiet (PageStore.Shared.calls_readInternal _)) fun node => ?_
      refine Trusts.bind (trusts_ofOption _) fun node => ?_
      refine Trusts.bind (hwrite _ _) fun _ => ?_
      refine Trusts.bind (hunpin left true) fun _ => ?_
      refine Trusts.bind (hunpin right true) fun _ => ?_
      split_ifs
      · exact Trusts.bind (hunpin _ true) fun _ => trusts_pure root
      · refine Trusts.bind trusts_new fun right => ?_
        refine Trusts.bind (trusts_ofOption _) fun newMiddleKey => ?_
        refine Trusts.bind (trusts_ofOption _) fun nodes => ?_
        refine Trusts.bind (hwrite _ _) fun _ => ?_
        refine Trusts.bind (hwrite right _) fun _ => ?_
        refine Trusts.bind (tree.trusts_adoptChildren _ right 0 _) fun _ => ?_
        exact ih _ newMiddleKey right

/-- `Insert` into a tree with a root checks no result. -/
theorem trusts_insert (fuel : ℕ) {root : PageId} (hroot : root ≠ invalidPageId) (key : K)
    (value : V) : (tree.insert fuel root key value).Trusts PoolCall.IsNull := by
  rw [BPlusTree.insert, if_neg hroot]
  refine Trusts.bind (Trusts.bind (trusts_fetch root) fun _ => trusts_descend _ fuel root)
    fun p => ?_
  refine Trusts.bind (trusts_of_quiet (PageStore.Shared.calls_readLeaf p)) fun leaf => ?_
  refine Trusts.bind (trusts_ofOption _) fun leaf => ?_
  split
  · exact Trusts.bind (trusts_of_quiet (calls_unpin p false)) fun _ => trusts_pure _
  · refine Trusts.bind (trusts_of_quiet (calls_write p _)) fun _ => ?_
    split
    · exact Trusts.bind (trusts_of_quiet (calls_unpin p true)) fun _ => trusts_pure _
    · refine Trusts.bind ?_ fun _ => trusts_pure _
      refine Trusts.bind trusts_new fun right => ?_
      refine Trusts.bind (trusts_ofOption _) fun leaves => ?_
      refine Trusts.bind (trusts_of_quiet (calls_write p _)) fun _ => ?_
      refine Trusts.bind (trusts_of_quiet (calls_write right _)) fun _ => ?_
      refine Trusts.bind (trusts_ofOption _) fun middleKey => ?_
      exact tree.trusts_splitLoop root fuel p middleKey right

/-! ## What is asked of `Insert` -/

variable {tree : BPlusTree} {frame : PageId → Option (BPlusTreePage K V)}
  {others : Multiset (PageId × Bool)} {T : Whole K V} {root : PageId} {key : K} {value : V}
  {s : BufferPoolManager (BPlusTreePage K V) (PageId → BPlusTreePage K V)}
  {t : PageStore (BPlusTreePage K V)} {fuel : ℕ}

/-- If `NewPage` or `FetchPage` returns `nullptr` on the way, `Insert` returns false, the pages
represent a tree with the same entries as before, and the pins are those of the others. -/
def AtomicInsert (tree : BPlusTree) (frame : PageId → Option (BPlusTreePage K V))
    (others : Multiset (PageId × Bool)) (T : Whole K V) (fuel : ℕ) (root : PageId) (key : K)
    (value : V) (s : BufferPoolManager (BPlusTreePage K V) (PageId → BPlusTreePage K V)) : Prop :=
  (tree.insert fuel root key value).Meets (handler (idealDisk _)) PoolCall.IsNull s →
    ∃ root' s' T' t', (tree.insert fuel root key value).run (handler (idealDisk _)) s =
        some ((false, root'), s') ∧
      Refines s' (t'.among others) ∧ tree.Represents frame T' root' t' ∧ T'.entries = T.entries

/-- There are the frames that `Insert` needs at the leaf for the key; it needs none that it does
not check where there is no leaf. -/
def HasInsertFrames (tree : BPlusTree) (others : Finset PageId) (frames : ℕ) (T : Whole K V)
    (key : K) : Prop :=
  ∀ (ctx : Context K V 0) (p : PageId) (es : List (K × V)), T = some (ctx.plug (leaf p es)) →
    ctx.lo ≤ key → ((key : WithBot K) : WithTop (WithBot K)) < ctx.hi →
    tree.insertFrames others ctx p es key ≤ frames

/-- The empty tree: the one result that is checked. -/
lemma Represents.atomicInsert_empty (hs : Refines s (t.among others))
    (ht : tree.Represents frame none root t) :
    tree.AtomicInsert frame others none fuel root key value s := by
  intro hmeets
  have hroot : root = invalidPageId := ht.root_eq
  rw [BPlusTree.insert, if_pos hroot] at hmeets ⊢
  rcases hs.newPage with ⟨hnone, -⟩ | ⟨f, s', hsome, -⟩
  · refine ⟨root, s, none, t, ?_, hs, ht, rfl⟩
    simp [handler, hnone]
  · -- a page comes back, and what follows asks for no other
    exfalso
    have hcall : handler (idealDisk (BPlusTreePage K V)) _ .newPage s =
        some (some (t.among others).nextPageId, s') := by
      simp [handler, hsome]
    rcases meets_bind.1 hmeets with hmeets | ⟨r, u, hrun, hmeets⟩
    · obtain ⟨r, u, hrun, hr⟩ := (meets_op ..).1 hmeets
      obtain ⟨rfl, -⟩ := Prod.mk.inj (Option.some.inj (hcall.symm.trans hrun))
      exact Option.some_ne_none _ hr
    · rw [run_op, hcall] at hrun
      obtain ⟨rfl, -⟩ := Prod.mk.inj (Option.some.inj hrun)
      refine Calls.not_meets PoolCall.not_isNull_of_isQuiet ?_ hmeets
      refine Calls.bind (calls_ofOption _) fun leaf => ?_
      exact Calls.bind (calls_write _ _) fun _ => Calls.bind (calls_unpin _ true) fun _ => trivial

/-- `Insert` into a tree with a root, in a pool in which others hold pins: it meets `nullptr` iff
there are fewer frames than it needs. -/
lemma Represents.meets_null_iff {ctx : Context K V 0} {p : PageId} {es : List (K × V)}
    (hv : tree.Sound) (hs : Refines s (t.among others))
    (ht : tree.Represents frame (some (ctx.plug (leaf p es))) root t) (hfuel : ctx.depth < fuel)
    (hlo : ctx.lo ≤ key) (hhi : ((key : WithBot K) : WithTop (WithBot K)) < ctx.hi)
    (hroom : tree.Valid ∨ es.length < tree.leafMaxSize ∨ ∃ v, (key, v) ∈ es) :
    (tree.insert fuel root key value).Meets (handler (idealDisk _)) PoolCall.IsNull s ↔
      s.poolSize < tree.insertFrames (PageStore.pagesOf others) ctx p es key := by
  have hhinges : (tree.insert fuel root key value).HingesOn
      (PageStore.sharedHandler (PageStore.pagesOf others) s.poolSize) _ _ _ t :=
    ht.hingesOn_insert hv hs.lt_nextPageId hfuel hlo hhi hroom value
  have hsim := sharedHandler_simulates (D := BPlusTreePage K V) others s.poolSize
  constructor
  · intro hmeets
    by_contra hle
    obtain ⟨⟨a, t', hrun, -⟩, hnot⟩ := hhinges.clean (not_lt.1 hle)
    exact hnot (hmeets.of_simulating hsim ⟨hs, rfl⟩ hrun)
  · intro hlt
    exact (hhinges.meets (not_le.2 hlt)).of_simulates hsim ⟨hs, rfl⟩

/-- Where `Insert` writes a slot of `array_` beyond `max_size`, the slot is there. -/
def StaysInPages (tree : BPlusTree) (T : Whole K V) (key : K) : Prop :=
  tree.Valid ∨ ∀ (ctx : Context K V 0) (p : PageId) (es : List (K × V)),
    T = some (ctx.plug (leaf p es)) → ctx.lo ≤ key →
    ((key : WithBot K) : WithTop (WithBot K)) < ctx.hi →
    es.length < tree.leafMaxSize ∨ ∃ v, (key, v) ∈ es

/-- For any pins of others, `Insert` is atomic iff the tree is empty or the pool has the frames that
it needs. -/
theorem atomicInsert_iff (hv : tree.Sound) (hpages : tree.StaysInPages T key)
    (hs : Refines s (t.among others)) (ht : tree.Represents frame T root t)
    (hfuel : T.levels ≤ fuel) :
    tree.AtomicInsert frame others T fuel root key value s ↔
      tree.HasInsertFrames (PageStore.pagesOf others) s.poolSize T key := by
  have hdepth : ∀ (ctx : Context K V 0) (p : PageId) (es : List (K × V)),
      T = some (ctx.plug (leaf p es)) → ctx.depth < fuel := by
    rintro ctx p es rfl
    rw [Whole.levels, Context.height_plug] at hfuel
    omega
  have hroom : ∀ (ctx : Context K V 0) (p : PageId) (es : List (K × V)),
      T = some (ctx.plug (leaf p es)) → ctx.lo ≤ key →
      ((key : WithBot K) : WithTop (WithBot K)) < ctx.hi →
      tree.Valid ∨ es.length < tree.leafMaxSize ∨ ∃ v, (key, v) ∈ es :=
    fun ctx p es hT hlo hhi => hpages.imp_right fun hpages => hpages ctx p es hT hlo hhi
  constructor
  · -- with fewer frames the call has no defined behaviour
    rintro hatomic ctx p es rfl hlo hhi
    by_contra hlt
    have hmeets : (tree.insert fuel root key value).Meets (handler (idealDisk _)) PoolCall.IsNull
        s := (ht.meets_null_iff hv hs (hdepth ctx p es rfl) hlo hhi
      (hroom ctx p es rfl hlo hhi)).2 (not_le.1 hlt)
    have hne : root ≠ invalidPageId := by
      rcases ht.cases with ⟨hnone, -⟩ | ⟨n, u, -, -, hne⟩
      · cases hnone
      · exact hne
    obtain ⟨root', s', T', t', hrun, -⟩ := hatomic hmeets
    cases ((tree.trusts_insert fuel hne key value).run_eq_none hmeets).symm.trans hrun
  · intro hframes
    rcases ht.cases with ⟨rfl, -⟩ | ⟨n, u, rfl, -, -⟩
    · exact ht.atomicInsert_empty hs
    · -- with the frames no result is `nullptr`
      intro hmeets
      exfalso
      obtain ⟨ctx, p, es, hplug, hlo, hhi⟩ := ht.exists_context hv key
      rw [← hplug] at ht hdepth hroom hframes
      have hlt := (ht.meets_null_iff hv hs (hdepth ctx p es rfl) hlo hhi
        (hroom ctx p es rfl hlo hhi)).1 hmeets
      exact not_le.2 hlt (hframes ctx p es rfl hlo hhi)

/-! ## A pool of one frame -/

/-- The tree with the entry `(1, 1)`, in the page 0. -/
def oneLeaf : BPlusTreePage ℕ ℕ :=
  .leaf { maxSize := 2, size := 1, array := fun _ => (1, 1) }

/-- A pool of one frame, with the tree on the disk. -/
def onePool : BufferPoolManager (BPlusTreePage ℕ ℕ) (PageId → BPlusTreePage ℕ ℕ) :=
  .init 1 1 (fun p => if p = 0 then oneLeaf else default) 1

/-- The pages of this pool. -/
def oneStore : PageStore (BPlusTreePage ℕ ℕ) where
  content p := if p = 0 then some oneLeaf else none
  nextPageId := 1

/-- The pool with a single frame that nobody uses, and with a root leaf on disk, is a pool for the
store with this page. -/
lemma refines_onePool : Refines onePool oneStore where
  consistent := consistent_init 1 1 _ 1 (by decide)
  next_eq := rfl
  pin_eq p f hf := by cases (AList.lookup_empty p).symm.trans hf
  pinned p hne := absurd rfl hne
  content_eq p d hd := by
    have hdisk : onePool.view p = if p = 0 then oneLeaf else default := rfl
    change (if p = 0 then some oneLeaf else none) = some d at hd
    split_ifs at hd with hp
    rw [hdisk, if_pos hp]
    exact Option.some.inj hd
  content_lt p d hd := by
    change (if p = 0 then some oneLeaf else none) = some d at hd
    split_ifs at hd with hp
    subst hp
    exact ⟨le_refl 0, Int.one_pos⟩
  clean p f hf := by cases (AList.lookup_empty p).symm.trans hf
  fresh p hp := by
    have hne : p ≠ 0 := by
      rintro rfl
      exact absurd hp (by decide)
    exact if_neg hne

/-- The page of the other client. -/
def otherPages : PageId → Option (BPlusTreePage ℕ ℕ) :=
  Function.update (fun _ => none) 1 (some default)

/-- Another client takes the only frame: it pins a new page. -/
lemma exists_exhausted :
    ∃ (s : BufferPoolManager (BPlusTreePage ℕ ℕ) (PageId → BPlusTreePage ℕ ℕ))
      (t : PageStore (BPlusTreePage ℕ ℕ)), Refines s (t.among {(1, false)}) ∧ s.poolSize = 1 ∧
        t.pins = 0 ∧ t.nextPageId = 2 ∧
        t.content = Function.update oneStore.content 1 (some default) := by
  rcases refines_onePool.newPage with ⟨-, hall⟩ | ⟨f, s, -, hs, -, hsize, -⟩
  · exact absurd hall (refines_onePool.not_allPinned (by decide))
  · exact ⟨s, { oneStore.allocate with pins := 0 }, hs, hsize, rfl, rfl, rfl⟩

/-- A pool whose only frame is pinned by another client, so that the first leaf cannot be allocated.
-/
theorem atomicInsert_exhausted :
    ∃ (s : BufferPoolManager (BPlusTreePage ℕ ℕ) (PageId → BPlusTreePage ℕ ℕ))
      (t : PageStore (BPlusTreePage ℕ ℕ)), s.poolSize = 1 ∧ Refines s (t.among {(1, false)}) ∧
        (init 2 3).AtomicInsert t.content {(1, false)} none 1 invalidPageId 2 2 s := by
  obtain ⟨s, t, hs, hsize, hpins, hnext, -⟩ := exists_exhausted
  have hv : (init 2 3).Valid := init_valid (by decide) (by decide)
  have hempty : (init 2 3).Represents t.content none invalidPageId t := by
    refine ⟨trivial, rfl, PageStore.Owned.zero _ hpins (fun q hq => ?_) (by rw [hnext]; decide)⟩
    obtain ⟨x, hx⟩ := Option.ne_none_iff_exists'.1 hq
    exact hs.content_lt q x hx
  exact ⟨s, t, hsize, hs, (atomicInsert_iff hv.sound (.inl hv) hs hempty (by decide)).2
    fun ctx p es hT => by cases hT⟩

/-- The tree in this pool, next to the page of the other client. -/
lemma represents_oneLeaf {t : PageStore (BPlusTreePage ℕ ℕ)} (hpins : t.pins = 0)
    (hnext : t.nextPageId = 2)
    (hcontent : t.content = Function.update oneStore.content 1 (some default)) :
    (init 2 3).Represents otherPages (some ((Context.root : Context ℕ ℕ 0).plug
      (leaf 0 [(1, 1)]))) 0 t := by
  have hcontent : t.content = Function.update otherPages 0 (some oneLeaf) := by
    rw [hcontent]
    funext p
    by_cases h₀ : p = 0
    · subst h₀
      rfl
    · by_cases h₁ : p = 1
      · subst h₁
        rfl
      · rw [Function.update_of_ne h₁, Function.update_of_ne h₀, otherPages,
          Function.update_of_ne h₁]
        exact if_neg h₀
  have hshows : (init 2 3).Shows oneLeaf (.leaf [(1, 1)] invalidPageId invalidPageId) :=
    ⟨⟨rfl, fun i x hx => (List.mem_singleton.1 (List.mem_of_getElem? hx)).symm⟩, rfl, rfl, rfl⟩
  refine ⟨⟨⟨le_refl 1, by decide⟩, shaped_leaf.2 ⟨by simp, by simp⟩⟩, rfl, ?_, hpins, ?_, ?_⟩
  · rw [hcontent]
    exact (Ownership.Owns.zero _ otherPages).alloc rfl hshows
  · intro q hq
    rw [hcontent] at hq
    rw [hnext]
    by_contra hout
    refine hq ?_
    rw [Function.update_of_ne (by rintro rfl; exact hout (by decide)), otherPages,
      Function.update_of_ne (by rintro rfl; exact hout (by decide))]
  · rw [hnext]
    decide

/-- `Insert` with a root in the exhausted pool. -/
theorem not_atomicInsert_oneLeaf :
    ¬ ∀ (frame : PageId → Option (BPlusTreePage ℕ ℕ)) (others : Multiset (PageId × Bool))
      (T : Whole ℕ ℕ) (fuel : ℕ) (root : PageId) (key value : ℕ)
      (s : BufferPoolManager (BPlusTreePage ℕ ℕ) (PageId → BPlusTreePage ℕ ℕ))
      (t : PageStore (BPlusTreePage ℕ ℕ)), Refines s (t.among others) →
      (init 2 3).Represents frame T root t → T.levels ≤ fuel →
      (init 2 3).AtomicInsert frame others T fuel root key value s := by
  intro h
  obtain ⟨s, t, hs, hsize, hpins, hnext, hcontent⟩ := exists_exhausted
  have ht := represents_oneLeaf hpins hnext hcontent
  have hv : (init 2 3).Valid := init_valid (by decide) (by decide)
  have hmeets : ((init 2 3).insert 1 0 2 2).Meets (handler (idealDisk _)) PoolCall.IsNull s :=
    (ht.meets_null_iff hv.sound hs (by decide) bot_le (WithTop.coe_lt_top _) (.inl hv)).2
      (by rw [hsize]; decide)
  obtain ⟨root', s', T', t', hrun, -⟩ := h _ _ _ 1 0 2 2 s t hs ht (by decide) hmeets
  cases (((init 2 3).trusts_insert 1 (by decide) 2 2).run_eq_none hmeets).symm.trans hrun

end BPlusTree

end OneBase
