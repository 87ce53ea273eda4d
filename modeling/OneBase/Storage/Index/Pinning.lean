import OneBase.Buffer.Transparency
import OneBase.Lib.Transition
import OneBase.Storage.Index.Iterator
import OneBase.Storage.Index.Structure

set_option relaxedAutoImplicit false
set_option autoImplicit false

/-!
# A client of a B+ tree on a buffer pool

A client calls the tree and iterates over it, on any environment that gives the calls of the tree
on the pool a meaning. On the page store such a call is defined only if the tree pins no more pages
than there are frames, touches a page only under a pin, and unpins with `is_dirty = true` what it
wrote; the pool simulates the page store.

## Main definitions

* `OneBase.IndexRequest`, `OneBase.BPlusTree.serve` — what a client asks for.
* `OneBase.IndexSession` — the tree, the iterators that may be used, and the environment.

## Main results

* `OneBase.IndexSession.Valid.serve` — every request is served, and the pages of the tree stay
  those that its root reaches, without pins.
* `OneBase.IndexSession.served_on_pool` — runs on a buffer pool with four frames or more.
-/

namespace OneBase

open Effect Effect.Program SearchTree

/-- A request of a client, that calls the tree or uses an iterator. -/
inductive IndexRequest (K V : Type)
  | call (c : IndexCall K V)
  | begin
  | beginAt (key : K)
  | deref (it : BPlusTreeIterator)
  | next (it : BPlusTreeIterator)

/-- The answer to a request. -/
inductive IndexAnswer (K V : Type)
  | result (r : IndexResult V)
  | iterator (it : BPlusTreeIterator)
  | entry (x : K × V)
  deriving DecidableEq

/-- The request on the tree with the root page `root`: the answer and `root_page_id_`. -/
def BPlusTree.serve {K V : Type} [Inhabited K] [Inhabited V] [LinearOrder K] (tree : BPlusTree)
    (fuel : ℕ) (root : PageId) :
    IndexRequest K V → Program (PoolCall (BPlusTreePage K V)) (IndexAnswer K V × PageId)
  | .call c => do
    let (r, root) ← tree.perform fuel root c
    pure (.result r, root)
  | .begin => do
    let it ← tree.begin fuel root
    pure (.iterator it, root)
  | .beginAt key => do
    let it ← tree.beginAt fuel root key
    pure (.iterator it, root)
  | .deref it => do
    let x ← it.deref tree
    pure (.entry x, root)
  | .next it => do
    let it ← it.next
    pure (.iterator it, root)

/-- Where a client stands: `root_page_id_`, the iterators obtained after the last `Insert` or
`Remove`, and the environment. -/
structure IndexSession (σ : Type) where
  root : PageId
  iterators : List BPlusTreeIterator
  env : σ

namespace IndexSession

variable {K V σ : Type}

/-- An iterator is used only if it was obtained after the last `Insert` or `Remove` and is not at
`End()`. -/
def Allows (iterators : List BPlusTreeIterator) : IndexRequest K V → Prop
  | .deref it => it ∈ iterators ∧ ¬ it.isEnd = true
  | .next it => it ∈ iterators ∧ ¬ it.isEnd = true
  | _ => True

/-- The iterators that may be used after a request. -/
def iteratorsAfter (iterators : List BPlusTreeIterator) :
    IndexRequest K V → IndexAnswer K V → List BPlusTreeIterator
  | .call (.insert _ _), _ => []
  | .call (.remove _), _ => []
  | _, .iterator it => it :: iterators
  | _, _ => iterators

/-- A request that the environment `h` serves, with its answer. -/
def Step [Inhabited K] [Inhabited V] [LinearOrder K] (tree : BPlusTree) (fuel : ℕ)
    (h : Handler (PoolCall (BPlusTreePage K V)) σ) (x : IndexSession σ)
    (e : IndexRequest K V × IndexAnswer K V) (y : IndexSession σ) : Prop :=
  Allows x.iterators e.1 ∧
  (tree.serve fuel x.root e.1).run h x.env = some ((e.2, y.root), y.env) ∧
  y.iterators = iteratorsAfter x.iterators e.1 e.2

instance (iterators : List BPlusTreeIterator) (request : IndexRequest K V) :
    Decidable (Allows iterators request) := by
  unfold Allows
  split <;> infer_instance

/-- The answers to these requests, one after the other, if they are allowed and the environment
serves them. -/
def serveAll [Inhabited K] [Inhabited V] [LinearOrder K] (tree : BPlusTree) (fuel : ℕ)
    (h : Handler (PoolCall (BPlusTreePage K V)) σ) (x : IndexSession σ) :
    List (IndexRequest K V) → Option (List (IndexAnswer K V) × IndexSession σ)
  | [] => some ([], x)
  | request :: requests =>
    if Allows x.iterators request then do
      let ((answer, root), env) ← (tree.serve fuel x.root request).run h x.env
      let (answers, y) ← serveAll tree fuel h
        ⟨root, iteratorsAfter x.iterators request answer, env⟩ requests
      pure (answer :: answers, y)
    else none

/-- Requests that are served one after the other are a session. -/
lemma run_of_serveAll [Inhabited K] [Inhabited V] [LinearOrder K] {tree : BPlusTree} {fuel : ℕ}
    {h : Handler (PoolCall (BPlusTreePage K V)) σ} {x y : IndexSession σ}
    {requests : List (IndexRequest K V)} {answers : List (IndexAnswer K V)}
    (hserve : serveAll tree fuel h x requests = some (answers, y)) :
    Transition.Run (Step tree fuel h) x (requests.zip answers) y := by
  induction requests generalizing x answers with
  | nil =>
    cases hserve
    exact .nil _
  | cons request requests ih =>
    unfold serveAll at hserve
    split_ifs at hserve with hallows
    obtain ⟨⟨⟨answer, root⟩, env⟩, hanswer, hserve⟩ := Option.bind_eq_some_iff.1 hserve
    obtain ⟨⟨answers', z⟩, hrest, hend⟩ := Option.bind_eq_some_iff.1 hserve
    cases hend
    exact .cons ⟨hallows, hanswer, rfl⟩ (ih hrest)

end IndexSession

/-! ## Simulations -/

section Simulations

variable {D σ : Type}

/-- What is defined without `nullptr` is defined. -/
lemma PoolCall.neverNull_simulates (h : Handler (PoolCall D) σ) :
    Handler.Simulates (PoolCall.neverNull h) h Eq := by
  rintro β e s₁ s₂ b s₁' rfl hrun
  refine ⟨s₁', ?_, rfl⟩
  cases e with
  | newPage => exact (Option.filter_eq_some_iff.1 hrun).1
  | fetchPage p => exact (Option.filter_eq_some_iff.1 hrun).1
  | unpinPage p d => exact hrun
  | deletePage p => exact hrun
  | read p => exact hrun
  | write p d => exact hrun

/-- What needs a bounded number of pinned pages is defined without the bound. -/
lemma PageStore.handler_simulates_top [Inhabited D] (frames : ℕ∞) :
    Handler.Simulates (PageStore.handler (D := D) frames) (PageStore.handler ⊤) Eq := by
  rintro β e t₁ t₂ b t₁' rfl hrun
  refine ⟨t₁', ?_, rfl⟩
  have htop : (t₁.pinnedPages.card : ℕ∞) < ⊤ := ENat.natCast_lt_top _
  cases e with
  | newPage =>
    simp only [PageStore.handler] at hrun ⊢
    split_ifs at hrun
    rw [if_pos htop]
    exact hrun
  | fetchPage p =>
    simp only [PageStore.handler] at hrun ⊢
    split_ifs at hrun with hnone
    rw [if_neg hnone, if_pos (.inr htop)]
    exact hrun
  | unpinPage p d => exact hrun
  | deletePage p => exact hrun
  | read p => exact hrun
  | write p d => exact hrun

end Simulations

namespace IndexSession

variable {K V : Type} [LinearOrder K] {tree : BPlusTree}
  {frame : PageId → Option (BPlusTreePage K V)} {T : Whole K V} {frames : ℕ∞} {fuel : ℕ}

/-- The pages represent a tree, and the iterators that may be used are in it. -/
structure Valid (tree : BPlusTree) (frame : PageId → Option (BPlusTreePage K V)) (T : Whole K V)
    (x : IndexSession (PageStore (BPlusTreePage K V))) : Prop where
  represents : tree.Represents frame T x.root x.env
  at_tree : ∀ it ∈ x.iterators, ∃ rest, T.At tree it rest

/-- A new iterator at a place of the tree keeps the session valid. -/
lemma Valid.cons {root : PageId} {its : List BPlusTreeIterator} {it : BPlusTreeIterator}
    {s s' : PageStore (BPlusTreePage K V)} {rest : List (K × V)}
    (h : Valid tree frame T ⟨root, its, s⟩) (hrep : tree.Represents frame T root s')
    (hit : T.At tree it rest) : Valid tree frame T ⟨root, it :: its, s'⟩ where
  represents := hrep
  at_tree := by
    intro it' hmem
    rcases List.mem_cons.1 hmem with rfl | hmem
    · exact ⟨rest, hit⟩
    · exact h.at_tree it' hmem

variable [Inhabited K] [Inhabited V]

/-- A request is served, with four frames. -/
lemma Valid.serve (hv : tree.Valid) (hframes : ((4 : ℕ) : ℕ∞) ≤ frames)
    {x : IndexSession (PageStore (BPlusTreePage K V))} (h : Valid tree frame T x)
    (hfuel : T.levels ≤ fuel) {request : IndexRequest K V} (hallows : Allows x.iterators request) :
    wp (PageStore.handler frames) (tree.serve fuel x.root request)
      (fun r s' => ∃ T', Valid tree frame T' ⟨r.2, iteratorsAfter x.iterators request r.1, s'⟩ ∧
        T'.levels ≤ T.levels + 1) x.env := by
  have hpos : (0 : ℕ∞) < frames := lt_of_lt_of_le (by norm_cast) hframes
  have hthree : ((3 : ℕ) : ℕ∞) ≤ frames := le_trans (by norm_cast) hframes
  have hrep := h.represents
  cases request with
  | call c =>
    refine (wp_bind ..).2 ?_
    cases c with
    | insert key value =>
      refine wp_seq (hrep.insert hv.sound hthree hfuel (.inl hv) value) ?_
      intro r s' hr
      obtain ⟨T', hrep, hlevels, -⟩ := hr
      exact (wp_pure ..).2
        ((wp_pure ..).2 ⟨T', ⟨hrep, by simp [iteratorsAfter]⟩, by omega⟩)
    | remove key =>
      refine wp_seq (hrep.remove hv.sound hframes hfuel key) ?_
      intro r s' hr
      obtain ⟨T', hrep, hlevels, -⟩ := hr
      exact (wp_pure ..).2
        ((wp_pure ..).2 ⟨T', ⟨hrep, by simp [iteratorsAfter]⟩, hlevels.trans (Nat.le_succ _)⟩)
    | getValue key result =>
      refine wp_seq (hrep.getValue hv.sound hpos hfuel key result) ?_
      intro r s' hr
      exact (wp_pure ..).2 ((wp_pure ..).2 ⟨T, ⟨hr.2, h.at_tree⟩, Nat.le_succ _⟩)
    | isEmpty => exact (wp_pure ..).2 ((wp_pure ..).2 ⟨T, ⟨hrep, h.at_tree⟩, Nat.le_succ _⟩)
  | begin =>
    refine wp_seq (hrep.begin hv.sound hpos hfuel) ?_
    intro it s' hit
    exact (wp_pure ..).2 ⟨T, h.cons hit.2 hit.1, Nat.le_succ _⟩
  | beginAt key =>
    refine wp_seq (hrep.beginAt hv.sound hpos hfuel key) ?_
    intro it s' hit
    exact (wp_pure ..).2 ⟨T, h.cons hit.2 hit.1, Nat.le_succ _⟩
  | deref it =>
    obtain ⟨rest, hit⟩ := h.at_tree it hallows.1
    obtain ⟨y, rest, rfl⟩ : ∃ y rest', rest = y :: rest' := by
      rcases hit with ⟨rfl, -⟩ | ⟨ctx, es, -, -, -, hindex, hrest⟩
      · exact absurd rfl hallows.2
      · rw [List.drop_eq_getElem_cons hindex] at hrest
        exact ⟨_, _, hrest⟩
    refine wp_seq (hrep.deref hv.sound hpos hit) ?_
    intro y' s' hy
    exact (wp_pure ..).2 ⟨T, ⟨hy.2, h.at_tree⟩, Nat.le_succ _⟩
  | next it =>
    obtain ⟨rest, hit⟩ := h.at_tree it hallows.1
    refine wp_seq (hrep.next hv.sound hpos hit) ?_
    intro it' s' hit'
    exact (wp_pure ..).2 ⟨T, h.cons hit'.2 hit'.1, Nat.le_succ _⟩

/-! ## On a buffer pool -/

section Pool

open BufferPoolManager

variable {s : BufferPoolManager (BPlusTreePage K V) (PageId → BPlusTreePage K V)}
  {t : PageStore (BPlusTreePage K V)} {root : PageId} {its : List BPlusTreeIterator}
  {request : IndexRequest K V}

/-- On a pool that refines a page store, a request is served as on the page store with four frames,
without `nullptr`, and as on the page store without a bound. -/
lemma Valid.serve_on_pool (hv : tree.Valid) (h : Valid tree frame T ⟨root, its, t⟩)
    (hfuel : T.levels ≤ fuel) (hallows : Allows its request) (hs : Refines s t)
    (hsize : 4 ≤ s.poolSize) :
    ∃ (r : IndexAnswer K V × PageId) (s' : BufferPoolManager (BPlusTreePage K V)
      (PageId → BPlusTreePage K V)) (t' : PageStore (BPlusTreePage K V)) (T' : Whole K V),
      (tree.serve fuel root request).run (handler (idealDisk _)) s = some (r, s') ∧
      (tree.serve fuel root request).run (PoolCall.neverNull (handler (idealDisk _))) s =
        some (r, s') ∧
      (tree.serve fuel root request).run (PageStore.handler (4 : ℕ)) t = some (r, t') ∧
      (tree.serve fuel root request).run (PageStore.handler ⊤) t = some (r, t') ∧
      Refines s' t' ∧ 4 ≤ s'.poolSize ∧
      Valid tree frame T' ⟨r.2, iteratorsAfter its request r.1, t'⟩ ∧
      T'.levels ≤ T.levels + 1 := by
  obtain ⟨r, t', hrun, T', hvalid, hlevels⟩ :=
    h.serve hv (le_rfl : 4 ≤ ((4 : ℕ) : ℕ∞)) hfuel hallows
  obtain ⟨s', hnever, hs', hsize'⟩ := run_of_simulates (handler_simulates 4) _ ⟨hs, hsize⟩ hrun
  obtain ⟨s'', hpool, rfl⟩ := run_of_simulates (PoolCall.neverNull_simulates _) _ rfl hnever
  obtain ⟨t'', htop, rfl⟩ := run_of_simulates (PageStore.handler_simulates_top _) _ rfl hrun
  exact ⟨r, s', t', T', hpool, hnever, hrun, htop, hs', hsize', hvalid, hlevels⟩

/-- A session on the pool is a session on the page store. -/
lemma Valid.run_on_pool (hv : tree.Valid)
    {es : List (IndexRequest K V × IndexAnswer K V)}
    {x y : IndexSession (BufferPoolManager (BPlusTreePage K V) (PageId → BPlusTreePage K V))}
    (hrun : Transition.Run (Step tree fuel (handler (idealDisk _))) x es y)
    (h : Valid tree frame T ⟨x.root, x.iterators, t⟩) (hfuel : T.levels + es.length ≤ fuel)
    (hs : Refines x.env t) (hsize : 4 ≤ x.env.poolSize) :
    ∃ (t' : PageStore (BPlusTreePage K V)) (T' : Whole K V),
      Transition.Run (Step tree fuel (PoolCall.neverNull (handler (idealDisk _)))) x es y ∧
      Transition.Run (Step tree fuel (PageStore.handler (4 : ℕ))) ⟨x.root, x.iterators, t⟩ es
        ⟨y.root, y.iterators, t'⟩ ∧
      Transition.Run (Step tree fuel (PageStore.handler ⊤)) ⟨x.root, x.iterators, t⟩ es
        ⟨y.root, y.iterators, t'⟩ ∧
      Refines y.env t' ∧ 4 ≤ y.env.poolSize ∧ Valid tree frame T' ⟨y.root, y.iterators, t'⟩ ∧
      T'.levels ≤ T.levels + es.length := by
  induction hrun generalizing t T with
  | nil x => exact ⟨t, T, .nil _, .nil _, .nil _, hs, hsize, h, le_rfl⟩
  | @cons x y z e es hstep _ ih =>
    rw [List.length_cons] at hfuel
    obtain ⟨hallows, hserve, hits⟩ := hstep
    have hlevels₀ : T.levels ≤ fuel := by omega
    obtain ⟨r, s', t', T', hpool, hnever, hfour, htop, hs', hsize', hvalid, hlevels⟩ :=
      h.serve_on_pool hv hlevels₀ hallows hs hsize
    obtain ⟨hr, henv⟩ := Prod.mk.inj (Option.some.inj (hpool.symm.trans hserve))
    subst hr henv
    rw [← hits] at hvalid
    obtain ⟨t'', T'', hnevers, hfours, htops, hs'', hsize'', hvalid', hlevels'⟩ :=
      ih hvalid (by omega) hs' hsize'
    refine ⟨t'', T'', .cons ⟨hallows, hnever, hits⟩ hnevers, .cons ⟨hallows, hfour, hits⟩ hfours,
      .cons ⟨hallows, htop, hits⟩ htops, hs'', hsize'', hvalid', ?_⟩
    rw [List.length_cons]
    omega

omit [Inhabited K] [Inhabited V] in
/-- The pages outside the frame are those that the root reaches. -/
lemma Valid.content_iff (h : Valid tree frame T ⟨root, its, t⟩) (p : PageId) :
    (t.content p ≠ none ∧ frame p = none) ↔
      root ≠ invalidPageId ∧ ∃ path, BPlusTree.follow t.content root path = some p := by
  have hrep := h.represents
  have howns := hrep.owned.owns
  rw [Multiset.map_zero, zero_add] at howns
  have hkeys : (t.content p ≠ none ∧ frame p = none) ↔ p ∈ T.cells.map Prod.fst := by
    rw [howns.content_ne_none]
    constructor
    · rintro ⟨hmem | hne, hnone⟩
      · exact hmem
      · exact absurd hnone hne
    · intro hmem
      exact ⟨.inl hmem, howns.frame_eq_none p hmem⟩
  rw [hkeys]
  rcases hrep.cases with ⟨rfl, hroot⟩ | ⟨n, u, rfl, hroot, hne⟩
  · change root = invalidPageId at hroot
    simp [Whole.cells, hroot]
  · have hreach := hrep.reachable_iff p
    change root ≠ invalidPageId at hne
    constructor
    · intro hmem
      exact ⟨hne, hreach.2 hmem⟩
    · intro hpath
      exact hreach.1 hpath.2

omit [Inhabited K] [Inhabited V] in
/-- A tree without pages, next to those of other clients that hold no pins. -/
lemma valid_empty (tree : BPlusTree) (hs : Refines s t) (hpins : t.pins = 0) :
    Valid tree t.content none ⟨invalidPageId, [], t⟩ where
  represents := by
    have hallocated : ∀ q, t.content q ≠ none → 0 ≤ q ∧ q < t.nextPageId := by
      intro q hq
      obtain ⟨d, hd⟩ := Option.ne_none_iff_exists'.1 hq
      exact hs.content_lt q d hd
    have hnext : 0 ≤ t.nextPageId := by
      rw [← hs.next_eq]
      exact hs.consistent.next_nonneg
    exact ⟨trivial, rfl, PageStore.Owned.zero tree.Shows hpins hallocated hnext⟩
  at_tree := by simp

/-- A new tree on a pool of at least four frames that other clients have used without keeping pins:
in every session with the tree, no `FetchPage` or `NewPage` returns `nullptr`; the session is one on
the page store too, where no more than four pages are pinned at once and a page that was written is
unpinned with `is_dirty = true`, and one on the page store without a bound, with the same answers.
After every request no page is pinned, as before, the pages that the tree has allocated and not
deleted are those that its root reaches, and every further request is served. -/
theorem served_on_pool {leafMaxSize internalMaxSize : ℕ}
    (hleaf : 2 ≤ leafMaxSize ∧ leafMaxSize ≤ 338)
    (hinternal : 3 ≤ internalMaxSize ∧ internalMaxSize ≤ 509)
    {poolSize k : ℕ} {next : PageId} (hnext : 0 ≤ next) {events : List (PoolEvent (BPlusTreePage K V))}
    {s : BufferPoolManager (BPlusTreePage K V) (PageId → BPlusTreePage K V)}
    {t : PageStore (BPlusTreePage K V)}
    (hothers : Transition.Run ClientStep
      (init poolSize k (fun _ => default) next, { nextPageId := next }) events (s, t))
    (hpins : t.pins = 0) (hframes : 4 ≤ s.poolSize)
    {es : List (IndexRequest K V × IndexAnswer K V)} (hfuel : es.length ≤ fuel)
    {y : IndexSession (BufferPoolManager (BPlusTreePage K V) (PageId → BPlusTreePage K V))}
    (hrun : Transition.Run
      (Step (BPlusTree.init leafMaxSize internalMaxSize) fuel (handler (idealDisk _)))
      ⟨invalidPageId, [], s⟩ es y) :
    Transition.Run (Step (BPlusTree.init leafMaxSize internalMaxSize) fuel
      (PoolCall.neverNull (handler (idealDisk _)))) ⟨invalidPageId, [], s⟩ es y ∧
    (∃ t' : PageStore (BPlusTreePage K V),
      Transition.Run (Step (BPlusTree.init leafMaxSize internalMaxSize) fuel
        (PageStore.handler (4 : ℕ))) ⟨invalidPageId, [], t⟩ es ⟨y.root, y.iterators, t'⟩ ∧
      Transition.Run (Step (BPlusTree.init leafMaxSize internalMaxSize) fuel
        (PageStore.handler ⊤)) ⟨invalidPageId, [], t⟩ es ⟨y.root, y.iterators, t'⟩ ∧
      t'.pins = 0 ∧
      ∀ p, (t'.content p ≠ none ∧ t.content p = none) ↔
        y.root ≠ invalidPageId ∧ ∃ path, BPlusTree.follow t'.content y.root path = some p) ∧
    (∀ p f, y.env.Resident p f → (y.env.pages f).pinCount = 0) ∧
    ∀ request, Allows y.iterators request → ∃ answer z,
      Step (BPlusTree.init leafMaxSize internalMaxSize) fuel
        (PoolCall.neverNull (handler (idealDisk _))) y (request, answer) z := by
  have hv := BPlusTree.init_valid hleaf hinternal
  obtain ⟨hs, -⟩ := (refines_init poolSize k next hnext).run hothers
  have hlevels₀ : Whole.levels (none : Whole K V) + es.length ≤ fuel := by
    rw [Whole.levels, Nat.zero_add]
    exact hfuel
  obtain ⟨t', T, hnevers, hfours, htops, hs', hsize', hvalid, hlevels⟩ :=
    (valid_empty _ hs hpins).run_on_pool hv hrun hlevels₀ hs hframes
  have hpins' : t'.pins = 0 := by
    rw [hvalid.represents.owned.pins_eq, Multiset.map_zero]
  refine ⟨hnevers, ⟨t', hfours, htops, hpins', hvalid.content_iff⟩, ?_, ?_⟩
  · intro p f hf
    rw [hs'.pin_eq p f hf, PageStore.pinCount, hpins']
    rfl
  · intro request hallows
    have hlevels' : T.levels ≤ fuel := by
      rw [Whole.levels, Nat.zero_add] at hlevels
      exact hlevels.trans hfuel
    obtain ⟨r, s', t'', T', -, hnever, -⟩ := hvalid.serve_on_pool hv hlevels' hallows hs' hsize'
    exact ⟨r.1, ⟨r.2, _, s'⟩, hallows, hnever, rfl⟩

end Pool

section Sample

/-- Three insertions, the last of which splits the leaf, a step of an iterator over the two leaves, a
deletion, and a lookup. -/
def sampleRequests : List (IndexRequest ℤ RID) :=
  [.call (.insert 1 ⟨0, 1⟩), .call (.insert 2 ⟨0, 2⟩), .call (.insert 3 ⟨0, 3⟩), .begin,
    .deref ⟨0, 0⟩, .next ⟨0, 0⟩, .call (.remove 2), .call (.getValue 3 [])]

/-- The answers to these requests. -/
def sampleAnswers : List (IndexAnswer ℤ RID) :=
  [.result (.inserted true), .result (.inserted true), .result (.inserted true), .iterator ⟨0, 0⟩,
    .entry (1, ⟨0, 1⟩), .iterator ⟨1, 0⟩, .result .removed, .result (.found true [⟨0, 3⟩])]

/-- Before the first request, on a pool of four frames. -/
def sampleStart : IndexSession
    (BufferPoolManager (BPlusTreePage ℤ RID) (PageId → BPlusTreePage ℤ RID)) :=
  ⟨invalidPageId, [], .init 4 1 (fun _ => default) 0⟩

/-- A session with a split, an iterator and a `Remove` on a pool of four frames. -/
theorem served_on_pool_sample :
    ∃ y, Transition.Run
        (Step (BPlusTree.init 2 3) 8 (BufferPoolManager.handler (BufferPoolManager.idealDisk _)))
        sampleStart (sampleRequests.zip sampleAnswers) y ∧
      y.root = 2 ∧ ∀ p f, y.env.Resident p f → (y.env.pages f).pinCount = 0 := by
  have hserve : (serveAll (BPlusTree.init 2 3) 8
      (BufferPoolManager.handler (BufferPoolManager.idealDisk _)) sampleStart sampleRequests).map
        (fun x => (x.1, x.2.root)) = some (sampleAnswers, 2) := by
    decide +kernel
  obtain ⟨⟨answers, y⟩, hserve, heq⟩ := Option.map_eq_some_iff.1 hserve
  obtain ⟨rfl, hroot⟩ := Prod.mk.inj heq
  have hsession := run_of_serveAll hserve
  have hleaf : 2 ≤ 2 ∧ 2 ≤ 338 := by decide
  have hinternal : 3 ≤ 3 ∧ 3 ≤ 509 := by decide
  have hlength : (sampleRequests.zip sampleAnswers).length ≤ 8 := le_rfl
  exact ⟨y, hsession, hroot,
    (served_on_pool hleaf hinternal le_rfl (.nil _) rfl le_rfl hlength hsession).2.2.1⟩

end Sample

end IndexSession

end OneBase
