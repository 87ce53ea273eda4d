import OneBase.Storage.Table.TableHeap

set_option relaxedAutoImplicit false
set_option autoImplicit false

/-!
# What a table heap holds

The contents of a heap are the slots of the pages along its chain; its rows are the live slots in
the order of the chain.

## Main definitions

* `OneBase.TableHeap.Holds` — the pages of a heap and their slots.
* `OneBase.TableHeap.liveRows` — the rows of these pages.

## Main results

* `OneBase.TableHeap.Holds.begin`, `increment`, `getTuple` — the iterator visits the rows.
-/

namespace OneBase

open Effect Effect.Program Memory

/-! ## Pages in a chain -/

namespace TablePage

variable {p q : TablePage} {slots : List (Option (List UInt8))} {s : ℕ} {l : List UInt8}

/-- The link is read off the first four bytes of the header. -/
lemma getNextPageId_congr (h : ∀ i < 4, q.data i = p.data i) :
    q.getNextPageId = p.getNextPageId := by
  unfold getNextPageId readInt32
  rw [readLE_congr (fun i _ hi => h i (by omega))]

/-- A slot that is written leaves the link alone. -/
lemma getNextPageId_writeTuple (p : TablePage) (s : ℕ) (hfsp : p.getFreeSpacePointer ≤ pageSize)
    (hfit : 4 + l.length ≤ p.getFreeSpacePointer) :
    (p.writeTuple s l).getNextPageId = p.getNextPageId := by
  simp only [pageSize] at hfsp
  refine getNextPageId_congr fun i hi => ?_
  have hsub : sub32 p.getFreeSpacePointer l.length = p.getFreeSpacePointer - l.length :=
    sub32_eq (by omega) (by omega)
  have hdata : (p.writeTuple s l).data = writeLE 2 (writeLE 2 (writeBytes
      (writeLE 4 p.data 8 (p.getFreeSpacePointer - l.length)) (p.getFreeSpacePointer - l.length) l)
      (16 + s * 4) (p.getFreeSpacePointer - l.length)) (16 + s * 4 + 2) l.length := by
    rw [← hsub]
    rfl
  rw [hdata, writeLE_of_outside (by omega), writeLE_of_outside (by omega),
    writeBytes_of_outside (by omega), writeLE_of_outside (by omega)]

/-- Deleting a tuple leaves the link of the page. -/
lemma getNextPageId_deleteTuple (p : TablePage) (s : ℕ) :
    (p.deleteTuple s).getNextPageId = p.getNextPageId := by
  refine getNextPageId_congr fun i hi => ?_
  have hdata : (p.deleteTuple s).data =
      writeLE 2 (writeLE 2 p.data (16 + s * 4 + 2) 0) (16 + s * 4) 0 := rfl
  rw [hdata, writeLE_of_outside (by omega), writeLE_of_outside (by omega)]

/-- The link of an initialised page. -/
lemma getNextPageId_init (p : TablePage) : (p.init invalidPageId).getNextPageId = invalidPageId := by
  have hcongr : ∀ i < 4, (p.init invalidPageId).data i =
      writeInt32 (writeBytes p.data 0 (List.replicate pageSize 0)) 0 invalidPageId i := by
    intro i hi
    have hdata : (p.init invalidPageId).data = writeLE 4 (writeLE 4
        (writeInt32 (writeBytes p.data 0 (List.replicate pageSize 0)) 0 invalidPageId) 4 0) 8
        pageSize := rfl
    rw [hdata, writeLE_of_outside (by omega), writeLE_of_outside (by omega)]
  have hlink := getNextPageId_congr (p := ⟨writeInt32 (writeBytes p.data 0
    (List.replicate pageSize 0)) 0 invalidPageId⟩) hcongr
  rw [hlink]
  unfold getNextPageId
  rw [readInt32_writeInt32 _ _ (by decide) (by decide)]

/-- Setting the link leaves the bytes behind it. -/
lemma data_setNextPageId (p : TablePage) (n : PageId) {i : ℕ} (hi : 4 ≤ i) :
    (p.setNextPageId n).data i = p.data i := by
  show writeInt32 p.data 0 n i = p.data i
  unfold writeInt32
  exact writeLE_of_outside (by omega)

/-- The link that was set is read back. -/
lemma getNextPageId_setNextPageId (p : TablePage) {n : PageId} (hlo : -2 ^ 31 ≤ n)
    (hhi : n < 2 ^ 31) : (p.setNextPageId n).getNextPageId = n :=
  readInt32_writeInt32 p.data 0 hlo hhi

/-- Setting the link leaves the number of tuples. -/
lemma getNumTuples_setNextPageId (p : TablePage) (n : PageId) :
    (p.setNextPageId n).getNumTuples = p.getNumTuples :=
  readLE_congr fun _ hi _ => data_setNextPageId p n hi

/-- Setting the link leaves the tuples where they are. -/
lemma getFreeSpacePointer_setNextPageId (p : TablePage) (n : PageId) :
    (p.setNextPageId n).getFreeSpacePointer = p.getFreeSpacePointer :=
  readLE_congr fun _ hi _ => data_setNextPageId p n (by omega)

/-- Linking a page leaves its slots alone. -/
lemma Intact.setNextPageId (h : Intact p slots) (n : PageId) : Intact (p.setNextPageId n) slots := by
  have hout : ∀ i, 4 ≤ i → (p.setNextPageId n).data i = p.data i :=
    fun i hi => data_setNextPageId p n hi
  have hnum := getNumTuples_setNextPageId p n
  have hfsp := getFreeSpacePointer_setNextPageId p n
  have hoff : ∀ t, (p.setNextPageId n).getTupleOffsetAtSlot t = p.getTupleOffsetAtSlot t := by
    refine fun t => readLE_congr fun i hi _ => hout i ?_
    simp only [slotOffset, sizeTablePageHeader] at hi
    omega
  have hlen : ∀ t, (p.setNextPageId n).getTupleLengthAtSlot t = p.getTupleLengthAtSlot t := by
    refine fun t => readLE_congr fun i hi _ => hout i ?_
    simp only [slotOffset, sizeTablePageHeader] at hi
    omega
  refine ⟨hnum.trans h.numTuples_eq, by rw [hfsp]; exact h.slots_le, by rw [hfsp]; exact h.fsp_le,
    ?_, ?_, ?_⟩
  · intro s b hb
    have hlive := h.live s b hb
    have hslots := h.slots_le
    simp only [slotOffset, sizeTablePageHeader] at hslots
    rw [hfsp, hoff, hlen]
    refine ⟨hlive.1, hlive.2.1, ?_⟩
    rw [TablePage.getTuple, hoff, hlen]
    refine Eq.trans (readBytes_congr fun i hi _ => hout i ?_) hlive.2.2
    omega
  · intro s t b d hst hb hd
    rw [hoff, hoff, hlen, hlen]
    exact h.disjoint s t b d hst hb hd
  · intro s hs
    rw [hlen]
    exact h.dead s hs

/-- The size of a tuple. -/
lemma Intact.getTupleSize_eq (h : Intact p slots) (hs : slots[s]? = some (some l)) :
    p.getTupleSize s = l.length := by
  rw [← (h.live s l hs).2.2, getTuple, length_readBytes]
  rfl

/-- Copying a tuple into a buffer. -/
lemma Intact.copyTuple_eq (h : Intact p slots) (hs : slots[s]? = some (some l)) :
    p.copyTuple s = some l := by
  obtain ⟨-, hend, hget⟩ := h.live s l hs
  rw [copyTuple, if_pos hend, hget]

/-- A tuple and its slot fit into a page with the slots before it. -/
lemma Intact.length_le_of_live (h : Intact p slots) (hs : slots[s]? = some (some l)) :
    l.length + 20 ≤ pageSize := by
  obtain ⟨hoff, hend, hget⟩ := h.live s l hs
  have hlen := h.getTupleSize_eq hs
  have hslots := h.slots_le
  have hlt := (List.getElem?_eq_some_iff.1 hs).1
  simp only [getTupleSize, slotOffset, sizeTablePageHeader, sizeTupleSlot] at *
  omega

end TablePage

namespace TableHeap

/-! ## Rows -/

/-- The pages along a chain, with the slots of each. -/
abbrev Pages := List (PageId × List (Option (List UInt8)))

/-- The rows in the slots, the first of which has the number `k`. An empty tuple is no row. -/
def slotRows (p : PageId) : ℕ → List (Option (List UInt8)) → List (RID × List UInt8)
  | _, [] => []
  | k, some (b :: l) :: slots => (⟨p, k⟩, b :: l) :: slotRows p (k + 1) slots
  | k, _ :: slots => slotRows p (k + 1) slots

/-- The rows of the pages, in the order of the chain. -/
def liveRows (pages : Pages) : List (RID × List UInt8) :=
  pages.flatMap fun x => slotRows x.1 0 x.2

/-- The iterator at the first of these rows. -/
def first {α : Type} : List (RID × α) → RID
  | [] => endIterator
  | (rid, _) :: _ => rid

section Rows

variable {p : PageId} {k s : ℕ} {o : Option (List UInt8)} {b : List UInt8} {rid : RID}
  {slots slots' : List (Option (List UInt8))} {pages : Pages}

/-- The row of the first slot, if it has one, comes first. -/
lemma slotRows_cons (p : PageId) (k : ℕ) (o : Option (List UInt8))
    (slots : List (Option (List UInt8))) :
    slotRows p k (o :: slots) =
      (if o.getD [] = [] then [] else [(⟨p, k⟩, o.getD [])]) ++ slotRows p (k + 1) slots := by
  match o with
  | none => rfl
  | some [] => rfl
  | some (b :: l) => rfl

/-- The rows of two runs of slots. -/
lemma slotRows_append (p : PageId) (k : ℕ) (slots slots' : List (Option (List UInt8))) :
    slotRows p k (slots ++ slots') = slotRows p k slots ++ slotRows p (k + slots.length) slots' := by
  induction slots generalizing k with
  | nil => rfl
  | cons o slots ih =>
    rw [List.cons_append, slotRows_cons, slotRows_cons, ih, List.append_assoc, List.length_cons,
      Nat.add_right_comm, Nat.add_assoc]

/-- A row of the slots is a nonempty tuple in one of them. -/
lemma mem_slotRows : (rid, b) ∈ slotRows p k slots ↔
    rid.pageId = p ∧ k ≤ rid.slotNum ∧ slots[rid.slotNum - k]? = some (some b) ∧ b ≠ [] := by
  induction slots generalizing k with
  | nil => simp [slotRows]
  | cons o slots ih =>
    obtain ⟨q, n⟩ := rid
    rw [slotRows_cons, List.mem_append, ih]
    constructor
    · rintro (hhead | ⟨hq, hk, hget, hb⟩)
      · split at hhead
        · simp at hhead
        · rename_i hne
          obtain ⟨⟨rfl, rfl⟩, rfl⟩ : (q = p ∧ n = k) ∧ b = o.getD [] := by simpa using hhead
          refine ⟨rfl, le_rfl, ?_, hne⟩
          cases o with
          | none => exact absurd rfl hne
          | some b => simp
      · refine ⟨hq, by simp only at hk ⊢; omega, ?_, hb⟩
        have hsub : n - k = (n - (k + 1)) + 1 := by
          simp only at hk
          omega
        simp only [hsub, List.getElem?_cons_succ]
        exact hget
    · rintro ⟨hq, hk, hget, hb⟩
      simp only at hq hk hget ⊢
      rcases Nat.eq_or_lt_of_le hk with rfl | hlt
      · left
        simp only [Nat.sub_self, List.getElem?_cons_zero, Option.some.injEq] at hget
        subst hget
        simp [hb, hq]
      · right
        have hsub : n - k = (n - (k + 1)) + 1 := by omega
        rw [hsub, List.getElem?_cons_succ] at hget
        exact ⟨hq, hlt, hget, hb⟩

/-- The row ids of some slots have the numbers of these slots. -/
lemma slotNum_of_mem_slotRows (h : (rid, b) ∈ slotRows p k slots) :
    k ≤ rid.slotNum ∧ rid.slotNum < k + slots.length := by
  obtain ⟨-, hk, hget, -⟩ := mem_slotRows.1 h
  have hlt := (List.getElem?_eq_some_iff.1 hget).1
  omega

/-- The row ids of a page are all different. -/
lemma nodup_slotRows (p : PageId) (k : ℕ) (slots : List (Option (List UInt8))) :
    ((slotRows p k slots).map Prod.fst).Nodup := by
  induction slots generalizing k with
  | nil => exact List.nodup_nil
  | cons o slots ih =>
    rw [slotRows_cons]
    split
    · exact ih (k + 1)
    · rw [List.singleton_append, List.map_cons, List.nodup_cons]
      refine ⟨fun hmem => ?_, ih (k + 1)⟩
      obtain ⟨⟨rid, b⟩, hrow, rfl⟩ := List.mem_map.1 hmem
      have hle := (slotNum_of_mem_slotRows hrow).1
      simp only at hle
      omega

/-- A live row is a slot of a page that has some bytes. -/
lemma mem_liveRows : (rid, b) ∈ liveRows pages ↔
    ∃ slots, (rid.pageId, slots) ∈ pages ∧ slots[rid.slotNum]? = some (some b) ∧ b ≠ [] := by
  unfold liveRows
  rw [List.mem_flatMap]
  constructor
  · rintro ⟨⟨p, slots⟩, hmem, hrow⟩
    obtain ⟨rfl, -, hget, hb⟩ := mem_slotRows.1 hrow
    exact ⟨slots, hmem, hget, hb⟩
  · rintro ⟨slots, hmem, hget, hb⟩
    exact ⟨(rid.pageId, slots), hmem, mem_slotRows.2 ⟨rfl, Nat.zero_le _, hget, hb⟩⟩

/-- The rows of two runs of pages. -/
lemma liveRows_append (pages pages' : Pages) :
    liveRows (pages ++ pages') = liveRows pages ++ liveRows pages' := List.flatMap_append

/-- The rows of the first page come first. -/
lemma liveRows_cons (x : PageId × List (Option (List UInt8))) (pages : Pages) :
    liveRows (x :: pages) = slotRows x.1 0 x.2 ++ liveRows pages := List.flatMap_cons

/-- Rows have different ids. -/
lemma nodup_liveRows (h : (pages.map Prod.fst).Nodup) : ((liveRows pages).map Prod.fst).Nodup := by
  induction pages with
  | nil => exact List.nodup_nil
  | cons x pages ih =>
    obtain ⟨p, slots⟩ := x
    rw [List.map_cons, List.nodup_cons] at h
    rw [liveRows_cons, List.map_append, List.nodup_append]
    refine ⟨nodup_slotRows p 0 slots, ih h.2, ?_⟩
    intro r hr r' hr' hrr'
    subst hrr'
    obtain ⟨⟨rid, b⟩, hrow, rfl⟩ := List.mem_map.1 hr
    obtain ⟨⟨rid', b'⟩, hrow', heq⟩ := List.mem_map.1 hr'
    obtain rfl : rid' = rid := heq
    obtain ⟨hp, -⟩ := mem_slotRows.1 hrow
    obtain ⟨slots', hmem, -⟩ := mem_liveRows.1 hrow'
    exact h.1 (List.mem_map.2 ⟨_, hmem, hp⟩)

/-- Deleted slots and empty tuples are no rows. -/
lemma slotRows_congr (h : slots.map (fun o => o.getD []) = slots'.map fun o => o.getD []) :
    slotRows p k slots = slotRows p k slots' := by
  induction slots generalizing slots' k with
  | nil =>
    obtain rfl := List.map_eq_nil_iff.1 h.symm
    rfl
  | cons o slots ih =>
    cases slots' with
    | nil => cases h
    | cons o' slots' =>
      obtain ⟨ho, hrest⟩ := List.cons.inj h
      have ho' : o.getD [] = o'.getD [] := ho
      rw [slotRows_cons, slotRows_cons, ho', ih hrest]

end Rows

/-! ## Chains of pages -/

/-- The chain from the page `p` on consists of these pages, with these slots. -/
def Chain (content : PageId → Option TablePage) : Pages → PageId → Prop
  | [], p => p = invalidPageId
  | (q, slots) :: pages, p => p = q ∧ q ≠ invalidPageId ∧
      ∃ page : TablePage, content q = some page ∧ page.Intact slots ∧
        Chain content pages page.getNextPageId

/-- The heap consists of these pages, with these slots. -/
structure Holds (content : PageId → Option TablePage) (heap : TableHeap) (pages : Pages) : Prop where
  chain : Chain content pages heap.firstPageId
  nodup : (pages.map Prod.fst).Nodup
  nonempty : pages ≠ []

/-- Nobody holds a pin, and the pages in use were handed out before. -/
structure Ready (t : PageStore TablePage) : Prop where
  pins_eq : t.pins = 0
  allocated : ∀ q, t.content q ≠ none → 0 ≤ q ∧ q < t.nextPageId
  next_nonneg : 0 ≤ t.nextPageId

/-- The page is replaced. -/
def setPage (t : PageStore TablePage) (p : PageId) (page : TablePage) : PageStore TablePage :=
  { t with content := Function.update t.content p (some page) }

section Chains

variable {content content' : PageId → Option TablePage} {pages pages' : Pages} {p q : PageId}
  {slots slots' : List (Option (List UInt8))} {x x' : TablePage}

/-- Only the contents of its own pages matter for a chain. -/
lemma Chain.congr (h : Chain content pages p)
    (hsame : ∀ q ∈ pages.map Prod.fst, content' q = content q) : Chain content' pages p := by
  induction pages generalizing p with
  | nil => exact h
  | cons y pages ih =>
    obtain ⟨q, slots⟩ := y
    obtain ⟨rfl, hq, page, hpage, hintact, hrest⟩ := h
    refine ⟨rfl, hq, page, (hsame _ (by simp)).trans hpage, hintact, ih hrest fun q hmem => ?_⟩
    exact hsame q (List.mem_cons_of_mem _ hmem)

/-- A chain goes on behind its first pages. -/
lemma Chain.split (h : Chain content (pages ++ pages') p) :
    ∃ q, Chain content pages' q ∧ (pages = [] → q = p) := by
  induction pages generalizing p with
  | nil => exact ⟨p, h, fun _ => rfl⟩
  | cons y pages ih =>
    obtain ⟨-, -, page, -, -, hrest⟩ := h
    obtain ⟨q, hq, -⟩ := ih hrest
    exact ⟨q, hq, by simp⟩

/-- The page in the middle of a chain. -/
lemma Chain.page (h : Chain content (pages ++ (q, slots) :: pages') p) :
    q ≠ invalidPageId ∧ ∃ page, content q = some page ∧ page.Intact slots ∧
      Chain content pages' page.getNextPageId := by
  obtain ⟨r, ⟨-, hq, hpage⟩, -⟩ := h.split
  exact ⟨hq, hpage⟩

/-- A chain with one page replaced that keeps its link. -/
lemma Chain.replace (h : Chain content (pages ++ (q, slots) :: pages') p)
    (hnodup : ((pages ++ (q, slots) :: pages').map Prod.fst).Nodup)
    (hlink : ∀ old, content q = some old → x.getNextPageId = old.getNextPageId)
    (hintact : x.Intact slots') :
    Chain (Function.update content q (some x)) (pages ++ (q, slots') :: pages') p := by
  induction pages generalizing p with
  | nil =>
    obtain ⟨rfl, hq, old, hold, -, hrest⟩ := h
    refine ⟨rfl, hq, x, Function.update_self .., hintact, ?_⟩
    rw [hlink old hold]
    refine hrest.congr fun r hr => Function.update_of_ne ?_ ..
    rintro rfl
    rw [List.nil_append, List.map_cons, List.nodup_cons] at hnodup
    exact hnodup.1 hr
  | cons y pages ih =>
    obtain ⟨r, slots₀⟩ := y
    obtain ⟨rfl, hr, old, hold, hintact₀, hrest⟩ := h
    rw [List.cons_append, List.map_cons, List.nodup_cons] at hnodup
    have hne : p ≠ q := by
      rintro rfl
      apply hnodup.1
      simp
    refine ⟨rfl, hr, old, ?_, hintact₀, ih hrest hnodup.2⟩
    rw [Function.update_of_ne hne]
    exact hold

/-- A chain with one more page at its end. -/
lemma Chain.snoc (h : Chain content (pages ++ [(q, slots)]) p)
    (hnodup : ((pages ++ [(q, slots)]).map Prod.fst).Nodup) {r : PageId} (hr : r ≠ invalidPageId)
    (hfresh : r ∉ (pages ++ [(q, slots)]).map Prod.fst)
    (hlink : x.getNextPageId = r) (hintact : x.Intact slots)
    (hend : x'.getNextPageId = invalidPageId) (hintact' : x'.Intact slots') :
    Chain (Function.update (Function.update content q (some x)) r (some x'))
      (pages ++ [(q, slots), (r, slots')]) p := by
  induction pages generalizing p with
  | nil =>
    obtain ⟨rfl, hq, -⟩ := h
    have hne : p ≠ r := by
      rintro rfl
      apply hfresh
      simp
    refine ⟨rfl, hq, x, ?_, hintact, hlink, hr, x', Function.update_self .., hintact', hend⟩
    rw [Function.update_of_ne hne, Function.update_self]
  | cons y pages ih =>
    obtain ⟨s, slots₀⟩ := y
    obtain ⟨rfl, hs, old, hold, hintact₀, hrest⟩ := h
    rw [List.cons_append, List.map_cons] at hnodup hfresh
    rw [List.nodup_cons] at hnodup
    rw [List.mem_cons, not_or] at hfresh
    have hne : p ≠ q := by
      rintro rfl
      apply hnodup.1
      simp
    refine ⟨rfl, hs, old, ?_, hintact₀, ih hrest hnodup.2 hfresh.2⟩
    rw [Function.update_of_ne (Ne.symm hfresh.1), Function.update_of_ne hne]
    exact hold

/-- The slots of a page are determined, but for deleted slots and empty tuples. -/
lemma map_getD_of_intact (h : x.Intact slots) (h' : x.Intact slots') :
    slots.map (fun o => o.getD []) = slots'.map fun o => o.getD [] := by
  have hdead : ∀ cs cs' : List (Option (List UInt8)), x.Intact cs → x.Intact cs' →
      ∀ (s : ℕ) (b : List UInt8), cs[s]? = some (some b) → cs'[s]? = some none → b = [] := by
    intro cs cs' hcs hcs' s b hs hs'
    have hlen : b.length = x.getTupleLengthAtSlot s := (hcs.getTupleSize_eq hs).symm
    rw [hcs'.dead s hs'] at hlen
    exact List.length_eq_zero_iff.1 hlen
  have hlength : slots.length = slots'.length := h.numTuples_eq.symm.trans h'.numTuples_eq
  refine List.ext_getElem (by simpa using hlength) fun s hs hs' => ?_
  rw [List.length_map] at hs hs'
  rw [List.getElem_map, List.getElem_map]
  have hget := List.getElem?_eq_getElem hs
  have hget' := List.getElem?_eq_getElem hs'
  cases ho : slots[s] with
  | none =>
    cases ho' : slots'[s] with
    | none => rfl
    | some b =>
      rw [ho] at hget
      rw [ho'] at hget'
      exact (hdead slots' slots h' h s b hget' hget).symm
  | some b =>
    rw [ho] at hget
    cases ho' : slots'[s] with
    | none =>
      rw [ho'] at hget'
      exact hdead slots slots' h h' s b hget hget'
    | some b' =>
      rw [ho'] at hget'
      exact (h.live s b hget).2.2.symm.trans (h'.live s b' hget').2.2

/-- The rows of a chain are determined. -/
lemma Chain.liveRows_eq (h : Chain content pages p) (h' : Chain content pages' p) :
    liveRows pages = liveRows pages' := by
  induction pages generalizing pages' p with
  | nil =>
    obtain rfl : p = invalidPageId := h
    cases pages' with
    | nil => rfl
    | cons y pages' => exact absurd h'.1.symm h'.2.1
  | cons y pages ih =>
    obtain ⟨q, slots⟩ := y
    obtain ⟨rfl, hp, x, hx, hintact, hrest⟩ := h
    cases pages' with
    | nil => exact absurd h' hp
    | cons y' pages' =>
      obtain ⟨q', slots'⟩ := y'
      obtain ⟨rfl, -, x', hx', hintact', hrest'⟩ := h'
      obtain rfl := Option.some.inj (hx.symm.trans hx')
      have hslots := map_getD_of_intact hintact hintact'
      show slotRows p 0 slots ++ liveRows pages = slotRows p 0 slots' ++ liveRows pages'
      rw [slotRows_congr hslots, ih hrest hrest']

end Chains

/-! ## One page at a time -/

section Visits

variable {frames : ℕ∞} {t : PageStore TablePage} {p : PageId} {x y : TablePage}

/-- The page is written under its only pin. -/
def written (t : PageStore TablePage) (p : PageId) (y : TablePage) : PageStore TablePage :=
  { setPage t p y with pins := {(p, true)} }

/-- The database stays idle when a page is replaced. -/
lemma Ready.setPage (h : Ready t) (hp : t.content p = some x) (y : TablePage) :
    Ready (setPage t p y) where
  pins_eq := h.pins_eq
  allocated := by
    intro q hq
    apply h.allocated
    by_cases hqp : q = p
    · rw [hqp, hp]
      simp
    · change Function.update t.content p (some y) q ≠ none at hq
      rwa [Function.update_of_ne hqp] at hq
  next_nonneg := h.next_nonneg

/-- `FetchPage` of a page of an idle database. -/
lemma run_fetchPage (h : Ready t) (hframes : 1 ≤ frames) (hp : t.content p = some x) :
    run (PageStore.handler frames) (op (.fetchPage p)) t = some (some p, t.pin p) := by
  have hcard : ((0 : ℕ) : ℕ∞) < frames := lt_of_lt_of_le (by simp) hframes
  simp [PageStore.handler, hp, PageStore.pinnedPages, h.pins_eq, pos_of_gt hcard]

/-- Reading the page that was fetched. -/
lemma run_read (hp : t.content p = some x) :
    run (PageStore.handler frames) (PageClient.read p) (t.pin p) = some (x, t.pin p) := by
  simp [PageClient.read, PageStore.handler, PageStore.pinnedPages, PageStore.pin, hp]

/-- `UnpinPage` of the page that was fetched. -/
lemma run_unpin (t : PageStore TablePage) (p : PageId) :
    run (PageStore.handler frames) (PageClient.unpin p false) (t.pin p) = some ((), t) := by
  simp [PageClient.unpin, PageStore.handler, PageStore.pin, PageStore.unpin]

/-- Writing the page that was fetched. -/
lemma run_write (h : Ready t) (hp : t.content p = some x) (y : TablePage) :
    run (PageStore.handler frames) (PageClient.write p y) (t.pin p) =
      some ((), written t p y) := by
  simp [PageClient.write, PageStore.handler, PageStore.pin, PageStore.write, hp, written,
    TableHeap.setPage, h.pins_eq]

/-- `UnpinPage` of the page that was written. -/
lemma run_unpin_written (h : Ready t) (p : PageId) (y : TablePage) :
    run (PageStore.handler frames) (PageClient.unpin p true) (written t p y) =
      some ((), TableHeap.setPage t p y) := by
  simp [PageClient.unpin, PageStore.handler, PageStore.unpin, written, TableHeap.setPage,
    h.pins_eq]

end Visits

/-! ## The iterator -/

section Iterator

variable {frames : ℕ∞} {t : PageStore TablePage} {p : PageId} {x : TablePage} {pages : Pages}
  {slots : List (Option (List UInt8))} {heap : TableHeap} {rid : RID} {b : List UInt8}
  {before after : List (RID × List UInt8)}

/-- `nextSlot` finds the next row of the page. -/
lemma nextSlot_eq (h : x.Intact slots) (p : PageId) (k : ℕ) :
    x.nextSlot k = (slotRows p k (slots.drop k)).head?.map fun r => r.1.slotNum := by
  unfold TablePage.nextSlot
  rw [h.numTuples_eq]
  induction hn : slots.length - k generalizing k with
  | zero =>
    rw [List.drop_eq_nil_of_le (by omega)]
    rfl
  | succ n ih =>
    have hlt : k < slots.length := by omega
    rw [List.range'_succ, List.find?_cons, List.drop_eq_getElem_cons hlt, slotRows_cons]
    have hget : slots[k]? = some slots[k] := List.getElem?_eq_getElem hlt
    cases ho : slots[k] with
    | none =>
      rw [ho] at hget
      have hdead : x.getTupleSize k = 0 := h.dead k hget
      simpa [hdead] using ih (k + 1) (by omega)
    | some b =>
      rw [ho] at hget
      have hsize := h.getTupleSize_eq hget
      cases b with
      | nil => simpa [hsize] using ih (k + 1) (by omega)
      | cons y l => simp [hsize]

/-- The rows from the slot `k` of the first page on. -/
def rowsFrom (k : ℕ) : Pages → List (RID × List UInt8)
  | [] => []
  | (p, slots) :: pages => slotRows p k (slots.drop k) ++ liveRows pages

/-- Before the first step all rows are ahead. -/
lemma rowsFrom_zero (pages : Pages) : rowsFrom 0 pages = liveRows pages := by
  cases pages with
  | nil => rfl
  | cons y pages => rw [liveRows_cons, rowsFrom, List.drop_zero]

/-- The walk finds the first of the rows, if its fuel lasts. -/
lemma run_seek (ht : Ready t) (hframes : 1 ≤ frames) (h : Chain t.content pages p) (fuel k : ℕ) :
    (pages.length < fuel →
      run (PageStore.handler frames) (seek fuel p k) t = some (first (rowsFrom k pages), t)) ∧
      ∀ r, run (PageStore.handler frames) (seek fuel p k) t = some r →
        r = (first (rowsFrom k pages), t) := by
  induction pages generalizing p k fuel with
  | nil =>
    obtain rfl : p = invalidPageId := h
    cases fuel with
    | zero => simp [seek]
    | succ fuel => simp [seek, rowsFrom, first, eq_comm]
  | cons y pages ih =>
    obtain ⟨q, slots⟩ := y
    obtain ⟨rfl, hp, x, hx, hintact, hrest⟩ := h
    cases fuel with
    | zero => simp [seek]
    | succ fuel =>
      have hstep := ih hrest fuel 0
      rw [rowsFrom_zero] at hstep
      have hnext := nextSlot_eq hintact p k
      rw [seek, if_neg hp, rowsFrom]
      simp only [run_bind, run_fetchPage ht hframes hx, Option.bind_some, run_read hx]
      cases hrows : slotRows p k (slots.drop k) with
      | nil =>
        rw [hrows] at hnext
        simp only [hnext, List.head?_nil, Option.map_none, run_bind, run_unpin, Option.bind_some,
          List.nil_append, List.length_cons, Nat.add_lt_add_iff_right]
        exact hstep
      | cons r rows =>
        obtain ⟨rid, b⟩ := r
        have hmem : (rid, b) ∈ slotRows p k (slots.drop k) := by
          rw [hrows]
          exact List.mem_cons_self
        obtain ⟨hpage, -⟩ := mem_slotRows.1 hmem
        rw [hrows] at hnext
        simp only [hnext, List.head?_cons, Option.map_some, run_bind, run_unpin, Option.bind_some,
          run_pure, List.cons_append, first]
        subst hpage
        simp [eq_comm]

/-- `Begin()` is at the first row. -/
lemma Holds.begin (h : Holds t.content heap pages) (ht : Ready t) (hframes : 1 ≤ frames)
    (fuel : ℕ) :
    (pages.length < fuel →
      run (PageStore.handler frames) (TableHeap.begin fuel heap) t =
        some (first (liveRows pages), t)) ∧
      ∀ r, run (PageStore.handler frames) (TableHeap.begin fuel heap) t = some r →
        r = (first (liveRows pages), t) := by
  rw [← rowsFrom_zero]
  exact run_seek ht hframes h.chain fuel 0

/-- The pages before and after a row, and the rows before and after it on its own page. -/
lemma split_of_liveRows (hnodup : (pages.map Prod.fst).Nodup)
    (hrows : liveRows pages = before ++ (rid, b) :: after) :
    ∃ pre slots post, pages = pre ++ (rid.pageId, slots) :: post ∧
      slots[rid.slotNum]? = some (some b) ∧ b ≠ [] ∧
      before = liveRows pre ++ slotRows rid.pageId 0 (slots.take rid.slotNum) ∧
      after = slotRows rid.pageId (rid.slotNum + 1) (slots.drop (rid.slotNum + 1)) ++
        liveRows post := by
  have hmem : (rid, b) ∈ liveRows pages := by
    rw [hrows]
    simp
  obtain ⟨slots, hpage, hget, hb⟩ := mem_liveRows.1 hmem
  obtain ⟨pre, post, rfl⟩ := List.append_of_mem hpage
  refine ⟨pre, slots, post, rfl, hget, hb, ?_⟩
  obtain ⟨hlt, hget'⟩ := List.getElem?_eq_some_iff.1 hget
  have hslots : slots = slots.take rid.slotNum ++ some b :: slots.drop (rid.slotNum + 1) := by
    rw [← hget', ← List.drop_eq_getElem_cons hlt, List.take_append_drop]
  have hown : slotRows rid.pageId 0 slots =
      slotRows rid.pageId 0 (slots.take rid.slotNum) ++
        (rid, b) :: slotRows rid.pageId (rid.slotNum + 1) (slots.drop (rid.slotNum + 1)) := by
    conv_lhs => rw [hslots]
    rw [slotRows_append, slotRows_cons, List.length_take, min_eq_left hlt.le]
    simp [hb]
  have hall : liveRows (pre ++ (rid.pageId, slots) :: post) =
      (liveRows pre ++ slotRows rid.pageId 0 (slots.take rid.slotNum)) ++ (rid, b) ::
        (slotRows rid.pageId (rid.slotNum + 1) (slots.drop (rid.slotNum + 1)) ++
          liveRows post) := by
    rw [liveRows_append, liveRows_cons, hown]
    simp
  have hids := (nodup_liveRows hnodup).of_map
  rw [hall] at hids hrows
  have hmid := List.nodup_middle.1 hids
  rw [List.nodup_cons, List.mem_append, not_or] at hmid
  obtain ⟨hbefore, -, hafter⟩ :=
    (List.append_cons_inj_of_notMem hmid.1.1 hmid.1.2).1 hrows
  exact ⟨hbefore.symm, hafter.symm⟩

/-- A page with a row has an id of its own, and the row's slot has a number of 16 bits. -/
lemma Holds.page_of_row (h : Holds t.content heap pages)
    (hrows : liveRows pages = before ++ (rid, b) :: after) :
    ∃ pre slots post x, pages = pre ++ (rid.pageId, slots) :: post ∧ rid.pageId ≠ invalidPageId ∧
      t.content rid.pageId = some x ∧ x.Intact slots ∧
      Chain t.content post x.getNextPageId ∧
      slots[rid.slotNum]? = some (some b) ∧ b ≠ [] ∧
      rid.slotNum + 1 < 2 ^ 16 ∧
      before = liveRows pre ++ slotRows rid.pageId 0 (slots.take rid.slotNum) ∧
      after = slotRows rid.pageId (rid.slotNum + 1) (slots.drop (rid.slotNum + 1)) ++
        liveRows post := by
  obtain ⟨pre, slots, post, rfl, hget, hb, hbefore, hafter⟩ := split_of_liveRows h.nodup hrows
  obtain ⟨hvalid, x, hx, hintact, hrest⟩ := h.chain.page
  have hlt := (List.getElem?_eq_some_iff.1 hget).1
  have hle := hintact.length_le
  exact ⟨pre, slots, post, x, rfl, hvalid, hx, hintact, hrest, hget, hb, by omega, hbefore, hafter⟩

/-- `operator++` goes to the next row. -/
lemma Holds.increment (h : Holds t.content heap pages) (ht : Ready t) (hframes : 1 ≤ frames)
    (hrows : liveRows pages = before ++ (rid, b) :: after) (fuel : ℕ) :
    (pages.length < fuel →
      run (PageStore.handler frames) (TableHeap.increment fuel rid) t =
        some (first after, t)) ∧
      ∀ r, run (PageStore.handler frames) (TableHeap.increment fuel rid) t = some r →
        r = (first after, t) := by
  obtain ⟨pre, slots, post, x, rfl, hvalid, hx, hintact, hrest, -, -, hslot, -, rfl⟩ :=
    h.page_of_row hrows
  have hchain : Chain t.content ((rid.pageId, slots) :: post) rid.pageId :=
    ⟨rfl, hvalid, x, hx, hintact, hrest⟩
  obtain ⟨htotal, hwhen⟩ := run_seek ht hframes hchain fuel (rid.slotNum + 1)
  unfold TableHeap.increment
  rw [Nat.mod_eq_of_lt hslot]
  refine ⟨fun hfuel => htotal ?_, hwhen⟩
  rw [List.length_append] at hfuel
  omega

/-- `GetTuple` returns the bytes of a row. -/
lemma Holds.getTuple (h : Holds t.content heap pages) (ht : Ready t) (hframes : 1 ≤ frames)
    (hmem : (rid, b) ∈ liveRows pages) :
    run (PageStore.handler frames) (TableHeap.getTuple rid) t =
      some (.ok { rid := rid, data := b }, t) := by
  obtain ⟨before, after, hrows⟩ := List.append_of_mem hmem
  obtain ⟨pre, slots, post, x, -, -, hx, hintact, -, hget, -, hslot, -⟩ := h.page_of_row hrows
  unfold TableHeap.getTuple
  have hmod : rid.slotNum % 2 ^ 16 = rid.slotNum := Nat.mod_eq_of_lt (by omega)
  simp only [run_bind, run_fetchPage ht hframes hx, Option.bind_some, run_read hx, run_ofOption,
    hmod, hintact.copyTuple_eq hget, Option.map_some, run_unpin, run_pure]

end Iterator

end TableHeap

end OneBase
