import OneBase.Execution.Deletion

set_option relaxedAutoImplicit false
set_option autoImplicit false

/-!
# Updated rows

What the loop of `UPDATE` does with a row, on a table of any schema. The row keeps its place, an
update that the page refuses leaves it as it is, and the indexes move its entry in either case.

## Main definitions

* `OneBase.IndexInfo.FilesRows` — the key map files the rows under the keys that are stored.
* `OneBase.Replacement` — a row, and the tuple that is to take its place.
* `OneBase.accepted` — the rows whose update is not refused, one after the other.
* `OneBase.Orderly` — the others take only bytes that are free.
* `OneBase.HaveRoom` — the pages have room for all the new tuples.

## Main results

* `OneBase.haveRoom_iff` — there is room iff the updates are orderly and none is refused.
* `OneBase.forall_mem_replaceRows_iff` — the heap afterwards.
* `OneBase.IndexInfo.FilesRows.moveEntries_iff` — an index afterwards.
* `OneBase.HeapTable.updateRow_returns` — a row.
-/

namespace OneBase

open Exec TableHeap

/-! ## Entries -/

/-- The key map files exactly these rows, under the keys that are stored in the column `attr`. -/
structure IndexInfo.FilesRows (i : IndexInfo) (schema : Schema) (attr : ℕ)
    (rows : List (RID × List UInt8)) : Prop where
  compact : i.Compact
  nodup : ∀ key, (i.rids key).Nodup
  mem_iff : ∀ key rid, rid ∈ i.rids key ↔
    ∃ b, (rid, b) ∈ rows ∧ (rawTuple (rid, b)).keyOf schema attr = pure key

/-- The lookup indexes among these file the rows. -/
def Catalog.FilesRows (c : Catalog) (schema : Schema) (oids : List ℕ)
    (rows : List (RID × List UInt8)) : Prop :=
  ∀ oid ∈ oids, ∀ i attr, c.getIndex oid = some i → i.supportsPointLookup = true →
    i.getLookupAttr = pure attr → i.FilesRows schema attr rows

/-- How often a row is filed under a key. -/
def IndexInfo.entries (i : IndexInfo) (rid : RID) (key : ℤ) : ℕ := (i.rids key).count rid

section Entries

variable {i : IndexInfo} {schema : Schema} {attr : ℕ} {rows : List (RID × List UInt8)}
  {rid x : RID} {b : List UInt8} {k old new : ℤ} {entries entries' : ℤ → ℕ} {S S' : ℤ → Prop}

/-- Filing an entry adds one. -/
lemma IndexInfo.entries_insertEntry (i : IndexInfo) (key : ℤ) (rid x : RID) (k : ℤ) :
    (i.insertEntry key rid).entries x k =
      i.entries x k + if k = key ∧ x = rid then 1 else 0 := by
  unfold entries
  rw [rids_insertEntry]
  by_cases hk : k = key
  · subst hk
    rw [if_pos rfl, List.count_append, List.count_singleton]
    by_cases hx : x = rid
    · simp [hx]
    · simp [hx, Ne.symm hx]
  · simp [hk]

/-- Removing an entry leaves none of it. -/
lemma IndexInfo.entries_removeEntry (i : IndexInfo) (key : ℤ) (rid x : RID) (k : ℤ) :
    (i.removeEntry key rid).entries x k =
      if k = key ∧ x = rid then 0 else i.entries x k := by
  unfold entries
  rw [rids_removeEntry]
  by_cases hk : k = key
  · subst hk
    rw [if_pos rfl]
    by_cases hx : x = rid
    · subst hx
      rw [if_pos ⟨rfl, rfl⟩]
      apply List.count_eq_zero_of_not_mem
      simp
    · rw [if_neg fun h => hx h.2]
      apply List.count_filter
      simpa using hx
  · simp [hk]

/-- The rows are filed iff each is filed once, under its key. -/
lemma IndexInfo.filesRows_iff : i.FilesRows schema attr rows ↔ i.Compact ∧ ∀ rid key,
    i.entries rid key ≤ 1 ∧ (0 < i.entries rid key ↔
      ∃ b, (rid, b) ∈ rows ∧ (rawTuple (rid, b)).keyOf schema attr = pure key) := by
  unfold entries
  simp only [List.count_pos_iff]
  constructor
  · intro h
    exact ⟨h.compact, fun rid key =>
      ⟨List.nodup_iff_count_le_one.1 (h.nodup key) rid, h.mem_iff key rid⟩⟩
  · rintro ⟨hcompact, h⟩
    exact ⟨hcompact, fun key => List.nodup_iff_count_le_one.2 fun rid => (h rid key).1,
      fun key rid => (h rid key).2⟩

/-- An entry is moved from `old` to `new`. A row that was filed under the keys with `S` is filed
under the key with `S'` iff that is `new`, and `old` is the only one that it had. -/
lemma moved_iff (hS' : ∀ k k', S' k → S' k' → k = k')
    (hentries : ∀ k, entries k ≤ 1 ∧ (0 < entries k ↔ S k))
    (hmoved : ∀ k, entries' k =
      (if k = old then 0 else entries k) + if k = new then 1 else 0) :
    (∀ k, entries' k ≤ 1 ∧ (0 < entries' k ↔ S' k)) ↔ (∀ k, S k → k = old) ∧ S' new := by
  constructor
  · intro h
    have hpos : 0 < entries' new := by
      rw [hmoved, if_pos rfl]
      omega
    have hnew : S' new := (h new).2.1 hpos
    refine ⟨fun k hk => ?_, hnew⟩
    by_contra hne
    have hfiled : 0 < entries k := (hentries k).2.2 hk
    have hstill : entries' k = entries k + if k = new then 1 else 0 := by
      rw [hmoved, if_neg hne]
    have hk' : S' k := (h k).2.1 (by omega)
    have htwice := (h k).1
    rw [hstill, if_pos (hS' k new hk' hnew)] at htwice
    omega
  · rintro ⟨hold, hnew⟩ k
    have hgone : (if k = old then 0 else entries k) = 0 := by
      split_ifs with hk
      · rfl
      · by_contra hpos
        exact hk (hold k ((hentries k).2.1 (Nat.pos_of_ne_zero hpos)))
    rw [hmoved, hgone, Nat.zero_add]
    split_ifs with hk
    · subst hk
      exact ⟨le_rfl, iff_of_true Nat.one_pos hnew⟩
    · refine ⟨Nat.zero_le _, iff_of_false (lt_irrefl 0) fun hk' => hk (hS' k new hk' hnew)⟩

end Entries

/-! ## Rows -/

/-- The rows after the row `rid` has got these bytes. A row without bytes is none. -/
def setRow (rid : RID) (b : List UInt8) (rows : List (RID × List UInt8)) :
    List (RID × List UInt8) :=
  rows.flatMap fun r => if r.1 = rid then (if b = [] then [] else [(rid, b)]) else [r]

section Rows

variable {rid : RID} {b : List UInt8} {rows rows' : List (RID × List UInt8)}
  {r : RID × List UInt8}

/-- The rows of two lists. -/
lemma setRow_append (rid : RID) (b : List UInt8) (rows rows' : List (RID × List UInt8)) :
    setRow rid b (rows ++ rows') = setRow rid b rows ++ setRow rid b rows' :=
  List.flatMap_append

/-- If no row has the row id, the rows are as before. -/
lemma setRow_of_notMem (h : rid ∉ rows.map Prod.fst) : setRow rid b rows = rows := by
  induction rows with
  | nil => rfl
  | cons r rows ih =>
    rw [List.map_cons, List.mem_cons, not_or] at h
    have hrest := ih h.2
    unfold setRow at hrest ⊢
    rw [List.flatMap_cons, hrest, if_neg (Ne.symm h.1), List.singleton_append]

/-- The row in the middle. -/
lemma setRow_middle {old : List UInt8} {before after : List (RID × List UInt8)}
    (hnodup : ((before ++ (rid, old) :: after).map Prod.fst).Nodup) :
    setRow rid b (before ++ (rid, old) :: after) =
      before ++ (if b = [] then [] else [(rid, b)]) ++ after := by
  rw [List.map_append, List.map_cons, List.nodup_middle, List.nodup_cons, List.mem_append,
    not_or] at hnodup
  have hone : setRow rid b [(rid, old)] = if b = [] then [] else [(rid, b)] := by
    unfold setRow
    rw [List.flatMap_singleton, if_pos rfl]
  rw [List.append_cons, setRow_append, setRow_append, setRow_of_notMem hnodup.1.1,
    setRow_of_notMem hnodup.1.2, hone]

/-- A row that is left without bytes is erased. -/
lemma setRow_nil (hnodup : (rows.map Prod.fst).Nodup) (hr : r ∈ rows) :
    setRow r.1 [] rows = rows.erase r := by
  obtain ⟨before, after, rfl⟩ := List.append_of_mem hr
  rw [setRow_middle hnodup, if_pos rfl, List.append_nil, erase_middle hnodup.of_map]

/-- The rows are the others, and the one with the new bytes if it is one. -/
lemma mem_setRow_iff : r ∈ setRow rid b rows ↔
    r ∈ rows ∧ r.1 ≠ rid ∨ r = (rid, b) ∧ b ≠ [] ∧ rid ∈ rows.map Prod.fst := by
  unfold setRow
  rw [List.mem_flatMap]
  constructor
  · rintro ⟨x, hx, hr⟩
    by_cases hrid : x.1 = rid
    · rw [if_pos hrid] at hr
      split_ifs at hr with hb
      · cases hr
      · exact .inr ⟨List.mem_singleton.1 hr, hb, hrid ▸ List.mem_map_of_mem hx⟩
    · rw [if_neg hrid, List.mem_singleton] at hr
      subst hr
      exact .inl ⟨hx, hrid⟩
  · rintro (⟨hr, hrid⟩ | ⟨rfl, hb, hmem⟩)
    · exact ⟨r, hr, by rw [if_neg hrid]; exact List.mem_singleton_self r⟩
    · obtain ⟨x, hx, rfl⟩ := List.mem_map.1 hmem
      exact ⟨x, hx, by rw [if_pos rfl, if_neg hb]; exact List.mem_singleton_self _⟩

/-- No row id is new. -/
lemma map_setRow_sublist (rid : RID) (b : List UInt8) (rows : List (RID × List UInt8)) :
    ((setRow rid b rows).map Prod.fst).Sublist (rows.map Prod.fst) := by
  induction rows with
  | nil => exact List.Sublist.refl _
  | cons r rows ih =>
    have hcons : setRow rid b (r :: rows) =
        (if r.1 = rid then (if b = [] then [] else [(rid, b)]) else [r]) ++ setRow rid b rows :=
      List.flatMap_cons
    rw [hcons, List.map_append, List.map_cons]
    split_ifs with hrid hb
    · exact ih.cons r.1
    · rw [hrid]
      exact ih.cons_cons rid
    · exact ih.cons_cons r.1

end Rows

/-! ## Room -/

/-- A row that `UPDATE` replaces: the bytes that it has in the heap, the tuple that the child
returns for it, and the tuple that is to take its place. -/
structure Replacement where
  old : List UInt8
  scanned : Tuple
  updated : Tuple

namespace Replacement

/-- The place of the row. -/
def rid (r : Replacement) : RID := r.scanned.rid

/-- The bytes that `UpdateTuple` is given. -/
def bytes (r : Replacement) : List UInt8 := bytesOf r.updated

/-- The page refuses the update. -/
def IsRefused (free : PageId → ℕ) (r : Replacement) : Prop :=
  Refuses (free r.rid.pageId) r.old.length r.bytes.length

instance (free : PageId → ℕ) (r : Replacement) : Decidable (r.IsRefused free) :=
  inferInstanceAs (Decidable (Refuses _ _ _))

/-- The free space after the update. -/
def takeRoom (free : PageId → ℕ) (r : Replacement) : PageId → ℕ :=
  Function.update free r.rid.pageId (free r.rid.pageId - r.bytes.length)

end Replacement

/-- The updates that are not refused, one after the other. -/
def accepted : (PageId → ℕ) → List Replacement → List Replacement
  | _, [] => []
  | free, r :: rs => if r.IsRefused free then accepted free rs
    else r :: accepted (r.takeRoom free) rs

/-- An update that is not refused takes only bytes that are free. -/
def Orderly : (PageId → ℕ) → List Replacement → Prop
  | _, [] => True
  | free, r :: rs => if r.IsRefused free then Orderly free rs
    else r.bytes.length ≤ free r.rid.pageId ∧ Orderly (r.takeRoom free) rs

/-- The room that the new tuples take on a page. -/
def roomFor (rs : List Replacement) (p : PageId) : ℕ :=
  (rs.map fun r => if r.rid.pageId = p then r.bytes.length else 0).sum

/-- The pages have room for all the new tuples. -/
def HaveRoom (free : PageId → ℕ) (rs : List Replacement) : Prop := ∀ p, roomFor rs p ≤ free p

section Room

variable {free : PageId → ℕ} {r : Replacement} {rs : List Replacement}

/-- No more updates are accepted than there are. -/
lemma length_accepted_le (free : PageId → ℕ) (rs : List Replacement) :
    (accepted free rs).length ≤ rs.length := by
  induction rs generalizing free with
  | nil => exact le_rfl
  | cons r rs ih =>
    unfold accepted
    split_ifs
    · exact (ih free).trans (Nat.le_succ _)
    · exact Nat.succ_le_succ (ih _)

/-- The accepted updates come in their order. -/
lemma accepted_sublist (free : PageId → ℕ) (rs : List Replacement) :
    (accepted free rs).Sublist rs := by
  induction rs generalizing free with
  | nil => exact List.Sublist.refl _
  | cons r rs ih =>
    unfold accepted
    split_ifs
    · exact (ih free).cons r
    · exact (ih _).cons_cons r

/-- An update is refused because the row grows. -/
lemma length_lt_of_notMem_accepted (hr : r ∈ rs) (hout : r ∉ accepted free rs) :
    r.old.length < r.bytes.length := by
  induction rs generalizing free with
  | nil => cases hr
  | cons r' rs ih =>
    rw [accepted] at hout
    split_ifs at hout with hrefused
    · rcases List.mem_cons.1 hr with rfl | hmem
      · exact hrefused.1
      · exact ih hmem hout
    · rw [List.mem_cons, not_or] at hout
      exact ih ((List.mem_cons.1 hr).resolve_left hout.1) hout.2

/-- An update that is refused would not have found its room free. -/
lemma Replacement.IsRefused.lt (h : r.IsRefused free) : free r.rid.pageId < r.bytes.length :=
  h.2.trans_le (Nat.sub_le _ _)

/-- There is room for a row and for others iff the row finds its room free, and leaves enough. -/
lemma haveRoom_cons : HaveRoom free (r :: rs) ↔
    r.bytes.length ≤ free r.rid.pageId ∧ HaveRoom (r.takeRoom free) rs := by
  have hsum : ∀ p, roomFor (r :: rs) p =
      (if r.rid.pageId = p then r.bytes.length else 0) + roomFor rs p := fun p => List.sum_cons
  unfold HaveRoom Replacement.takeRoom
  simp only [hsum]
  constructor
  · intro h
    have hpage := h r.rid.pageId
    rw [if_pos rfl] at hpage
    refine ⟨by omega, fun p => ?_⟩
    by_cases hp : p = r.rid.pageId
    · subst hp
      rw [Function.update_self]
      omega
    · have hother := h p
      rw [if_neg (Ne.symm hp), Nat.zero_add] at hother
      rwa [Function.update_of_ne hp]
  · rintro ⟨hfree, hrest⟩ p
    have hpage := hrest p
    by_cases hp : p = r.rid.pageId
    · subst hp
      rw [Function.update_self] at hpage
      rw [if_pos rfl]
      omega
    · rw [Function.update_of_ne hp] at hpage
      rw [if_neg (Ne.symm hp), Nat.zero_add]
      exact hpage

/-- There is room for all the new tuples iff the updates are orderly and none of them is refused. -/
lemma haveRoom_iff : HaveRoom free rs ↔ Orderly free rs ∧ accepted free rs = rs := by
  induction rs generalizing free with
  | nil =>
    have hnil : HaveRoom free [] := fun p => Nat.zero_le _
    exact iff_of_true hnil ⟨trivial, rfl⟩
  | cons r rs ih =>
    rw [haveRoom_cons, ih, Orderly, accepted]
    by_cases hrefused : r.IsRefused free
    · rw [if_pos hrefused, if_pos hrefused]
      refine iff_of_false (fun h => absurd h.1 (not_le.2 hrefused.lt)) fun h => ?_
      have hlen := length_accepted_le free rs
      rw [h.2] at hlen
      exact absurd hlen (Nat.not_succ_le_self _)
    · rw [if_neg hrefused, if_neg hrefused, List.cons_inj_right, and_assoc]

end Room

/-! ## Several updates -/

/-- The rows after these were replaced. -/
def replaceRows (rs : List Replacement) (rows : List (RID × List UInt8)) :
    List (RID × List UInt8) :=
  rs.foldl (fun rows r => setRow r.rid r.bytes rows) rows

/-- What `UPDATE` does with an index. -/
def updateChange (schema : Schema) (r : Replacement) (attr : ℕ) : Cpp (IndexInfo → IndexInfo) := do
  let oldKey ← r.scanned.keyOf schema attr
  let newKey ← r.updated.keyOf schema attr
  pure fun i => (i.removeEntry oldKey r.rid).insertEntry newKey r.rid

/-- What `UPDATE` makes of an index. -/
def moveEntries (schema : Schema) (attr : ℕ) (i : IndexInfo) (rs : List Replacement) :
    Cpp IndexInfo :=
  rs.foldlM (fun i r => do
    let f ← updateChange schema r attr
    pure (f i)) i

/-- The keys that are read off the tuples are those that are stored: an old key is the one that the
index files, and a new one can be read back. -/
structure Replacement.KeysAreStored (schema : Schema) (attr : ℕ) (r : Replacement) : Prop where
  old : ∀ k, (rawTuple (r.rid, r.old)).keyOf schema attr = pure k →
    r.scanned.keyOf schema attr = pure k
  updated : ∀ k, r.updated.keyOf schema attr = pure k →
    (rawTuple (r.rid, r.bytes)).keyOf schema attr = pure k

section Several

variable {rs : List Replacement} {rows : List (RID × List UInt8)} {r : Replacement}
  {x : RID × List UInt8} {b : List UInt8} {schema : Schema} {attr : ℕ} {i i' : IndexInfo}

/-- The other rows stay. -/
lemma mem_replaceRows_of_notMem (h : x.1 ∉ rs.map Replacement.rid) :
    x ∈ replaceRows rs rows ↔ x ∈ rows := by
  induction rs generalizing rows with
  | nil => exact Iff.rfl
  | cons r rs ih =>
    rw [List.map_cons, List.mem_cons, not_or] at h
    have hrest : x ∈ replaceRows rs (setRow r.rid r.bytes rows) ↔ _ := ih h.2
    refine hrest.trans ?_
    rw [mem_setRow_iff]
    constructor
    · rintro (⟨hx, -⟩ | ⟨rfl, -⟩)
      · exact hx
      · exact absurd rfl h.1
    · exact fun hx => .inl ⟨hx, h.1⟩

/-- A row that is replaced has its new bytes, if there are any. -/
lemma mem_replaceRows_iff (hnodup : (rs.map Replacement.rid).Nodup) (hr : r ∈ rs)
    (hstored : r.rid ∈ rows.map Prod.fst) :
    (r.rid, b) ∈ replaceRows rs rows ↔ b = r.bytes ∧ b ≠ [] := by
  induction rs generalizing rows with
  | nil => cases hr
  | cons r' rs ih =>
    rw [List.map_cons, List.nodup_cons] at hnodup
    rcases List.mem_cons.1 hr with rfl | hmem
    · have hrest : (r.rid, b) ∈ replaceRows rs (setRow r.rid r.bytes rows) ↔ _ :=
        mem_replaceRows_of_notMem hnodup.1
      refine hrest.trans ?_
      rw [mem_setRow_iff]
      constructor
      · rintro (⟨-, hne⟩ | ⟨heq, hb, -⟩)
        · exact absurd rfl hne
        · obtain ⟨-, rfl⟩ := Prod.mk.inj heq
          exact ⟨rfl, hb⟩
      · rintro ⟨rfl, hb⟩
        exact .inr ⟨rfl, hb, hstored⟩
    · refine ih hnodup.2 hmem ?_
      have hne : r.rid ≠ r'.rid := by
        intro heq
        exact hnodup.1 (heq ▸ List.mem_map_of_mem hmem)
      obtain ⟨y, hy, hfst⟩ := List.mem_map.1 hstored
      exact List.mem_map.2 ⟨y, mem_setRow_iff.2 (.inl ⟨hy, hfst ▸ hne⟩), hfst⟩

/-- The change of an index reads the keys of the old and the new tuple. -/
lemma updateChange_eq {f : IndexInfo → IndexInfo} (h : updateChange schema r attr = pure f) :
    ∃ old new, r.scanned.keyOf schema attr = pure old ∧ r.updated.keyOf schema attr = pure new ∧
      f = fun i => (i.removeEntry old r.rid).insertEntry new r.rid := by
  obtain ⟨old, hold, hrest⟩ := Cpp.bind_eq_pure.1 h
  obtain ⟨new, hnew, hf⟩ := Cpp.bind_eq_pure.1 hrest
  cases hf
  exact ⟨old, new, hold, hnew, rfl⟩

/-- The change of `UPDATE` changes the entries of an index only. -/
lemma onlyEntries_updateChange (schema : Schema) (r : Replacement) :
    OnlyEntries (updateChange schema r) := by
  intro attr f i hf
  obtain ⟨old, new, -, -, rfl⟩ := updateChange_eq hf
  show (i.removeEntry old r.rid).insertEntry new r.rid = _
  rw [removeEntry_eq i old r.rid]
  rfl

/-- The entries of a row after its update. -/
lemma entries_moved (i : IndexInfo) (old new : ℤ) (rid : RID) (k : ℤ) :
    ((i.removeEntry old rid).insertEntry new rid).entries rid k =
      (if k = old then 0 else i.entries rid k) + if k = new then 1 else 0 := by
  rw [IndexInfo.entries_insertEntry, IndexInfo.entries_removeEntry]
  simp only [and_true]

/-- The entries of other rows are as before. -/
lemma entries_moved_of_ne (i : IndexInfo) (old new : ℤ) {rid x : RID} (h : x ≠ rid) (k : ℤ) :
    ((i.removeEntry old rid).insertEntry new rid).entries x k = i.entries x k := by
  rw [IndexInfo.entries_insertEntry, IndexInfo.entries_removeEntry, if_neg fun hx => h hx.2,
    if_neg fun hx => h hx.2, Nat.add_zero]

/-- The entries of the rows after their updates. -/
lemma entries_moveEntries (hmove : moveEntries schema attr i rs = pure i') (hcompact : i.Compact)
    (hnodup : (rs.map Replacement.rid).Nodup) :
    i'.Compact ∧
      (∀ x ∉ rs.map Replacement.rid, ∀ k, i'.entries x k = i.entries x k) ∧
      ∀ r ∈ rs, ∃ old new, r.scanned.keyOf schema attr = pure old ∧
        r.updated.keyOf schema attr = pure new ∧ ∀ k, i'.entries r.rid k =
          (if k = old then 0 else i.entries r.rid k) + if k = new then 1 else 0 := by
  induction rs generalizing i with
  | nil =>
    cases hmove
    exact ⟨hcompact, fun _ _ _ => rfl, fun r hr => by cases hr⟩
  | cons r rs ih =>
    rw [List.map_cons, List.nodup_cons] at hnodup
    obtain ⟨j, hj, hrest⟩ := Cpp.bind_eq_pure.1 hmove
    obtain ⟨f, hf, hfin⟩ := Cpp.bind_eq_pure.1 hj
    cases hfin
    obtain ⟨old, new, hold, hnew, rfl⟩ := updateChange_eq hf
    obtain ⟨hcompact', hothers, hrows⟩ :=
      ih hrest ((hcompact.removeEntry _ _).insertEntry _ _) hnodup.2
    refine ⟨hcompact', fun x hx k => ?_, fun r' hr' => ?_⟩
    · rw [List.map_cons, List.mem_cons, not_or] at hx
      rw [hothers x hx.2, entries_moved_of_ne _ _ _ hx.1]
    · rcases List.mem_cons.1 hr' with rfl | hmem
      · refine ⟨old, new, hold, hnew, fun k => ?_⟩
        rw [hothers _ hnodup.1, entries_moved]
      · have hne : r'.rid ≠ r.rid := by
          intro heq
          exact hnodup.1 (heq ▸ List.mem_map_of_mem hmem)
        obtain ⟨old', new', hold', hnew', hentries⟩ := hrows r' hmem
        refine ⟨old', new', hold', hnew', fun k => ?_⟩
        rw [hentries, entries_moved_of_ne _ _ _ hne]

/-- A row that has its new bytes afterwards was not refused.

**Proof sketch.** A row that is refused would have grown, and stays as it is. -/
lemma mem_accepted_of_mem_replaceRows {free : PageId → ℕ} (hrows : (rows.map Prod.fst).Nodup)
    (hstored : ∀ r ∈ rs, (r.rid, r.old) ∈ rows) (hnodup : (rs.map Replacement.rid).Nodup)
    (hr : r ∈ rs) (hnew : (r.rid, r.bytes) ∈ replaceRows (accepted free rs) rows) :
    r ∈ accepted free rs := by
  by_contra hout
  have hrid : r.rid ∉ (accepted free rs).map Replacement.rid := by
    intro hin
    obtain ⟨r', hr', heq⟩ := List.mem_map.1 hin
    rw [List.inj_on_of_nodup_map hnodup ((accepted_sublist free rs).subset hr') hr heq] at hr'
    exact hout hr'
  have hsame := List.inj_on_of_nodup_map hrows (hstored r hr)
    ((mem_replaceRows_of_notMem hrid).1 hnew) rfl
  have hgrows := length_lt_of_notMem_accepted hr hout
  rw [(Prod.mk.inj hsame).2] at hgrows
  exact lt_irrefl _ hgrows

/-- The heap holds all the new tuples iff no update was refused, and none of them is empty. -/
lemma forall_mem_replaceRows_iff {free : PageId → ℕ} (hrows : (rows.map Prod.fst).Nodup)
    (hstored : ∀ r ∈ rs, (r.rid, r.old) ∈ rows) (hnodup : (rs.map Replacement.rid).Nodup) :
    (∀ r ∈ rs, (r.rid, r.bytes) ∈ replaceRows (accepted free rs) rows) ↔
      accepted free rs = rs ∧ ∀ r ∈ rs, r.bytes ≠ [] := by
  have hsub := accepted_sublist free rs
  have hmem : ∀ r ∈ rs, r.rid ∈ rows.map Prod.fst := fun r hr => List.mem_map_of_mem (hstored r hr)
  constructor
  · intro h
    have hall : ∀ r ∈ rs, r ∈ accepted free rs := fun r hr =>
      mem_accepted_of_mem_replaceRows hrows hstored hnodup hr (h r hr)
    have heq : accepted free rs = rs :=
      hsub.eq_of_length_le (hnodup.of_map _ |>.subperm hall).length_le
    refine ⟨heq, fun r hr => ?_⟩
    rw [heq] at h
    exact ((mem_replaceRows_iff hnodup hr (hmem r hr)).1 (h r hr)).2
  · rintro ⟨heq, hne⟩ r hr
    rw [heq]
    exact (mem_replaceRows_iff hnodup hr (hmem r hr)).2 ⟨rfl, hne r hr⟩

/-- After the rows were replaced by others, an index files them iff the keys that were read off the
tuples are those that are stored. -/
lemma IndexInfo.FilesRows.moveEntries_iff (h : i.FilesRows schema attr rows)
    (hrows : (rows.map Prod.fst).Nodup) (hstored : ∀ r ∈ rs, (r.rid, r.old) ∈ rows)
    (hnodup : (rs.map Replacement.rid).Nodup) (hne : ∀ r ∈ rs, r.bytes ≠ [])
    (hmove : moveEntries schema attr i rs = pure i') :
    i'.FilesRows schema attr (replaceRows rs rows) ↔ ∀ r ∈ rs, r.KeysAreStored schema attr := by
  obtain ⟨hcompact, hothers, hmoved⟩ := entries_moveEntries hmove h.compact hnodup
  have hbefore := (IndexInfo.filesRows_iff.1 h).2
  -- a row that is replaced is filed as it should be iff its keys are stored
  have hrow : ∀ r ∈ rs, (∀ k, i'.entries r.rid k ≤ 1 ∧ (0 < i'.entries r.rid k ↔
      ∃ b, (r.rid, b) ∈ replaceRows rs rows ∧ (rawTuple (r.rid, b)).keyOf schema attr = pure k)) ↔
      r.KeysAreStored schema attr := by
    intro r hr
    obtain ⟨old, new, hold, hnew, hentries⟩ := hmoved r hr
    have hmem : r.rid ∈ rows.map Prod.fst := List.mem_map_of_mem (hstored r hr)
    have hafter : ∀ k, (∃ b, (r.rid, b) ∈ replaceRows rs rows ∧
        (rawTuple (r.rid, b)).keyOf schema attr = pure k) ↔
        (rawTuple (r.rid, r.bytes)).keyOf schema attr = pure k := by
      intro k
      constructor
      · rintro ⟨b, hb, hk⟩
        rwa [((mem_replaceRows_iff hnodup hr hmem).1 hb).1] at hk
      · intro hk
        exact ⟨r.bytes, (mem_replaceRows_iff hnodup hr hmem).2 ⟨rfl, hne r hr⟩, hk⟩
    have hold' : ∀ k, (∃ b, (r.rid, b) ∈ rows ∧
        (rawTuple (r.rid, b)).keyOf schema attr = pure k) ↔
        (rawTuple (r.rid, r.old)).keyOf schema attr = pure k := by
      intro k
      constructor
      · rintro ⟨b, hb, hk⟩
        have heq := List.inj_on_of_nodup_map hrows hb (hstored r hr) rfl
        obtain ⟨-, rfl⟩ := Prod.mk.inj heq
        exact hk
      · exact fun hk => ⟨r.old, hstored r hr, hk⟩
    have hfiled : ∀ k, i.entries r.rid k ≤ 1 ∧ (0 < i.entries r.rid k ↔
        (rawTuple (r.rid, r.old)).keyOf schema attr = pure k) := by
      intro k
      obtain ⟨hle, hiff⟩ := hbefore r.rid k
      exact ⟨hle, hiff.trans (hold' k)⟩
    simp only [hafter]
    rw [moved_iff (fun k k' hk hk' => by cases hk.symm.trans hk'; rfl) hfiled hentries]
    constructor
    · rintro ⟨hall, hstored'⟩
      refine ⟨fun k hk => ?_, fun k hk => ?_⟩
      · rw [hall k hk]
        exact hold
      · cases hk.symm.trans hnew
        exact hstored'
    · rintro ⟨hall, hstored'⟩
      refine ⟨fun k hk => ?_, hstored' new hnew⟩
      cases (hall k hk).symm.trans hold
      rfl
  rw [IndexInfo.filesRows_iff]
  constructor
  · rintro ⟨-, hall⟩ r hr
    exact (hrow r hr).1 (hall r.rid)
  · intro hall
    refine ⟨hcompact, fun rid k => ?_⟩
    by_cases hrid : rid ∈ rs.map Replacement.rid
    · obtain ⟨r, hr, rfl⟩ := List.mem_map.1 hrid
      exact (hrow r hr).2 (hall r hr) k
    · rw [hothers rid hrid]
      have hsame : ∀ b, (rid, b) ∈ replaceRows rs rows ↔ (rid, b) ∈ rows :=
        fun b => mem_replaceRows_of_notMem hrid
      simp only [hsame]
      exact hbefore rid k

end Several

/-! ## A row of the table -/

/-- Only pages of the heap have changed, and it has no others than before. -/
structure InPlace (t : PageStore TablePage) (pages : Pages) (t' : PageStore TablePage)
    (pages' : Pages) : Prop where
  pages_eq : pages'.map Prod.fst = pages.map Prod.fst
  frame : Frame (pages.map Prod.fst) t t'
  next_eq : t'.nextPageId = t.nextPageId

/-- Nothing has changed. -/
lemma InPlace.refl {t : PageStore TablePage} (ht : Ready t) (pages : Pages) :
    InPlace t pages t pages := ⟨rfl, Frame.refl ht _, rfl⟩

/-- One change after the other. -/
lemma InPlace.trans {t t' t'' : PageStore TablePage} {pages pages' pages'' : Pages}
    (h : InPlace t pages t' pages') (h' : InPlace t' pages' t'' pages'') :
    InPlace t pages t'' pages'' where
  pages_eq := h'.pages_eq.trans h.pages_eq
  frame :=
    { ready := h'.frame.ready
      outside := by
        intro q hq hnext
        have hq' : q ∉ pages'.map Prod.fst := by rwa [h.pages_eq]
        exact (h'.frame.outside q hq' (h.next_eq ▸ hnext)).trans (h.frame.outside q hq hnext)
      kept := by
        intro q x hx
        obtain ⟨x', hx', hle⟩ := h.frame.kept q x hx
        obtain ⟨x'', hx'', hle'⟩ := h'.frame.kept q x' hx'
        exact ⟨x'', hx'', hle'.trans hle⟩
      next_le := h.frame.next_le.trans h'.frame.next_le }
  next_eq := h'.next_eq.trans h.next_eq

/-- The context after the update of a row. -/
structure RowUpdated (tableInfo : TableInfo) (oids : List ℕ) (r : Replacement)
    (ctx : ExecutorContext) (pages : Pages) (ctx' : ExecutorContext) (pages' : Pages) : Prop where
  table : HeapTable ctx' tableInfo pages'
  rows : liveRows pages' = if r.IsRefused (freeSpace ctx.bpm) then liveRows pages
    else setRow r.rid r.bytes (liveRows pages)
  free : freeSpace ctx'.bpm = if r.IsRefused (freeSpace ctx.bpm) then freeSpace ctx.bpm
    else r.takeRoom (freeSpace ctx.bpm)
  catalog : ctx.catalog.Maintained oids (updateChange tableInfo.schema r) ctx'.catalog
  inPlace : InPlace ctx.bpm pages ctx'.bpm pages'

section Table

variable {ctx ctx' : ExecutorContext} {tableInfo : TableInfo} {pages : Pages} {oids : List ℕ}
  {r : Replacement} {count count' : ℤ} {updateExprs : List Expression} {childSchema : Schema}

/-- What `UpdateTuple` does, unless it takes bytes that are not free. -/
lemma HeapTable.exists_updateTuple (h : HeapTable ctx tableInfo pages)
    (hstored : (r.rid, r.old) ∈ liveRows pages)
    (hfree : ¬ r.IsRefused (freeSpace ctx.bpm) →
      r.bytes.length ≤ freeSpace ctx.bpm r.rid.pageId) :
    ∃ ok bpm pages', (TableHeap.updateTuple r.rid r.updated).run (PageStore.handler ctx.poolSize)
        ctx.bpm = some (ok, bpm) ∧
      Holds bpm.content tableInfo.table pages' ∧ InPlace ctx.bpm pages bpm pages' ∧
      (liveRows pages' = if r.IsRefused (freeSpace ctx.bpm) then liveRows pages
        else setRow r.rid r.bytes (liveRows pages)) ∧
      freeSpace bpm = if r.IsRefused (freeSpace ctx.bpm) then freeSpace ctx.bpm
        else r.takeRoom (freeSpace ctx.bpm) := by
  obtain ⟨before, after, hrows⟩ := List.append_of_mem hstored
  by_cases hrefused : r.IsRefused (freeSpace ctx.bpm)
  · simp only [if_pos hrefused]
    exact ⟨false, ctx.bpm, pages,
      h.holds.updateTuple_refused h.ready h.frames hrows hrefused, h.holds,
      InPlace.refl h.ready pages, rfl, rfl⟩
  · simp only [if_neg hrefused]
    obtain ⟨bpm, pages', hrun, hholds, -, hrows', hspace, hpages, hframe, hnext⟩ :=
      h.holds.updateTuple h.ready h.frames hrows hrefused (hfree hrefused)
    refine ⟨true, bpm, pages', hrun, hholds, ⟨hpages, hframe, hnext⟩, ?_, hspace⟩
    have hnodup := nodup_liveRows h.holds.nodup
    rw [hrows] at hnodup ⊢
    rw [setRow_middle hnodup]
    exact hrows'

/-- The body of the loop of `UPDATE`, if it returns. -/
lemma HeapTable.updateRow_returns (h : HeapTable ctx tableInfo pages) (hnodup : oids.Nodup)
    (hstored : (r.rid, r.old) ∈ liveRows pages)
    (hevaluated : evaluateRow updateExprs childSchema r.scanned = pure r.updated)
    (hfree : ¬ r.IsRefused (freeSpace ctx.bpm) →
      r.bytes.length ≤ freeSpace ctx.bpm r.rid.pageId)
    (hret : Returns (updateRow updateExprs childSchema tableInfo oids count (r.scanned, r.rid)) ctx
      count' ctx') :
    count' = count + 1 ∧ count' < 2 ^ 31 ∧
      ∃ pages', RowUpdated tableInfo oids r ctx pages ctx' pages' := by
  obtain ⟨updated, c₁, hupdated, hret₁⟩ := returns_bind.1 hret
  obtain ⟨heq, rfl⟩ := returns_ofCpp.1 hupdated
  cases heq.symm.trans hevaluated
  obtain ⟨ok, c₂, hupdate, hret₂⟩ := returns_bind.1 hret₁
  obtain ⟨bpm, hrun, rfl⟩ := returns_ofProgram.1 hupdate
  obtain ⟨n, c₃, hcount, hret₃⟩ := returns_bind.1 hret₂
  obtain ⟨hcount', rfl⟩ := returns_ofCpp.1 hcount
  obtain ⟨⟨⟩, c₄, hloop, hret₄⟩ := returns_bind.1 hret₃
  obtain ⟨rfl, rfl⟩ := returns_pure.1 hret₄
  obtain ⟨hmaintained, hc₄⟩ := returns_maintainIndexes hnodup hloop
  obtain ⟨ok', bpm', pages', hrun', hholds, hplace, hrows, hspace⟩ :=
    h.exists_updateTuple hstored hfree
  obtain ⟨-, rfl⟩ := Prod.mk.inj (Option.some.inj (hrun.symm.trans hrun'))
  refine ⟨countUp_returns hcount', countUp_lt hcount', pages', ?_⟩
  rw [hc₄]
  exact ⟨⟨hplace.frame.ready, h.frames, hholds⟩, hrows, hspace, hmaintained, hplace⟩

/-- The body of the loop of `UPDATE` returns, if the indexes can be changed. -/
lemma HeapTable.exists_updateRow (h : HeapTable ctx tableInfo pages) (hnodup : oids.Nodup)
    (hstored : (r.rid, r.old) ∈ liveRows pages)
    (hevaluated : evaluateRow updateExprs childSchema r.scanned = pure r.updated)
    (hfree : ¬ r.IsRefused (freeSpace ctx.bpm) →
      r.bytes.length ≤ freeSpace ctx.bpm r.rid.pageId)
    (hchange : ∀ oid ∈ oids, ∃ i i', ctx.catalog.getIndex oid = some i ∧
      i.changed (updateChange tableInfo.schema r) = pure i') (hcount : count + 1 < 2 ^ 31) :
    ∃ ctx', Returns (updateRow updateExprs childSchema tableInfo oids count (r.scanned, r.rid)) ctx
      (count + 1) ctx' := by
  obtain ⟨ok, bpm, pages', hrun, -⟩ := h.exists_updateTuple hstored hfree
  obtain ⟨ctx', hloop⟩ : ∃ ctx', Returns (maintainIndexes oids
      (updateChange tableInfo.schema r)) { ctx with bpm := bpm } () ctx' :=
    exists_maintainIndexes hnodup hchange
  refine ⟨ctx', returns_bind.2 ⟨r.updated, ctx, returns_ofCpp.2 ⟨hevaluated, rfl⟩, ?_⟩⟩
  refine returns_bind.2 ⟨ok, _, returns_ofProgram.2 ⟨bpm, hrun, rfl⟩, ?_⟩
  refine returns_bind.2 ⟨count + 1, _, returns_ofCpp.2 ⟨countUp_eq hcount, rfl⟩, ?_⟩
  exact returns_bind.2 ⟨(), ctx', hloop, returns_pure.2 ⟨rfl, rfl⟩⟩

end Table

end OneBase
