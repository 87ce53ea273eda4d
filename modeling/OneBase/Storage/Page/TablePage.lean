import OneBase.Common.Types
import OneBase.Lib.Memory
import OneBase.Lib.Transition

set_option relaxedAutoImplicit false
set_option autoImplicit false

/-!
# Slotted pages

`storage/page/table_page.cpp`. The header holds `next_page_id` (bytes 0–3), the number of
tuples (4–7) and the free-space pointer (8–11); the slot array grows upwards from byte 16 and the
tuples grow downwards from the end of the page. Sizes are `uint32_t` and offsets and lengths in
the slots `uint16_t`.

## Main definitions

* `OneBase.TablePage` — the page, with `init`, `insertTuple`, `getTuple`, `deleteTuple`,
  `updateTuple`.
* `OneBase.TablePage.Intact` — the integrity of a page whose slots should hold given tuples.

## Main results

* `OneBase.TablePage.Intact.step` — an operation that takes no more bytes than are free keeps the
  page intact.
* `OneBase.TablePage.intact_of_run` — so does every run of such operations.
* `OneBase.TablePage.updateTuple_overlaps` — `UpdateTuple` can take more bytes than are free.
-/

namespace OneBase

open Memory

/-- `TablePage`: `data_`, as the memory from its first byte on. -/
@[ext]
structure TablePage where
  data : ℕ → UInt8

namespace TablePage

/-- `SIZE_TABLE_PAGE_HEADER`. -/
def sizeTablePageHeader : ℕ := 16

/-- `SIZE_TUPLE_SLOT`. -/
def sizeTupleSlot : ℕ := 4

/-- The difference of two `uint32_t`. -/
def sub32 (a b : ℕ) : ℕ := (((a : ℤ) - b) % 2 ^ 32).toNat

/-- `GetNextPageId`. -/
def getNextPageId (p : TablePage) : PageId := readInt32 p.data 0

/-- `SetNextPageId`. -/
def setNextPageId (p : TablePage) (nextPageId : PageId) : TablePage :=
  ⟨writeInt32 p.data 0 nextPageId⟩

/-- `GetNumTuples`. -/
def getNumTuples (p : TablePage) : ℕ := readLE 4 p.data 4

/-- `SetNumTuples`. -/
def setNumTuples (p : TablePage) (numTuples : ℕ) : TablePage := ⟨writeLE 4 p.data 4 numTuples⟩

/-- `GetFreeSpacePointer`. -/
def getFreeSpacePointer (p : TablePage) : ℕ := readLE 4 p.data 8

/-- `SetFreeSpacePointer`. -/
def setFreeSpacePointer (p : TablePage) (fsp : ℕ) : TablePage := ⟨writeLE 4 p.data 8 fsp⟩

/-- The address of the slot. -/
def slotOffset (slotNum : ℕ) : ℕ := sizeTablePageHeader + slotNum * sizeTupleSlot

/-- `GetTupleOffsetAtSlot`. -/
def getTupleOffsetAtSlot (p : TablePage) (slotNum : ℕ) : ℕ := readLE 2 p.data (slotOffset slotNum)

/-- `GetTupleLengthAtSlot`. -/
def getTupleLengthAtSlot (p : TablePage) (slotNum : ℕ) : ℕ :=
  readLE 2 p.data (slotOffset slotNum + 2)

/-- `SetTupleOffsetAtSlot`. -/
def setTupleOffsetAtSlot (p : TablePage) (slotNum offset : ℕ) : TablePage :=
  ⟨writeLE 2 p.data (slotOffset slotNum) offset⟩

/-- `SetTupleLengthAtSlot`. -/
def setTupleLengthAtSlot (p : TablePage) (slotNum length : ℕ) : TablePage :=
  ⟨writeLE 2 p.data (slotOffset slotNum + 2) length⟩

/-- `Init`. -/
def init (p : TablePage) (pageId : PageId) : TablePage :=
  let p : TablePage := ⟨writeBytes p.data 0 (List.replicate pageSize 0)⟩
  ((p.setNextPageId pageId).setNumTuples 0).setFreeSpacePointer pageSize

/-- `GetFreeSpaceRemaining`. -/
def getFreeSpaceRemaining (p : TablePage) : ℕ :=
  let slotEnd := sizeTablePageHeader + p.getNumTuples * sizeTupleSlot
  sub32 p.getFreeSpacePointer slotEnd

/-- The new free-space pointer, the copy below the old one and the two fields of the slot, as
`InsertTuple` and `UpdateTuple` both write a tuple. -/
def writeTuple (p : TablePage) (slotNum : ℕ) (tupleData : List UInt8) : TablePage :=
  let fsp := p.getFreeSpacePointer
  let newFsp := sub32 fsp tupleData.length
  let p := p.setFreeSpacePointer newFsp
  let p : TablePage := ⟨writeBytes p.data newFsp tupleData⟩
  (p.setTupleOffsetAtSlot slotNum newFsp).setTupleLengthAtSlot slotNum tupleData.length

/-- `InsertTuple`. -/
def insertTuple (p : TablePage) (tupleData : List UInt8) : Option ℕ × TablePage :=
  if p.getFreeSpaceRemaining < tupleData.length + sizeTupleSlot then (none, p)
  else
    let numTuples := p.getNumTuples
    let p := p.writeTuple (numTuples % 2 ^ 16) tupleData
    (some (numTuples % 2 ^ 16), p.setNumTuples (numTuples + 1))

/-- `GetTuple`: the bytes it copies to `dest`; `out_size` is their number. -/
def getTuple (p : TablePage) (slotNum : ℕ) : List UInt8 :=
  readBytes p.data (p.getTupleOffsetAtSlot slotNum) (p.getTupleLengthAtSlot slotNum)

/-- `GetTupleSize`. -/
def getTupleSize (p : TablePage) (slotNum : ℕ) : ℕ := p.getTupleLengthAtSlot slotNum

/-- `DeleteTuple`. -/
def deleteTuple (p : TablePage) (slotNum : ℕ) : TablePage :=
  (p.setTupleLengthAtSlot slotNum 0).setTupleOffsetAtSlot slotNum 0

/-- The check with which `UpdateTuple` refuses. -/
def updateRefused (p : TablePage) (slotNum newSize : ℕ) : Bool :=
  let oldSize := p.getTupleLengthAtSlot slotNum
  decide (newSize > oldSize ∧ newSize - oldSize > p.getFreeSpaceRemaining)

/-- `UpdateTuple`. -/
def updateTuple (p : TablePage) (slotNum : ℕ) (newData : List UInt8) : Bool × TablePage :=
  if p.updateRefused slotNum newData.length then (false, p)
  else (true, (p.deleteTuple slotNum).writeTuple slotNum newData)

/-! ## What the operations write -/

section Writes

variable {p q : TablePage} {s t v : ℕ} {l : List UInt8}

/-- A difference that is not negative does not wrap around. -/
lemma sub32_eq {a b : ℕ} (hab : b ≤ a) (ha : a < 2 ^ 32) : sub32 a b = a - b := by
  unfold sub32
  omega

/-- The free space lies between the slots and the tuples. -/
lemma getFreeSpaceRemaining_eq (h : slotOffset p.getNumTuples ≤ p.getFreeSpacePointer) :
    p.getFreeSpaceRemaining = p.getFreeSpacePointer - slotOffset p.getNumTuples :=
  sub32_eq h (readLE_lt 4 p.data 8)

/-- The slots other than `s` in front of `limit`, and the bytes from `top` on, are the same in `p`
and in `q`. -/
structure SameBut (p q : TablePage) (s limit top : ℕ) : Prop where
  slots : ∀ i, sizeTablePageHeader ≤ i → i < limit → (i < slotOffset s ∨ slotOffset (s + 1) ≤ i) →
    q.data i = p.data i
  tuples : ∀ i, top ≤ i → q.data i = p.data i

/-- Two operations on the same slot, one after the other. -/
lemma SameBut.trans {r : TablePage} {limit top : ℕ} (hpq : SameBut p q s limit top)
    (hqr : SameBut q r s limit top) : SameBut p r s limit top where
  slots i hi hlt hs := (hqr.slots i hi hlt hs).trans (hpq.slots i hi hlt hs)
  tuples i hi := (hqr.tuples i hi).trans (hpq.tuples i hi)

/-- The other slots have their offsets. -/
lemma SameBut.getTupleOffsetAtSlot {limit top : ℕ} (h : SameBut p q s limit top) (hts : t ≠ s)
    (ht : slotOffset (t + 1) ≤ limit) : q.getTupleOffsetAtSlot t = p.getTupleOffsetAtSlot t := by
  refine readLE_congr fun i hi hlt => h.slots i ?_ ?_ ?_ <;>
    simp only [slotOffset, sizeTablePageHeader, sizeTupleSlot] at * <;> omega

/-- The other slots have their lengths. -/
lemma SameBut.getTupleLengthAtSlot {limit top : ℕ} (h : SameBut p q s limit top) (hts : t ≠ s)
    (ht : slotOffset (t + 1) ≤ limit) : q.getTupleLengthAtSlot t = p.getTupleLengthAtSlot t := by
  refine readLE_congr fun i hi hlt => h.slots i ?_ ?_ ?_ <;>
    simp only [slotOffset, sizeTablePageHeader, sizeTupleSlot] at * <;> omega

/-- A tuple above `top` is the same. -/
lemma SameBut.getTuple {limit top : ℕ} (h : SameBut p q s limit top) (hts : t ≠ s)
    (ht : slotOffset (t + 1) ≤ limit)
    (htop : top ≤ p.getTupleOffsetAtSlot t ∨ p.getTupleLengthAtSlot t = 0) :
    q.getTuple t = p.getTuple t := by
  rw [TablePage.getTuple, h.getTupleOffsetAtSlot hts ht, h.getTupleLengthAtSlot hts ht]
  refine readBytes_congr fun i hi hlt => h.tuples i ?_
  omega

/-- What `writeTuple` does when the tuple fits between the slots and the free-space pointer. -/
lemma writeTuple_spec (hfsp : p.getFreeSpacePointer ≤ pageSize)
    (hfit : slotOffset (s + 1) + l.length ≤ p.getFreeSpacePointer) :
    let q := p.writeTuple s l
    q.getFreeSpacePointer = p.getFreeSpacePointer - l.length ∧
      q.getTupleOffsetAtSlot s = p.getFreeSpacePointer - l.length ∧
      q.getTupleLengthAtSlot s = l.length ∧ q.getTuple s = l ∧
      q.getNumTuples = p.getNumTuples ∧
      SameBut p q s (p.getFreeSpacePointer - l.length) p.getFreeSpacePointer := by
  set f := p.getFreeSpacePointer with hf
  have hsub : sub32 f l.length = f - l.length := by
    refine sub32_eq (by omega) ?_
    simp only [pageSize] at hfsp
    omega
  simp only [slotOffset, sizeTablePageHeader, sizeTupleSlot, pageSize] at *
  have hdata : (p.writeTuple s l).data = writeLE 2 (writeLE 2 (writeBytes
      (writeLE 4 p.data 8 (f - l.length)) (f - l.length) l) (16 + s * 4) (f - l.length))
      (16 + s * 4 + 2) l.length := by
    rw [← hsub]
    rfl
  have hoff : (p.writeTuple s l).getTupleOffsetAtSlot s = f - l.length := by
    rw [getTupleOffsetAtSlot, hdata]
    simp only [slotOffset, sizeTablePageHeader, sizeTupleSlot]
    rw [readLE_writeLE_of_disjoint (by omega), readLE_writeLE]
    exact Nat.mod_eq_of_lt (by omega)
  have hlen : (p.writeTuple s l).getTupleLengthAtSlot s = l.length := by
    rw [getTupleLengthAtSlot, hdata]
    simp only [slotOffset, sizeTablePageHeader, sizeTupleSlot]
    rw [readLE_writeLE]
    exact Nat.mod_eq_of_lt (by omega)
  refine ⟨?_, hoff, hlen, ?_, ?_, ?_, ?_⟩
  · rw [getFreeSpacePointer, hdata, readLE_writeLE_of_disjoint (by omega),
      readLE_writeLE_of_disjoint (by omega), readLE_writeBytes_of_disjoint (by omega),
      readLE_writeLE]
    exact Nat.mod_eq_of_lt (by omega)
  · rw [getTuple, hoff, hlen, hdata, readBytes_writeLE_of_disjoint (by omega),
      readBytes_writeLE_of_disjoint (by omega), readBytes_writeBytes]
  · rw [TablePage.getNumTuples, hdata, readLE_writeLE_of_disjoint (by omega),
      readLE_writeLE_of_disjoint (by omega), readLE_writeBytes_of_disjoint (by omega),
      readLE_writeLE_of_disjoint (by omega)]
    rfl
  · intro i hi hlt hs
    simp only [slotOffset, sizeTablePageHeader, sizeTupleSlot] at hi hs
    rw [hdata, writeLE_of_outside (by omega), writeLE_of_outside (by omega),
      writeBytes_of_outside (by omega), writeLE_of_outside (by omega)]
  · intro i hi
    rw [hdata, writeLE_of_outside (by omega), writeLE_of_outside (by omega),
      writeBytes_of_outside (by omega), writeLE_of_outside (by omega)]

/-- What `deleteTuple` does. -/
lemma deleteTuple_spec (p : TablePage) (s : ℕ) :
    let q := p.deleteTuple s
    q.getFreeSpacePointer = p.getFreeSpacePointer ∧ q.getNumTuples = p.getNumTuples ∧
      q.getTupleLengthAtSlot s = 0 ∧
      ∀ limit top, slotOffset (s + 1) ≤ top → SameBut p q s limit top := by
  have hdata : (p.deleteTuple s).data =
      writeLE 2 (writeLE 2 p.data (16 + s * 4 + 2) 0) (16 + s * 4) 0 := rfl
  refine ⟨?_, ?_, ?_, fun limit top htop => ⟨?_, ?_⟩⟩
  · rw [getFreeSpacePointer, hdata, readLE_writeLE_of_disjoint (by omega),
      readLE_writeLE_of_disjoint (by omega)]
    rfl
  · rw [TablePage.getNumTuples, hdata, readLE_writeLE_of_disjoint (by omega),
      readLE_writeLE_of_disjoint (by omega)]
    rfl
  · rw [TablePage.getTupleLengthAtSlot, hdata]
    simp only [slotOffset, sizeTablePageHeader, sizeTupleSlot]
    rw [readLE_writeLE_of_disjoint (by omega), readLE_writeLE]
    rfl
  · intro i hi hlt hs
    simp only [slotOffset, sizeTablePageHeader, sizeTupleSlot] at hi hs
    rw [hdata, writeLE_of_outside (by omega), writeLE_of_outside (by omega)]
  · intro i hi
    simp only [slotOffset, sizeTablePageHeader, sizeTupleSlot] at htop
    rw [hdata, writeLE_of_outside (by omega), writeLE_of_outside (by omega)]

/-- What `setNumTuples` does. -/
lemma setNumTuples_spec (p : TablePage) (hv : v < 2 ^ 32) :
    let q := p.setNumTuples v
    q.getFreeSpacePointer = p.getFreeSpacePointer ∧ q.getNumTuples = v ∧
      (∀ t, q.getTupleOffsetAtSlot t = p.getTupleOffsetAtSlot t) ∧
      (∀ t, q.getTupleLengthAtSlot t = p.getTupleLengthAtSlot t) ∧
      (∀ t, sizeTablePageHeader ≤ p.getTupleOffsetAtSlot t → q.getTuple t = p.getTuple t) ∧
      ∀ s limit top, sizeTablePageHeader ≤ top → SameBut p q s limit top := by
  have hout : ∀ i, 8 ≤ i → (p.setNumTuples v).data i = p.data i :=
    fun i hi => writeLE_of_outside (by omega)
  have hoff : ∀ t, (p.setNumTuples v).getTupleOffsetAtSlot t = p.getTupleOffsetAtSlot t := by
    refine fun t => readLE_congr fun i hi _ => hout i ?_
    simp only [slotOffset, sizeTablePageHeader] at hi
    omega
  have hlen : ∀ t, (p.setNumTuples v).getTupleLengthAtSlot t = p.getTupleLengthAtSlot t := by
    refine fun t => readLE_congr fun i hi _ => hout i ?_
    simp only [slotOffset, sizeTablePageHeader] at hi
    omega
  refine ⟨readLE_congr fun i hi _ => hout i hi, ?_, hoff, hlen, ?_,
    fun s limit top htop => ⟨?_, ?_⟩⟩
  · rw [TablePage.getNumTuples, setNumTuples, readLE_writeLE]
    exact Nat.mod_eq_of_lt hv
  · intro t ht
    rw [TablePage.getTuple, hoff, hlen]
    refine readBytes_congr fun i hi _ => hout i ?_
    simp only [sizeTablePageHeader] at ht
    omega
  · intro i hi _ _
    simp only [sizeTablePageHeader] at hi
    exact hout i (by omega)
  · intro i hi
    simp only [sizeTablePageHeader] at htop
    exact hout i (by omega)

end Writes

/-! ## Integrity -/

/-- The integrity of a page whose slots should hold `contents`, with `none` for a deleted slot. -/
structure Intact (p : TablePage) (contents : List (Option (List UInt8))) : Prop where
  numTuples_eq : p.getNumTuples = contents.length
  slots_le : slotOffset contents.length ≤ p.getFreeSpacePointer
  fsp_le : p.getFreeSpacePointer ≤ pageSize
  live : ∀ s b, contents[s]? = some (some b) →
    p.getFreeSpacePointer ≤ p.getTupleOffsetAtSlot s ∧
      p.getTupleOffsetAtSlot s + p.getTupleLengthAtSlot s ≤ pageSize ∧ p.getTuple s = b
  disjoint : ∀ s t b c, s ≠ t → contents[s]? = some (some b) → contents[t]? = some (some c) →
    p.getTupleOffsetAtSlot s + p.getTupleLengthAtSlot s ≤ p.getTupleOffsetAtSlot t ∨
      p.getTupleOffsetAtSlot t + p.getTupleLengthAtSlot t ≤ p.getTupleOffsetAtSlot s
  dead : ∀ s, contents[s]? = some none → p.getTupleLengthAtSlot s = 0

/-- An operation on the slots of a page. -/
inductive Op
  | insertTuple (tupleData : List UInt8)
  | deleteTuple (slotNum : ℕ)
  | updateTuple (slotNum : ℕ) (newData : List UInt8)
  deriving DecidableEq, Repr

/-- The operation: whether it is accepted, and the page it leaves. -/
def perform (p : TablePage) : Op → Bool × TablePage
  | .insertTuple d => ((p.insertTuple d).1.isSome, (p.insertTuple d).2)
  | .deleteTuple s => (true, p.deleteTuple s)
  | .updateTuple s d => p.updateTuple s d

/-- The slot that the operation is about. -/
def Op.slot (p : TablePage) : Op → ℕ
  | .insertTuple _ => p.getNumTuples
  | .deleteTuple s => s
  | .updateTuple s _ => s

/-- The operation is on an existing slot, with a size that is an `uint32_t`. -/
def Op.Valid (p : TablePage) : Op → Prop
  | .insertTuple d => d.length < 2 ^ 32
  | .deleteTuple s => s < p.getNumTuples
  | .updateTuple s d => s < p.getNumTuples ∧ d.length < 2 ^ 32

/-- `UpdateTuple` refuses, or the bytes it takes are free. -/
def Op.Fits (p : TablePage) : Op → Prop
  | .updateTuple s d =>
    p.updateRefused s d.length = true ∨ d.length ≤ p.getFreeSpaceRemaining
  | _ => True

/-- What the slots should hold after the operation. -/
def Op.written (contents : List (Option (List UInt8))) (accepted : Bool) :
    Op → List (Option (List UInt8))
  | .insertTuple d => if accepted then contents ++ [some d] else contents
  | .deleteTuple s => contents.set s none
  | .updateTuple s d => if accepted then contents.set s (some d) else contents

/-- A valid operation on a page, and what its slots should hold then. -/
def Step (x : TablePage × List (Option (List UInt8))) (op : Op)
    (y : TablePage × List (Option (List UInt8))) : Prop :=
  op.Valid x.1 ∧ y = ((x.1.perform op).2, op.written x.2 (x.1.perform op).1)

/-! ## The integrity theorem -/

section Integrity

variable {p q : TablePage} {cs cs' : List (Option (List UInt8))} {s t : ℕ} {l : List UInt8}

/-- The tuples of a new page start at its end. -/
lemma init_getFreeSpacePointer (p : TablePage) (pageId : PageId) :
    (p.init pageId).getFreeSpacePointer = pageSize := by
  rw [getFreeSpacePointer, init, setFreeSpacePointer, readLE_writeLE]
  rfl

/-- A freshly initialised page is intact. -/
lemma intact_init (p : TablePage) (pageId : PageId) : Intact (p.init pageId) [] := by
  have hnum : (p.init pageId).getNumTuples = 0 := by
    rw [getNumTuples, init, setFreeSpacePointer, readLE_writeLE_of_disjoint (by omega),
      setNumTuples, readLE_writeLE]
    rfl
  have hfsp := init_getFreeSpacePointer p pageId
  exact ⟨hnum, by rw [hfsp]; decide, hfsp.le, by simp, by simp, by simp⟩

/-- The number of slots of an intact page is small. -/
lemma Intact.length_le (h : Intact p cs) : cs.length ≤ 1020 := by
  have h₁ := h.slots_le
  have h₂ := h.fsp_le
  simp only [slotOffset, sizeTablePageHeader, sizeTupleSlot, pageSize] at h₁ h₂
  omega

/-- The slots of an intact page lie in front of its free-space pointer. -/
lemma Intact.slotOffset_le (h : Intact p cs) (hs : s < cs.length) :
    slotOffset (s + 1) ≤ p.getFreeSpacePointer := by
  have h₁ := h.slots_le
  simp only [slotOffset, sizeTablePageHeader, sizeTupleSlot] at h₁ ⊢
  omega

/-- The free space of an intact page. -/
lemma Intact.getFreeSpaceRemaining_eq (h : Intact p cs) :
    p.getFreeSpaceRemaining = p.getFreeSpacePointer - slotOffset cs.length := by
  rw [TablePage.getFreeSpaceRemaining_eq (by rw [h.numTuples_eq]; exact h.slots_le),
    h.numTuples_eq]

/-- A tuple of another slot starts at the free-space pointer or above, or is empty. -/
lemma Intact.offset_or (h : Intact p cs) (ht : t < cs.length) :
    p.getFreeSpacePointer ≤ p.getTupleOffsetAtSlot t ∨ p.getTupleLengthAtSlot t = 0 := by
  cases hc : cs[t]? with
  | none => exact absurd (List.getElem?_eq_none_iff.1 hc) (by omega)
  | some o =>
    cases o with
    | none => exact .inr (h.dead t hc)
    | some b => exact .inl (h.live t b hc).1

/-- The other slots return the same bytes when only bytes below the free-space pointer and the
slot `s` have changed. -/
lemma Intact.getTuple_eq (h : Intact p cs) {limit : ℕ} (hlimit : slotOffset cs.length ≤ limit)
    (hsame : SameBut p q s limit p.getFreeSpacePointer) (ht : t < cs.length) (hts : t ≠ s) :
    q.getTuple t = p.getTuple t := by
  refine hsame.getTuple hts ?_ (h.offset_or ht)
  simp only [slotOffset, sizeTablePageHeader, sizeTupleSlot] at hlimit ⊢
  omega

/-- Writing the tuple `l` for the slot `s` directly below the free-space pointer keeps the page
intact when it stays above the slots.

**Proof sketch.** The new tuple ends where the old free-space pointer is, and every other live
tuple starts there or above; the other slots and their bytes are untouched. -/
lemma Intact.write (h : Intact p cs) (hnum : q.getNumTuples = cs'.length)
    (hs : cs'[s]? = some (some l)) (hother : ∀ t, t ≠ s → cs'[t]? = cs[t]?)
    (hfit : slotOffset cs'.length + l.length ≤ p.getFreeSpacePointer)
    (hle : cs.length ≤ cs'.length)
    (hfsp : q.getFreeSpacePointer = p.getFreeSpacePointer - l.length)
    (hoff : q.getTupleOffsetAtSlot s = p.getFreeSpacePointer - l.length)
    (hlen : q.getTupleLengthAtSlot s = l.length) (hget : q.getTuple s = l)
    (hsame : SameBut p q s (p.getFreeSpacePointer - l.length) p.getFreeSpacePointer) :
    Intact q cs' := by
  have hmem : ∀ t o, t ≠ s → cs'[t]? = some o → t < cs.length ∧ cs[t]? = some o := by
    intro t o hts ht
    rw [hother t hts] at ht
    exact ⟨(List.getElem?_eq_some_iff.1 ht).1, ht⟩
  have hslot : ∀ t, t < cs.length → slotOffset (t + 1) ≤ p.getFreeSpacePointer - l.length := by
    intro t ht
    simp only [slotOffset, sizeTablePageHeader, sizeTupleSlot] at hfit ⊢
    omega
  have hoff' : ∀ t, t ≠ s → t < cs.length → q.getTupleOffsetAtSlot t = p.getTupleOffsetAtSlot t :=
    fun t hts ht => hsame.getTupleOffsetAtSlot hts (hslot t ht)
  have hlen' : ∀ t, t ≠ s → t < cs.length → q.getTupleLengthAtSlot t = p.getTupleLengthAtSlot t :=
    fun t hts ht => hsame.getTupleLengthAtSlot hts (hslot t ht)
  have hpage := h.fsp_le
  have hsplit : ∀ t b, t ≠ s → cs'[t]? = some (some b) →
      p.getFreeSpacePointer ≤ q.getTupleOffsetAtSlot t ∧
        q.getTupleOffsetAtSlot t + q.getTupleLengthAtSlot t ≤ pageSize := by
    intro t b hts hb
    obtain ⟨ht, hb⟩ := hmem t _ hts hb
    rw [hoff' t hts ht, hlen' t hts ht]
    exact ⟨(h.live t b hb).1, (h.live t b hb).2.1⟩
  refine ⟨hnum, by omega, by omega, ?_, ?_, ?_⟩
  · intro t b hb
    by_cases hts : t = s
    · subst hts
      rw [hs] at hb
      obtain rfl : l = b := by simpa using hb
      exact ⟨by omega, by omega, hget⟩
    · have hb' := hmem t _ hts hb
      have hin := hsplit t b hts hb
      refine ⟨by omega, hin.2, ?_⟩
      rw [hsame.getTuple hts (hslot t hb'.1) (h.offset_or hb'.1)]
      exact (h.live t b hb'.2).2.2
  · intro t u b d htu hb hd
    by_cases hts : t = s
    · subst hts
      have := hsplit u d (Ne.symm htu) hd
      omega
    · by_cases hus : u = s
      · subst hus
        have := hsplit t b hts hb
        omega
      · obtain ⟨ht, hb⟩ := hmem t _ hts hb
        obtain ⟨hu, hd⟩ := hmem u _ hus hd
        rw [hoff' t hts ht, hlen' t hts ht, hoff' u hus hu, hlen' u hus hu]
        exact h.disjoint t u b d htu hb hd
  · intro t hdead
    have hts : t ≠ s := by
      rintro rfl
      rw [hs] at hdead
      simp at hdead
    obtain ⟨ht, hdead⟩ := hmem t _ hts hdead
    rw [hlen' t hts ht]
    exact h.dead t hdead

/-- `InsertTuple` refuses a tuple that does not fit together with its slot. -/
lemma insertTuple_full (hfull : p.getFreeSpaceRemaining < l.length + sizeTupleSlot) :
    p.insertTuple l = (none, p) := by
  rw [TablePage.insertTuple, if_pos hfull]

/-- `InsertTuple` appends a tuple that fits together with its slot. -/
lemma Intact.insertTuple (h : Intact p cs)
    (hfull : l.length + sizeTupleSlot ≤ p.getFreeSpaceRemaining) :
    (p.insertTuple l).1 = some cs.length ∧ Intact (p.insertTuple l).2 (cs ++ [some l]) ∧
      ∀ limit ≤ p.getFreeSpacePointer - l.length,
        SameBut p (p.insertTuple l).2 cs.length limit p.getFreeSpacePointer := by
  have hn := h.length_le
  have hfree := h.getFreeSpaceRemaining_eq
  have hmod : cs.length % 2 ^ 16 = cs.length := Nat.mod_eq_of_lt (by omega)
  have hfit : slotOffset (cs.length + 1) + l.length ≤ p.getFreeSpacePointer := by
    simp only [slotOffset, sizeTablePageHeader, sizeTupleSlot] at hfree hfull ⊢
    have := h.slots_le
    simp only [slotOffset, sizeTablePageHeader, sizeTupleSlot] at this
    omega
  have hval : p.insertTuple l =
      (some cs.length, (p.writeTuple cs.length l).setNumTuples (cs.length + 1)) := by
    simp only [TablePage.insertTuple, if_neg (not_lt.2 hfull), h.numTuples_eq, hmod]
  obtain ⟨hfsp, hoff, hlen, hget, hnum, hsame⟩ := writeTuple_spec h.fsp_le hfit
  obtain ⟨hfsp', hnum', hoff', hlen', hget', hsame'⟩ :=
    setNumTuples_spec (p.writeTuple cs.length l) (v := cs.length + 1) (by omega)
  have hhead : sizeTablePageHeader ≤ p.getFreeSpacePointer := by
    simp only [slotOffset, sizeTablePageHeader, sizeTupleSlot] at hfit ⊢
    omega
  have hall := hsame.trans (hsame' cs.length _ _ hhead)
  have htop : sizeTablePageHeader ≤ (p.writeTuple cs.length l).getTupleOffsetAtSlot cs.length := by
    simp only [slotOffset, sizeTablePageHeader, sizeTupleSlot] at hfit ⊢
    omega
  refine ⟨by rw [hval], ?_, ?_⟩
  · rw [hval]
    refine h.write (by simpa using hnum') (by simp) ?_ (by simpa using hfit) (by simp)
      (hfsp'.trans hfsp) ((hoff' _).trans hoff) ((hlen' _).trans hlen)
      ((hget' _ htop).trans hget) hall
    intro t ht
    by_cases hlt : t < cs.length
    · exact List.getElem?_append_left hlt
    · have hlen : (cs ++ [some l]).length ≤ t := by
        rw [List.length_append, List.length_singleton]
        omega
      rw [List.getElem?_eq_none hlen, List.getElem?_eq_none (by omega)]
  · intro limit hlimit
    rw [hval]
    exact ⟨fun i hi hlt => hall.slots i hi (by omega), hall.tuples⟩

/-- `DeleteTuple` empties its slot. -/
lemma Intact.deleteTuple (h : Intact p cs) (hs : s < cs.length) :
    Intact (p.deleteTuple s) (cs.set s none) := by
  obtain ⟨hfsp, hnum, hlen, hsame⟩ := deleteTuple_spec p s
  have hsame := hsame p.getFreeSpacePointer p.getFreeSpacePointer (h.slotOffset_le hs)
  have hother : ∀ t, t ≠ s → (cs.set s none)[t]? = cs[t]? := by
    intro t hts
    exact List.getElem?_set_ne (Ne.symm hts)
  have hself : (cs.set s none)[s]? = some none := List.getElem?_set_self hs
  have hlive : ∀ t b, (cs.set s none)[t]? = some (some b) →
      cs[t]? = some (some b) ∧
        (p.deleteTuple s).getTupleOffsetAtSlot t = p.getTupleOffsetAtSlot t ∧
        (p.deleteTuple s).getTupleLengthAtSlot t = p.getTupleLengthAtSlot t ∧
        (p.deleteTuple s).getTuple t = p.getTuple t := by
    intro t b hb
    have hts : t ≠ s := by
      rintro rfl
      rw [hself] at hb
      simp at hb
    rw [hother t hts] at hb
    have ht := h.slotOffset_le (List.getElem?_eq_some_iff.1 hb).1
    exact ⟨hb, hsame.getTupleOffsetAtSlot hts ht, hsame.getTupleLengthAtSlot hts ht,
      hsame.getTuple hts ht (.inl (h.live t b hb).1)⟩
  refine ⟨by rw [hnum, h.numTuples_eq, List.length_set], ?_, by rw [hfsp]; exact h.fsp_le, ?_, ?_,
    ?_⟩
  · rw [hfsp, List.length_set]
    exact h.slots_le
  · intro t b hb
    obtain ⟨hb, hoff, hlen, hget⟩ := hlive t b hb
    rw [hfsp, hoff, hlen, hget]
    exact h.live t b hb
  · intro t u b d htu hb hd
    obtain ⟨hb, hoff, hlen, -⟩ := hlive t b hb
    obtain ⟨hd, hoff', hlen', -⟩ := hlive u d hd
    rw [hoff, hlen, hoff', hlen']
    exact h.disjoint t u b d htu hb hd
  · intro t ht
    by_cases hts : t = s
    · rw [hts]
      exact hlen
    · rw [hother t hts] at ht
      rw [hsame.getTupleLengthAtSlot hts (h.slotOffset_le (List.getElem?_eq_some_iff.1 ht).1)]
      exact h.dead t ht

/-- An `UpdateTuple` that is not refused and whose bytes are free replaces the tuple. -/
lemma Intact.updateTuple (h : Intact p cs) (hs : s < cs.length)
    (haccept : p.updateRefused s l.length = false) (hfree : l.length ≤ p.getFreeSpaceRemaining) :
    (p.updateTuple s l).1 = true ∧ Intact (p.updateTuple s l).2 (cs.set s (some l)) ∧
      ∀ limit ≤ p.getFreeSpacePointer - l.length,
        SameBut p (p.updateTuple s l).2 s limit p.getFreeSpacePointer := by
  obtain ⟨hfsp, hnum, -, hsame⟩ := deleteTuple_spec p s
  rw [h.getFreeSpaceRemaining_eq] at hfree
  have hslots := h.slots_le
  have hslot : slotOffset (s + 1) ≤ slotOffset cs.length := by
    simp only [slotOffset, sizeTablePageHeader, sizeTupleSlot]
    omega
  obtain ⟨hfsp', hoff', hlen', hget', hnum', hsame'⟩ :=
    writeTuple_spec (p := p.deleteTuple s) (s := s) (l := l) (by rw [hfsp]; exact h.fsp_le)
      (by omega)
  rw [hfsp] at hfsp' hoff' hsame'
  have hall := (hsame _ p.getFreeSpacePointer (by omega)).trans hsame'
  have hval : p.updateTuple s l = (true, (p.deleteTuple s).writeTuple s l) := by
    simp [TablePage.updateTuple, haccept]
  rw [hval]
  refine ⟨rfl, ?_, fun limit hlimit => ⟨fun i hi hlt => hall.slots i hi (by omega), hall.tuples⟩⟩
  refine h.write ?_ (List.getElem?_set_self hs) ?_ ?_ (by simp) hfsp' hoff' hlen' hget' hall
  · rw [hnum', hnum, h.numTuples_eq, List.length_set]
  · intro t hts
    exact List.getElem?_set_ne (Ne.symm hts)
  · rw [List.length_set]
    omega

/-- An `UpdateTuple` that is not refused and whose bytes are not all free breaks the page: it
puts the tuple below the end of the slot array, or outside the page. -/
lemma Intact.not_intact_updateTuple (h : Intact p cs) (hs : s < cs.length)
    (haccept : p.updateRefused s l.length = false) (hl : l.length < 2 ^ 32)
    (hfree : p.getFreeSpaceRemaining < l.length) :
    ¬ Intact (p.updateTuple s l).2 (cs.set s (some l)) := by
  intro hq
  have hn := h.length_le
  have hslots := h.slots_le
  have hpage := h.fsp_le
  rw [h.getFreeSpaceRemaining_eq] at hfree
  have hval : p.updateTuple s l = (true, (p.deleteTuple s).writeTuple s l) := by
    simp [TablePage.updateTuple, haccept]
  rw [hval] at hq
  set q := (p.deleteTuple s).writeTuple s l with hqdef
  have hslots' := hq.slots_le
  obtain ⟨hoff, hend, hget⟩ := hq.live s l (List.getElem?_set_self hs)
  have hlen : q.getTupleLengthAtSlot s = l.length := by
    rw [← hget, getTuple, length_readBytes]
  have hval' : q.getTupleOffsetAtSlot s = sub32 p.getFreeSpacePointer l.length % 256 ^ 2 := by
    rw [← (deleteTuple_spec p s).1, getTupleOffsetAtSlot, hqdef, writeTuple,
      setTupleLengthAtSlot, setTupleOffsetAtSlot, readLE_writeLE_of_disjoint (by omega),
      readLE_writeLE]
  rw [List.length_set] at hslots'
  simp only [sub32, slotOffset, sizeTablePageHeader, sizeTupleSlot, pageSize] at *
  omega

/-- The frame of an operation: the other slots keep their bytes, and nothing behind the page is
written. -/
def Frame (p q : TablePage) (s n : ℕ) : Prop :=
  (∀ t < n, t ≠ s → q.getTuple t = p.getTuple t) ∧ ∀ i, pageSize ≤ i → q.data i = p.data i

/-- A valid operation on an intact page leaves an intact page exactly when it fits, and then
leaves the other slots alone.

**Proof sketch.** By cases on the operation; `DeleteTuple` writes nothing but its slot,
`InsertTuple` checks for the bytes it takes, and `UpdateTuple` is split by whether they are
free. -/
lemma Intact.step (h : Intact p cs) {op : Op} (hop : op.Valid p) :
    (Intact (p.perform op).2 (op.written cs (p.perform op).1) ↔ op.Fits p) ∧
      (op.Fits p → Frame p (p.perform op).2 (op.slot p) cs.length) := by
  have hpage := h.fsp_le
  cases op with
  | insertTuple d =>
    rcases lt_or_ge p.getFreeSpaceRemaining (d.length + sizeTupleSlot) with hfull | hfull
    · simp only [perform, insertTuple_full hfull, Op.written, Op.Fits, Op.slot,
        Option.isSome_none, iff_true]
      exact ⟨h, fun _ => ⟨fun _ _ _ => rfl, fun _ _ => rfl⟩⟩
    · obtain ⟨hsome, hint, hsame⟩ := h.insertTuple hfull
      simp only [perform, hsome, Op.written, Op.Fits, Op.slot, Option.isSome_some, iff_true]
      refine ⟨hint, fun _ => ⟨fun t ht _ => ?_,
        fun i hi => (hsame 0 (by omega)).tuples i (by omega)⟩⟩
      have hlimit := hint.slots_le
      refine h.getTuple_eq ?_ (hsame _ le_rfl) ht (by omega)
      rw [h.getFreeSpaceRemaining_eq] at hfull
      have := h.slots_le
      omega
  | deleteTuple s =>
    have hs : s < cs.length := by
      rw [← h.numTuples_eq]
      exact hop
    obtain ⟨-, -, -, hsame⟩ := deleteTuple_spec p s
    have hsame := hsame (slotOffset cs.length) p.getFreeSpacePointer (h.slotOffset_le hs)
    simp only [perform, Op.written, Op.Fits, Op.slot, iff_true]
    exact ⟨h.deleteTuple hs, fun _ => ⟨fun t ht hts => h.getTuple_eq le_rfl hsame ht hts,
      fun i hi => hsame.tuples i (by omega)⟩⟩
  | updateTuple s d =>
    obtain ⟨hs, hd⟩ := hop
    rw [h.numTuples_eq] at hs
    simp only [perform, Op.written, Op.Fits, Op.slot]
    cases hrefused : p.updateRefused s d.length with
    | true =>
      have hval : p.updateTuple s d = (false, p) := by simp [TablePage.updateTuple, hrefused]
      simp only [hval, Bool.false_eq_true, if_false, true_or, iff_true]
      exact ⟨h, fun _ => ⟨fun _ _ _ => rfl, fun _ _ => rfl⟩⟩
    | false =>
      have hacc : (p.updateTuple s d).1 = true := by simp [TablePage.updateTuple, hrefused]
      simp only [hacc, Bool.false_eq_true, false_or, if_true]
      constructor
      · constructor
        · intro hint
          by_contra hfree
          exact h.not_intact_updateTuple hs hrefused hd (by omega) hint
        · intro hfree
          exact (h.updateTuple hs hrefused hfree).2.1
      · intro hfree
        obtain ⟨-, hint, hsame⟩ := h.updateTuple hs hrefused hfree
        refine ⟨fun t ht hts => ?_, fun i hi => (hsame 0 (by omega)).tuples i (by omega)⟩
        refine h.getTuple_eq ?_ (hsame _ le_rfl) ht hts
        rw [h.getFreeSpaceRemaining_eq] at hfree
        have := h.slots_le
        omega

/-- In every run whose operations fit, the page stays intact, and so does every operation that
fits leave the other slots alone; an operation that does not fit breaks the page. -/
theorem intact_of_run (p₀ : TablePage) (pageId : PageId) {ops : List Op}
    (hrun : Transition.Run (fun x op y => op.Fits x.1 ∧ Step x op y) (p₀.init pageId, []) ops
      (p, cs)) :
    Intact p cs ∧ ∀ op : Op, op.Valid p →
      (Intact (p.perform op).2 (op.written cs (p.perform op).1) ↔ op.Fits p) ∧
        (op.Fits p → Frame p (p.perform op).2 (op.slot p) cs.length) := by
  have hint : Intact p cs := by
    refine hrun.invariant (I := fun x => Intact x.1 x.2) ?_ (intact_init p₀ pageId)
    rintro x op y hx ⟨hfits, hvalid, rfl⟩
    exact (hx.step hvalid).1.2 hfits
  exact ⟨hint, fun op hop => hint.step hop⟩

/-- On a fresh page: a tuple of two bytes, an update to one byte, which is accepted, and one to
5000 bytes, which is refused. -/
theorem intact_of_run_updateTuple :
    ∃ p : TablePage, Transition.Run Step ((⟨fun _ => 0⟩ : TablePage).init 7, [])
        [.insertTuple [1, 2], .updateTuple 0 [3], .updateTuple 0 (List.replicate 5000 4)]
        (p, [some [3]]) ∧
      Intact p [some [3]] := by
  set p₀ := (⟨fun _ => 0⟩ : TablePage).init 7
  set p₁ := (p₀.insertTuple [1, 2]).2 with hp₁
  set p₂ := (p₁.updateTuple 0 [3]).2 with hp₂
  have hinsert : Step (p₀, []) (.insertTuple [1, 2]) (p₁, [some [1, 2]]) :=
    ⟨by simp [Op.Valid], by
      have hsome : (p₀.insertTuple [1, 2]).1.isSome = true := by decide +kernel
      simp [perform, Op.written, hsome, hp₁]⟩
  have hupdate : Step (p₁, [some [1, 2]]) (.updateTuple 0 [3]) (p₂, [some [3]]) :=
    ⟨⟨by decide +kernel, by simp⟩, by
      have haccept : (p₁.updateTuple 0 [3]).1 = true := by decide +kernel
      simp [perform, Op.written, haccept, hp₂]⟩
  have hrefused : p₂.updateRefused 0 (List.replicate 5000 (4 : UInt8)).length = true := by
    rw [List.length_replicate]
    decide +kernel
  have hrefuse : Step (p₂, [some [3]]) (.updateTuple 0 (List.replicate 5000 4)) (p₂, [some [3]]) := by
    refine ⟨⟨by decide +kernel, by rw [List.length_replicate]; decide⟩, ?_⟩
    simp only [perform, updateTuple, hrefused, if_pos, Op.written, Bool.false_eq_true, if_false]
  have hfits₀ : (Op.insertTuple [1, 2]).Fits p₀ := trivial
  have hfits₁ : (Op.updateTuple 0 [3]).Fits p₁ := .inr (by decide +kernel)
  have hfits₂ : (Op.updateTuple 0 (List.replicate 5000 4)).Fits p₂ := .inl hrefused
  generalize List.replicate 5000 (4 : UInt8) = data at hrefuse hfits₂ ⊢
  clear_value p₂ p₁
  exact ⟨p₂, .cons hinsert (.cons hupdate (.cons hrefuse (.nil _))),
    (intact_of_run ⟨fun _ => 0⟩ 7 (.cons ⟨hfits₀, hinsert⟩ (.cons ⟨hfits₁, hupdate⟩
      (.cons ⟨hfits₂, hrefuse⟩ (.nil _))))).1⟩

/-- Updating a tuple of 2040 bytes to 2037 bytes on a page with 2036 free bytes: it is accepted,
and the page is not intact. -/
theorem updateTuple_overlaps :
    ∃ p cs, Transition.Run Step ((⟨fun _ => 0⟩ : TablePage).init 0, [])
        [.insertTuple (List.replicate 2040 1), .updateTuple 0 (List.replicate 2037 2)] (p, cs) ∧
      ¬ Intact p cs := by
  set p₀ := (⟨fun _ => 0⟩ : TablePage).init 0
  set d : List UInt8 := List.replicate 2040 1
  set d' : List UInt8 := List.replicate 2037 2
  have hd : d.length = 2040 := List.length_replicate
  have hd' : d'.length = 2037 := List.length_replicate
  have h₀ : Intact p₀ [] := intact_init _ _
  have hfree₀ : p₀.getFreeSpaceRemaining = 4080 := by
    rw [h₀.getFreeSpaceRemaining_eq, init_getFreeSpacePointer]
    rfl
  obtain ⟨hsome, h₁, -⟩ := h₀.insertTuple (l := d) (by rw [hfree₀, hd]; decide)
  set p₁ := (p₀.insertTuple d).2
  obtain ⟨hoff, hend, hget⟩ := h₁.live 0 d (by simp)
  have hlen : p₁.getTupleLengthAtSlot 0 = 2040 := by
    rw [← hd, ← hget, getTuple, length_readBytes]
  have haccept : p₁.updateRefused 0 d'.length = false := by
    simp [updateRefused, hlen, hd']
  have hbad : ¬ Intact (p₁.updateTuple 0 d').2 [some d'] := by
    have h₁ : Intact p₁ [some d] := h₁
    refine h₁.not_intact_updateTuple (by simp) haccept (by omega) ?_
    rw [h₁.getFreeSpaceRemaining_eq, hd']
    simp only [slotOffset, sizeTablePageHeader, sizeTupleSlot, pageSize, List.nil_append,
      List.length_singleton] at *
    omega
  refine ⟨_, _, .cons ⟨by simp [Op.Valid, hd], rfl⟩ (.cons ⟨?_, rfl⟩ (.nil _)), ?_⟩
  · simp only [perform, Op.Valid, hd']
    exact ⟨by rw [h₁.numTuples_eq]; simp, by omega⟩
  · have hacc : (p₁.updateTuple 0 d').1 = true := by simp [updateTuple, haccept]
    simpa [perform, Op.written, hsome, hacc, p₁] using hbad

end Integrity

end TablePage

end OneBase
