import OneBase.Common.Types
import OneBase.Lib.Slots
import Mathlib.Order.Lattice
import Mathlib.Data.Int.Order.Basic

set_option relaxedAutoImplicit false
set_option autoImplicit false

/-!
# The pages of a B+ tree

`storage/page/b_plus_tree_page.h`, `b_plus_tree_leaf_page.cpp` and `b_plus_tree_internal_page.cpp`.
The comparator is the strict order of the keys. `array_` has no length in the source; every access
goes through `Slots` with the slots that fit into the page, so that a method is undefined as soon
as it touches another one.

## Main definitions

* `OneBase.BPlusTreeLeafPage`, `OneBase.BPlusTreeInternalPage` — the two kinds of pages with their
  methods.
* `OneBase.BPlusTreePage` — what the bytes of a page are read as.
-/

namespace OneBase

/-- `BPlusTreeLeafPage`. -/
structure BPlusTreeLeafPage (K V : Type) where
  size : ℕ := 0
  maxSize : ℕ
  parentPageId : PageId := invalidPageId
  nextPageId : PageId := invalidPageId
  array : ℕ → K × V

/-- `BPlusTreeInternalPage`. -/
structure BPlusTreeInternalPage (K : Type) where
  size : ℕ := 0
  maxSize : ℕ
  parentPageId : PageId := invalidPageId
  array : ℕ → K × PageId

/-- `BPlusTreePage`: the page by its `page_type_`; a zeroed page is invalid. -/
inductive BPlusTreePage (K V : Type)
  | invalid
  | leaf (page : BPlusTreeLeafPage K V)
  | internal (page : BPlusTreeInternalPage K)

instance {K V : Type} : Inhabited (BPlusTreePage K V) := ⟨.invalid⟩

namespace BPlusTreePage

variable {K V : Type}

/-- `IsLeafPage`. -/
def isLeafPage : BPlusTreePage K V → Bool
  | .leaf _ => true
  | _ => false

/-- `GetParentPageId`. -/
def parentPageId : BPlusTreePage K V → PageId
  | .invalid => 0
  | .leaf page => page.parentPageId
  | .internal page => page.parentPageId

/-- `IsRootPage`. -/
def isRootPage (p : BPlusTreePage K V) : Bool := p.parentPageId == invalidPageId

/-- `SetParentPageId`, of a page of either kind. -/
def setParentPageId (parentPageId : PageId) : BPlusTreePage K V → Option (BPlusTreePage K V)
  | .invalid => none
  | .leaf page => some (.leaf { page with parentPageId := parentPageId })
  | .internal page => some (.internal { page with parentPageId := parentPageId })

end BPlusTreePage

namespace BPlusTreeLeafPage

variable {K V : Type}

/-- `Init`, on a zeroed page. -/
def init [Inhabited K] [Inhabited V] (maxSize : ℕ) : BPlusTreeLeafPage K V where
  maxSize := maxSize
  array := fun _ => default

/-- `GetMinSize`. -/
def getMinSize (p : BPlusTreeLeafPage K V) : ℕ := p.maxSize / 2

/-- `IsRootPage`. -/
def isRootPage (p : BPlusTreeLeafPage K V) : Bool := p.parentPageId == invalidPageId

variable (fits : ℕ → Bool)

/-- `KeyAt`. -/
def keyAt (p : BPlusTreeLeafPage K V) (index : ℕ) : Option K :=
  (Slots.get fits p.array index).map Prod.fst

/-- `ValueAt`. -/
def valueAt (p : BPlusTreeLeafPage K V) (index : ℕ) : Option V :=
  (Slots.get fits p.array index).map Prod.snd

/-- `MoveHalfTo`: this page and the recipient afterwards. -/
def moveHalfTo (p recipient : BPlusTreeLeafPage K V) :
    Option (BPlusTreeLeafPage K V × BPlusTreeLeafPage K V) := do
  let splitIdx := p.size / 2
  let array ← Slots.copyTo fits p.array splitIdx recipient.array 0 (p.size - splitIdx)
  some ({ p with size := splitIdx }, { recipient with array := array, size := p.size - splitIdx })

/-- `MoveAllTo`. -/
def moveAllTo (p recipient : BPlusTreeLeafPage K V) :
    Option (BPlusTreeLeafPage K V × BPlusTreeLeafPage K V) := do
  let startIdx := recipient.size
  let array ← Slots.copyTo fits p.array 0 recipient.array startIdx p.size
  some ({ p with size := 0 },
    { recipient with
      array := array, size := recipient.size + p.size, nextPageId := p.nextPageId })

/-- `MoveFirstToEndOf`. -/
def moveFirstToEndOf (p recipient : BPlusTreeLeafPage K V) :
    Option (BPlusTreeLeafPage K V × BPlusTreeLeafPage K V) := do
  let rarray ← Slots.set fits recipient.array recipient.size (← Slots.get fits p.array 0)
  let array ← Slots.shiftLeft fits p.array 0 (p.size - 1)
  some ({ p with array := array, size := p.size - 1 },
    { recipient with array := rarray, size := recipient.size + 1 })

/-- `MoveLastToFrontOf`. -/
def moveLastToFrontOf (p recipient : BPlusTreeLeafPage K V) :
    Option (BPlusTreeLeafPage K V × BPlusTreeLeafPage K V) := do
  let rarray ← Slots.shiftRight fits recipient.array 0 recipient.size
  let rarray ← Slots.set fits rarray 0 (← Slots.get fits p.array (p.size - 1))
  some ({ p with size := p.size - 1 },
    { recipient with array := rarray, size := recipient.size + 1 })

variable [LinearOrder K]

/-- The loop of `KeyIndex`. -/
def keyIndexLoop (p : BPlusTreeLeafPage K V) (key : K) (low high : ℤ) : Option ℕ :=
  if _h : low ≤ high then do
    let mid := (low + high) / 2
    if (← p.keyAt fits mid.toNat) < key then p.keyIndexLoop key (mid + 1) high
    else p.keyIndexLoop key low (mid - 1)
  else some low.toNat
termination_by (high + 1 - low).toNat
decreasing_by all_goals omega

/-- `KeyIndex`. -/
def keyIndex (p : BPlusTreeLeafPage K V) (key : K) : Option ℕ :=
  p.keyIndexLoop fits key 0 ((p.size : ℤ) - 1)

/-- The test for the key at the index, as `Lookup`, `Insert` and `RemoveAndDeleteRecord` make
it. -/
def holdsKey (p : BPlusTreeLeafPage K V) (key : K) (index : ℕ) : Option Bool :=
  if index < p.size then do
    let k ← p.keyAt fits index
    some (decide (¬ key < k ∧ ¬ k < key))
  else some false

/-- `Lookup`: the value, or `none` for `false`. -/
def lookup (p : BPlusTreeLeafPage K V) (key : K) : Option (Option V) := do
  let index ← p.keyIndex fits key
  if ← p.holdsKey fits key index then (p.valueAt fits index).map some
  else some none

/-- `Insert`; the size that it returns is that of the page it leaves. -/
def insert (p : BPlusTreeLeafPage K V) (key : K) (value : V) : Option (BPlusTreeLeafPage K V) := do
  let index ← p.keyIndex fits key
  if ← p.holdsKey fits key index then some p
  else
    let array ← Slots.shiftRight fits p.array index (p.size - index)
    let array ← Slots.set fits array index (key, value)
    some { p with array := array, size := p.size + 1 }

/-- `RemoveAndDeleteRecord`; the size that it returns is that of the page it leaves. -/
def removeAndDeleteRecord (p : BPlusTreeLeafPage K V) (key : K) :
    Option (BPlusTreeLeafPage K V) := do
  let index ← p.keyIndex fits key
  if ← p.holdsKey fits key index then
    let array ← Slots.shiftLeft fits p.array index (p.size - 1 - index)
    some { p with array := array, size := p.size - 1 }
  else some p

end BPlusTreeLeafPage

namespace BPlusTreeInternalPage

variable {K : Type}

/-- `Init`, on a zeroed page. -/
def init [Inhabited K] (maxSize : ℕ) : BPlusTreeInternalPage K where
  maxSize := maxSize
  array := fun _ => default

/-- `GetMinSize`. -/
def getMinSize (p : BPlusTreeInternalPage K) : ℕ := (p.maxSize + 1) / 2

/-- `IsRootPage`. -/
def isRootPage (p : BPlusTreeInternalPage K) : Bool := p.parentPageId == invalidPageId

variable (fits : ℕ → Bool)

/-- `KeyAt`. -/
def keyAt (p : BPlusTreeInternalPage K) (index : ℕ) : Option K :=
  (Slots.get fits p.array index).map Prod.fst

/-- `ValueAt`. -/
def valueAt (p : BPlusTreeInternalPage K) (index : ℕ) : Option PageId :=
  (Slots.get fits p.array index).map Prod.snd

/-- `SetKeyAt`. -/
def setKeyAt (p : BPlusTreeInternalPage K) (index : ℕ) (key : K) :
    Option (BPlusTreeInternalPage K) := do
  let array ← Slots.set fits p.array index (key, (p.array index).2)
  some { p with array := array }

/-- `SetValueAt`. -/
def setValueAt (p : BPlusTreeInternalPage K) (index : ℕ) (value : PageId) :
    Option (BPlusTreeInternalPage K) := do
  let array ← Slots.set fits p.array index ((p.array index).1, value)
  some { p with array := array }

/-- The loop of `ValueIndex` over the `n` slots from `i` on. -/
def valueIndexLoop (p : BPlusTreeInternalPage K) (value : PageId) (i : ℕ) :
    ℕ → Option (Option ℕ)
  | 0 => some none
  | n + 1 => do
    if (← p.valueAt fits i) = value then some (some i)
    else p.valueIndexLoop value (i + 1) n

/-- `ValueIndex`, with `none` for `-1`. -/
def valueIndex (p : BPlusTreeInternalPage K) (value : PageId) : Option (Option ℕ) :=
  p.valueIndexLoop fits value 0 p.size

/-- `PopulateNewRoot`. -/
def populateNewRoot (p : BPlusTreeInternalPage K) (oldValue : PageId) (key : K)
    (newValue : PageId) : Option (BPlusTreeInternalPage K) := do
  let p ← p.setValueAt fits 0 oldValue
  let p ← p.setKeyAt fits 1 key
  let p ← p.setValueAt fits 1 newValue
  some { p with size := 2 }

/-- `InsertNodeAfter`. Copying the value and the key of a slot is copying the slot. -/
def insertNodeAfter (p : BPlusTreeInternalPage K) (oldValue : PageId) (key : K)
    (newValue : PageId) : Option (BPlusTreeInternalPage K) := do
  let idx ← p.valueIndex fits oldValue
  let pos := match idx with
    | some i => i + 1
    | none => 0
  let array ← Slots.shiftRight fits p.array pos (p.size - pos)
  let q ← { p with array := array }.setValueAt fits pos newValue
  let q ← q.setKeyAt fits pos key
  some { q with size := p.size + 1 }

/-- `Remove`. -/
def remove (p : BPlusTreeInternalPage K) (index : ℕ) : Option (BPlusTreeInternalPage K) := do
  let array ← Slots.shiftLeft fits p.array index (p.size - 1 - index)
  some { p with array := array, size := p.size - 1 }

/-- `RemoveAndReturnOnlyChild`. -/
def removeAndReturnOnlyChild (p : BPlusTreeInternalPage K) :
    Option (PageId × BPlusTreeInternalPage K) :=
  if p.size ≠ 1 then some (invalidPageId, p)
  else do
    let child ← p.valueAt fits 0
    some (child, { p with size := 0 })

/-- `MoveAllTo`: this page and the recipient afterwards. -/
def moveAllTo (p recipient : BPlusTreeInternalPage K) (middleKey : K) :
    Option (BPlusTreeInternalPage K × BPlusTreeInternalPage K) := do
  let dIdx := recipient.size
  let r ← recipient.setKeyAt fits dIdx middleKey
  let r ← r.setValueAt fits dIdx (← p.valueAt fits 0)
  let array ← Slots.copyTo fits p.array 1 r.array (dIdx + 1) (p.size - 1)
  some ({ p with size := 0 }, { r with array := array, size := recipient.size + p.size })

/-- `MoveHalfTo`; it does not use the middle key. -/
def moveHalfTo (p recipient : BPlusTreeInternalPage K) (_middleKey : K) :
    Option (BPlusTreeInternalPage K × BPlusTreeInternalPage K) := do
  let splitIdx := p.size / 2
  let move := p.size - splitIdx
  let array ← Slots.copyTo fits p.array splitIdx recipient.array 0 move
  some ({ p with size := p.size - move },
    { recipient with array := array, size := recipient.size + move })

/-- `MoveFirstToEndOf`. -/
def moveFirstToEndOf (p recipient : BPlusTreeInternalPage K) (middleKey : K) :
    Option (BPlusTreeInternalPage K × BPlusTreeInternalPage K) := do
  let r ← recipient.setValueAt fits recipient.size (← p.valueAt fits 0)
  let r ← r.setKeyAt fits recipient.size middleKey
  let q ← p.setValueAt fits 0 (← p.valueAt fits 1)
  let array ← Slots.shiftLeft fits q.array 1 (p.size - 2)
  some ({ q with array := array, size := p.size - 1 }, { r with size := recipient.size + 1 })

/-- `MoveLastToFrontOf`. -/
def moveLastToFrontOf (p recipient : BPlusTreeInternalPage K) (middleKey : K) :
    Option (BPlusTreeInternalPage K × BPlusTreeInternalPage K) := do
  let array ← Slots.shiftRight fits recipient.array 0 recipient.size
  let r ← { recipient with array := array }.setValueAt fits 0 (← p.valueAt fits (p.size - 1))
  let r ← r.setKeyAt fits 1 middleKey
  some ({ p with size := p.size - 1 }, { r with size := recipient.size + 1 })

variable [LinearOrder K]

/-- The loop of `Lookup`. -/
def lookupLoop (p : BPlusTreeInternalPage K) (key : K) (low high : ℤ) (index : ℕ) : Option ℕ :=
  if _h : low ≤ high then do
    let mid := (low + high) / 2
    if key < (← p.keyAt fits mid.toNat) then p.lookupLoop key low (mid - 1) index
    else p.lookupLoop key (mid + 1) high mid.toNat
  else some index
termination_by (high + 1 - low).toNat
decreasing_by all_goals omega

/-- `Lookup`. -/
def lookup (p : BPlusTreeInternalPage K) (key : K) : Option PageId := do
  let index ← p.lookupLoop fits key 1 ((p.size : ℤ) - 1) 0
  p.valueAt fits index

end BPlusTreeInternalPage

end OneBase
