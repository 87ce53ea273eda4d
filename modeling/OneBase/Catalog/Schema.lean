import OneBase.Type.Value

set_option relaxedAutoImplicit false
set_option autoImplicit false

/-!
# Columns and schemas

`catalog/column.h` and `catalog/schema.h`. The lengths of a column that its constructor computes
from its type are functions of the type here; the offsets are assigned by the constructor of the
schema.

## Main definitions

* `OneBase.Column`, `OneBase.Schema` — the columns of a table and their layout.

## Main results

* `OneBase.Schema.getColumn_new` — the offset of each column.
-/

namespace OneBase

/-- `Column`. -/
structure Column where
  name : String
  type : TypeId
  length : ℕ := 0
  offset : ℕ := 0
  deriving DecidableEq, Repr

namespace Column

/-- `GetFixedLengthFor`. -/
def getFixedLengthFor : TypeId → ℕ
  | .boolean => 1
  | .integer => 4
  | .float => 8
  | _ => 0

/-- The constructor. -/
def new (name : String) (type : TypeId) (length : ℕ := 0) : Column where
  name := name
  type := type
  length := if type = .varchar ∧ length = 0 then 256 else length

/-- `GetFixedLength`. -/
def getFixedLength (c : Column) : ℕ :=
  if c.type = .varchar then 4 else getFixedLengthFor c.type

/-- `IsInlined`. -/
def isInlined (c : Column) : Bool := c.type != .varchar

/-- The bytes that the constructor of `Schema` reserves for the column. -/
def width (c : Column) : ℕ := if c.isInlined then c.getFixedLength else 4

/-- The bytes that the schema reserves for a value of each type. -/
lemma width_eq (c : Column) : c.width =
    match c.type with
    | .boolean => 1
    | .integer => 4
    | .float => 8
    | .varchar => 4
    | .invalid => 0 := by
  obtain ⟨name, type, length, offset⟩ := c
  cases type <;> rfl

end Column

/-- `Schema`. -/
structure Schema where
  columns : List Column
  tupleLength : ℕ
  deriving DecidableEq, Repr

namespace Schema

/-- The loop of the constructor: the columns with their offsets, and the final offset. -/
def assignOffsets (offset : ℕ) : List Column → List Column × ℕ
  | [] => ([], offset)
  | col :: rest =>
    let r := assignOffsets ((offset + col.width) % 2 ^ 32) rest
    ({ col with offset := offset } :: r.1, r.2)

/-- The constructor. -/
def new (columns : List Column) : Schema :=
  let r := assignOffsets 0 columns
  { columns := r.1, tupleLength := r.2 }

/-- `GetColumn`. -/
def getColumn (s : Schema) (idx : ℕ) : Option Column := s.columns[idx]?

/-- `GetColumnCount`. -/
def getColumnCount (s : Schema) : ℕ := s.columns.length % 2 ^ 32

/-- `GetColumnIdx`: the first column of that name, or `UINT32_MAX`. -/
def getColumnIdx (s : Schema) (name : String) : ℕ :=
  match s.columns.findIdx? fun col => col.name == name with
  | some i => i
  | none => 2 ^ 32 - 1

/-- A column of the schema starts where the columns before it end. -/
lemma getElem?_assignOffsets (offset : ℕ) (hoffset : offset < 2 ^ 32) (cols : List Column) (i : ℕ) :
    (assignOffsets offset cols).1[i]? = cols[i]?.map fun col =>
      { col with offset := (offset + ((cols.take i).map Column.width).sum) % 2 ^ 32 } := by
  induction cols generalizing offset i with
  | nil => simp [assignOffsets]
  | cons col rest ih =>
    cases i with
    | zero =>
      have hmod := Nat.mod_eq_of_lt hoffset
      simp only [assignOffsets, List.getElem?_cons_zero, List.take_zero, List.map_nil,
        List.sum_nil, Nat.add_zero, hmod, Option.map_some]
    | succ i =>
      have hlt : (offset + col.width) % 2 ^ 32 < 2 ^ 32 := Nat.mod_lt _ (by omega)
      simp only [assignOffsets, List.getElem?_cons_succ, List.take_succ_cons, List.map_cons,
        List.sum_cons]
      rw [ih _ hlt, Nat.mod_add_mod, Nat.add_assoc]

/-- A column of the schema starts where the columns before it end. -/
lemma getColumn_new (cols : List Column) (i : ℕ) :
    (new cols).getColumn i = cols[i]?.map fun col =>
      { col with offset := ((cols.take i).map Column.width).sum % 2 ^ 32 } := by
  have h := getElem?_assignOffsets 0 (by omega) cols i
  rw [Nat.zero_add] at h
  exact h

end Schema

end OneBase
