import OneBase.Execution.Executors
import OneBase.Storage.Table.HeapContents

set_option relaxedAutoImplicit false
set_option autoImplicit false

/-!
# Tables of integers

A row of a table whose columns are all `INTEGER` is four bytes for each column, and reads back as
it was written: the widths that the schema reserves are the sizes of the values.

## Main definitions

* `OneBase.Schema.IsInteger` — all columns are `INTEGER`.
* `OneBase.integersOf` — the values of a row.
* `OneBase.IntegerTable` — the table with these pages, in a context that nobody is using.

## Main results

* `OneBase.Schema.IsInteger.columnValues_raw` — reading a row of the heap.
* `OneBase.ofValues_integersOf` — the tuple made from its values has the same bytes.
-/

namespace OneBase

open Memory

/-- All columns are `INTEGER`. -/
def Schema.IsInteger (s : Schema) : Prop :=
  ∃ cols : List Column, s = Schema.new cols ∧ ∀ c ∈ cols, c.type = .integer

/-- The integer in the column `i` of a row. -/
def integerAt (b : List UInt8) (i : ℕ) : BitVec 32 :=
  BitVec.ofNat 32 (leValue ((b.drop (4 * i)).take 4))

/-- The values of a row of `n` columns. -/
def integersOf (n : ℕ) (b : List UInt8) : List Value :=
  (List.range n).map fun i => Value.ofInt (integerAt b i)

/-- A row of the heap, as `GetTuple` returns it. -/
def rawTuple (r : RID × List UInt8) : Tuple := { rid := r.1, data := r.2 }

/-- A row of the heap with its values, as a sequential scan returns it. -/
def parsedTuple (n : ℕ) (r : RID × List UInt8) : Tuple :=
  { rid := r.1, data := r.2, values := integersOf n r.2 }

section Rows

variable {s : Schema} {r : RID × List UInt8} {b : List UInt8} {i n : ℕ}

/-- The integers of a row, by the number of the column. -/
lemma getElem?_integersOf (hi : i < n) :
    (integersOf n b)[i]? = some (Value.ofInt (integerAt b i)) := by
  simp [integersOf, hi]

/-- The columns of such a schema are four bytes apart. -/
lemma Schema.IsInteger.getColumn (h : s.IsInteger) (hi : i < s.columns.length) :
    ∃ c, s.getColumn i = some c ∧ c.type = .integer ∧ c.offset = 4 * i % 2 ^ 32 := by
  obtain ⟨cols, rfl, hcols⟩ := h
  have hget := Schema.getColumn_new cols i
  have hlt : i < cols.length := by
    have hcol : (Schema.new cols).getColumn i = some (Schema.new cols).columns[i] :=
      List.getElem?_eq_getElem hi
    rw [hcol] at hget
    by_contra hge
    rw [List.getElem?_eq_none (by omega)] at hget
    cases hget
  rw [List.getElem?_eq_getElem hlt, Option.map_some] at hget
  have htype : cols[i].type = .integer := hcols _ (List.getElem_mem hlt)
  refine ⟨_, hget, htype, ?_⟩
  have hwidths : (cols.take i).map Column.width = List.replicate i 4 := by
    apply List.eq_replicate_iff.2
    constructor
    · rw [List.length_map, List.length_take]
      omega
    · intro w hw
      obtain ⟨c, hc, rfl⟩ := List.mem_map.1 hw
      rw [Column.width_eq, hcols c (List.mem_of_mem_take hc)]
  show ((cols.take i).map Column.width).sum % 2 ^ 32 = 4 * i % 2 ^ 32
  rw [hwidths, List.sum_replicate_nat, Nat.mul_comm]

/-- A column of a row of the heap. -/
lemma Schema.IsInteger.getValueAt_raw (h : s.IsInteger) (hi : i < s.columns.length)
    (hlen : r.2.length = 4 * s.columns.length) (hsize : r.2.length < 2 ^ 32) :
    (rawTuple r).getValueAt s i = pure (Value.ofInt (integerAt r.2 i)) := by
  obtain ⟨c, hc, htype, hoff⟩ := h.getColumn hi
  have hmod : 4 * i % 2 ^ 32 = 4 * i := Nat.mod_eq_of_lt (by omega)
  have hread : Value.readStorage (r.2.drop (4 * i)) 4 = pure ((r.2.drop (4 * i)).take 4) := by
    apply Value.readStorage_eq
    rw [List.length_drop]
    omega
  unfold Tuple.getValueAt
  simp only [rawTuple, List.getElem?_nil, hc, htype, hoff, hmod, Value.deserializeFrom, hread,
    pure_bind]
  rfl

/-- The values of a row of the heap. -/
lemma Schema.IsInteger.columnValues_raw (h : s.IsInteger)
    (hlen : r.2.length = 4 * s.columns.length) (hsize : r.2.length < 2 ^ 32) :
    columnValues (rawTuple r) s = pure (integersOf s.columns.length r.2) := by
  have hcount : s.getColumnCount = s.columns.length := Nat.mod_eq_of_lt (by omega)
  unfold columnValues integersOf
  rw [hcount]
  have hmap : ∀ l : List ℕ, (∀ i ∈ l, i < s.columns.length) →
      l.mapM (fun i => (rawTuple r).getValueAt s i) =
        pure (l.map fun i => Value.ofInt (integerAt r.2 i)) := by
    intro l hl
    induction l with
    | nil => rfl
    | cons i l ih =>
      rw [List.mapM_cons, h.getValueAt_raw (hl i List.mem_cons_self) hlen hsize,
        ih fun j hj => hl j (List.mem_cons_of_mem i hj)]
      simp
  exact hmap _ fun i hi => List.mem_range.1 hi

/-- Four bytes are the encoding of their integer. -/
lemma encoding_integerAt (hi : 4 * i + 4 ≤ b.length) :
    (Value.ofInt (integerAt b i)).encoding = (b.drop (4 * i)).take 4 := by
  have hlen : ((b.drop (4 * i)).take 4).length = 4 := by
    rw [List.length_take, List.length_drop]
    omega
  have hlt : leValue ((b.drop (4 * i)).take 4) < 2 ^ 32 := by
    have hlt := leValue_lt ((b.drop (4 * i)).take 4)
    rw [hlen] at hlt
    exact hlt
  show leBytes 4 (integerAt b i).toNat = _
  rw [integerAt, BitVec.toNat_ofNat, Nat.mod_eq_of_lt hlt]
  have hbytes := leBytes_leValue ((b.drop (4 * i)).take 4)
  rwa [hlen] at hbytes

/-- The values of a row encode it. -/
lemma flatMap_integersOf (hlen : b.length = 4 * n) :
    (integersOf n b).flatMap Value.encoding = b := by
  have htaken : ∀ k ≤ n, (integersOf k b).flatMap Value.encoding = b.take (4 * k) := by
    intro k hk
    induction k with
    | zero => simp [integersOf]
    | succ k ih =>
      have hstep : integersOf (k + 1) b = integersOf k b ++ [Value.ofInt (integerAt b k)] := by
        unfold integersOf
        rw [List.range_succ, List.map_append]
        rfl
      rw [hstep, List.flatMap_append, ih (by omega), List.flatMap_singleton,
        encoding_integerAt (by omega), Nat.mul_succ, List.take_add]
  rw [htaken n le_rfl, ← hlen, List.take_length]

/-- The tuple made from the values of a row has the bytes of the row. -/
lemma ofValues_integersOf (hlen : b.length = 4 * n) :
    Tuple.ofValues (integersOf n b) = pure { data := b, values := integersOf n b } := by
  rw [ofValues_eq, flatMap_integersOf hlen]
  intro v hv
  obtain ⟨i, -, rfl⟩ := List.mem_map.1 hv
  exact ⟨by simp [Value.ofInt, Value.getTypeId, Payload.typeId],
    by simp [Value.ofInt, Value.encodedSize]⟩

/-- Columns of a parsed row are read from its values. -/
lemma getValueAt_parsed (hi : i < n) :
    (parsedTuple n r).getValueAt s i = pure (Value.ofInt (integerAt r.2 i)) := by
  unfold Tuple.getValueAt
  simp [parsedTuple, getElem?_integersOf hi]

end Rows

/-! ## Tables -/

open TableHeap

/-- The table has these pages, in a context that nobody is using. -/
structure HeapTable (ctx : ExecutorContext) (tableInfo : TableInfo) (pages : Pages) : Prop where
  ready : Ready ctx.bpm
  frames : 1 ≤ ctx.poolSize
  holds : Holds ctx.bpm.content tableInfo.table pages

/-- The columns are `INTEGER`, and every row has a value for each of them. -/
structure IntegerTable (ctx : ExecutorContext) (tableInfo : TableInfo) (pages : Pages) : Prop
    extends HeapTable ctx tableInfo pages where
  schema : tableInfo.schema.IsInteger
  rows : ∀ r ∈ liveRows pages, r.2.length = 4 * tableInfo.schema.columns.length

section Tables

variable {ctx : ExecutorContext} {tableInfo : TableInfo} {pages : Pages} {r : RID × List UInt8}

/-- A row lies on a page of the heap. -/
lemma HeapTable.length_le (h : HeapTable ctx tableInfo pages) (hr : r ∈ liveRows pages) :
    r.1 ≠ endIterator ∧ r.2.length + 20 ≤ pageSize := by
  obtain ⟨before, after, hrows⟩ := List.append_of_mem hr
  obtain ⟨rid, b⟩ := r
  obtain ⟨-, slots, -, x, -, hvalid, -, hintact, -, hget, -⟩ := h.holds.page_of_row hrows
  refine ⟨?_, hintact.length_le_of_live hget⟩
  rintro rfl
  exact hvalid rfl

/-- What a scan reads of a row. -/
lemma IntegerTable.columnValues (h : IntegerTable ctx tableInfo pages) (hr : r ∈ liveRows pages) :
    columnValues (rawTuple r) tableInfo.schema =
      pure (integersOf tableInfo.schema.columns.length r.2) := by
  have hsize := (h.length_le hr).2
  apply h.schema.columnValues_raw (h.rows r hr)
  unfold pageSize at hsize
  omega

end Tables

end OneBase
