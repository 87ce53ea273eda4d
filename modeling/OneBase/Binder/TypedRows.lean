import OneBase.Binder.InsertSelect
import OneBase.Execution.HeapModifications

set_option relaxedAutoImplicit false
set_option autoImplicit false

/-!
# Typed rows

A row of a heap is a string of bytes. The bytes are the serialization of values for the columns of
the table, of their types, and these values are determined by the bytes. If the values but the last
take as many bytes as the schema reserves for their columns, then the table reads these values, and a
scan hands on the same bytes.

## Main definitions

* `OneBase.Schema.Serializes` — the bytes are the serialization of values for the columns.
* `OneBase.TypedDatabase` — the rows of all tables are typed.

## Main results

* `OneBase.Schema.Serializes.unique` — the bytes determine the values.
* `OneBase.TableInfo.storedValues_of_serializes` — the table reads the values.
* `OneBase.PlanNode.bytesOf_reading` — a scan hands on the bytes.
* `OneBase.TypedDatabase.modified` — a table that gets other typed rows.
-/

namespace OneBase

open Exec TableHeap

/-! ## Serializations -/

/-- The bytes are the serialization of these values, which match the columns of the schema in number
and types. -/
structure Schema.Serializes (schema : Schema) (values : List Value) (b : List UInt8) : Prop where
  types : HasTypes schema.types values
  bytes : Tuple.ofValues values = pure { data := b, values := values }
  size : encodedSize values < 2 ^ 32

section Serializations

variable {schema : Schema} {types : List TypeId} {values values' : List Value} {b : List UInt8}
  {made : Tuple} {info : TableInfo} {cols : List Column} {r : RID × List UInt8} {child : PlanNode}

/-- The values have types, and are shorter than 4 GiB. -/
lemma valid_of_ofValues (hmade : Tuple.ofValues values = pure made)
    (hsize : encodedSize values < 2 ^ 32) :
    ∀ v ∈ values, v.getTypeId ≠ .invalid ∧ v.encodedSize < 2 ^ 32 := by
  intro v hv
  obtain ⟨i, hi⟩ := List.mem_iff_getElem?.1 hv
  have hsplit := encodedSize_split hi
  exact ⟨fun hinvalid => ofValues_invalid hv hinvalid made hmade, by omega⟩

/-- A row that the constructor makes is the serialization of its values. -/
lemma Schema.serializes_of_ofValues (htypes : HasTypes schema.types values)
    (hmade : Tuple.ofValues values = pure made) (hsize : encodedSize values < 2 ^ 32) :
    schema.Serializes values (bytesOf made) := by
  have hrow := ofValues_eq (valid_of_ofValues hmade hsize)
  obtain rfl := Except.ok.inj (Option.some.inj (hmade.symm.trans hrow))
  have hbytes : bytesOf { data := values.flatMap Value.encoding, values := values } =
      values.flatMap Value.encoding := by
    unfold bytesOf Tuple.getLength
    rw [length_flatMap_encoding, Nat.mod_eq_of_lt hsize, ← length_flatMap_encoding,
      List.take_length]
  rw [hbytes]
  exact ⟨htypes, hrow, hsize⟩

/-- The bytes are the encodings of the values, one behind the other. -/
lemma Schema.Serializes.encoding_eq (h : schema.Serializes values b) :
    values.flatMap Value.encoding = b := by
  have hrow := (ofValues_eq (valid_of_ofValues h.bytes h.size)).symm.trans h.bytes
  exact (Tuple.mk.inj (Except.ok.inj (Option.some.inj hrow))).2.1

/-- There are as many bytes as the values take. -/
lemma Schema.Serializes.length_eq (h : schema.Serializes values b) :
    b.length = encodedSize values := by
  rw [← h.encoding_eq, length_flatMap_encoding]

/-- Every value takes a byte at least. -/
lemma Schema.Serializes.length_values_le (h : schema.Serializes values b) :
    values.length ≤ b.length := by
  rw [h.length_eq]
  have hone : ∀ n ∈ values.map Value.encodedSize, 1 ≤ n := by
    intro n hn
    obtain ⟨v, hv, rfl⟩ := List.mem_map.1 hn
    exact v.encodedSize_pos (valid_of_ofValues h.bytes h.size v hv).1
  have hle := List.length_le_sum_of_one_le _ hone
  rwa [List.length_map] at hle

/-- There is a value for each column. -/
lemma Schema.Serializes.length_columns_eq (h : schema.Serializes values b) :
    schema.columns.length = values.length := by
  have hlength := h.types.length_eq
  unfold Schema.types at hlength
  rwa [List.length_map] at hlength

/-- Encodings of values of the same types, one behind the other, are those of the same values. -/
lemma eq_of_flatMap_encoding (htypes : HasTypes types values) (htypes' : HasTypes types values')
    (hvalid : ∀ v ∈ values, v.getTypeId ≠ .invalid ∧ v.encodedSize < 2 ^ 32)
    (hvalid' : ∀ v ∈ values', v.getTypeId ≠ .invalid ∧ v.encodedSize < 2 ^ 32)
    (heq : values.flatMap Value.encoding = values'.flatMap Value.encoding) : values = values' := by
  unfold HasTypes at htypes htypes'
  induction htypes generalizing values' with
  | nil =>
    cases htypes'
    rfl
  | @cons type v types values hv htypes ih =>
    cases htypes' with
    | @cons _ v' _ values' hv' htypes' =>
      rw [List.flatMap_cons, List.flatMap_cons] at heq
      have hmem := hvalid v List.mem_cons_self
      have hmem' := hvalid' v' List.mem_cons_self
      -- both values are what is deserialized from the bytes
      have hread := Value.deserializeFrom_encoding v hmem.1 hv.2 hmem.2
        (values.flatMap Value.encoding)
      have hread' := Value.deserializeFrom_encoding v' hmem'.1 hv'.2 hmem'.2
        (values'.flatMap Value.encoding)
      rw [heq, hv.1, ← hv'.1, hread'] at hread
      obtain rfl := Except.ok.inj (Option.some.inj hread)
      rw [ih htypes' (fun w hw => hvalid w (List.mem_cons_of_mem _ hw))
        (fun w hw => hvalid' w (List.mem_cons_of_mem _ hw)) (List.append_cancel_left heq)]

/-- The bytes determine the values. -/
lemma Schema.Serializes.unique (h : schema.Serializes values b) (h' : schema.Serializes values' b) :
    values = values' :=
  eq_of_flatMap_encoding h.types h'.types (valid_of_ofValues h.bytes h.size)
    (valid_of_ofValues h'.bytes h'.size) (h.encoding_eq.trans h'.encoding_eq.symm)

/-- The table reads the values from the bytes of a row, if each of them but the last takes the bytes
of its column.

**Proof sketch.** The row is one that the table keeps. -/
lemma TableInfo.storedValues_of_serializes (h : info.schema.Serializes values b)
    (hschema : info.schema = .new cols) (haligned : Aligned values) (hstored : IsStored b) :
    storedValues info.schema b = pure values := by
  have hbytes : bytesOf { data := b, values := values } = b := by
    have hsize := h.size
    unfold bytesOf Tuple.getLength
    rw [Nat.mod_eq_of_lt (by rw [h.length_eq]; exact hsize), List.take_length]
  have hkeeps : info.Keeps { data := b, values := values } :=
    { types := h.types
      aligned := haligned
      nonempty := by
        rintro rfl
        exact hstored.1 h.encoding_eq.symm
      room := by
        have hroom := hstored.2
        rwa [h.length_eq] at hroom }
  have hroom := hstored.2
  unfold pageSize at hroom
  have hread := hkeeps.storedValues_eq hschema h.bytes rfl
    (show values.length < 2 ^ 32 by have := h.length_values_le; omega)
  rwa [hbytes] at hread

/-- A scan hands on the bytes of such a row.

**Proof sketch.** A sequential scan makes the row again of the values that it reads, and an index
scan returns the bytes as they are. -/
lemma PlanNode.bytesOf_reading (h : info.schema.Serializes values r.2)
    (hschema : info.schema = .new cols) (haligned : Aligned values) (hstored : IsStored r.2)
    (hread : child.reading info r = pure (some made)) : bytesOf made = r.2 := by
  have hraw : bytesOf (rawTuple r) = r.2 := by
    have hsize := h.size
    show r.2.take (r.2.length % 2 ^ 32) = r.2
    rw [Nat.mod_eq_of_lt (by rw [h.length_eq]; exact hsize), List.take_length]
  cases child with
  | seqScan out oid predicate =>
    obtain ⟨keep, -, hrest⟩ := Cpp.bind_eq_pure.1 hread
    cases keep with
    | false => cases hrest
    | true =>
      obtain ⟨values', hvalues, hmake⟩ := Cpp.bind_eq_pure.1 hrest
      obtain ⟨row, hrow, hfin⟩ := Cpp.bind_eq_pure.1 hmake
      have hvalues' : storedValues info.schema r.2 = pure values' := hvalues
      rw [info.storedValues_of_serializes h hschema haligned hstored] at hvalues'
      obtain rfl := Except.ok.inj (Option.some.inj hvalues')
      obtain rfl := Except.ok.inj (Option.some.inj (hrow.symm.trans h.bytes))
      cases hfin
      exact hraw
  | _ =>
    cases hread
    exact hraw

end Serializations

/-! ## The database -/

/-- Every table is a heap on pages of its own, and every row is the serialization of values that
match the columns of its table in number and types. -/
structure TypedDatabase (ctx : ExecutorContext) (pages : ℕ → Pages) : Prop extends
    HeapDatabase ctx pages where
  schema : ∀ oid info, ctx.catalog.getTable oid = some info → ∃ cols, info.schema = .new cols
  typed : ∀ oid info, ctx.catalog.getTable oid = some info →
    ∀ r ∈ liveRows (pages oid), ∃ values, info.schema.Serializes values r.2

section Database

variable {ctx ctx' : ExecutorContext} {pages pages' : ℕ → Pages} {oid : ℕ} {info : TableInfo}
  {p : Pages} {r : RID × List UInt8}

/-- A row of a table takes bytes of a page. -/
lemma HeapTable.isStored (h : HeapTable ctx info p) (hr : r ∈ liveRows p) : IsStored r.2 := by
  obtain ⟨slots, -, -, hne⟩ := mem_liveRows.1 hr
  exact ⟨hne, (h.length_le hr).2⟩

/-- A table that gets other typed rows: the other tables keep theirs. -/
lemma TypedDatabase.modified (h : TypedDatabase ctx pages) (hheaps : HeapDatabase ctx' pages')
    (htables : ∀ oid', ctx'.catalog.getTable oid' = ctx.catalog.getTable oid')
    (hothers : ∀ oid' ≠ oid, pages' oid' = pages oid')
    (hinfo : ctx.catalog.getTable oid = some info)
    (htyped : ∀ r ∈ liveRows (pages' oid), ∃ values, info.schema.Serializes values r.2) :
    TypedDatabase ctx' pages' where
  toHeapDatabase := hheaps
  schema := fun oid' info' hinfo' => h.schema oid' info' ((htables oid').symm.trans hinfo')
  typed := by
    intro oid' info' hinfo' r hr
    rw [htables] at hinfo'
    by_cases hoid : oid' = oid
    · subst hoid
      obtain rfl := Option.some.inj (hinfo.symm.trans hinfo')
      exact htyped r hr
    · rw [hothers oid' hoid] at hr
      exact h.typed oid' info' hinfo' r hr

/-- The heap of a table determines its rows. -/
lemma HeapDatabase.liveRows_eq (h : HeapDatabase ctx pages) (h' : HeapDatabase ctx pages')
    (hinfo : ctx.catalog.getTable oid = some info) : liveRows (pages oid) = liveRows (pages' oid) :=
  (h.table oid info hinfo).holds.chain.liveRows_eq (h'.table oid info hinfo).holds.chain

end Database

end OneBase
