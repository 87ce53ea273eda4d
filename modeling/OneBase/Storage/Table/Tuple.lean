import OneBase.Catalog.Schema
import Mathlib.Data.List.Forall2

set_option relaxedAutoImplicit false
set_option autoImplicit false

/-!
# Tuples

`storage/table/tuple.cpp`. A tuple made from values packs their encodings back to back; a tuple
that was read back finds the values at the offsets of the schema. The two agree exactly for rows in
which every value but the last takes as many bytes as the schema reserves for its column.

## Main definitions

* `OneBase.Tuple` — `ofValues`, `getValueAt`, `serializeTo`, `deserializeFrom`.
* `OneBase.Aligned` — the rows whose values lie at the offsets of the schema.
* `OneBase.SameShape` — rows with values of the same types and sizes.

## Main results

* `OneBase.roundTrip_of_aligned` — the round trip of aligned rows.
* `OneBase.exists_not_roundTrip` — for other rows, one of the same shape that is not read back.
* `OneBase.roundTrip_iff` — both together.
-/

namespace OneBase

open Memory

/-- `Tuple`. -/
structure Tuple where
  rid : RID := default
  data : List UInt8 := []
  values : List Value := []
  deriving DecidableEq, Repr, Inhabited

namespace Tuple

/-- A round of the loop of the constructor: `data_` grows by the announced size, and
`SerializeTo` writes into the new bytes; writing behind them is undefined. -/
def appendValue (data : List UInt8) (val : Value) : Cpp (List UInt8) := do
  let valSize ← val.getSerializedSize
  let bytes ← val.serializeTo
  if bytes.length ≤ valSize then
    pure (data ++ bytes ++ List.replicate (valSize - bytes.length) 0)
  else Cpp.undefined

/-- `Tuple(std::vector<Value>)`. -/
def ofValues (values : List Value) : Cpp Tuple := do
  let data ← values.foldlM appendValue []
  pure { data := data, values := values }

/-- `GetLength`, an `uint32_t`. -/
def getLength (t : Tuple) : ℕ := t.data.length % 2 ^ 32

/-- `GetValue(column_idx)`. -/
def getValue (t : Tuple) (columnIdx : ℕ) : Value := (t.values[columnIdx]?).getD default

/-- `GetValue(schema, column_idx)`. -/
def getValueAt (t : Tuple) (schema : Schema) (columnIdx : ℕ) : Cpp Value :=
  match t.values[columnIdx]? with
  | some v => pure v
  | none =>
    match schema.getColumn columnIdx with
    | some column => Value.deserializeFrom (t.data.drop column.offset) column.type
    | none => Cpp.undefined

/-- `SerializeTo`: the bytes written to `dest`. -/
def serializeTo (t : Tuple) : List UInt8 := t.data

/-- `DeserializeFrom`. -/
def deserializeFrom (t : Tuple) (src : List UInt8) (size : ℕ) : Tuple :=
  { t with data := src.take size }

end Tuple

/-- The values of a tuple made from values. -/
lemma values_of_ofValues {values : List Value} {row : Tuple}
    (h : Tuple.ofValues values = pure row) : row.values = values := by
  obtain ⟨data, -, hrow⟩ := Cpp.bind_eq_pure.1 h
  cases hrow
  rfl

/-- A row with values returns them, whatever its bytes. -/
lemma getValueAt_of_getElem? {row : Tuple} {schema : Schema} {v : Value} {i : ℕ}
    (h : row.values[i]? = some v) : row.getValueAt schema i = pure v := by
  unfold Tuple.getValueAt
  rw [h]

/-- Column `i` of a fresh tuple read back from the `GetLength()` bytes of `Tuple(values)`. -/
def readBack (schema : Schema) (values : List Value) (i : ℕ) : Cpp Value := do
  let t ← Tuple.ofValues values
  let u := ({} : Tuple).deserializeFrom t.serializeTo t.getLength
  u.getValueAt schema i

/-- The values are not null and match the columns. -/
def Matches (cols : List Column) (values : List Value) : Prop :=
  List.Forall₂ (fun c v => c.type = v.getTypeId ∧ v.isNull = false) cols values

/-- Every column reads back the value that was written. -/
def RoundTrip (cols : List Column) (values : List Value) : Prop :=
  ∀ i v, values[i]? = some v → (readBack (Schema.new cols) values i).Returns v

/-- The size of the encoding of a row, before any truncation. -/
def encodedSize (values : List Value) : ℕ := (values.map Value.encodedSize).sum

/-- The value takes as many bytes as the schema reserves for a column of its type: it is a `BOOLEAN`,
an `INTEGER` or an empty `VARCHAR`. -/
def Value.isSnug (v : Value) : Bool :=
  match v.payload with
  | .boolean _ => true
  | .integer _ => true
  | .varchar s => s.isEmpty
  | _ => false

/-- Every value before the last takes as many bytes as the schema reserves for its column. -/
def Aligned (values : List Value) : Prop := ∀ v ∈ values.dropLast, v.isSnug = true

instance (values : List Value) : Decidable (Aligned values) := by
  unfold Aligned
  infer_instance

/-- The values of the two rows have the same types and the same sizes. -/
def SameShape (values row : List Value) : Prop :=
  List.Forall₂ (fun v w => w.getTypeId = v.getTypeId ∧ w.encodedSize = v.encodedSize ∧
    w.isNull = v.isNull) values row

/-! ## Building a tuple -/

section Build

variable {values : List Value} {v : Value} {data : List UInt8}

/-- A value below 4 GiB is appended as its bytes. -/
lemma appendValue_eq (htype : v.getTypeId ≠ .invalid) (hsize : v.encodedSize < 2 ^ 32) :
    Tuple.appendValue data v = pure (data ++ v.encoding) := by
  obtain ⟨hbytes, hn⟩ := v.serializeTo_eq htype hsize
  simp [Tuple.appendValue, hbytes, hn]

/-- The constructor packs the encodings back to back. -/
lemma ofValues_eq (h : ∀ v ∈ values, v.getTypeId ≠ .invalid ∧ v.encodedSize < 2 ^ 32) :
    Tuple.ofValues values = pure { data := values.flatMap Value.encoding, values := values } := by
  have hfold : ∀ data, values.foldlM Tuple.appendValue data =
      pure (data ++ values.flatMap Value.encoding) := by
    induction values with
    | nil => simp
    | cons v rest ih =>
      intro data
      have hv := h v List.mem_cons_self
      have hrest := ih fun w hw => h w (List.mem_cons_of_mem v hw)
      rw [List.foldlM_cons, appendValue_eq hv.1 hv.2, pure_bind, hrest, List.flatMap_cons,
        List.append_assoc]
  rw [Tuple.ofValues, hfold]
  simp

/-- The constructor overflows the new bytes for a string of almost 4 GiB. -/
lemma ofValues_overflow {s : List UInt8} {isNull : Bool} (hlt : s.length < 2 ^ 32)
    (hsize : 2 ^ 32 ≤ 4 + s.length) (hmem : (⟨.varchar s, isNull⟩ : Value) ∈ values) (t : Tuple) :
    Tuple.ofValues values ≠ pure t := by
  obtain ⟨bytes, n, hbytes, hn, hover⟩ := Value.serializeTo_overflow s isNull hlt hsize
  have hfail : ∀ data, Tuple.appendValue data ⟨.varchar s, isNull⟩ = Cpp.undefined := by
    intro data
    simp only [Tuple.appendValue, hbytes, hn, pure_bind]
    exact if_neg (by omega)
  have hfold : ∀ data d, values.foldlM Tuple.appendValue data ≠ pure d := by
    induction values with
    | nil => simp at hmem
    | cons v rest ih =>
      intro data d hd
      rw [List.foldlM_cons] at hd
      obtain ⟨x, hx, hrest⟩ := Cpp.bind_eq_pure.1 hd
      rcases List.mem_cons.1 hmem with rfl | hmem
      · rw [hfail] at hx
        cases hx
      · exact ih hmem x d hrest
  intro ht
  obtain ⟨d, hd, -⟩ := Cpp.bind_eq_pure.1 ht
  exact hfold [] d hd

/-- A row with a value of no type cannot be built. -/
lemma ofValues_invalid (hmem : v ∈ values)
    (hv : v.getTypeId = .invalid) (row : Tuple) : Tuple.ofValues values ≠ pure row := by
  have hfail : ∀ data d, Tuple.appendValue data v ≠ pure d := by
    intro data d h
    obtain ⟨n, hn, -⟩ := Cpp.bind_eq_pure.1 h
    obtain ⟨payload, isNull⟩ := v
    cases payload with
    | invalid => cases hn
    | boolean b => cases hv
    | integer i => cases hv
    | float f => cases hv
    | varchar s => cases hv
  have hfold : ∀ data d, values.foldlM Tuple.appendValue data ≠ pure d := by
    induction values with
    | nil => cases hmem
    | cons w rest ih =>
      intro data d h
      rw [List.foldlM_cons] at h
      obtain ⟨data', hdata', hrest⟩ := Cpp.bind_eq_pure.1 h
      rcases List.mem_cons.1 hmem with rfl | hmem'
      · exact hfail _ _ hdata'
      · exact ih hmem' _ _ hrest
  intro h
  obtain ⟨data, hdata, -⟩ := Cpp.bind_eq_pure.1 h
  exact hfold _ _ hdata

/-- The bytes of a row. -/
lemma length_flatMap_encoding (values : List Value) :
    (values.flatMap Value.encoding).length = encodedSize values := by
  induction values with
  | nil => rfl
  | cons v rest ih =>
    rw [List.flatMap_cons, List.length_append, ih, Value.length_encoding, encodedSize, encodedSize,
      List.map_cons, List.sum_cons]

/-- What `readBack` evaluates to, for values below 4 GiB. -/
lemma readBack_eq (schema : Schema)
    (h : ∀ v ∈ values, v.getTypeId ≠ .invalid ∧ v.encodedSize < 2 ^ 32) (i : ℕ) {col : Column}
    (hcol : schema.getColumn i = some col) :
    readBack schema values i = Value.deserializeFrom
      (((values.flatMap Value.encoding).take (encodedSize values % 2 ^ 32)).drop col.offset)
      col.type := by
  simp only [readBack, ofValues_eq h, pure_bind, Tuple.deserializeFrom, Tuple.serializeTo,
    Tuple.getLength, Tuple.getValueAt, length_flatMap_encoding, hcol, List.getElem?_nil]

end Build

/-! ## The layout of a row -/

section Layout

variable {cols : List Column} {values : List Value} {v : Value} {i : ℕ}

/-- The column of a value of a row. -/
lemma Matches.column (h : Matches cols values) (hv : values[i]? = some v) :
    ∃ c, cols[i]? = some c ∧ c.type = v.getTypeId ∧ v.isNull = false := by
  induction h generalizing i with
  | nil => simp at hv
  | cons hcv _ ih =>
    cases i with
    | zero =>
      simp only [List.getElem?_cons_zero, Option.some.injEq] at hv ⊢
      exact ⟨_, rfl, hv ▸ hcv⟩
    | succ i => exact ih hv

/-- The bytes of a row split at the value `i`. -/
lemma flatMap_encoding_split (hv : values[i]? = some v) :
    values.flatMap Value.encoding = (values.take i).flatMap Value.encoding ++
      (v.encoding ++ (values.drop (i + 1)).flatMap Value.encoding) := by
  obtain ⟨hi, rfl⟩ := List.getElem?_eq_some_iff.1 hv
  conv_lhs => rw [← List.take_append_drop i values, List.drop_eq_getElem_cons hi]
  rw [List.flatMap_append, List.flatMap_cons]

/-- A value of a row lies in its bytes. -/
lemma encodedSize_split (hv : values[i]? = some v) :
    encodedSize values = encodedSize (values.take i) +
      (v.encodedSize + encodedSize (values.drop (i + 1))) := by
  have h := congrArg List.length (flatMap_encoding_split hv)
  simpa only [List.length_append, length_flatMap_encoding, Value.length_encoding] using h

/-- The schema reserves the bytes of a snug value. -/
lemma Value.isSnug.width_eq {c : Column} (h : v.isSnug = true) (htype : c.type = v.getTypeId) :
    c.width = v.encodedSize := by
  rw [Column.width_eq, htype]
  obtain ⟨payload, isNull⟩ := v
  cases payload with
  | varchar s =>
    obtain rfl : s = [] := List.isEmpty_iff.1 h
    rfl
  | boolean b => rfl
  | integer i => rfl
  | float f => cases h
  | invalid => cases h

/-- Snug values lie at the offsets that the schema computes for their columns. -/
lemma sum_width_of_isSnug (hm : Matches cols values) (h : ∀ v ∈ values, v.isSnug = true) :
    (cols.map Column.width).sum = encodedSize values := by
  induction hm with
  | nil => rfl
  | @cons c v cols values hcv hrest ih =>
    have htail := ih fun w hw => h w (List.mem_cons_of_mem v hw)
    have hwidth := (h v List.mem_cons_self : v.isSnug = true) |> fun hv =>
      Value.isSnug.width_eq hv hcv.1
    simp only [encodedSize, List.map_cons, List.sum_cons] at htail ⊢
    rw [htail, hwidth]

/-- The first values of a row that matches the columns. -/
lemma Matches.take (h : Matches cols values) (n : ℕ) : Matches (cols.take n) (values.take n) :=
  List.forall₂_take n h

/-- In an aligned row, every column starts where the encodings of the values before it end. -/
lemma Aligned.sum_width (h : Aligned values) (hm : Matches cols values) (hi : i < values.length) :
    ((cols.take i).map Column.width).sum = encodedSize (values.take i) := by
  refine sum_width_of_isSnug (hm.take i) fun v hv => h v ?_
  rw [List.dropLast_eq_take]
  exact List.take_subset_take_left values (by omega) hv

end Layout

/-- **The round trip of aligned rows.** Below 4 GiB such a row is read back as it was written: each
column is read where the encodings of the values before it end, and deserializing an encoding gives
the value whatever bytes follow. -/
lemma roundTrip_of_aligned {cols : List Column} {values : List Value} (h : Aligned values)
    (hm : Matches cols values) (htypes : ∀ c ∈ cols, c.type ≠ .invalid)
    (hsize : encodedSize values < 2 ^ 32) : RoundTrip cols values := by
  intro i v hv
  obtain ⟨c, hc, htype, hnull⟩ := hm.column hv
  have hsplit := encodedSize_split hv
  have hvalid : ∀ w ∈ values, w.getTypeId ≠ .invalid ∧ w.encodedSize < 2 ^ 32 := by
    intro w hw
    obtain ⟨j, hj⟩ := List.mem_iff_getElem?.1 hw
    obtain ⟨d, hd, hdtype, -⟩ := hm.column hj
    have := encodedSize_split hj
    exact ⟨hdtype ▸ htypes d (List.mem_of_getElem? hd), by omega⟩
  have hoff := h.sum_width hm (List.getElem?_eq_some_iff.1 hv).1
  have hcol : (Schema.new cols).getColumn i =
      some { c with offset := encodedSize (values.take i) } := by
    rw [Schema.getColumn_new, hc, hoff, Nat.mod_eq_of_lt (by omega)]
    rfl
  have hmem := hvalid v (List.mem_of_getElem? hv)
  rw [Cpp.Returns, readBack_eq _ hvalid i hcol, Nat.mod_eq_of_lt hsize,
    List.take_of_length_le (length_flatMap_encoding values).le, flatMap_encoding_split hv,
    List.drop_left' (length_flatMap_encoding _), htype]
  exact Value.deserializeFrom_encoding v hmem.1 hnull hmem.2 _

/-- A position in the bytes of a row lies in one of its values. -/
lemma exists_value_at {values : List Value} {n : ℕ} (hn : n < encodedSize values) :
    ∃ i v, values[i]? = some v ∧ encodedSize (values.take i) ≤ n ∧
      n < encodedSize (values.take i) + v.encodedSize := by
  induction values generalizing n with
  | nil => simp [encodedSize] at hn
  | cons v rest ih =>
    simp only [encodedSize, List.map_cons, List.sum_cons] at hn
    rcases lt_or_ge n v.encodedSize with hv | hv
    · exact ⟨0, v, rfl, by simp [encodedSize], by simpa [encodedSize] using hv⟩
    · have hrest : n - v.encodedSize < encodedSize rest := by
        simp only [encodedSize]
        omega
      obtain ⟨i, w, hw, hle, hlt⟩ := ih hrest
      refine ⟨i + 1, w, hw, ?_, ?_⟩ <;>
        simp only [encodedSize, List.take_succ_cons, List.map_cons, List.sum_cons] at * <;> omega

/-- A row of 4 GiB or more is not read back, even when it is aligned: the length of the tuple, or
that of one of its strings, is truncated. -/
lemma not_roundTrip_of_large {cols : List Column} {values : List Value} (h : Aligned values)
    (hm : Matches cols values) (htypes : ∀ c ∈ cols, c.type ≠ .invalid)
    (hsize : 2 ^ 32 ≤ encodedSize values) : ¬ RoundTrip cols values := by
  intro hround
  have hvalid : ∀ w ∈ values, w.getTypeId ≠ .invalid := by
    intro w hw
    obtain ⟨j, hj⟩ := List.mem_iff_getElem?.1 hw
    obtain ⟨d, hd, hdtype, -⟩ := hm.column hj
    exact hdtype ▸ htypes d (List.mem_of_getElem? hd)
  by_cases hsmall : ∀ w ∈ values, w.encodedSize < 2 ^ 32
  · -- the value that contains the first byte behind the truncated length
    have hlt : encodedSize values % 2 ^ 32 < 2 ^ 32 := Nat.mod_lt _ (by omega)
    obtain ⟨i, v, hv, hle, hin⟩ := exists_value_at (hlt.trans_le hsize)
    obtain ⟨c, hc, htype, -⟩ := hm.column hv
    have hoff := h.sum_width hm (List.getElem?_eq_some_iff.1 hv).1
    have hcol : (Schema.new cols).getColumn i =
        some { c with offset := encodedSize (values.take i) } := by
      rw [Schema.getColumn_new, hc, hoff, Nat.mod_eq_of_lt (by omega)]
      rfl
    have hmem := List.mem_of_getElem? hv
    have hread := hround i v hv
    rw [Cpp.Returns, readBack_eq _ (fun w hw => ⟨hvalid w hw, hsmall w hw⟩) i hcol] at hread
    dsimp only at hread
    rw [flatMap_encoding_split hv, List.drop_take, List.drop_left' (length_flatMap_encoding _),
      List.take_append_of_le_length (by rw [Value.length_encoding]; omega), htype,
      Value.deserializeFrom_take v (hvalid v hmem) (hsmall v hmem) (by omega)] at hread
    cases hread
  · push Not at hsmall
    obtain ⟨v, hmem, hlarge⟩ := hsmall
    obtain ⟨i, hv⟩ := List.mem_iff_getElem?.1 hmem
    obtain ⟨c, hc, htype, -⟩ := hm.column hv
    obtain ⟨t, ht, hread⟩ := Cpp.bind_eq_pure.1 (hround i v hv)
    obtain ⟨payload, isNull⟩ := v
    cases payload with
    | varchar s =>
      rcases lt_or_ge s.length (2 ^ 32) with hs | hs
      · exact ofValues_overflow hs hlarge hmem t ht
      · have hcol : ∃ d, (Schema.new cols).getColumn i = some d ∧ d.type = .varchar :=
          ⟨{ c with offset := ((cols.take i).map Column.width).sum % 2 ^ 32 },
            by rw [Schema.getColumn_new, hc]; rfl, htype⟩
        obtain ⟨d, hd, hdtype⟩ := hcol
        simp only [Tuple.deserializeFrom, Tuple.getValueAt, List.getElem?_nil, hd, hdtype]
          at hread
        have := Value.length_lt_of_deserializeFrom hread
        omega
    | invalid => simp [Value.encodedSize] at hlarge
    | boolean b => simp [Value.encodedSize] at hlarge
    | integer j => simp [Value.encodedSize] at hlarge
    | float f => simp [Value.encodedSize] at hlarge

/-! ## Rows that are not read back -/

namespace Value

variable {type : TypeId} {storage : List UInt8} {v : Value}

/-- The bytes of an `int32_t`, at the beginning of the storage that it was read from. -/
lemma leBytes_ofNat_prefix (h : 4 ≤ storage.length) :
    leBytes 4 (BitVec.ofNat 32 (leValue (storage.take 4))).toNat <+: storage := by
  have hlt := leValue_lt (storage.take 4)
  have hlen : (storage.take 4).length = 4 := List.length_take_of_le h
  rw [hlen] at hlt
  have hbytes := leBytes_leValue (storage.take 4)
  rw [hlen] at hbytes
  rw [BitVec.toNat_ofNat, Nat.mod_eq_of_lt (by omega), hbytes]
  exact List.take_prefix 4 storage

/-- What is deserialized from the bytes has its encoding at their beginning. -/
lemma encoding_prefix (h : deserializeFrom storage type = pure v) : v.encoding <+: storage := by
  cases type with
  | invalid => cases h
  | boolean =>
    obtain ⟨bytes, hbytes, hrest⟩ := Cpp.bind_eq_pure.1 h
    obtain ⟨-, rfl⟩ := readStorage_returns hbytes
    have hprefix := List.take_prefix 1 storage
    split at hrest
    · rename_i hzero
      cases hrest
      rwa [hzero] at hprefix
    · rename_i hone
      cases hrest
      rwa [hone] at hprefix
    · cases hrest
  | integer =>
    obtain ⟨bytes, hbytes, hrest⟩ := Cpp.bind_eq_pure.1 h
    obtain ⟨hlen, rfl⟩ := readStorage_returns hbytes
    cases hrest
    exact leBytes_ofNat_prefix hlen
  | float =>
    obtain ⟨bytes, hbytes, hrest⟩ := Cpp.bind_eq_pure.1 h
    obtain ⟨hlen, rfl⟩ := readStorage_returns hbytes
    cases hrest
    exact leBytes_ofNat_prefix hlen
  | varchar =>
    obtain ⟨bytes, hbytes, hrest⟩ := Cpp.bind_eq_pure.1 h
    obtain ⟨hlen, rfl⟩ := readStorage_returns hbytes
    obtain ⟨s, hs, hfin⟩ := Cpp.bind_eq_pure.1 hrest
    obtain ⟨hsize, rfl⟩ := readStorage_returns hs
    cases hfin
    -- the four bytes of the length, and then the text
    have hlength : ((storage.drop 4).take (leValue (storage.take 4))).length =
        leValue (storage.take 4) := List.length_take_of_le hsize
    have hbytes := leBytes_leValue (storage.take 4)
    rw [List.length_take_of_le hlen] at hbytes
    have hprefix := List.take_prefix (leValue (storage.take 4)) (storage.drop 4)
    simp only [encoding, hlength, hbytes]
    conv_rhs => rw [← List.take_append_drop 4 storage]
    exact (List.prefix_append_right_inj _).2 hprefix

/-- A value of a fixed size can be replaced by others of its shape that begin with another byte. -/
lemma exists_twins (htype : v.getTypeId = .boolean ∨ v.getTypeId = .integer ∨
    v.getTypeId = .float) :
    ∃ w₀ w₁ : Value, (∀ w ∈ [w₀, w₁], w.getTypeId = v.getTypeId ∧ w.encodedSize = v.encodedSize ∧
      w.isNull = v.isNull) ∧ w₀.encoding.head? ≠ w₁.encoding.head? := by
  obtain ⟨payload, isNull⟩ := v
  cases payload with
  | boolean b =>
    exact ⟨⟨.boolean false, isNull⟩, ⟨.boolean true, isNull⟩,
      by simp [getTypeId, Payload.typeId, encodedSize], by simp [encoding]⟩
  | integer i =>
    exact ⟨⟨.integer 0, isNull⟩, ⟨.integer 1, isNull⟩,
      by simp [getTypeId, Payload.typeId, encodedSize], by simp [encoding, leBytes]⟩
  | float f =>
    exact ⟨⟨.float 0, isNull⟩, ⟨.float 1, isNull⟩,
      by simp [getTypeId, Payload.typeId, encodedSize], by simp [encoding, leBytes]⟩
  | varchar s => simp [getTypeId, Payload.typeId] at htype
  | invalid => simp [getTypeId, Payload.typeId] at htype

end Value

section Misread

variable {cols : List Column} {values row pre mid post : List Value} {u v w : Value} {i : ℕ}

/-- A row has its own shape. -/
lemma SameShape.refl (values : List Value) : SameShape values values :=
  List.forall₂_same.2 fun _ _ => ⟨rfl, rfl, rfl⟩

/-- A row with another value of the same shape in one place. -/
lemma SameShape.replace (htype : w.getTypeId = v.getTypeId)
    (hsize : w.encodedSize = v.encodedSize) (hnull : w.isNull = v.isNull) :
    SameShape (pre ++ v :: post) (pre ++ w :: post) :=
  List.rel_append (SameShape.refl pre) (.cons ⟨htype, hsize, hnull⟩ (SameShape.refl post))

/-- Rows of the same shape belong to the same columns. -/
lemma SameShape.matches (h : SameShape values row) (hm : Matches cols values) :
    Matches cols row := by
  induction hm generalizing row with
  | nil =>
    cases h
    exact .nil
  | cons hcv _ ih =>
    cases h with
    | cons hvw hrest => exact .cons ⟨hcv.1.trans hvw.1.symm, hvw.2.2.trans hcv.2⟩ (ih hrest)

/-- Rows of the same shape have the same size. -/
lemma SameShape.encodedSize_eq (h : SameShape values row) :
    encodedSize row = encodedSize values := by
  induction h with
  | nil => rfl
  | cons hvw _ ih =>
    simp only [encodedSize, List.map_cons, List.sum_cons] at ih ⊢
    rw [hvw.2.1, ih]

/-- Whether a value is snug only depends on its shape. -/
lemma Value.isSnug_eq (htype : w.getTypeId = v.getTypeId) (hsize : w.encodedSize = v.encodedSize) :
    w.isSnug = v.isSnug := by
  obtain ⟨payload, isNull⟩ := v
  obtain ⟨payload', isNull'⟩ := w
  cases payload <;> cases payload' <;> first | rfl | cases htype
  simp only [encodedSize, Nat.add_left_cancel_iff] at hsize
  simp only [isSnug]
  rw [Bool.eq_iff_iff, List.isEmpty_iff_length_eq_zero, List.isEmpty_iff_length_eq_zero, hsize]

/-- Rows of the same shape are aligned or not. -/
lemma SameShape.aligned (h : SameShape values row) (hal : Aligned values) : Aligned row := by
  intro w hw
  rw [List.dropLast_eq_take, ← h.length_eq] at hw
  have htake : SameShape (values.take (values.length - 1)) (row.take (values.length - 1)) :=
    List.forall₂_take _ h
  obtain ⟨i, hi, rfl⟩ := List.mem_iff_getElem.1 hw
  have hi' : i < (values.take (values.length - 1)).length := htake.length_eq ▸ hi
  have hshape := List.forall₂_iff_get.1 htake |>.2 i hi' hi
  rw [List.get_eq_getElem, List.get_eq_getElem] at hshape
  rw [Value.isSnug_eq hshape.1 hshape.2.1]
  exact hal _ (by rw [List.dropLast_eq_take]; exact List.getElem_mem hi')

/-- The bytes of two rows, one behind the other. -/
lemma encodedSize_append (values row : List Value) :
    encodedSize (values ++ row) = encodedSize values + encodedSize row := by
  simp [encodedSize]

/-- The bytes of the first value come first. -/
lemma encodedSize_cons (v : Value) (values : List Value) :
    encodedSize (v :: values) = v.encodedSize + encodedSize values := by
  simp [encodedSize]

/-- The row that is read back has at the offset of each column the first byte of its value. -/
lemma RoundTrip.head_eq (h : RoundTrip cols values) (hm : Matches cols values)
    (htypes : ∀ c ∈ cols, c.type ≠ .invalid) (hsize : encodedSize values < 2 ^ 32)
    (hv : values[i]? = some v) :
    (values.flatMap Value.encoding)[((cols.take i).map Column.width).sum % 2 ^ 32]? =
      v.encoding.head? := by
  have hvalid : ∀ w ∈ values, w.getTypeId ≠ .invalid ∧ w.encodedSize < 2 ^ 32 := by
    intro w hw
    obtain ⟨j, hj⟩ := List.mem_iff_getElem?.1 hw
    obtain ⟨d, hd, hdtype, -⟩ := hm.column hj
    have := encodedSize_split hj
    exact ⟨hdtype ▸ htypes d (List.mem_of_getElem? hd), by omega⟩
  obtain ⟨c, hc, htype, -⟩ := hm.column hv
  have hcol : (Schema.new cols).getColumn i =
      some { c with offset := ((cols.take i).map Column.width).sum % 2 ^ 32 } := by
    rw [Schema.getColumn_new, hc]
    rfl
  have hread := h i v hv
  rw [Cpp.Returns, readBack_eq _ hvalid i hcol, Nat.mod_eq_of_lt hsize,
    List.take_of_length_le (length_flatMap_encoding values).le] at hread
  obtain ⟨rest, hrest⟩ := Value.encoding_prefix hread
  have hpos := v.encodedSize_pos (hvalid v (List.mem_of_getElem? hv)).1
  rw [← Value.length_encoding] at hpos
  rw [← List.head?_drop, ← hrest]
  exact List.head?_append_of_ne_nil _ (List.ne_nil_of_length_pos hpos)

/-- The bytes that the schema reserves for the columns of snug values and one other. -/
lemma sum_width_around (hm : Matches cols (pre ++ u :: mid)) (hpre : ∀ v ∈ pre, v.isSnug = true)
    (hmid : ∀ v ∈ mid, v.isSnug = true) :
    ∃ c : Column, c.type = u.getTypeId ∧
      (cols.map Column.width).sum = encodedSize pre + c.width + encodedSize mid := by
  induction pre generalizing cols with
  | nil =>
    cases hm with
    | @cons c _ _ _ hcu hrest =>
      refine ⟨c, hcu.1, ?_⟩
      rw [List.map_cons, List.sum_cons, sum_width_of_isSnug hrest hmid]
      simp [encodedSize]
  | cons v pre ih =>
    cases hm with
    | @cons d _ _ _ hdv hrest =>
      obtain ⟨c, hc, hsum⟩ := ih hrest fun w hw => hpre w (List.mem_cons_of_mem v hw)
      refine ⟨c, hc, ?_⟩
      have hwidth := Value.isSnug.width_eq (hpre v List.mem_cons_self) hdv.1
      rw [List.map_cons, List.sum_cons, hsum, hwidth, encodedSize_cons]
      omega

/-- A row that is not aligned has a first value that does not take the bytes reserved for it, and
a value behind it. -/
lemma exists_of_not_aligned (h : ¬ Aligned values) :
    ∃ pre u v post, values = pre ++ u :: v :: post ∧ (∀ x ∈ pre, x.isSnug = true) ∧
      u.isSnug = false := by
  induction values with
  | nil => simp [Aligned] at h
  | cons u rest ih =>
    cases rest with
    | nil => simp [Aligned] at h
    | cons v post =>
      cases hu : u.isSnug with
      | false => exact ⟨[], u, v, post, rfl, by simp, hu⟩
      | true =>
        have hrest : ¬ Aligned (v :: post) := by
          intro hal
          refine h fun x hx => ?_
          rw [List.dropLast_cons_of_ne_nil (by simp)] at hx
          rcases List.mem_cons.1 hx with rfl | hx
          · exact hu
          · exact hal x hx
        obtain ⟨pre, e, f, post', heq, hpre, he⟩ := ih hrest
        refine ⟨u :: pre, e, f, post', by rw [heq]; rfl, ?_, he⟩
        intro x hx
        rcases List.mem_cons.1 hx with rfl | hx
        · exact hu
        · exact hpre x hx

/-- The offset that the schema computes for the value behind a first one that is not snug and any
number of empty texts. -/
lemma offset_behind (hm : Matches cols (pre ++ u :: (mid ++ w :: post)))
    (hpre : ∀ v ∈ pre, v.isSnug = true) (hmid : ∀ v ∈ mid, v.isSnug = true) :
    ∃ c : Column, c.type = u.getTypeId ∧
      ((cols.take (pre.length + 1 + mid.length)).map Column.width).sum =
        encodedSize pre + c.width + encodedSize mid := by
  have htake := hm.take (pre.length + 1 + mid.length)
  have hvalues : (pre ++ u :: (mid ++ w :: post)).take (pre.length + 1 + mid.length) =
      pre ++ u :: mid := by
    rw [show pre ++ u :: (mid ++ w :: post) = (pre ++ u :: mid) ++ w :: post by simp]
    exact List.take_left' (by simp; omega)
  rw [hvalues] at htake
  exact sum_width_around htake hpre hmid

/-- The value at that place. -/
lemma getElem?_behind :
    (pre ++ u :: (mid ++ w :: post))[pre.length + 1 + mid.length]? = some w := by
  have hlen : (pre ++ u :: mid).length = pre.length + 1 + mid.length := by
    simp only [List.length_append, List.length_cons]
    omega
  rw [show pre ++ u :: (mid ++ w :: post) = (pre ++ u :: mid) ++ w :: post by simp,
    List.getElem?_append_right hlen.le, hlen, Nat.sub_self, List.getElem?_cons_zero]

/-- The offset that the schema computes for the value right behind a first one that is not snug. -/
lemma offset_next (hm : Matches cols (pre ++ u :: w :: post))
    (hpre : ∀ v ∈ pre, v.isSnug = true) :
    ∃ c : Column, c.type = u.getTypeId ∧
      ((cols.take (pre.length + 1)).map Column.width).sum = encodedSize pre + c.width := by
  have hm' : Matches cols (pre ++ u :: ([] ++ w :: post)) := hm
  obtain ⟨c, hc, hsum⟩ := offset_behind hm' hpre (by simp)
  exact ⟨c, hc, hsum⟩

/-- The value right behind it. -/
lemma getElem?_next : (pre ++ u :: w :: post)[pre.length + 1]? = some w := by
  rw [List.getElem?_append_right (by omega), Nat.add_sub_cancel_left, List.getElem?_cons_succ,
    List.getElem?_cons_zero]

/-- A byte of a row, in the bytes of one of its values. -/
lemma getElem?_flatMap_encoding (k : ℕ) :
    ((pre ++ w :: post).flatMap Value.encoding)[encodedSize pre + k]? =
      (w.encoding ++ post.flatMap Value.encoding)[k]? := by
  rw [List.flatMap_append, List.flatMap_cons,
    List.getElem?_append_right (by rw [length_flatMap_encoding]; omega), length_flatMap_encoding,
    Nat.add_sub_cancel_left]

/-- A text that is not empty is read too early, or the value behind it is: if the byte that is read
for the first byte of `w` is the first character of the text, then one of the rows that only differ
in this character is not read back. -/
lemma exists_not_roundTrip_of_text {b : UInt8} {s : List UInt8} {isNull : Bool}
    (hm : Matches cols (pre ++ ⟨.varchar (b :: s), isNull⟩ :: post))
    (htypes : ∀ c ∈ cols, c.type ≠ .invalid)
    (hsize : encodedSize (pre ++ ⟨.varchar (b :: s), isNull⟩ :: post) < 2 ^ 32) (head : Option UInt8)
    (hoff : ((cols.take i).map Column.width).sum = encodedSize pre + 4)
    (hhead : ∀ b', ∃ v, (pre ++ ⟨.varchar (b' :: s), isNull⟩ :: post)[i]? = some v ∧
      v.encoding.head? = head) :
    ∃ row, SameShape (pre ++ ⟨.varchar (b :: s), isNull⟩ :: post) row ∧ ¬ RoundTrip cols row := by
  obtain ⟨b', hb'⟩ : ∃ b' : UInt8, some b' ≠ head := by
    rcases eq_or_ne head (some 0) with rfl | hne
    · exact ⟨1, by decide⟩
    · exact ⟨0, hne.symm⟩
  have hshape : SameShape (pre ++ ⟨.varchar (b :: s), isNull⟩ :: post)
      (pre ++ ⟨.varchar (b' :: s), isNull⟩ :: post) := SameShape.replace rfl rfl rfl
  refine ⟨_, hshape, fun hround => hb' ?_⟩
  obtain ⟨v, hv, hvhead⟩ := hhead b'
  have hbyte := hround.head_eq (hshape.matches hm) htypes (hshape.encodedSize_eq ▸ hsize) hv
  rw [encodedSize_append, encodedSize_cons] at hsize
  simp only [Value.encodedSize, List.length_cons] at hsize
  rw [hoff, Nat.mod_eq_of_lt (by omega), getElem?_flatMap_encoding, hvhead] at hbyte
  rw [← hbyte]
  rfl

/-- A value of a fixed size that is read from bytes that are not its own: of two rows that only
differ in it, one is not read back. -/
lemma exists_not_roundTrip_of_fixed (hm : Matches cols (pre ++ w :: post))
    (htypes : ∀ c ∈ cols, c.type ≠ .invalid) (hsize : encodedSize (pre ++ w :: post) < 2 ^ 32)
    (htype : w.getTypeId = .boolean ∨ w.getTypeId = .integer ∨ w.getTypeId = .float)
    (hoff : ((cols.take pre.length).map Column.width).sum = encodedSize pre + 4) :
    ∃ row, SameShape (pre ++ w :: post) row ∧ ¬ RoundTrip cols row := by
  obtain ⟨w₀, w₁, hsame, hheads⟩ := w.exists_twins htype
  have hsmall : w.encodedSize ≤ 4 := by
    obtain ⟨payload, isNull⟩ := w
    cases payload <;> simp_all [Value.getTypeId, Payload.typeId, Value.encodedSize]
  have hshape : ∀ w' ∈ [w₀, w₁], SameShape (pre ++ w :: post) (pre ++ w' :: post) := by
    intro w' hw'
    obtain ⟨h₁, h₂, h₃⟩ := hsame w' hw'
    exact SameShape.replace h₁ h₂ h₃
  by_contra hall
  push Not at hall
  -- the byte that is read for the value lies outside of its own bytes
  set off := (encodedSize pre + 4) % 2 ^ 32 with hoffset
  rw [encodedSize_append, encodedSize_cons] at hsize
  have hout : off < encodedSize pre ∨ encodedSize pre + w.encodedSize ≤ off := by
    omega
  have hbyte : ∀ w' ∈ [w₀, w₁],
      ((pre ++ w' :: post).flatMap Value.encoding)[off]? = w'.encoding.head? := by
    intro w' hw'
    have hround := hall _ (hshape w' hw')
    have hsize' : encodedSize (pre ++ w' :: post) < 2 ^ 32 := by
      rw [(hshape w' hw').encodedSize_eq, encodedSize_append, encodedSize_cons]
      exact hsize
    have hread := hround.head_eq ((hshape w' hw').matches hm) htypes hsize' (i := pre.length)
      (by rw [List.getElem?_append_right le_rfl, Nat.sub_self, List.getElem?_cons_zero])
    rwa [hoff] at hread
  have hother : ∀ w' ∈ [w₀, w₁], ((pre ++ w' :: post).flatMap Value.encoding)[off]? =
      if off < encodedSize pre then (pre.flatMap Value.encoding)[off]?
      else (post.flatMap Value.encoding)[off - encodedSize pre - w.encodedSize]? := by
    intro w' hw'
    have hlen : w'.encoding.length = w.encodedSize := by
      rw [Value.length_encoding, (hsame w' hw').2.1]
    split_ifs with hlt
    · rw [List.flatMap_append, List.getElem?_append_left (by rwa [length_flatMap_encoding])]
    · have hle := hout.resolve_left hlt
      obtain ⟨k, hk⟩ := Nat.exists_eq_add_of_le (not_lt.1 hlt)
      rw [hk, getElem?_flatMap_encoding, List.getElem?_append_right (by omega), hlen]
      congr 1
      omega
  apply hheads
  rw [← hbyte w₀ (by simp), ← hbyte w₁ (by simp), hother w₀ (by simp), hother w₁ (by simp)]

/-- Either all values are empty texts, or there is a first one that is not. -/
lemma emptyTexts_or (values : List Value) :
    (∀ v ∈ values, v.payload = .varchar []) ∨ ∃ mid w post, values = mid ++ w :: post ∧
      (∀ v ∈ mid, v.payload = .varchar []) ∧ w.payload ≠ .varchar [] := by
  induction values with
  | nil => exact .inl (by simp)
  | cons v values ih =>
    by_cases hv : v.payload = .varchar []
    · rcases ih with hall | ⟨mid, w, post, rfl, hmid, hw⟩
      · exact .inl (List.forall_mem_cons.2 ⟨hv, hall⟩)
      · exact .inr ⟨v :: mid, w, post, rfl, List.forall_mem_cons.2 ⟨hv, hmid⟩, hw⟩
    · exact .inr ⟨[], v, values, rfl, by simp, hv⟩

/-- Behind a `FLOAT` every column is read four bytes too late, until a value that is not an empty
text shows it, or the end of the row.

**Proof sketch.** A value of a fixed size is read from bytes that are not its own, so one of two
rows that differ in it is not read back; the length of a text is read from its first character;
and of an empty text at the end of the row there is nothing left to read. -/
lemma exists_not_roundTrip_of_float {f : BitVec 32} {isNull : Bool}
    (hm : Matches cols (pre ++ ⟨.float f, isNull⟩ :: v :: post))
    (htypes : ∀ c ∈ cols, c.type ≠ .invalid)
    (hsize : encodedSize (pre ++ ⟨.float f, isNull⟩ :: v :: post) < 2 ^ 32)
    (hpre : ∀ v ∈ pre, v.isSnug = true) :
    ∃ row, SameShape (pre ++ ⟨.float f, isNull⟩ :: v :: post) row ∧ ¬ RoundTrip cols row := by
  have hsnug : ∀ {mid : List Value}, (∀ v ∈ mid, v.payload = .varchar []) →
      ∀ v ∈ mid, v.isSnug = true := by
    intro mid hmid v hv
    rw [Value.isSnug, hmid v hv]
    rfl
  -- the offset of a value behind empty texts is four more than its place
  have hoff : ∀ {mid : List Value} {w : Value} {rest : List Value},
      v :: post = mid ++ w :: rest → (∀ v ∈ mid, v.payload = .varchar []) →
      ((cols.take (pre ++ ⟨.float f, isNull⟩ :: mid).length).map Column.width).sum =
        encodedSize (pre ++ ⟨.float f, isNull⟩ :: mid) + 4 := by
    intro mid w rest hsplit hmid
    rw [hsplit] at hm
    obtain ⟨c, hc, hsum⟩ := offset_behind hm hpre (hsnug hmid)
    have hwidth : c.width = 8 := by
      rw [Column.width_eq, hc]
      rfl
    have hlen : (pre ++ ⟨.float f, isNull⟩ :: mid).length = pre.length + 1 + mid.length := by
      simp only [List.length_append, List.length_cons]
      omega
    rw [hlen, hsum, hwidth, encodedSize_append, encodedSize_cons]
    simp only [Value.encodedSize]
    omega
  rcases emptyTexts_or (v :: post) with hall | ⟨mid, w, rest, hsplit, hmid, hw⟩
  · -- the last empty text would be read behind the end of the row
    obtain ⟨mid, w, hsplit⟩ : ∃ mid w, v :: post = mid ++ [w] :=
      ⟨_, _, (List.dropLast_append_getLast (List.cons_ne_nil v post)).symm⟩
    have hmid : ∀ v ∈ mid, v.payload = .varchar [] :=
      fun v hv => hall v (hsplit ▸ List.mem_append_left _ hv)
    have hoffset := hoff hsplit hmid
    have hwsize : w.encodedSize = 4 := by
      rw [Value.encodedSize, hall w (by rw [hsplit]; simp)]
      rfl
    rw [hsplit] at hm hsize ⊢
    refine ⟨_, SameShape.refl _, fun hround => ?_⟩
    have happend : pre ++ ⟨.float f, isNull⟩ :: (mid ++ [w]) =
        (pre ++ ⟨.float f, isNull⟩ :: mid) ++ [w] := by simp
    rw [happend] at hm hsize hround
    have hread := hround.head_eq hm htypes hsize (v := w)
      (by rw [List.getElem?_append_right le_rfl, Nat.sub_self, List.getElem?_cons_zero])
    have htotal : encodedSize ((pre ++ ⟨.float f, isNull⟩ :: mid) ++ [w]) =
        encodedSize (pre ++ ⟨.float f, isNull⟩ :: mid) + 4 := by
      rw [encodedSize_append, encodedSize_cons, hwsize]
      rfl
    have hnone : ((((pre ++ ⟨.float f, isNull⟩ :: mid) ++ [w]).flatMap Value.encoding)[
        encodedSize (pre ++ ⟨.float f, isNull⟩ :: mid) + 4]?) = none :=
      List.getElem?_eq_none (by rw [length_flatMap_encoding, htotal])
    rw [hoffset, Nat.mod_eq_of_lt (htotal ▸ hsize), hnone] at hread
    have hnil := List.head?_eq_none_iff.1 hread.symm
    rw [← List.length_eq_zero_iff, Value.length_encoding, hwsize] at hnil
    omega
  · have hoffset := hoff hsplit hmid
    have happend : pre ++ ⟨.float f, isNull⟩ :: (mid ++ w :: rest) =
        (pre ++ ⟨.float f, isNull⟩ :: mid) ++ w :: rest := by simp
    rw [hsplit, happend] at hm hsize ⊢
    obtain ⟨payload, wNull⟩ := w
    cases payload with
    | boolean b => exact exists_not_roundTrip_of_fixed hm htypes hsize (.inl rfl) hoffset
    | integer n => exact exists_not_roundTrip_of_fixed hm htypes hsize (.inr (.inl rfl)) hoffset
    | float g => exact exists_not_roundTrip_of_fixed hm htypes hsize (.inr (.inr rfl)) hoffset
    | varchar s =>
      cases s with
      | nil => exact absurd rfl hw
      | cons b s =>
        refine exists_not_roundTrip_of_text hm htypes hsize
          (Value.encoding ⟨.varchar (b :: s), wNull⟩).head? hoffset
          fun b' => ⟨⟨.varchar (b' :: s), wNull⟩, ?_, rfl⟩
        rw [List.getElem?_append_right le_rfl, Nat.sub_self, List.getElem?_cons_zero]
    | invalid =>
      obtain ⟨d, hd, htype, -⟩ := hm.column
        (i := (pre ++ ⟨.float f, isNull⟩ :: mid).length) (v := ⟨.invalid, wNull⟩)
        (by rw [List.getElem?_append_right le_rfl, Nat.sub_self, List.getElem?_cons_zero])
      exact absurd htype (htypes d (List.mem_of_getElem? hd))

/-- **Rows that are not read back.** If a row below 4 GiB is not aligned, some row of its shape is
not read back. -/
lemma exists_not_roundTrip (hm : Matches cols values) (htypes : ∀ c ∈ cols, c.type ≠ .invalid)
    (hsize : encodedSize values < 2 ^ 32) (h : ¬ Aligned values) :
    ∃ row, SameShape values row ∧ ¬ RoundTrip cols row := by
  obtain ⟨pre, u, v, post, rfl, hpre, hu⟩ := exists_of_not_aligned h
  obtain ⟨payload, isNull⟩ := u
  cases payload with
  | boolean b => cases hu
  | integer n => cases hu
  | float f => exact exists_not_roundTrip_of_float hm htypes hsize hpre
  | varchar s =>
    cases s with
    | nil => cases hu
    | cons b s =>
      obtain ⟨c, hc, hsum⟩ := offset_next hm hpre
      have hwidth : c.width = 4 := by
        rw [Column.width_eq, hc]
        rfl
      rw [hwidth] at hsum
      exact exists_not_roundTrip_of_text hm htypes hsize v.encoding.head? hsum
        fun b' => ⟨v, getElem?_next, rfl⟩
  | invalid =>
    obtain ⟨d, hd, htype, -⟩ := hm.column (i := pre.length) (v := ⟨.invalid, isNull⟩)
      (by rw [List.getElem?_append_right le_rfl, Nat.sub_self, List.getElem?_cons_zero])
    exact absurd htype (htypes d (List.mem_of_getElem? hd))

/-- In a row below 4 GiB that is not aligned, some column is read elsewhere than its value lies. -/
lemma exists_offset_ne (hm : Matches cols values) (htypes : ∀ c ∈ cols, c.type ≠ .invalid)
    (hsize : encodedSize values < 2 ^ 32) (h : ¬ Aligned values) :
    ∃ i col, (Schema.new cols).getColumn i = some col ∧
      col.offset ≠ encodedSize (values.take i) := by
  obtain ⟨pre, u, v, post, rfl, hpre, hu⟩ := exists_of_not_aligned h
  have hv : (pre ++ u :: v :: post)[pre.length + 1]? = some v := getElem?_next
  obtain ⟨d, hd, -, -⟩ := hm.column hv
  obtain ⟨c, hc, hsum⟩ := offset_next hm hpre
  refine ⟨pre.length + 1, _, by rw [Schema.getColumn_new, hd]; rfl, ?_⟩
  have hplace : encodedSize ((pre ++ u :: v :: post).take (pre.length + 1)) =
      encodedSize pre + u.encodedSize := by
    rw [List.take_append, List.take_of_length_le (by omega), Nat.add_sub_cancel_left,
      encodedSize_append, List.take_succ_cons, List.take_zero, encodedSize_cons]
    rfl
  rw [encodedSize_append, encodedSize_cons] at hsize
  have hwidth := Column.width_eq c
  rw [hc] at hwidth
  have hne : c.width ≠ u.encodedSize ∧ c.width ≤ u.encodedSize + 4 := by
    obtain ⟨payload, isNull⟩ := u
    cases payload with
    | boolean b => cases hu
    | integer n => cases hu
    | float f => simp [hwidth, Value.getTypeId, Payload.typeId, Value.encodedSize]
    | varchar s =>
      cases s with
      | nil => cases hu
      | cons b s => simp [hwidth, Value.getTypeId, Payload.typeId, Value.encodedSize]
    | invalid =>
      obtain ⟨e, he, htype, -⟩ := hm.column (i := pre.length) (v := ⟨.invalid, isNull⟩)
        (by rw [List.getElem?_append_right le_rfl, Nat.sub_self, List.getElem?_cons_zero])
      exact absurd htype (htypes e (List.mem_of_getElem? he))
  rw [hplace]
  dsimp only
  rw [hsum]
  omega

end Misread

/-- **The round trip of tuples.** An aligned row is read back exactly below 4 GiB. For a row below
4 GiB, all rows with values of the same types and sizes are read back exactly if it is aligned; and
if it is not, some column is read elsewhere than its value lies, so that the row can only be read
back if the bytes at the two places happen to agree. -/
theorem roundTrip_iff (cols : List Column) (values : List Value)
    (htypes : ∀ c ∈ cols, c.type ≠ .invalid) (hm : Matches cols values) :
    (Aligned values → (RoundTrip cols values ↔ encodedSize values < 2 ^ 32)) ∧
      (encodedSize values < 2 ^ 32 →
        ((∀ row, SameShape values row → RoundTrip cols row) ↔ Aligned values) ∧
        (¬ Aligned values → ∃ i col, (Schema.new cols).getColumn i = some col ∧
          col.offset ≠ encodedSize (values.take i))) := by
  constructor
  · intro hal
    constructor
    · intro hround
      by_contra hsize
      exact not_roundTrip_of_large hal hm htypes (by omega) hround
    · exact roundTrip_of_aligned hal hm htypes
  · intro hsize
    refine ⟨⟨fun hall => ?_, fun hal row hrow => ?_⟩, exists_offset_ne hm htypes hsize⟩
    · by_contra hal
      obtain ⟨row, hrow, hround⟩ := exists_not_roundTrip hm htypes hsize hal
      exact hround (hall row hrow)
    · have hrowSize : encodedSize row < 2 ^ 32 := hrow.encodedSize_eq ▸ hsize
      exact roundTrip_of_aligned (hrow.aligned hal) (hrow.matches hm) htypes hrowSize

/-- The table of a flag and a name reads back its rows, and one of a name and a number those with
an empty name. -/
theorem roundTrip_iff_flag_name :
    RoundTrip [Column.new "flag" .boolean, Column.new "name" .varchar]
      [{ payload := .boolean true }, { payload := .varchar [97, 98] }] ∧
    RoundTrip [Column.new "name" .varchar, Column.new "id" .integer]
      [{ payload := .varchar [] }, { payload := .integer 7 }] := by
  have hflag : Matches [Column.new "flag" .boolean, Column.new "name" .varchar]
      [{ payload := .boolean true }, { payload := .varchar [97, 98] }] :=
    .cons ⟨rfl, rfl⟩ (.cons ⟨rfl, rfl⟩ .nil)
  have hname : Matches [Column.new "name" .varchar, Column.new "id" .integer]
      [{ payload := .varchar [] }, { payload := .integer 7 }] :=
    .cons ⟨rfl, rfl⟩ (.cons ⟨rfl, rfl⟩ .nil)
  exact ⟨((roundTrip_iff _ _ (by decide) hflag).1 (by decide)).2 (by decide),
    ((roundTrip_iff _ _ (by decide) hname).1 (by decide)).2 (by decide)⟩

/-- The row `('a', 7)` of a `VARCHAR` and an `INTEGER` column is read back with another integer,
and the row `(0.0, 7)` of a `FLOAT` and an `INTEGER` column is read behind its end. -/
theorem readBack_misaligned :
    readBack (Schema.new [Column.new "name" .varchar, Column.new "id" .integer])
        [{ payload := .varchar [97] }, { payload := .integer 7 }] 1 =
        pure { payload := .integer 0x761 } ∧
      readBack (Schema.new [Column.new "price" .float, Column.new "id" .integer])
        [{ payload := .float 0 }, { payload := .integer 7 }] 1 = Cpp.undefined ∧
      ¬ ∀ cols values, Matches cols values → RoundTrip cols values := by
  have hval : readBack (Schema.new [Column.new "name" .varchar, Column.new "id" .integer])
      [{ payload := .varchar [97] }, { payload := .integer 7 }] 1 =
      pure { payload := .integer 0x761 } := rfl
  refine ⟨hval, rfl, fun h => ?_⟩
  have hm : Matches [Column.new "name" .varchar, Column.new "id" .integer]
      [{ payload := .varchar [97] }, { payload := .integer 7 }] :=
    .cons ⟨rfl, rfl⟩ (.cons ⟨rfl, rfl⟩ .nil)
  have hread := hval.symm.trans (h _ _ hm 1 _ rfl)
  have hpayload : Payload.integer 0x761 = .integer 7 := by
    cases hread
  exact absurd hpayload (by decide)

end OneBase
