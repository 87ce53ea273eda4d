import OneBase.Common.Types
import OneBase.Lib.Memory

set_option relaxedAutoImplicit false
set_option autoImplicit false

/-!
# Values

`type/type_id.h` and `type/value.h`: typed values and their serialization. An `int32_t` and a
`float` are their 32 bits, a `std::string` its bytes. A null value keeps the zero payload that its
constructor gives it.

## Main definitions

* `OneBase.TypeId`, `OneBase.Value` — the types and their values.
* `OneBase.Value.getSerializedSize`, `serializeTo`, `deserializeFrom` — the serialization.

## Main results

* `OneBase.Value.deserializeFrom_serializeTo` — deserializing what was serialized.
-/

namespace OneBase

open Memory

/-- The bytes of a name or of a string constant. -/
def textBytes (s : String) : List UInt8 := s.toUTF8.toList

/-- The loop that lists the bytes of an array. -/
lemma toListLoop_eq (bytes : ByteArray) (i : ℕ) (r : List UInt8) :
    ByteArray.toList.loop bytes i r = r.reverse ++ bytes.data.toList.drop i := by
  fun_induction ByteArray.toList.loop bytes i r with
  | case1 i r hlt ih =>
    have hdata : i < bytes.data.toList.length := by simpa using hlt
    rw [ih, List.reverse_cons, List.append_assoc, List.drop_eq_getElem_cons hdata]
    simp [ByteArray.get!, getElem!_pos, hlt]
  | case2 i r hge =>
    rw [List.drop_eq_nil_of_le (by simpa using hge), List.append_nil]

/-- The bytes of a text are those of its encoding. -/
lemma textBytes_eq (s : String) : textBytes s = s.toByteArray.data.toList := by
  show ByteArray.toList.loop _ 0 [] = _
  rw [toListLoop_eq]
  rfl

/-- A text has as many bytes as its encoding. -/
lemma length_textBytes (s : String) : (textBytes s).length = s.utf8ByteSize := by
  rw [textBytes_eq, Array.length_toList]
  rfl

/-- Names with the same bytes are the same. -/
lemma textBytes_injective : Function.Injective textBytes := by
  intro s t h
  rw [textBytes_eq, textBytes_eq, Array.toList_inj] at h
  exact String.toByteArray_inj.1 (ByteArray.ext h)

/-- `TypeId`. -/
inductive TypeId
  | invalid
  | boolean
  | integer
  | float
  | varchar
  deriving DecidableEq, Repr

/-- The member of the union, or `varchar_`, that goes with `type_id_`. -/
inductive Payload
  | invalid
  | boolean (b : Bool)
  | integer (i : BitVec 32)
  | float (f : BitVec 32)
  | varchar (s : List UInt8)
  deriving DecidableEq, Repr

/-- `type_id_`. -/
def Payload.typeId : Payload → TypeId
  | .invalid => .invalid
  | .boolean _ => .boolean
  | .integer _ => .integer
  | .float _ => .float
  | .varchar _ => .varchar

/-- The payload of a null value. -/
def Payload.zero : TypeId → Payload
  | .invalid => .invalid
  | .boolean => .boolean false
  | .integer => .integer 0
  | .float => .float 0
  | .varchar => .varchar []

/-- `Value`. -/
structure Value where
  payload : Payload
  isNull : Bool := false
  deriving DecidableEq, Repr

namespace Value

/-- `GetTypeId`. -/
def getTypeId (v : Value) : TypeId := v.payload.typeId

/-- `Value(TypeId)`, a null value. -/
def null (type : TypeId) : Value := { payload := .zero type, isNull := true }

instance : Inhabited Value := ⟨null .invalid⟩

/-- `GetSerializedSize`, an `uint32_t`. -/
def getSerializedSize (v : Value) : Cpp ℕ :=
  match v.payload with
  | .boolean _ => pure 1
  | .integer _ => pure 4
  | .float _ => pure 4
  | .varchar s => pure ((4 + s.length % 2 ^ 32) % 2 ^ 32)
  | .invalid => throw (.logicError "Unsupported type for GetSerializedSize")

/-- `SerializeTo`: the bytes written to `storage`. -/
def serializeTo (v : Value) : Cpp (List UInt8) :=
  match v.payload with
  | .boolean b => pure [if b then 1 else 0]
  | .integer i => pure (leBytes 4 i.toNat)
  | .float f => pure (leBytes 4 f.toNat)
  | .varchar s =>
    let len := s.length % 2 ^ 32
    pure (leBytes 4 len ++ s.take len)
  | .invalid => throw (.logicError "Unsupported type for serialization")

/-- The first `n` bytes of `storage`, which must not end before. -/
def readStorage (storage : List UInt8) (n : ℕ) : Cpp (List UInt8) :=
  if n ≤ storage.length then pure (storage.take n) else Cpp.undefined

/-- `DeserializeFrom`, where the memory behind `storage` is the list of bytes. -/
def deserializeFrom (storage : List UInt8) (type : TypeId) : Cpp Value :=
  match type with
  | .boolean => do
    match ← readStorage storage 1 with
    | [0] => pure { payload := .boolean false }
    | [1] => pure { payload := .boolean true }
    | _ => Cpp.undefined
  | .integer => do
    let bytes ← readStorage storage 4
    pure { payload := .integer (BitVec.ofNat 32 (leValue bytes)) }
  | .float => do
    let bytes ← readStorage storage 4
    pure { payload := .float (BitVec.ofNat 32 (leValue bytes)) }
  | .varchar => do
    let bytes ← readStorage storage 4
    let s ← readStorage (storage.drop 4) (leValue bytes)
    pure { payload := .varchar s }
  | .invalid => throw (.logicError "Unsupported type for deserialization")

/-- No encoding is that of a null. -/
lemma isNull_deserializeFrom {storage : List UInt8} {type : TypeId} {v : Value}
    (h : deserializeFrom storage type = pure v) : v.isNull = false := by
  cases type with
  | boolean =>
    obtain ⟨bytes, -, h⟩ := Cpp.bind_eq_pure.1 h
    split at h <;> cases h <;> rfl
  | integer | float =>
    obtain ⟨bytes, -, h⟩ := Cpp.bind_eq_pure.1 h
    cases h
    rfl
  | varchar =>
    obtain ⟨bytes, -, h⟩ := Cpp.bind_eq_pure.1 h
    obtain ⟨s, -, h⟩ := Cpp.bind_eq_pure.1 h
    cases h
    rfl
  | invalid => cases h

/-! ## Serialization and back -/

/-- The bytes of a value, before any truncation of its length. -/
def encoding (v : Value) : List UInt8 :=
  match v.payload with
  | .boolean b => [if b then 1 else 0]
  | .integer i => leBytes 4 i.toNat
  | .float f => leBytes 4 f.toNat
  | .varchar s => leBytes 4 s.length ++ s
  | .invalid => []

/-- The number of these bytes. -/
def encodedSize (v : Value) : ℕ :=
  match v.payload with
  | .boolean _ => 1
  | .integer _ => 4
  | .float _ => 4
  | .varchar s => 4 + s.length
  | .invalid => 0

/-- A value has as many bytes as it is counted with. -/
@[simp] lemma length_encoding (v : Value) : v.encoding.length = v.encodedSize := by
  obtain ⟨payload, isNull⟩ := v
  cases payload <;> simp [encoding, encodedSize]

/-- A value of a type takes a byte at least. -/
lemma encodedSize_pos (v : Value) (htype : v.getTypeId ≠ .invalid) : 0 < v.encodedSize := by
  obtain ⟨payload, isNull⟩ := v
  cases payload with
  | invalid => exact absurd rfl htype
  | _ => simp [encodedSize]

/-- The first bytes of a storage. -/
@[simp] lemma readStorage_append (l rest : List UInt8) :
    readStorage (l ++ rest) l.length = pure l := by
  rw [readStorage, if_pos (by simp), List.take_left']
  rfl

/-- The first bytes of a storage that has as many. -/
lemma readStorage_eq {storage : List UInt8} {n : ℕ} (h : n ≤ storage.length) :
    readStorage storage n = pure (storage.take n) := if_pos h

/-- Reading beyond the storage is not defined. -/
lemma readStorage_undefined {storage : List UInt8} {n : ℕ} (h : storage.length < n) :
    readStorage storage n = Cpp.undefined := if_neg (by omega)

/-- If bytes are read, the storage has them. -/
lemma readStorage_returns {storage bytes : List UInt8} {n : ℕ}
    (h : readStorage storage n = pure bytes) : n ≤ storage.length ∧ storage.take n = bytes := by
  rcases lt_or_ge storage.length n with hlt | hge
  · rw [readStorage_undefined hlt] at h
    cases h
  · rw [readStorage_eq hge] at h
    cases h
    exact ⟨hge, rfl⟩

/-- Four bytes hold 32 bits. -/
lemma ofNat_leValue_leBytes (i : BitVec 32) : BitVec.ofNat 32 (leValue (leBytes 4 i.toNat)) = i := by
  have hlt : i.toNat < 256 ^ 4 := i.isLt
  rw [leValue_leBytes, Nat.mod_eq_of_lt hlt, BitVec.ofNat_toNat, BitVec.setWidth_eq]

/-- Below 4 GiB, `SerializeTo` writes the encoding and `GetSerializedSize` is its size. -/
lemma serializeTo_eq (v : Value) (htype : v.getTypeId ≠ .invalid) (hsize : v.encodedSize < 2 ^ 32) :
    v.serializeTo = pure v.encoding ∧ v.getSerializedSize = pure v.encodedSize := by
  obtain ⟨payload, isNull⟩ := v
  cases payload with
  | invalid => exact absurd rfl htype
  | boolean b => exact ⟨rfl, rfl⟩
  | integer i => exact ⟨rfl, rfl⟩
  | float f => exact ⟨rfl, rfl⟩
  | varchar s =>
    simp only [encodedSize] at hsize ⊢
    have hlen : s.length % 2 ^ 32 = s.length := Nat.mod_eq_of_lt (by omega)
    constructor
    · simp only [serializeTo, encoding, hlen, List.take_length]
    · simp only [getSerializedSize, hlen]
      rw [Nat.mod_eq_of_lt hsize]

/-- A string of almost 4 GiB is longer than the size announced for it. -/
lemma serializeTo_overflow (s : List UInt8) (isNull : Bool) (hlt : s.length < 2 ^ 32)
    (hsize : 2 ^ 32 ≤ 4 + s.length) :
    ∃ bytes n, (⟨.varchar s, isNull⟩ : Value).serializeTo = pure bytes ∧
      (⟨.varchar s, isNull⟩ : Value).getSerializedSize = pure n ∧ n < bytes.length := by
  have hlen : s.length % 2 ^ 32 = s.length := Nat.mod_eq_of_lt hlt
  refine ⟨leBytes 4 s.length ++ s, (4 + s.length) % 2 ^ 32, ?_, ?_, ?_⟩
  · simp only [serializeTo, hlen, List.take_length]
  · simp only [getSerializedSize, hlen]
  · rw [List.length_append, length_leBytes]
    omega

/-- Deserializing the encoding returns the value, whatever follows in memory. -/
lemma deserializeFrom_encoding (v : Value) (htype : v.getTypeId ≠ .invalid)
    (hnull : v.isNull = false) (hsize : v.encodedSize < 2 ^ 32) (rest : List UInt8) :
    deserializeFrom (v.encoding ++ rest) v.getTypeId = pure v := by
  obtain ⟨payload, isNull⟩ := v
  obtain rfl : isNull = false := hnull
  cases payload with
  | invalid => exact absurd rfl htype
  | boolean b => cases b <;> rfl
  | integer i =>
    have hread := readStorage_append (leBytes 4 i.toNat) rest
    rw [length_leBytes] at hread
    simp [getTypeId, Payload.typeId, encoding, deserializeFrom, hread, ofNat_leValue_leBytes]
  | float f =>
    have hread := readStorage_append (leBytes 4 f.toNat) rest
    rw [length_leBytes] at hread
    simp [getTypeId, Payload.typeId, encoding, deserializeFrom, hread, ofNat_leValue_leBytes]
  | varchar s =>
    simp only [encodedSize] at hsize
    have hread := readStorage_append (leBytes 4 s.length) (s ++ rest)
    rw [length_leBytes] at hread
    have hval : leValue (leBytes 4 s.length) = s.length := by
      rw [leValue_leBytes]
      exact Nat.mod_eq_of_lt (by omega)
    have hdrop : (leBytes 4 s.length ++ (s ++ rest)).drop 4 = s ++ rest :=
      List.drop_left' (length_leBytes 4 _)
    simp [getTypeId, Payload.typeId, encoding, deserializeFrom, hread, hval, hdrop]

/-- Deserializing a proper prefix of the encoding reads behind it. -/
lemma deserializeFrom_take (v : Value) (htype : v.getTypeId ≠ .invalid)
    (hsize : v.encodedSize < 2 ^ 32) {n : ℕ} (hn : n < v.encodedSize) :
    deserializeFrom (v.encoding.take n) v.getTypeId = Cpp.undefined := by
  obtain ⟨payload, isNull⟩ := v
  have hlen : ((⟨payload, isNull⟩ : Value).encoding.take n).length = n := by
    rw [List.length_take, length_encoding]
    omega
  cases payload with
  | invalid => exact absurd rfl htype
  | boolean b =>
    simp only [encodedSize] at hn
    have := readStorage_undefined (n := 1) (hlen.trans_lt hn)
    simp only [getTypeId, Payload.typeId, deserializeFrom, this]
    rfl
  | integer i =>
    simp only [encodedSize] at hn
    have := readStorage_undefined (n := 4) (hlen.trans_lt hn)
    simp only [getTypeId, Payload.typeId, deserializeFrom, this]
    rfl
  | float f =>
    simp only [encodedSize] at hn
    have := readStorage_undefined (n := 4) (hlen.trans_lt hn)
    simp only [getTypeId, Payload.typeId, deserializeFrom, this]
    rfl
  | varchar s =>
    simp only [encodedSize] at hn hsize
    simp only [getTypeId, Payload.typeId, deserializeFrom]
    rcases lt_or_ge n 4 with h4 | h4
    · rw [readStorage_undefined (hlen.trans_lt h4)]
      rfl
    · have htake : ((⟨.varchar s, isNull⟩ : Value).encoding.take n).take 4 =
          leBytes 4 s.length := by
        rw [List.take_take, min_eq_left h4, encoding,
          List.take_left' (length_leBytes 4 _)]
      have hval : leValue (leBytes 4 s.length) = s.length := by
        rw [leValue_leBytes]
        exact Nat.mod_eq_of_lt (by omega)
      rw [readStorage_eq (h4.trans_eq hlen.symm), htake]
      simp only [pure_bind, hval]
      rw [readStorage_undefined (by rw [List.length_drop, hlen]; omega)]
      rfl

/-- A string that was deserialized is shorter than 4 GiB. -/
lemma length_lt_of_deserializeFrom {storage s : List UInt8} {isNull : Bool}
    (h : deserializeFrom storage .varchar = pure ⟨.varchar s, isNull⟩) : s.length < 2 ^ 32 := by
  obtain ⟨bytes, hbytes, hrest⟩ := Cpp.bind_eq_pure.1 h
  obtain ⟨h4, rfl⟩ := readStorage_returns hbytes
  obtain ⟨s', hs', hfin⟩ := Cpp.bind_eq_pure.1 hrest
  obtain ⟨-, rfl⟩ := readStorage_returns hs'
  have hlt := leValue_lt (storage.take 4)
  rw [List.length_take, min_eq_left h4] at hlt
  cases hfin
  rw [List.length_take]
  omega

end Value

end OneBase
