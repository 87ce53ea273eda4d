import OneBase.Execution.Executors
import OneBase.Lib.Terminated

set_option relaxedAutoImplicit false
set_option autoImplicit false

/-!
# The keys of the hash operators

`AggregationExecutor` files a group under the texts of its values, each followed by `#`, and
`HashJoinExecutor` a row under the text of its key. The text of a `FLOAT` is rounded, and a
`VARCHAR` may contain a `#` of its own.

## Main definitions

* `OneBase.KeysFaithful`, `OneBase.TextFaithful` — equal keys are those of equal values.

## Main results

* `OneBase.keysFaithful_iff` — the column types for which the keys are faithful.
-/

namespace OneBase

open Terminated

/-- The vector consists of values of these types that are not null. -/
def OfTypes (types : List TypeId) (values : List Value) : Prop :=
  List.Forall₂ (fun type v => v.getTypeId = type ∧ v.isNull = false) types values

/-- `CompareEquals` holds at every position. -/
def AllEqual (us vs : List Value) : Prop :=
  List.Forall₂ (fun u v => u.compareEquals v = pure (Value.ofBool true)) us vs

/-- The keys of two vectors of these types are equal iff the vectors are. -/
def KeysFaithful (types : List TypeId) : Prop :=
  ∀ us vs, OfTypes types us → OfTypes types vs → (groupKey us = groupKey vs ↔ AllEqual us vs)

/-- The texts of two values of this type are equal iff the values are. -/
def TextFaithful (type : TypeId) : Prop :=
  ∀ u v : Value, u.getTypeId = type → v.getTypeId = type → u.isNull = false → v.isNull = false →
    (u.toBytes = v.toBytes ↔ u.compareEquals v = pure (Value.ofBool true))

/-- A string with a `#` in it. -/
def HasMark (v : Value) : Prop := v.getTypeId = .varchar ∧ 35 ∈ v.toBytes

/-! ## Texts -/

section Texts

variable {u v : Value} {type : TypeId} {types : List TypeId} {us vs as bs : List Value}

/-- The text of a truth value or of an integer contains no `#`. -/
lemma mark_notMem_toBytes (htype : v.getTypeId = .boolean ∨ v.getTypeId = .integer) :
    35 ∉ v.toBytes := by
  obtain ⟨payload, isNull⟩ := v
  cases isNull with
  | true =>
    show 35 ∉ asciiBytes "NULL"
    decide
  | false =>
    cases payload with
    | boolean b => cases b <;> decide
    | integer i =>
      show 35 ∉ Decimal.intBytes i.toInt
      have hdigits : ∀ n, (35 : UInt8) ∉ Decimal.natBytes n := by
        intro n hmem
        exact absurd (Decimal.mem_natBytes hmem).1 (by decide)
      unfold Decimal.intBytes
      split
      · rw [List.mem_cons, not_or]
        exact ⟨by decide, hdigits _⟩
      · exact hdigits _
    | invalid => rcases htype with h | h <;> cases h
    | float f => rcases htype with h | h <;> cases h
    | varchar s => rcases htype with h | h <;> cases h

/-- The key of a group is the join of the texts of its values. -/
lemma groupKey_eq (hne : vs ≠ []) : groupKey vs = join 35 (vs.map Value.toBytes) := by
  have hjoin : (vs.flatMap fun val => val.toBytes ++ asciiBytes "#") =
      join 35 (vs.map Value.toBytes) := by
    have hmark : asciiBytes "#" = [35] := rfl
    rw [join, List.flatMap_map, hmark]
  have hnonempty : join 35 (vs.map Value.toBytes) ≠ [] := by
    obtain ⟨v, vs, rfl⟩ := List.exists_cons_of_ne_nil hne
    simp
  rw [groupKey]
  simp only [hjoin, if_neg hnonempty]

/-- Keys of vectors of one length are equal iff the joins are. -/
lemma groupKey_eq_iff (hlen : us.length = vs.length) :
    groupKey us = groupKey vs ↔ join 35 (us.map Value.toBytes) = join 35 (vs.map Value.toBytes) := by
  cases us with
  | nil =>
    obtain rfl := List.eq_nil_of_length_eq_zero hlen.symm
    simp
  | cons u us =>
    obtain ⟨v, vs, rfl⟩ := List.exists_cons_of_length_eq_add_one hlen.symm
    rw [groupKey_eq (List.cons_ne_nil _ _), groupKey_eq (List.cons_ne_nil _ _)]

/-- The text of a value of a key type determines it. -/
lemma textFaithful_of_isKeyType (hkey : Value.IsKeyType type) : TextFaithful type := by
  intro u v hu hv hunull hvnull
  have htype : u.getTypeId = v.getTypeId := hu.trans hv.symm
  rw [Value.toBytes_inj htype (hu ▸ hkey) hunull hvnull,
    Value.compareEquals_eq htype (hu ▸ hkey)]
  constructor
  · intro h
    rw [decide_eq_true h]
  · intro h
    have hpayload := congrArg Value.payload (Except.ok.inj (Option.some.inj h))
    exact of_decide_eq_true (Payload.boolean.inj hpayload)

/-- The types of keys are all but `INVALID` and `FLOAT`. -/
lemma isKeyType_of_ne (hinvalid : type ≠ .invalid) (hfloat : type ≠ .float) :
    Value.IsKeyType type := by
  cases type <;> simp [Value.IsKeyType] at *

/-- Vectors of key types are equal iff their texts are. -/
lemma allEqual_iff (hkeys : ∀ type ∈ types, Value.IsKeyType type) (hu : OfTypes types us)
    (hv : OfTypes types vs) :
    AllEqual us vs ↔ us.map Value.toBytes = vs.map Value.toBytes := by
  induction hu generalizing vs with
  | nil =>
    cases hv
    exact ⟨fun _ => rfl, fun _ => .nil⟩
  | @cons type u types us hu _ ih =>
    cases hv with
    | @cons _ v _ vs hv hvs =>
      have hhead := textFaithful_of_isKeyType (hkeys type List.mem_cons_self) u v hu.1 hv.1 hu.2 hv.2
      have htail := ih (fun t ht => hkeys t (List.mem_cons_of_mem _ ht)) hvs
      rw [AllEqual, List.forall₂_cons, ← hhead, List.map_cons, List.map_cons, List.cons.injEq]
      exact and_congr_right fun _ => htail

/-- Of two equal rows of the same length, with something equal behind them, the rests are equal. -/
lemma AllEqual.append_right (hlen : as.length = bs.length) (h : AllEqual (as ++ us) (bs ++ vs)) :
    AllEqual us vs := by
  induction as generalizing bs with
  | nil =>
    obtain rfl := List.eq_nil_of_length_eq_zero hlen.symm
    exact h
  | cons a as ih =>
    obtain ⟨b, bs, rfl⟩ := List.exists_cons_of_length_eq_add_one hlen.symm
    exact ih (Nat.succ.inj hlen) (List.forall₂_cons.1 h).2

end Texts

/-! ## Which keys are faithful -/

section Keys

variable {types : List TypeId} {us vs : List Value} {type : TypeId}

/-- Rows of the same types have the same length. -/
lemma OfTypes.length_eq (hu : OfTypes types us) (hv : OfTypes types vs) : us.length = vs.length :=
  (List.Forall₂.length_eq hu).symm.trans (List.Forall₂.length_eq hv)

/-- The texts of values of other types than `VARCHAR` contain no `#`. -/
lemma mark_notMem_texts (hkeys : ∀ type ∈ types, Value.IsKeyType type) (hvs : OfTypes types vs)
    (hmarks : ∀ v ∈ vs, ¬ HasMark v) : ∀ text ∈ vs.map Value.toBytes, 35 ∉ text := by
  induction hvs with
  | nil => simp
  | @cons type v types vs hv _ ih =>
    intro text htext
    rw [List.map_cons] at htext
    rcases List.mem_cons.1 htext with rfl | htext
    · rcases hkeys type List.mem_cons_self with h | h | h
      · exact mark_notMem_toBytes (.inr (hv.1.trans h))
      · exact mark_notMem_toBytes (.inl (hv.1.trans h))
      · exact fun hmem => hmarks v List.mem_cons_self ⟨hv.1.trans h, hmem⟩
    · exact ih (fun t ht => hkeys t (List.mem_cons_of_mem _ ht))
        (fun w hw => hmarks w (List.mem_cons_of_mem _ hw)) text htext

/-- Without a `VARCHAR` column there is no number sign in a row. -/
lemma not_hasMark (hvarchar : .varchar ∉ types) (hvs : OfTypes types vs) :
    ∀ v ∈ vs, ¬ HasMark v := by
  induction hvs with
  | nil => simp
  | @cons type v types vs hv _ ih =>
    intro w hw
    rcases List.mem_cons.1 hw with rfl | hw
    · rintro ⟨htype, -⟩
      rw [hv.1] at htype
      exact hvarchar (htype ▸ List.mem_cons_self)
    · exact ih (fun h => hvarchar (List.mem_cons_of_mem _ h)) w hw

/-- Keys of vectors without `#` in their strings. -/
lemma groupKey_eq_of_no_marks (hkeys : ∀ type ∈ types, Value.IsKeyType type)
    (hu : OfTypes types us) (hv : OfTypes types vs) (hus : ∀ u ∈ us, ¬ HasMark u)
    (hvs : ∀ v ∈ vs, ¬ HasMark v) : groupKey us = groupKey vs ↔ AllEqual us vs := by
  rw [allEqual_iff hkeys hu hv, groupKey_eq_iff (hu.length_eq hv)]
  refine ⟨fun h => ?_, fun h => by rw [h]⟩
  refine join_inj ?_ (mark_notMem_texts hkeys hu hus) (mark_notMem_texts hkeys hv hvs) h
  rw [List.length_map, List.length_map, hu.length_eq hv]

/-- If only one column is a `VARCHAR`, the join determines the texts: those before it end at the
first marks, and those behind it at the last ones. -/
lemma texts_eq_of_join (hkeys : ∀ type ∈ types, Value.IsKeyType type)
    (hcount : types.count .varchar ≤ 1) (hu : OfTypes types us) (hv : OfTypes types vs)
    (h : join 35 (us.map Value.toBytes) = join 35 (vs.map Value.toBytes)) :
    us.map Value.toBytes = vs.map Value.toBytes := by
  induction hu generalizing vs with
  | nil =>
    cases hv
    rfl
  | @cons type u types us hu hus ih =>
    cases hv with
    | @cons _ v _ vs hv hvs =>
      have hkeys' : ∀ type ∈ types, Value.IsKeyType type :=
        fun t ht => hkeys t (List.mem_cons_of_mem _ ht)
      rw [List.map_cons, List.map_cons] at h ⊢
      rw [join_cons, join_cons] at h
      by_cases hvarchar : type = .varchar
      · have hrest : .varchar ∉ types := by
          rw [hvarchar, List.count_cons_self] at hcount
          exact List.count_eq_zero.1 (by omega)
        have hlen : (us.map Value.toBytes).length = (vs.map Value.toBytes).length := by
          rw [List.length_map, List.length_map, OfTypes.length_eq hus hvs]
        obtain ⟨hhead, htail⟩ := append_join_inj hlen
          (mark_notMem_texts hkeys' hus (not_hasMark hrest hus))
          (mark_notMem_texts hkeys' hvs (not_hasMark hrest hvs)) h
        rw [hhead, htail]
      · have hother : type = .boolean ∨ type = .integer := by
          rcases hkeys type List.mem_cons_self with h | h | h
          · exact .inr h
          · exact .inl h
          · exact absurd h hvarchar
        have hutype : u.getTypeId = .boolean ∨ u.getTypeId = .integer := hu.1 ▸ hother
        have hvtype : v.getTypeId = .boolean ∨ v.getTypeId = .integer := hv.1 ▸ hother
        obtain ⟨hhead, htail⟩ :=
          append_sep_inj (mark_notMem_toBytes hutype) (mark_notMem_toBytes hvtype) h
        rw [hhead, ih hkeys' (le_trans (List.count_le_count_cons) hcount) hvs htail]

/-- Strings that differ are not equal. -/
lemma not_equal_varchars {a b : List UInt8} (hne : a ≠ b) :
    ¬ (⟨.varchar a, false⟩ : Value).compareEquals ⟨.varchar b, false⟩ =
      pure (Value.ofBool true) := by
  intro h
  have htype : (⟨.varchar a, false⟩ : Value).getTypeId =
      (⟨.varchar b, false⟩ : Value).getTypeId := rfl
  rw [Value.compareEquals_eq htype (.inr (.inr rfl)),
    decide_eq_false fun heq => hne (Payload.varchar.inj heq)] at h
  exact absurd (congrArg Cpp.result h) (by decide)

/-- `0.0` and the least positive `float` are not equal. -/
lemma not_equal_floats :
    ¬ (⟨.float 0, false⟩ : Value).compareEquals ⟨.float 1, false⟩ = pure (Value.ofBool true) := by
  intro h
  exact absurd (congrArg Cpp.result h) (by decide)

/-- Values of the types that are all alike. -/
def plainValues (types : List TypeId) : List Value :=
  types.map fun type => { payload := .zero type }

/-- The plain values have their types. -/
lemma ofTypes_plainValues (types : List TypeId) : OfTypes types (plainValues types) := by
  induction types with
  | nil => exact .nil
  | cons type types ih =>
    refine .cons ⟨?_, rfl⟩ ih
    cases type <;> rfl

/-- The types of two rows side by side. -/
lemma ofTypes_append {types' : List TypeId} (hu : OfTypes types us) (hv : OfTypes types' vs) :
    OfTypes (types ++ types') (us ++ vs) :=
  List.rel_append hu hv

/-- `0.0` and the least positive `float` have the same text. -/
lemma not_keysFaithful_of_float (hfloat : .float ∈ types) : ¬ KeysFaithful types := by
  intro h
  obtain ⟨pre, post, rfl⟩ := List.append_of_mem hfloat
  have htypes : ∀ f, OfTypes (pre ++ .float :: post)
      (plainValues pre ++ ⟨.float f, false⟩ :: plainValues post) :=
    fun f => ofTypes_append (ofTypes_plainValues pre) (.cons ⟨rfl, rfl⟩ (ofTypes_plainValues post))
  have htext : (⟨.float 0, false⟩ : Value).toBytes = (⟨.float 1, false⟩ : Value).toBytes := by
    decide
  have hequal := (h _ _ (htypes 0) (htypes 1)).1 (by
    rw [groupKey_eq_iff (by simp), List.map_append, List.map_append, List.map_cons, List.map_cons,
      htext])
  exact not_equal_floats (List.forall₂_cons.1 (hequal.append_right rfl)).1

/-- Two strings can share the texts between them. -/
lemma not_keysFaithful_of_two_varchars (hcount : 2 ≤ types.count .varchar) :
    ¬ KeysFaithful types := by
  intro h
  obtain ⟨pre, rest, rfl, hpre⟩ : ∃ pre rest, types = pre ++ .varchar :: rest ∧ .varchar ∉ pre := by
    obtain ⟨pre, rest, hsplit, hpre⟩ := List.eq_append_cons_of_mem
      (List.count_pos_iff.1 (by omega : 0 < types.count TypeId.varchar))
    exact ⟨pre, rest, hsplit, hpre⟩
  have hrest : TypeId.varchar ∈ rest := by
    rw [List.count_append, List.count_cons_self, List.count_eq_zero.2 hpre] at hcount
    exact List.count_pos_iff.1 (by omega)
  obtain ⟨mid, post, rfl⟩ := List.append_of_mem hrest
  have htypes : ∀ s t, OfTypes (pre ++ .varchar :: (mid ++ .varchar :: post))
      (plainValues pre ++ ⟨.varchar s, false⟩ ::
        (plainValues mid ++ ⟨.varchar t, false⟩ :: plainValues post)) :=
    fun s t => ofTypes_append (ofTypes_plainValues pre) (.cons ⟨rfl, rfl⟩
      (ofTypes_append (ofTypes_plainValues mid) (.cons ⟨rfl, rfl⟩ (ofTypes_plainValues post))))
  set between := 35 :: join 35 ((plainValues mid).map Value.toBytes)
  have htext : ∀ s, (⟨.varchar s, false⟩ : Value).toBytes = s := fun s => rfl
  have hequal := (h _ _ (htypes between []) (htypes [] between)).1 (by
    rw [groupKey_eq_iff (by simp)]
    simp only [List.map_append, List.map_cons, htext, join_append, join_cons]
    simp [between])
  have hne : between ≠ [] := List.cons_ne_nil _ _
  exact not_equal_varchars hne (List.forall₂_cons.1 (hequal.append_right rfl)).1

/-- **Group keys and join keys.** The grouping keys of two vectors of these types are equal exactly
for equal vectors iff no column is a `FLOAT` and at most one is a `VARCHAR`; with more columns of
type `VARCHAR` they are for vectors whose strings contain no `#`. The text of a single value, under
which the join files rows, determines it iff it is not a `FLOAT`. -/
theorem keysFaithful_iff (types : List TypeId) (hvalid : .invalid ∉ types) :
    (KeysFaithful types ↔ .float ∉ types ∧ types.count .varchar ≤ 1) ∧
      (.float ∉ types → ∀ us vs, OfTypes types us → OfTypes types vs → (∀ u ∈ us, ¬ HasMark u) →
        (∀ v ∈ vs, ¬ HasMark v) → (groupKey us = groupKey vs ↔ AllEqual us vs)) ∧
      ∀ type ∈ types, (TextFaithful type ↔ type ≠ .float) := by
  have hkeys : .float ∉ types → ∀ type ∈ types, Value.IsKeyType type := fun hfloat type htype =>
    isKeyType_of_ne (fun h => hvalid (h ▸ htype)) fun h => hfloat (h ▸ htype)
  refine ⟨⟨fun h => ⟨fun hfloat => not_keysFaithful_of_float hfloat h, ?_⟩, ?_⟩, ?_, ?_⟩
  · by_contra hcount
    exact not_keysFaithful_of_two_varchars (by omega) h
  · rintro ⟨hfloat, hcount⟩ us vs hu hv
    rw [allEqual_iff (hkeys hfloat) hu hv, groupKey_eq_iff (hu.length_eq hv)]
    exact ⟨texts_eq_of_join (hkeys hfloat) hcount hu hv, fun h => by rw [h]⟩
  · intro hfloat us vs hu hv hus hvs
    exact groupKey_eq_of_no_marks (hkeys hfloat) hu hv hus hvs
  · intro type htype
    refine ⟨?_, fun hfloat => textFaithful_of_isKeyType
      (isKeyType_of_ne (fun h => hvalid (h ▸ htype)) hfloat)⟩
    rintro h rfl
    exact not_equal_floats ((h ⟨.float 0, false⟩ ⟨.float 1, false⟩ rfl rfl rfl rfl).1 (by decide))

/-- An integer and a string. -/
theorem keysFaithful_integer_varchar : KeysFaithful [.integer, .varchar] :=
  (keysFaithful_iff [.integer, .varchar] (by decide)).1.2 (by decide)

/-- Two strings, where `a#` and `b` have the key of `a` and `#b`. -/
theorem not_keysFaithful_two_varchars :
    ∃ us vs, OfTypes [.varchar, .varchar] us ∧ OfTypes [.varchar, .varchar] vs ∧
      groupKey us = groupKey vs ∧ ¬ AllEqual us vs := by
  refine ⟨[⟨.varchar [97, 35], false⟩, ⟨.varchar [98], false⟩],
    [⟨.varchar [97], false⟩, ⟨.varchar [35, 98], false⟩], ?_, ?_, by decide, ?_⟩
  · exact .cons ⟨rfl, rfl⟩ (.cons ⟨rfl, rfl⟩ .nil)
  · exact .cons ⟨rfl, rfl⟩ (.cons ⟨rfl, rfl⟩ .nil)
  · intro h
    exact not_equal_varchars (by decide) (List.forall₂_cons.1 h).1

end Keys

end OneBase
