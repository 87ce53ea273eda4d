import Mathlib.Control.Basic
import Mathlib.Data.List.Forall2
import Mathlib.Data.Int.Notation
import Mathlib.Data.Nat.Notation

set_option relaxedAutoImplicit false
set_option autoImplicit false

/-!
# Common types

The identifiers and constants of `common/types.h`, `common/config.h`, `common/rid.h` and
`common/exception.h` that the rest of the development uses.

## Main definitions

* `OneBase.PageId`, `OneBase.FrameId`, `OneBase.RID` — identifiers of pages, frames and rows.
* `OneBase.Exception` — what the code throws.
* `OneBase.Cpp` — computations that may throw or have no defined behaviour.
-/

namespace OneBase

/-- `page_id_t`: a page of the database file, or `invalidPageId`. -/
abbrev PageId := ℤ

/-- `INVALID_PAGE_ID`. -/
def invalidPageId : PageId := -1

/-- `frame_id_t`: the index of a frame in the buffer pool. -/
abbrev FrameId := ℕ

/-- `ONEBASE_PAGE_SIZE`. -/
def pageSize : ℕ := 4096

/-- `RID`: the page and the slot of a row. -/
structure RID where
  pageId : PageId
  slotNum : ℕ
  deriving DecidableEq, Repr

instance : Inhabited RID := ⟨⟨invalidPageId, 0⟩⟩

/-- `ExceptionType`, the kinds that the modelled code throws. -/
inductive ExceptionType
  | outOfRange
  | execution
  deriving DecidableEq, Repr

/-- An exception in flight, with its text. -/
inductive Exception
  | oneBase (msg : String) (type : ExceptionType)
  | runtimeError (msg : String)
  | logicError (msg : String)
  deriving DecidableEq, Repr

/-- A computation that may throw; `none` is undefined behaviour. -/
abbrev Cpp (α : Type) := ExceptT Exception Option α

/-- Undefined behaviour. -/
def Cpp.undefined {α : Type} : Cpp α := (none : Option (Except Exception α))

/-- A sequence returns iff its parts do. -/
lemma Cpp.bind_eq_pure {α β : Type} {x : Cpp α} {f : α → Cpp β} {b : β} :
    x >>= f = pure b ↔ ∃ a, x = pure a ∧ f a = pure b := by
  constructor
  · intro h
    match x with
    | none => cases h
    | some (.error e) => cases h
    | some (.ok a) => exact ⟨a, rfl, h⟩
  · rintro ⟨a, rfl, h⟩
    exact h

/-- A sequence throws iff one of its parts does. -/
lemma Cpp.bind_eq_throw {α β : Type} {x : Cpp α} {f : α → Cpp β} {e : Exception} :
    x >>= f = throw e ↔ x = throw e ∨ ∃ a, x = pure a ∧ f a = throw e := by
  match x with
  | none =>
    constructor
    · intro h
      cases h
    · rintro (h | ⟨a, h, -⟩) <;> cases h
  | some (.error e') =>
    constructor
    · intro h
      cases h
      exact .inl rfl
    · rintro (h | ⟨a, h, -⟩)
      · cases h
        rfl
      · cases h
  | some (.ok a) =>
    constructor
    · exact fun h => .inr ⟨a, rfl, h⟩
    · rintro (h | ⟨b, h, hb⟩)
      · cases h
      · cases h
        exact hb

/-- A loop that collects results returns iff each round does. -/
lemma Cpp.mapM_eq_pure {α β : Type} {f : α → Cpp β} {l : List α} {out : List β} :
    l.mapM f = pure out ↔ List.Forall₂ (fun a b => f a = pure b) l out := by
  induction l generalizing out with
  | nil =>
    rw [List.mapM_nil, List.forall₂_nil_left_iff]
    exact ⟨fun h => (Except.ok.inj (Option.some.inj h)).symm, fun h => by rw [h]⟩
  | cons a l ih =>
    rw [List.mapM_cons, Cpp.bind_eq_pure, List.forall₂_cons_left_iff]
    constructor
    · rintro ⟨b, hb, h⟩
      obtain ⟨bs, hbs, h⟩ := Cpp.bind_eq_pure.1 h
      exact ⟨b, bs, hb, ih.1 hbs, (Except.ok.inj (Option.some.inj h)).symm⟩
    · rintro ⟨b, bs, hb, hbs, rfl⟩
      exact ⟨b, hb, Cpp.bind_eq_pure.2 ⟨bs, ih.2 hbs, rfl⟩⟩

/-- A loop that returns has a result for each element. -/
lemma Cpp.exists_of_mapM {α β : Type} {f : α → Cpp β} {l : List α} {out : List β} {a : α}
    (h : l.mapM f = pure out) (ha : a ∈ l) : ∃ b ∈ out, f a = pure b := by
  have hforall := Cpp.mapM_eq_pure.1 h
  clear h
  induction hforall with
  | nil => exact absurd ha List.not_mem_nil
  | cons hb _ ih =>
    rcases List.mem_cons.1 ha with rfl | ha
    · exact ⟨_, List.mem_cons_self, hb⟩
    · obtain ⟨b, hmem, hb⟩ := ih ha
      exact ⟨b, List.mem_cons_of_mem _ hmem, hb⟩

/-- A loop whose rounds return returns. -/
lemma Cpp.exists_mapM {α β : Type} {f : α → Cpp β} {l : List α} (h : ∀ a ∈ l, ∃ b, f a = pure b) :
    ∃ out, l.mapM f = pure out := by
  induction l with
  | nil => exact ⟨[], rfl⟩
  | cons a l ih =>
    obtain ⟨b, hb⟩ := h a List.mem_cons_self
    obtain ⟨out, hout⟩ := ih fun c hc => h c (List.mem_cons_of_mem a hc)
    exact ⟨b :: out, by rw [List.mapM_cons, hb, pure_bind, hout]; rfl⟩

/-- What every round of a loop keeps holds at its end. -/
lemma Cpp.holds_foldlM {α β : Type} {f : β → α → Cpp β} {P : β → Prop} {l : List α} {b b' : β}
    (hstep : ∀ a ∈ l, ∀ b b', P b → f b a = pure b' → P b') (hb : P b)
    (h : l.foldlM f b = pure b') : P b' := by
  induction l generalizing b with
  | nil =>
    cases h
    exact hb
  | cons a l ih =>
    rw [List.foldlM_cons] at h
    obtain ⟨c, hc, hrest⟩ := Cpp.bind_eq_pure.1 h
    exact ih (fun x hx => hstep x (List.mem_cons_of_mem a hx))
      (hstep a List.mem_cons_self b c hb hc) hrest

/-- A loop whose rounds return, and keep what they need for this, returns. -/
lemma Cpp.exists_foldlM {α β : Type} {f : β → α → Cpp β} {P : β → Prop} {l : List α} {b : β}
    (hstep : ∀ a ∈ l, ∀ b, P b → ∃ b', f b a = pure b' ∧ P b') (hb : P b) :
    ∃ b', l.foldlM f b = pure b' ∧ P b' := by
  induction l generalizing b with
  | nil => exact ⟨b, rfl, hb⟩
  | cons a l ih =>
    obtain ⟨c, hc, hP⟩ := hstep a List.mem_cons_self b hb
    obtain ⟨b', hb', hP'⟩ := ih (fun x hx => hstep x (List.mem_cons_of_mem a hx)) hP
    exact ⟨b', by rw [List.foldlM_cons, hc, pure_bind, hb'], hP'⟩

/-- Two loops with the same results do the same on each element. -/
lemma Cpp.apply_eq_of_mapM {α β : Type} {f f' : α → Cpp β} {l : List α} {out : List β}
    (h : l.mapM f = pure out) (h' : l.mapM f' = pure out) : ∀ a ∈ l, f a = f' a := by
  have hforall := Cpp.mapM_eq_pure.1 h
  have hforall' := Cpp.mapM_eq_pure.1 h'
  clear h h'
  induction hforall with
  | nil => exact fun a ha => absurd ha List.not_mem_nil
  | cons hb _ ih =>
    cases hforall' with
    | cons hb' hrest =>
      intro a ha
      rcases List.mem_cons.1 ha with rfl | ha
      · rw [hb, hb']
      · exact ih hrest a ha

/-- Loops over two lists whose rounds do the same. -/
lemma Cpp.mapM_eq_of_forall₂ {α β γ : Type} {f : α → Cpp γ} {f' : β → Cpp γ} {l : List α}
    {l' : List β} (h : List.Forall₂ (fun a b => f a = f' b) l l') : l.mapM f = l'.mapM f' := by
  induction h with
  | nil => rfl
  | cons hab _ ih => rw [List.mapM_cons, List.mapM_cons, hab, ih]

/-- Mapping two functions that agree on the list. -/
lemma Cpp.mapM_congr {α β : Type} {f f' : α → Cpp β} {l : List α} (h : ∀ a ∈ l, f a = f' a) :
    l.mapM f = l.mapM f' :=
  Cpp.mapM_eq_of_forall₂ (List.forall₂_same.2 h)

/-- The computation returns `a`. -/
abbrev Cpp.Returns {α : Type} (x : Cpp α) (a : α) : Prop := x = pure a

/-- What the computation returns, if it does. -/
def Cpp.result {α : Type} : Cpp α → Option α
  | some (.ok a) => some a
  | _ => none

section Result

variable {α β : Type} {x : Cpp α}

/-- A computation has a result if it returns it. -/
lemma Cpp.result_eq_some {a : α} : x.result = some a ↔ x = pure a := by
  constructor
  · intro h
    match x with
    | none => cases h
    | some (.error e) => cases h
    | some (.ok b) =>
      cases h
      rfl
  · rintro rfl
    rfl

/-- Returning a result has it. -/
@[simp] lemma Cpp.result_pure (a : α) : Cpp.result (pure a) = some a := rfl

/-- An exception has no result. -/
@[simp] lemma Cpp.result_throw (e : Exception) : Cpp.result (throw e : Cpp α) = none := rfl

/-- Undefined behaviour has no result. -/
@[simp] lemma Cpp.result_undefined : Cpp.result (Cpp.undefined : Cpp α) = none := rfl

/-- The result of a sequence is the one of its second part on the result of the first. -/
@[simp] lemma Cpp.result_bind (x : Cpp α) (f : α → Cpp β) :
    Cpp.result (x >>= f) = x.result.bind fun a => (f a).result := by
  match x with
  | none => rfl
  | some (.error e) => rfl
  | some (.ok a) => rfl

end Result

end OneBase
