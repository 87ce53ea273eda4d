import Mathlib.Data.List.Forall2
import Mathlib.Order.Defs.Unbundled

set_option relaxedAutoImplicit false
set_option autoImplicit false

/-!
# Lexicographic orders with directions

Lists compared element by element, each position upwards or downwards.

## Main definitions

* `OneBase.LexOrder.Precedes` — the order of lists, given one of their elements and a direction
  for each position.

## Main results

* `OneBase.LexOrder.precedes_irrefl`, `precedes_trans`, `precedes_trichotomous` — it is a strict
  order in which lists of pairwise comparable elements are comparable.
-/

namespace OneBase.LexOrder

section Orders

variable {α : Type} {lt : α → α → Prop} {directions : List Bool} {as bs cs : List α} {a b c : α}
  {ascending : Bool}

/-- The order of two elements, upwards or downwards. -/
def Before (lt : α → α → Prop) (ascending : Bool) (a b : α) : Prop :=
  if ascending then lt a b else lt b a

/-- The first position at which the lists differ decides, in its direction. -/
def Precedes (lt : α → α → Prop) : List Bool → List α → List α → Prop
  | ascending :: directions, a :: as, b :: bs =>
    Before lt ascending a b ∨ (a = b ∧ Precedes lt directions as bs)
  | _, _, _ => False

/-- If no key is less than itself, none comes before itself, in either direction. -/
lemma before_irrefl (h : ∀ a, ¬ lt a a) : ¬ Before lt ascending a a := by
  cases ascending <;> simpa [Before] using h a

/-- The order of a key is transitive, in either direction. -/
lemma before_trans (h : ∀ a b c, lt a b → lt b c → lt a c) (hab : Before lt ascending a b)
    (hbc : Before lt ascending b c) : Before lt ascending a c := by
  cases ascending with
  | true => exact h a b c hab hbc
  | false => exact h c b a hbc hab

/-- Two keys are equal, or one comes before the other, in either direction. -/
lemma before_trichotomous (h : lt a b ∨ a = b ∨ lt b a) :
    Before lt ascending a b ∨ a = b ∨ Before lt ascending b a := by
  cases ascending with
  | true => exact h
  | false =>
    rcases h with h | h | h
    · exact .inr (.inr h)
    · exact .inr (.inl h)
    · exact .inl h

/-- No list precedes itself. -/
lemma precedes_irrefl (h : ∀ a, ¬ lt a a) : ¬ Precedes lt directions as as := by
  induction directions generalizing as with
  | nil => exact id
  | cons ascending directions ih =>
    cases as with
    | nil => exact id
    | cons a as =>
      rintro (hbefore | ⟨-, hrest⟩)
      · exact before_irrefl h hbefore
      · exact ih hrest

/-- Preceding is transitive. -/
lemma precedes_trans (h : ∀ a b c, lt a b → lt b c → lt a c) (hab : Precedes lt directions as bs)
    (hbc : Precedes lt directions bs cs) : Precedes lt directions as cs := by
  induction directions generalizing as bs cs with
  | nil => exact hab.elim
  | cons ascending directions ih =>
    match as, bs, cs with
    | a :: as, b :: bs, c :: cs =>
      rcases hab with hab | ⟨rfl, hab⟩
      · rcases hbc with hbc | ⟨rfl, -⟩
        · exact .inl (before_trans h hab hbc)
        · exact .inl hab
      · rcases hbc with hbc | ⟨rfl, hbc⟩
        · exact .inl hbc
        · exact .inr ⟨rfl, ih hab hbc⟩
    | [], _, _ => exact hab.elim
    | _ :: _, [], _ => exact hab.elim
    | _ :: _, _ :: _, [] => exact hbc.elim

/-- Of two lists whose elements are comparable position by position, one precedes the other or
they are equal. -/
lemma precedes_trichotomous (hlen : directions.length = as.length)
    (h : List.Forall₂ (fun a b => lt a b ∨ a = b ∨ lt b a) as bs) :
    Precedes lt directions as bs ∨ as = bs ∨ Precedes lt directions bs as := by
  induction h generalizing directions with
  | nil => exact .inr (.inl rfl)
  | @cons a b as bs hab _ ih =>
    obtain ⟨ascending, directions, rfl⟩ := List.exists_cons_of_length_eq_add_one hlen
    have hfirst : Before lt ascending a b ∨ a = b ∨ Before lt ascending b a :=
      before_trichotomous hab
    rcases hfirst with hab | rfl | hba
    · exact .inl (.inl hab)
    · rcases ih (Nat.succ.inj hlen) with hrest | rfl | hrest
      · exact .inl (.inr ⟨rfl, hrest⟩)
      · exact .inr (.inl rfl)
      · exact .inr (.inr (.inr ⟨rfl, hrest⟩))
    · exact .inr (.inr (.inl hba))

end Orders

end OneBase.LexOrder
