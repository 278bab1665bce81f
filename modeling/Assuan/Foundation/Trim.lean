import Mathlib.Data.List.DropRight
import Mathlib.Tactic.Common

/-!
# Trimming both ends of a list

Trimming removes the longest runs of blanks at the two ends. What is left is the
only part of the list that has blanks around it and none at its own ends, which
is how trimmed text is recognised below: no lemma looks into the two loops.
-/

namespace Assuan

variable {α : Type}

/-- Removes the elements that satisfy `blank` at both ends. -/
def trimBy (blank : α → Bool) (xs : List α) : List α := (xs.dropWhile blank).rdropWhile blank

/-- No blank at either end. -/
structure Bare (blank : α → Bool) (xs : List α) : Prop where
  head : ∀ x ∈ xs.head?, blank x = false
  last : ∀ x ∈ xs.getLast?, blank x = false

variable {blank : α → Bool}

theorem dropWhile_blanks {a xs : List α} (ha : ∀ x ∈ a, blank x = true)
    (hxs : ∀ x ∈ xs.head?, blank x = false) : (a ++ xs).dropWhile blank = xs := by
  induction a with
  | nil =>
      cases xs with
      | nil => rfl
      | cons x xs => simp [hxs x (by simp)]
  | cons b a ih =>
      rw [List.cons_append, List.dropWhile_cons_of_pos (ha b List.mem_cons_self)]
      exact ih fun x hx => ha x (List.mem_cons_of_mem _ hx)

/-- The part between the blanks is what trimming returns. -/
theorem trimBy_unique {a xs b : List α} (ha : ∀ x ∈ a, blank x = true)
    (hb : ∀ x ∈ b, blank x = true) (hxs : Bare blank xs) : trimBy blank (a ++ xs ++ b) = xs := by
  unfold trimBy
  by_cases hne : xs = []
  · subst hne
    have hall : ∀ x ∈ a ++ [] ++ b, blank x = true := by
      intro x hx
      rw [List.append_nil, List.mem_append] at hx
      rcases hx with hx | hx
      · exact ha x hx
      · exact hb x hx
    rw [List.dropWhile_eq_nil_iff.mpr hall, List.rdropWhile_nil]
  · have hfront : (a ++ (xs ++ b)).dropWhile blank = xs ++ b := by
      apply dropWhile_blanks ha
      intro x hx
      rw [List.head?_append_of_ne_nil _ hne] at hx
      exact hxs.head x hx
    have hback : (xs ++ b).reverse.dropWhile blank = xs.reverse := by
      rw [List.reverse_append]
      apply dropWhile_blanks
      · intro x hx
        exact hb x (List.mem_reverse.mp hx)
      · intro x hx
        rw [List.head?_reverse] at hx
        exact hxs.last x hx
    rw [List.append_assoc, hfront, List.rdropWhile, hback, List.reverse_reverse]

/-- Trimming leaves one part, with only blanks around it. -/
theorem trimBy_spec (xs : List α) :
    ∃ a b, xs = a ++ trimBy blank xs ++ b ∧ (∀ x ∈ a, blank x = true) ∧
      (∀ x ∈ b, blank x = true) ∧ Bare blank (trimBy blank xs) := by
  have hfront := @List.takeWhile_append_dropWhile α blank xs
  have hback := @List.rdropWhile_append_rtakeWhile α blank (xs.dropWhile blank)
  refine ⟨xs.takeWhile blank, (xs.dropWhile blank).rtakeWhile blank, ?_, ?_, ?_, ?_, ?_⟩
  · rw [trimBy, List.append_assoc, hback, hfront]
  · exact fun x hx => List.mem_takeWhile_imp hx
  · exact fun x hx => List.mem_rtakeWhile_imp hx
  · intro x hx
    have hpre : trimBy blank xs <+: xs.dropWhile blank := List.rdropWhile_prefix blank _
    obtain ⟨t, ht⟩ := hpre
    have hne : trimBy blank xs ≠ [] := by
      intro h
      rw [h] at hx
      simp at hx
    have hhead : (xs.dropWhile blank).head? = some x := by
      rw [← ht, List.head?_append_of_ne_nil _ hne]
      exact hx
    have hnot := List.head?_dropWhile_not blank xs
    rw [hhead] at hnot
    simpa using hnot
  · intro x hx
    obtain ⟨hne, hlast⟩ := List.mem_getLast?_eq_getLast hx
    have hnot := List.rdropWhile_last_not blank (xs.dropWhile blank) hne
    rw [hlast]
    exact eq_false_of_ne_true hnot

theorem bare_trimBy (xs : List α) : Bare blank (trimBy blank xs) := by
  obtain ⟨a, b, -, -, -, hbare⟩ := @trimBy_spec α blank xs
  exact hbare

theorem trimBy_eq_self {xs : List α} (h : Bare blank xs) : trimBy blank xs = xs := by
  have hsides := @trimBy_unique α blank [] xs [] (by simp) (by simp) h
  rwa [List.nil_append, List.append_nil] at hsides

/-- Trimming is idempotent: only bare lists come out of it. -/
theorem bare_iff {xs : List α} : Bare blank xs ↔ trimBy blank xs = xs := by
  refine ⟨trimBy_eq_self, fun h => ?_⟩
  rw [← h]
  exact bare_trimBy xs

end Assuan
