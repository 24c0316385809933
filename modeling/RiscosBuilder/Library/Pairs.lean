import Mathlib.Algebra.Ring.Nat
import Mathlib.Data.List.Basic

/-!
# Pairs of a symbol

How many pairs of one symbol, side by side, can be taken off a list: half of
each run of it, rounded down.
-/

namespace RiscosBuilder.Library

variable {α : Type} [DecidableEq α] {mark : α}

/-- The pairs of `mark` in a list, no two of which overlap. -/
def pairs (mark : α) : List α → Nat
  | first :: second :: rest =>
      if first = mark ∧ second = mark then pairs mark rest + 1
      else pairs mark (second :: rest)
  | _ => 0

@[simp] theorem pairs_nil : pairs mark [] = 0 :=
  rfl

theorem pairs_pair (rest : List α) :
    pairs mark (mark :: mark :: rest) = pairs mark rest + 1 := by
  rw [pairs, if_pos ⟨rfl, rfl⟩]

theorem pairs_other {first : α} (other : first ≠ mark) (rest : List α) :
    pairs mark (first :: rest) = pairs mark rest := by
  cases rest with
  | nil => rfl
  | cons second rest => rw [pairs, if_neg fun same => other same.1]

/-- One more mark in front makes one more pair at most. -/
theorem pairs_mark_cons (rest : List α) :
    pairs mark rest ≤ pairs mark (mark :: rest) ∧
      pairs mark (mark :: rest) ≤ pairs mark rest + 1 := by
  induction rest with
  | nil => exact ⟨le_rfl, Nat.zero_le 1⟩
  | cons first rest ih =>
      by_cases same : first = mark
      · subst same
        rw [pairs_pair]
        omega
      · have hcons : pairs mark (mark :: first :: rest) =
            pairs mark (first :: rest) := by
          rw [pairs, if_neg fun both => same both.2]
        rw [hcons]
        omega

theorem pairs_le_cons (first : α) (rest : List α) :
    pairs mark rest ≤ pairs mark (first :: rest) := by
  by_cases same : first = mark
  · subst same
    exact (pairs_mark_cons rest).1
  · rw [pairs_other same]

theorem pairs_le_of_suffix {rest whole : List α} (suffix : rest <:+ whole) :
    pairs mark rest ≤ pairs mark whole := by
  obtain ⟨front, rfl⟩ := suffix
  induction front with
  | nil => exact le_rfl
  | cons first front ih => exact Nat.le_trans ih (pairs_le_cons first _)

/-- Cutting a list in two takes no pair more than it has. -/
theorem pairs_append_le (front back : List α) :
    pairs mark front + pairs mark back ≤ pairs mark (front ++ back) := by
  induction front using pairs.induct mark with
  | case1 first second rest both ih =>
      obtain ⟨rfl, rfl⟩ := both
      rw [List.cons_append, List.cons_append, pairs_pair, pairs_pair]
      omega
  | case2 first second rest other ih =>
      rw [List.cons_append, List.cons_append, pairs, if_neg other, pairs,
        if_neg other]
      exact ih
  | case3 front short =>
      match front with
      | [] => simp
      | [first] =>
          rw [show pairs mark [first] = 0 from rfl, Nat.zero_add]
          exact pairs_le_cons first back
      | first :: second :: rest => exact absurd rfl (short first second rest)

end RiscosBuilder.Library
