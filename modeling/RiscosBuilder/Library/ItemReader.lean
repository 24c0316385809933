import Mathlib.Algebra.Ring.Nat
import Mathlib.Data.List.Basic

/-!
# Readers that take whole items off an arbitrarily cut stream

A reader looks at the front of its input and either takes one whole item off
it or reports that the item in front is not complete yet.  Reading on from the
incomplete tail, once more input has arrived, gives the same items as reading
the whole stream at once.  The only property needed is that an item once whole
stays the same item whatever arrives behind it.
-/

namespace RiscosBuilder.Library

/--
A reader of items of type `β` from a stream of symbols of type `α`.  Taking an
item consumes something, and input arriving later never changes an item that
was already whole.
-/
structure ItemReader (α β : Type) where
  next : List α → Option (β × List α)
  shrinks : ∀ {input : List α} {item : β} {rest : List α},
    next input = some (item, rest) → rest.length < input.length
  stable : ∀ {input : List α} {item : β} {rest : List α},
    next input = some (item, rest) →
      ∀ later : List α, next (input ++ later) = some (item, rest ++ later)

namespace ItemReader

variable {α β : Type} (reader : ItemReader α β)

/-- Take at most `fuel` items; the result pairs them with the unread tail. -/
def readUpTo : Nat → List α → List β × List α
  | 0, input => ([], input)
  | fuel + 1, input =>
      match reader.next input with
      | none => ([], input)
      | some (item, rest) =>
          (item :: (readUpTo fuel rest).1, (readUpTo fuel rest).2)

/-- Take items until the one in front is not whole. -/
def readAll (input : List α) : List β × List α :=
  reader.readUpTo input.length input

theorem next_nil : reader.next [] = none := by
  cases hnext : reader.next [] with
  | none => rfl
  | some found =>
      have hlt := @reader.shrinks [] found.1 found.2 hnext
      simp at hlt

/-- More fuel than the input has symbols makes no difference. -/
theorem readUpTo_eq_readAll {fuel : Nat} {input : List α}
    (enough : input.length ≤ fuel) :
    reader.readUpTo fuel input = reader.readAll input := by
  unfold readAll
  induction fuel using Nat.strongRecOn generalizing input with
  | _ fuel ih =>
      cases input with
      | nil => cases fuel <;> simp [readUpTo, reader.next_nil]
      | cons first others =>
          cases fuel with
          | zero => simp at enough
          | succ fuel =>
              simp only [List.length_cons, readUpTo]
              cases hnext : reader.next (first :: others) with
              | none => rfl
              | some found =>
                  obtain ⟨item, rest⟩ := found
                  have hlt := reader.shrinks hnext
                  simp only [List.length_cons] at hlt enough
                  have hleft := @ih fuel (by omega) rest (by omega)
                  have hright := @ih others.length (by omega) rest (by omega)
                  simp only [hleft, hright]

theorem readAll_of_none {input : List α} (hnext : reader.next input = none) :
    reader.readAll input = ([], input) := by
  unfold readAll
  cases input with
  | nil => rfl
  | cons first others => simp [readUpTo, hnext]

theorem readAll_of_some {input : List α} {item : β} {rest : List α}
    (hnext : reader.next input = some (item, rest)) :
    reader.readAll input =
      (item :: (reader.readAll rest).1, (reader.readAll rest).2) := by
  have hlt := reader.shrinks hnext
  have hstep : reader.readAll input =
      reader.readUpTo ((input.length - 1) + 1) input := by
    rw [Nat.sub_add_cancel (by omega)]
    rfl
  rw [hstep]
  simp only [readUpTo, hnext]
  rw [reader.readUpTo_eq_readAll (by omega)]

/-- Induction along the items a reader takes off its input. -/
theorem readAll_induction {motive : List α → Prop}
    (stuck : ∀ input, reader.next input = none → motive input)
    (taken : ∀ input item rest,
      reader.next input = some (item, rest) → motive rest → motive input)
    (input : List α) : motive input := by
  induction hlength : input.length using Nat.strongRecOn
    generalizing input with
  | _ size ih =>
      cases hnext : reader.next input with
      | none => exact stuck input hnext
      | some found =>
          obtain ⟨item, rest⟩ := found
          have hlt := reader.shrinks hnext
          exact taken input item rest hnext
            (ih rest.length (by omega) rest rfl)

/-- The tail left behind starts with an item that is not whole. -/
theorem next_tail (input : List α) :
    reader.next (reader.readAll input).2 = none := by
  induction input using reader.readAll_induction with
  | stuck input hnext =>
      rw [reader.readAll_of_none hnext]
      exact hnext
  | taken input item rest hnext ih =>
      rw [reader.readAll_of_some hnext]
      exact ih

/-- Reading on after more input has arrived resumes at the carried tail. -/
theorem readAll_append (input later : List α) :
    reader.readAll (input ++ later) =
      ((reader.readAll input).1 ++
          (reader.readAll ((reader.readAll input).2 ++ later)).1,
        (reader.readAll ((reader.readAll input).2 ++ later)).2) := by
  induction input using reader.readAll_induction with
  | stuck input hnext => simp [reader.readAll_of_none hnext]
  | taken input item rest hnext ih =>
      rw [reader.readAll_of_some (reader.stable hnext later),
        reader.readAll_of_some hnext, ih]
      simp

end ItemReader

end RiscosBuilder.Library
