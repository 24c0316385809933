import Mathlib.Algebra.Ring.Nat
import Mathlib.Data.List.Induction

/-!
# Transfers

A stream of packets in which every short packet ends a transfer: one whose
length is no multiple of the packet size, or zero.
-/

namespace RiscosBuilder.Library.Transfer

variable {α : Type}

/-- A packet that ends a transfer. -/
def Short (size : Nat) (packet : List α) : Prop :=
  packet.length % size ≠ 0 ∨ packet.length = 0

instance (size : Nat) (packet : List α) : Decidable (Short size packet) :=
  inferInstanceAs (Decidable (_ ∨ _))

/-- What is cut from the front of some data is short only if it is all of it. -/
theorem short_take_iff {size count : Nat} (data : List α) (positive : 0 < count)
    (multiple : count % size = 0) :
    Short size (data.take count) ↔
      data.length ≤ count ∧ (data.length % size ≠ 0 ∨ data = []) := by
  rw [Short, List.length_take, ← List.length_eq_zero_iff]
  by_cases whole : data.length ≤ count
  · rw [Nat.min_eq_right whole]
    exact ⟨fun short => ⟨whole, short⟩, And.right⟩
  · rw [Nat.min_eq_left (by omega), multiple]
    constructor
    · rintro (uneven | empty)
      · exact absurd rfl uneven
      · omega
    · exact fun hle => absurd hle.1 whole

/-- One more packet: the transfers read so far, and the part of the next. -/
def collectPacket (size : Nat) (read : List (List α) × List α)
    (packet : List α) : List (List α) × List α :=
  if Short size packet then (read.1 ++ [read.2 ++ packet], [])
  else (read.1, read.2 ++ packet)

/-- The transfers that a reader makes of the packets, and what is left open. -/
def collect (size : Nat) (packets : List (List α)) : List (List α) × List α :=
  packets.foldl (collectPacket size) ([], [])

@[simp] theorem collect_nil (size : Nat) :
    collect size ([] : List (List α)) = ([], []) :=
  rfl

theorem collect_concat (size : Nat) (packets : List (List α))
    (packet : List α) :
    collect size (packets ++ [packet]) =
      collectPacket size (collect size packets) packet := by
  rw [collect, List.foldl_append]
  rfl

/-- No byte of a packet is lost, and none is read twice. -/
theorem collect_flatten (size : Nat) (packets : List (List α)) :
    (collect size packets).1.flatten ++ (collect size packets).2 =
      packets.flatten := by
  induction packets using List.reverseRecOn with
  | nil => rfl
  | append_singleton packets packet ih =>
      rw [collect_concat, collectPacket, List.flatten_concat, ← ih]
      split <;> simp

/-- What is left open came in packets that were full. -/
theorem collect_open (size : Nat) (packets : List (List α)) :
    (collect size packets).2.length % size = 0 := by
  induction packets using List.reverseRecOn with
  | nil => exact Nat.zero_mod size
  | append_singleton packets packet ih =>
      rw [collect_concat, collectPacket]
      by_cases short : Short size packet
      · rw [if_pos short]
        exact Nat.zero_mod size
      · rw [if_neg short]
        rw [Short, not_or, not_not] at short
        rw [List.length_append, Nat.add_mod, ih, short.1]
        exact Nat.zero_mod size

end RiscosBuilder.Library.Transfer
