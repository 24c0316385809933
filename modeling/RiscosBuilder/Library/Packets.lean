/-!
# Taking symbols off a list of packets

A stream comes in packets.  A reader that has taken so many symbols off it has
what is left of the last packet it needed, and the packets behind that one.
-/

namespace RiscosBuilder.Library.Packets

variable {α : Type}

/-- The packets once the first `size` symbols are gone; an empty rest is kept. -/
def advance : List (List α) → Nat → List (List α)
  | [], _ => []
  | packet :: later, size =>
      if size ≤ packet.length then packet.drop size :: later
      else advance later (size - packet.length)

/-- What the packet that completes the first `size` symbols holds behind them. -/
def behind (packets : List (List α)) (size : Nat) : List α :=
  (advance packets size).headD []

theorem advance_of_le {packet : List α} {later : List (List α)} {size : Nat}
    (within : size ≤ packet.length) :
    advance (packet :: later) size = packet.drop size :: later := by
  rw [advance, if_pos within]

theorem advance_of_lt {packet : List α} {later : List (List α)} {size : Nat}
    (beyond : packet.length < size) :
    advance (packet :: later) size = advance later (size - packet.length) := by
  rw [advance, if_neg (Nat.not_le.mpr beyond)]

/-- A packet that does not hold enough may come together with the next. -/
theorem advance_merge {first second : List α} {later : List (List α)}
    {size : Nat} (beyond : first.length < size) :
    advance (first :: second :: later) size =
      advance ((first ++ second) :: later) size := by
  rw [advance_of_lt beyond]
  by_cases within : size - first.length ≤ second.length
  · have hfirst : first.drop size = [] := List.drop_of_length_le (by omega)
    rw [advance_of_le within, advance_of_le (by simp; omega),
      List.drop_append, hfirst, List.nil_append]
  · rw [advance_of_lt (by omega), advance_of_lt (by simp; omega)]
    congr 1
    simp only [List.length_append]
    omega

/-- Symbols can be taken off in two goes. -/
theorem advance_advance {packets : List (List α)} {first : Nat}
    (second : Nat) (more : 0 < second) :
    advance (advance packets first) second = advance packets (first + second) := by
  induction packets generalizing first with
  | nil => rfl
  | cons packet later ih =>
      by_cases within : first ≤ packet.length
      · rw [advance_of_le within]
        by_cases inside : first + second ≤ packet.length
        · rw [advance_of_le (by simp; omega), advance_of_le inside,
            List.drop_drop]
        · rw [advance_of_lt (by simp; omega), advance_of_lt (by omega)]
          congr 1
          simp only [List.length_drop]
          omega
      · rw [advance_of_lt (by omega), advance_of_lt (by omega), ih]
        congr 1
        omega

theorem flatten_advance (packets : List (List α)) (size : Nat) :
    (advance packets size).flatten = packets.flatten.drop size := by
  induction packets generalizing size with
  | nil => simp [advance]
  | cons packet later ih =>
      rw [List.flatten_cons, List.drop_append]
      by_cases within : size ≤ packet.length
      · rw [advance_of_le within, Nat.sub_eq_zero_of_le within,
          List.drop_zero, List.flatten_cons]
      · have hpacket : packet.drop size = [] :=
          List.drop_of_length_le (by omega)
        rw [advance_of_lt (by omega), ih, hpacket, List.nil_append]

end RiscosBuilder.Library.Packets
