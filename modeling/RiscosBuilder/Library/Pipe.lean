import Mathlib.Data.List.Basic

/-!
# Pipes

A stream between two parties: what was put in comes out in order, in packets of
any size, and some of it is still under way.
-/

namespace RiscosBuilder.Library

/-- What has come out of a pipe, and what is in it. -/
structure Pipe (α : Type) where
  arrived : List α
  waiting : List α
  deriving DecidableEq, Repr

namespace Pipe

variable {α : Type}

def empty : Pipe α :=
  ⟨[], []⟩

/-- All that was put in. -/
def sent (pipe : Pipe α) : List α :=
  pipe.arrived ++ pipe.waiting

def put (pipe : Pipe α) (data : List α) : Pipe α :=
  { pipe with waiting := pipe.waiting ++ data }

/-- The packet comes out, if it is what stands at the front. -/
def deliver [DecidableEq α] (pipe : Pipe α) (packet : List α) :
    Option (Pipe α) :=
  if packet.isPrefixOf pipe.waiting then
    some ⟨pipe.arrived ++ packet, pipe.waiting.drop packet.length⟩
  else none

@[simp] theorem empty_sent : (empty : Pipe α).sent = [] :=
  rfl

@[simp] theorem empty_arrived : (empty : Pipe α).arrived = [] :=
  rfl

@[simp] theorem put_arrived (pipe : Pipe α) (data : List α) :
    (pipe.put data).arrived = pipe.arrived :=
  rfl

@[simp] theorem put_waiting (pipe : Pipe α) (data : List α) :
    (pipe.put data).waiting = pipe.waiting ++ data :=
  rfl

@[simp] theorem put_nil (pipe : Pipe α) : pipe.put [] = pipe := by
  simp [put]

@[simp] theorem put_sent (pipe : Pipe α) (data : List α) :
    (pipe.put data).sent = pipe.sent ++ data :=
  (List.append_assoc _ _ _).symm

theorem arrived_prefix (pipe : Pipe α) : pipe.arrived <+: pipe.sent :=
  List.prefix_append _ _

theorem arrived_eq_sent {pipe : Pipe α} (through : pipe.waiting = []) :
    pipe.arrived = pipe.sent := by
  rw [sent, through, List.append_nil]

section Deliver

variable [DecidableEq α] {pipe after : Pipe α} {packet : List α}
  (delivers : pipe.deliver packet = some after)

include delivers

theorem waiting_of_deliver : pipe.waiting = packet ++ after.waiting := by
  rw [deliver, Option.ite_none_right_eq_some, List.isPrefixOf_iff_prefix]
    at delivers
  obtain ⟨⟨later, hwaiting⟩, same⟩ := delivers
  rw [← Option.some.inj same, ← hwaiting, List.drop_left]

theorem arrived_of_deliver : after.arrived = pipe.arrived ++ packet := by
  rw [deliver, Option.ite_none_right_eq_some] at delivers
  rw [← Option.some.inj delivers.2]

/-- What comes out was put in. -/
theorem sent_of_deliver : after.sent = pipe.sent := by
  rw [sent, sent, arrived_of_deliver delivers, waiting_of_deliver delivers,
    List.append_assoc]

end Deliver

/-- What stands at the front can come out. -/
theorem deliver_of_waiting [DecidableEq α] {pipe : Pipe α}
    {packet later : List α} (front : pipe.waiting = packet ++ later) :
    pipe.deliver packet = some ⟨pipe.arrived ++ packet, later⟩ := by
  rw [deliver, front, if_pos (by simp), List.drop_left]

end Pipe

end RiscosBuilder.Library
