import RiscosBuilder.Vchiq.MasterStream

/-!
# Draining

What a turn of the draining loop does to a stream that is ready, and what every
step of the device keeps that queueing a message keeps.
-/

namespace RiscosBuilder.Vchiq

open RiscosBuilder.Library

/-- Where the next message of the guest's stream is read. -/
def rxHeader (s : MboxVchiqState) : UInt32 :=
  s.slotZero + vchiqLdl s (s.slave + SS_SLOT_QUEUE +
    4 * ((s.rxPos / s.slotSize) &&& (s.maxSlotsPerSide - 1))) * s.slotSize +
      s.rxPos % s.slotSize

/-- The CLOSE that answers an OPEN. -/
def refusal (msgid : UInt32) : UInt32 :=
  makeMsg VCHIQ_MSG_CLOSE 0 (msgSrcport msgid)

/-- The next message is consumed. -/
def consume (s : MboxVchiqState) (size : UInt32) : MboxVchiqState :=
  { s with rxPos := s.rxPos + vchiqStride size }

/-- A turn consumes a message, unless it is an OPEN that cannot be answered. -/
theorem drainTurn_eq {a : Area} {s : MboxVchiqState} (ready : Ready a s)
    (slaveTx : UInt32) (replied : Bool) :
    drainTurn slaveTx (s, replied) =
      if s.rxPos = slaveTx then none
      else if msgType (vchiqLdl s (rxHeader s)) = VCHIQ_MSG_OPEN then
        if s.sent.length = 512 * (a.spare + 1) then none
        else some (consume (queued s (refusal (vchiqLdl s (rxHeader s))))
          (vchiqLdl s (rxHeader s + 4)), true)
      else some (consume s (vchiqLdl s (rxHeader s + 4)), replied) := by
  have hqueue := ready.queueMessage_zero (refusal (vchiqLdl s (rxHeader s)))
  unfold refusal rxHeader at hqueue
  by_cases full : s.sent.length = 512 * (a.spare + 1)
  · rw [if_pos full] at hqueue
    simp only [drainTurn, rxHeader, hqueue, if_pos full, consume]
  · rw [if_neg full] at hqueue
    simp only [drainTurn, rxHeader, refusal, hqueue, if_neg full, consume]

/-- A property of the device that the steps that leave the stream alone keep,
and queueing a message as well. -/
structure Stable (a : Area) (P : MboxVchiqState → Prop) : Prop where
  quiet : ∀ {s next}, Ready a s → Quiet a s next → P s → P next
  queued : ∀ {s}, Ready a s → s.sent.length ≠ 512 * (a.spare + 1) →
    ∀ msgid, P s → P (queued s msgid)

theorem Handed.consume {a : Area} {s : MboxVchiqState} (handed : Handed a s)
    (size : UInt32) : Quiet a s (consume s size) where
  handed := handed.of_settled rfl
  sent := rfl
  txPos := rfl
  memory := Memory.SameOn.refl _

/-- The master's fields that are stored into, besides its position. -/
theorem Handed.quiet_master {a : Area} {s : MboxVchiqState}
    (handed : Handed a s) {offset : UInt32} (low : offset.toNat ≤ 24)
    (val : UInt32) : Quiet a s (vchiqStl s .field (s.master + offset) val) := by
  obtain ⟨hlast, -, hqueue, hdata, -⟩ := a.bounds
  apply handed.quiet_stl
  intro i held
  rw [handed.master, a.toNat_master (by omega)]
  unfold Area.Held at held
  omega

/-- The bell is rung by a store into the slave's half. -/
theorem Handed.quiet_ring {a : Area} {s : MboxVchiqState} (handed : Handed a s) :
    Quiet a s (ringArmDoorbell s) := by
  obtain ⟨hlast, hspan, hqueue, hdata, -⟩ := a.bounds
  have hquiet : Quiet a s
      (vchiqStl s .field (s.slave + SS_TRIGGER_FIRED) 1) := by
    apply handed.quiet_stl
    intro i held
    rw [handed.slave, a.toNat_slave]
    · simp only [SS_TRIGGER_FIRED, UInt32.reduceToNat]
      unfold Area.Held at held
      omega
    · simp only [SS_TRIGGER_FIRED, UInt32.reduceToNat]
      omega
  exact ⟨hquiet.handed.of_settled rfl, hquiet.sent, hquiet.txPos,
    hquiet.memory⟩

namespace Stable

variable {a : Area} {P : MboxVchiqState → Prop}

theorem drainTurn (stable : Stable a P) {s next : MboxVchiqState}
    {slaveTx : UInt32} {replied flag : Bool} (ready : Ready a s) (holds : P s)
    (turn : drainTurn slaveTx (s, replied) = some (next, flag)) :
    Ready a next ∧ P next := by
  rw [drainTurn_eq ready] at turn
  split at turn
  · exact absurd turn.symm (Option.some_ne_none _)
  · split at turn
    · split at turn
      · exact absurd turn.symm (Option.some_ne_none _)
      · next room =>
          simp only [Option.some.injEq, Prod.mk.injEq] at turn
          have hready := (ready.queued room
            (refusal (vchiqLdl s (rxHeader s)))).toReady
          have hquiet := hready.handed.consume (vchiqLdl s (rxHeader s + 4))
          rw [← turn.1]
          exact ⟨hquiet.ready hready,
            stable.quiet hready hquiet (stable.queued ready room _ holds)⟩
    · simp only [Option.some.injEq, Prod.mk.injEq] at turn
      have hquiet := ready.handed.consume (vchiqLdl s (rxHeader s + 4))
      rw [← turn.1]
      exact ⟨hquiet.ready ready, stable.quiet ready hquiet holds⟩

theorem drain (stable : Stable a P) {s : MboxVchiqState} (ready : Ready a s)
    (holds : P s) : Ready a (drain s) ∧ P (drain s) := by
  have hfired := ready.handed.quiet_master
    (show SS_TRIGGER_FIRED.toNat ≤ 24 by decide) 0
  rw [Vchiq.drain, if_pos ready.handed.active]
  dsimp only
  generalize hstart : vchiqStl s .field (s.master + SS_TRIGGER_FIRED) 0 = start
  rw [hstart] at hfired
  have hstart : Ready a start ∧ P start :=
    ⟨hfired.ready ready, stable.quiet ready hfired holds⟩
  obtain ⟨hready, hholds⟩ := Loop.turns_invariant
    (P := fun state : MboxVchiqState × Bool => Ready a state.1 ∧ P state.1)
    (fun _ _ held (turn : Vchiq.drainTurn
      (vchiqLdl start (start.slave + SS_TX_POS)) _ = _) =>
        stable.drainTurn held.1 held.2 turn)
    (show Ready a (start, false).1 ∧ P (start, false).1 from hstart) 256
  split
  · next last heq =>
      rw [heq] at hready hholds
      exact ⟨hready.handed.quiet_ring.ready hready,
        stable.quiet hready hready.handed.quiet_ring hholds⟩
  · next last heq =>
      rw [heq] at hready hholds
      exact ⟨hready, hholds⟩

end Stable

end RiscosBuilder.Vchiq
