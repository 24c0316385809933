import RiscosBuilder.Library.Word
import RiscosBuilder.Vchiq.Device

/-!
# Queueing a message

`vchiq_queue_message` for the messages without data that the device queues, in
a stream whose position is a multiple of their stride.
-/

namespace RiscosBuilder.Vchiq

open RiscosBuilder.Library

/-- Where the header of the next message goes. -/
def nextHeader (s : MboxVchiqState) : UInt32 :=
  s.slotZero + vchiqLdl s (s.master + SS_SLOT_QUEUE +
    4 * ((s.txPos / s.slotSize) &&& (s.maxSlotsPerSide - 1))) * s.slotSize +
      s.txPos % s.slotSize

/-- The state behind a message without data. -/
def queued (s : MboxVchiqState) (msgid : UInt32) : MboxVchiqState :=
  { s with
    txPos := s.txPos + 8
    memory := ((s.memory.stl (nextHeader s).toNat msgid).stl
      (nextHeader s + 4).toNat 0).stl (s.master + SS_TX_POS).toNat
        (s.txPos + 8)
    stores := s.stores ++ [⟨.message, nextHeader s, msgid⟩,
      ⟨.message, nextHeader s + 4, 0⟩,
      ⟨.field, s.master + SS_TX_POS, s.txPos + 8⟩]
    sent := s.sent ++ [⟨nextHeader s, msgid, 0⟩] }

/-- There is no slot left for the next message. -/
def OutOfSlots (s : MboxVchiqState) : Prop :=
  s.slotFirst + s.txPos / s.slotSize > s.slotLast

instance (s : MboxVchiqState) : Decidable (OutOfSlots s) :=
  inferInstanceAs (Decidable (_ > _))

theorem vchiqStride_zero : vchiqStride 0 = 8 := by decide

/-- A message is queued unless the slots are used up. -/
theorem queueMessage_eq {s : MboxVchiqState}
    (slotSize : s.slotSize = VCHIQ_SLOT_SIZE)
    (aligned : s.txPos.toNat % 8 = 0) (msgid : UInt32) :
    queueMessage s msgid 0 =
      if OutOfSlots s then (false, s) else (true, queued s msgid) := by
  have hroom : ¬ s.txPos % s.slotSize + 8 > s.slotSize := by
    rw [slotSize, VCHIQ_SLOT_SIZE, gt_iff_lt, UInt32.lt_iff_toNat_lt,
      UInt32.toNat_add, UInt32.toNat_mod]
    simp only [UInt32.reduceToNat]
    omega
  by_cases full : OutOfSlots s
  · rw [if_pos full]
    unfold OutOfSlots at full
    simp only [queueMessage, vchiqStride_zero, if_neg hroom, if_pos full]
  · rw [if_neg full]
    unfold OutOfSlots at full
    simp only [queueMessage, vchiqStride_zero, if_neg hroom, if_neg full]
    simp [queued, nextHeader, vchiqStl]

end RiscosBuilder.Vchiq
