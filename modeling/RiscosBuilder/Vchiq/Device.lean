import RiscosBuilder.Library.Loop
import RiscosBuilder.Library.Memory
import Mathlib.Tactic.Simps.Basic

/-!
# The VCHIQ device

The VideoCore's end of VCHIQ that `files/qemu-riscos-raspi.patch` adds: the
handover of a slot zero area, the master's message stream, and the draining of
the guest's.  `uint32_t` is `UInt32`.  The state also keeps the stores that the
device makes and the messages it traces since the handover, the latest last.
-/

namespace RiscosBuilder.Vchiq

open RiscosBuilder.Library

def VCHIQ_MAGIC : UInt32 := 0x56434849
def VCHIQ_SLOT_SIZE : UInt32 := 4096

def VCHIQ_MSG_CONNECT : UInt32 := 1
def VCHIQ_MSG_OPEN : UInt32 := 2
def VCHIQ_MSG_CLOSE : UInt32 := 4

def SZ_MAGIC : UInt32 := 0
def SZ_SLOT_ZERO_SIZE : UInt32 := 8
def SZ_SLOT_SIZE : UInt32 := 12
def SZ_MAX_SLOTS : UInt32 := 16
def SZ_MAX_SLOTS_PER_SIDE : UInt32 := 20
def SZ_HEADER_SIZE : UInt32 := 32

def SS_INITIALISED : UInt32 := 0
def SS_SLOT_FIRST : UInt32 := 4
def SS_SLOT_LAST : UInt32 := 8
def SS_TRIGGER_ARMED : UInt32 := 16
def SS_TRIGGER_FIRED : UInt32 := 20
def SS_TX_POS : UInt32 := 28
def SS_RECYCLE_ARMED : UInt32 := 32
def SS_SLOT_QUEUE : UInt32 := 72

def SLOT_INFO_SIZE : UInt32 := 4

def DBELL_VC_TO_ARM : Nat := 0x00
def DBELL_ARM_TO_VC : Nat := 0x08
def DBELL_HAVE_MESSAGES : UInt32 := 0x4

/-- `VCHIQ_MSG_TYPE`. -/
def msgType (msgid : UInt32) : UInt32 :=
  msgid >>> 24

/-- `VCHIQ_MSG_SRCPORT`. -/
def msgSrcport (msgid : UInt32) : UInt32 :=
  (msgid >>> 12) &&& 0xfff

/-- `VCHIQ_MAKE_MSG`. -/
def makeMsg (type srcport dstport : UInt32) : UInt32 :=
  (type <<< 24) ||| (srcport <<< 12) ||| dstport

/-- What a store is for: a slot queue entry, another field, or a message. -/
inductive Site where
  | slotQueue
  | field
  | message
  deriving DecidableEq, Repr

/-- A store of 32 bits into guest memory. -/
structure Store where
  site : Site
  addr : UInt32
  val : UInt32
  deriving DecidableEq, Repr

/-- A message as `trace_bcm2835_vchiq_tx` is told of it. -/
structure Message where
  header : UInt32
  msgid : UInt32
  size : UInt32
  deriving DecidableEq, Repr

/-- `BCM2835MboxVchiqState`, with the guest memory that `dma_as` reaches. -/
structure MboxVchiqState where
  active : Bool
  slotZero : UInt32
  master : UInt32
  slave : UInt32
  slotSize : UInt32
  maxSlotsPerSide : UInt32
  slotFirst : UInt32
  slotLast : UInt32
  txPos : UInt32
  rxPos : UInt32
  doorbell0 : UInt32
  irq : Bool
  memory : Memory
  stores : List Store
  sent : List Message

/-- `vchiq_ldl`. -/
def vchiqLdl (s : MboxVchiqState) (addr : UInt32) : UInt32 :=
  s.memory.ldl addr.toNat

/-- `vchiq_stl`. -/
@[simps]
def vchiqStl (s : MboxVchiqState) (site : Site) (addr val : UInt32) :
    MboxVchiqState :=
  { s with
    memory := s.memory.stl addr.toNat val
    stores := s.stores ++ [⟨site, addr, val⟩] }

/-- `vchiq_stride`. -/
def vchiqStride (size : UInt32) : UInt32 :=
  (size + 8 + 7) &&& ~~~7

/-- `vchiq_ring_arm_doorbell`. -/
def ringArmDoorbell (s : MboxVchiqState) : MboxVchiqState :=
  let s := vchiqStl s .field (s.slave + SS_TRIGGER_FIRED) 1
  { s with doorbell0 := s.doorbell0 ||| DBELL_HAVE_MESSAGES, irq := true }

/-- `vchiq_queue_message`. -/
def queueMessage (s : MboxVchiqState) (msgid size : UInt32) :
    Bool × MboxVchiqState :=
  let stride := vchiqStride size
  let streamSlot := s.txPos / s.slotSize
  let offset := s.txPos % s.slotSize
  if offset + stride > s.slotSize then (false, s)
  else if s.slotFirst + streamSlot > s.slotLast then (false, s)
  else
    let index := streamSlot &&& (s.maxSlotsPerSide - 1)
    let slot := vchiqLdl s (s.master + SS_SLOT_QUEUE + 4 * index)
    let header := s.slotZero + slot * s.slotSize + offset
    let s := vchiqStl s .message header msgid
    let s := vchiqStl s .message (header + 4) size
    let s := { s with txPos := s.txPos + stride }
    let s := vchiqStl s .field (s.master + SS_TX_POS) s.txPos
    (true, { s with sent := s.sent ++ [⟨header, msgid, size⟩] })

/--
`vchiq_handover` up to the filling of the slot queue: whether the area is
accepted, and the state, which a refused slot range has changed as well.
-/
def takeArea (s : MboxVchiqState) (base : UInt32) : Bool × MboxVchiqState :=
  if s.active then (false, s)
  else if vchiqLdl s (base + SZ_MAGIC) ≠ VCHIQ_MAGIC then (false, s)
  else
    let zeroSize := vchiqLdl s (base + SZ_SLOT_ZERO_SIZE)
    let slotSize := vchiqLdl s (base + SZ_SLOT_SIZE)
    let maxSlots := vchiqLdl s (base + SZ_MAX_SLOTS)
    let perSide := vchiqLdl s (base + SZ_MAX_SLOTS_PER_SIDE)
    if slotSize ≠ VCHIQ_SLOT_SIZE ∨ perSide = 0 ∨ perSide > maxSlots ∨
        zeroSize < SZ_HEADER_SIZE + SLOT_INFO_SIZE * maxSlots then (false, s)
    else
      let sharedSize := zeroSize - SZ_HEADER_SIZE - SLOT_INFO_SIZE * maxSlots
      if sharedSize &&& 1 ≠ 0 then (false, s)
      else
        let sharedSize := sharedSize / 2
        if sharedSize < SS_SLOT_QUEUE + 4 * perSide then (false, s)
        else
          let master := base + SZ_HEADER_SIZE
          let s :=
            { s with
              slotZero := base
              slotSize := slotSize
              maxSlotsPerSide := perSide
              master := master
              slave := master + sharedSize
              slotFirst := vchiqLdl s (master + SS_SLOT_FIRST)
              slotLast := vchiqLdl s (master + SS_SLOT_LAST) }
          if s.slotLast < s.slotFirst ∨
              s.slotLast - s.slotFirst ≥ perSide then (false, s)
          else (true, s)

/-- One turn of the loop that fills the master's slot queue. -/
def fillTurn : MboxVchiqState × UInt32 → Option (MboxVchiqState × UInt32)
  | (s, i) =>
      if s.slotFirst + i ≤ s.slotLast then
        some (vchiqStl s .slotQueue (s.master + SS_SLOT_QUEUE + 4 * i)
          (s.slotFirst + i), i + 1)
      else none

/-- `vchiq_handover` behind the filling of the slot queue, up to the CONNECT. -/
def armed (s : MboxVchiqState) : MboxVchiqState :=
  let s := vchiqStl s .field (s.master + SS_TRIGGER_ARMED) 1
  let s := vchiqStl s .field (s.master + SS_RECYCLE_ARMED) 1
  let s := vchiqStl s .field (s.master + SS_INITIALISED) 1
  { s with txPos := 0, rxPos := 0, active := true, sent := [] }

/-- And the CONNECT. -/
def announce (s : MboxVchiqState) : MboxVchiqState :=
  match queueMessage (armed s) (makeMsg VCHIQ_MSG_CONNECT 0 0) 0 with
  | (true, s) => ringArmDoorbell s
  | (false, s) => s

/-- `vchiq_handover`; `none` when filling the queue takes more than `fuel` turns. -/
def handover (fuel : Nat) (s : MboxVchiqState) (base : UInt32) :
    Option MboxVchiqState :=
  match takeArea s base with
  | (false, s) => some s
  | (true, s) =>
      (Loop.run fillTurn fuel (s, 0)).map fun filled => announce filled.1

/-- One turn of the loop in `vchiq_drain`, with the flag `replied`. -/
def drainTurn (slaveTx : UInt32) :
    MboxVchiqState × Bool → Option (MboxVchiqState × Bool)
  | (s, replied) =>
      if s.rxPos = slaveTx then none
      else
        let index := (s.rxPos / s.slotSize) &&& (s.maxSlotsPerSide - 1)
        let slot := vchiqLdl s (s.slave + SS_SLOT_QUEUE + 4 * index)
        let header := s.slotZero + slot * s.slotSize + s.rxPos % s.slotSize
        let msgid := vchiqLdl s header
        let size := vchiqLdl s (header + 4)
        if msgType msgid = VCHIQ_MSG_OPEN then
          match queueMessage s
              (makeMsg VCHIQ_MSG_CLOSE 0 (msgSrcport msgid)) 0 with
          | (false, _) => none
          | (true, s) =>
              some ({ s with rxPos := s.rxPos + vchiqStride size }, true)
        else some ({ s with rxPos := s.rxPos + vchiqStride size }, replied)

/-- `vchiq_drain`; `guard` lets the loop take 256 turns. -/
def drain (s : MboxVchiqState) : MboxVchiqState :=
  if s.active then
    let s := vchiqStl s .field (s.master + SS_TRIGGER_FIRED) 0
    let slaveTx := vchiqLdl s (s.slave + SS_TX_POS)
    match Loop.turns (drainTurn slaveTx) 256 (s, false) with
    | (s, true) => ringArmDoorbell s
    | (s, false) => s
  else s

/-- `bcm2835_vchiq_dbell_read`. -/
def dbellRead (s : MboxVchiqState) (offset : Nat) : UInt32 × MboxVchiqState :=
  if offset = DBELL_VC_TO_ARM then
    (s.doorbell0, { s with doorbell0 := 0, irq := false })
  else (0, s)

/-- `bcm2835_vchiq_dbell_write`. -/
def dbellWrite (s : MboxVchiqState) (offset : Nat) : MboxVchiqState :=
  if offset = DBELL_ARM_TO_VC then drain s else s

/-- `bcm2835_mbox_vchiq_reset`; neither memory nor the interrupt line is touched. -/
def reset (s : MboxVchiqState) : MboxVchiqState :=
  { s with
    active := false
    slotZero := 0
    master := 0
    slave := 0
    slotSize := VCHIQ_SLOT_SIZE
    maxSlotsPerSide := 0
    slotFirst := 0
    slotLast := 0
    txPos := 0
    rxPos := 0
    doorbell0 := 0 }

end RiscosBuilder.Vchiq
