import RiscosBuilder.Usb.Smsc95xx

/-!
# SMSC95xx reception

`smsc_receive`, `smsc_bulk_in` and what calls them, of the device that
`files/qemu-riscos-raspi.patch` adds: a frame from the network is stored in
`in_buf`, and handed to the driver in bulk-IN packets.
-/

namespace RiscosBuilder.Usb

open RiscosBuilder.Library RiscosBuilder.Library.ByteImage

def MAC_CR_MCPAS : UInt32 := 0x00080000
def MAC_CR_PRMS : UInt32 := 0x00040000
def MAC_CR_RXEN : UInt32 := 0x00000004
def SMSC_ADDRH : Nat := 0x104
def SMSC_ADDRL : Nat := 0x108

def RX_STS_FL_SHIFT : UInt32 := 16
def RX_STS_FL_MASK : UInt32 := 0x3fff

/-- A `USBPacket`: which one it is, and `iov.size`. -/
structure USBPacket where
  id : Nat
  size : Nat
  deriving DecidableEq, Repr

/-- The `status` that a packet is given. -/
inductive Status where
  | success
  | nak
  | async
  deriving DecidableEq, Repr

/-- The part of `SMSCState` that reception works on. -/
structure RxState where
  /-- `dev.speed` is `USB_SPEED_HIGH`. -/
  highSpeed : Bool
  /-- `dev.config` is set. -/
  config : Bool
  reg : Nat → UInt32
  inBuf : Memory
  inLen : UInt32
  inPtr : UInt32
  inPkt : Option USBPacket
  flushRx : Bool

/-- A packet with the status it ends with and the bytes copied into it. -/
structure Answer where
  packet : USBPacket
  status : Status
  data : List UInt8
  deriving DecidableEq, Repr

/-- `smsc_mps`. -/
def mps (s : RxState) : UInt32 :=
  if s.highSpeed then 512 else 64

/-- `smsc_reset_in`. -/
def resetIn (s : RxState) : RxState :=
  { s with inLen := 0, inPtr := 0, flushRx := true }

/-- What `smsc_bulk_in` does once there is something to send. -/
def copyOut (s : RxState) (p : USBPacket) : RxState × Answer :=
  let len := s.inLen - s.inPtr
  let len := if len.toNat > p.size then UInt32.ofNat p.size else len
  let data := s.inBuf.bytes s.inPtr.toNat len.toNat
  let s := { s with inPtr := s.inPtr + len }
  if s.inPtr ≥ s.inLen ∧ (s.inLen % mps s ≠ 0 ∨ len = 0) then
    (resetIn s, ⟨p, .success, data⟩)
  else (s, ⟨p, .success, data⟩)

/-- `smsc_bulk_in`, on a packet whose status is `USB_RET_SUCCESS`. -/
def bulkIn (s : RxState) (p : USBPacket) : RxState × Answer :=
  let s := if s.inPtr > s.inLen then resetIn s else s
  if s.inLen = 0 then
    if s.inPkt.isSome then (s, ⟨p, .nak, []⟩)
    else ({ s with inPkt := some p }, ⟨p, .async, []⟩)
  else copyOut s p

/-- `smsc_filter_accept`. -/
def filterAccept (s : RxState) (buf : List UInt8) : Bool :=
  let macCr := s.reg (SMSC_MAC_CR / 4)
  if macCr &&& MAC_CR_PRMS ≠ 0 then true
  else if buf.headD 0 &&& 0x01 ≠ 0 then
    if buf.take 6 = List.replicate 6 0xff then true
    else macCr &&& MAC_CR_MCPAS ≠ 0
  else
    buf.take 6 = leBytes 4 (s.reg (SMSC_ADDRL / 4)).toNat ++
      leBytes 2 (s.reg (SMSC_ADDRH / 4) &&& 0xffff).toNat

/-- `smsc_can_receive`. -/
def canReceive (s : RxState) : Bool :=
  s.config && s.reg (SMSC_MAC_CR / 4) &&& MAC_CR_RXEN ≠ 0 && s.inLen = 0

/-- `block`: status word, frame and FCS, padded up to a word boundary. -/
def rxBlockLength (size : Nat) : UInt32 :=
  4 + ((UInt32.ofNat size + 4 + 3) &&& ~~~3)

/-- The block that a frame is stored as. -/
def storeFrame (s : RxState) (buf : List UInt8) : RxState :=
  let size := buf.length
  let block := rxBlockLength size
  let inBuf := s.inBuf.stl 0 ((UInt32.ofNat size + 4) <<< RX_STS_FL_SHIFT)
  let inBuf := inBuf.store 4 buf
  let inBuf := inBuf.store (4 + size)
    (List.replicate (block.toNat - 4 - size) 0)
  { s with inBuf, inLen := block, inPtr := 0 }

/--
`smsc_receive`: the state behind it, what it returns, and the parked packet that
it completes.
-/
def receive (s : RxState) (buf : List UInt8) :
    RxState × Int × Option Answer :=
  if s.config = false ∨ s.reg (SMSC_MAC_CR / 4) &&& MAC_CR_RXEN = 0 then
    (s, -1, none)
  else if buf.length < SMSC_MIN_FRAME.toNat ∨
      SMSC_MAX_FRAME.toNat < buf.length then (s, -1, none)
  else if filterAccept s buf = false then (s, -1, none)
  else if s.inLen ≠ 0 ∨ (rxBlockLength buf.length).toNat > SMSC_BUF_SIZE then
    (s, 0, none)
  else
    let s := storeFrame s buf
    match s.inPkt with
    | some p =>
        let (s, answer) := bulkIn { s with inPkt := none } p
        (s, buf.length, some answer)
    | none => (s, buf.length, none)

/--
`smsc_handle_data` for an IN token on endpoint 1, and whether it ends with a
call of `qemu_flush_queued_packets`.  The calls of `smsc_receive` made there are
the events that come next.
-/
def handleDataIn (s : RxState) (p : USBPacket) : RxState × Answer × Bool :=
  let (s, answer) := bulkIn s p
  if s.flushRx then ({ s with flushRx := false }, answer, true)
  else (s, answer, false)

theorem handleDataIn_eq (s : RxState) (p : USBPacket) :
    handleDataIn s p = ({ (bulkIn s p).1 with flushRx := false },
      (bulkIn s p).2, (bulkIn s p).1.flushRx) := by
  unfold handleDataIn
  obtain ⟨next, answer⟩ := bulkIn s p
  cases next with
  | mk highSpeed config reg inBuf inLen inPtr inPkt flushRx =>
      cases flushRx <;> rfl

/-- `smsc_cancel_packet`. -/
def cancelPacket (s : RxState) (p : USBPacket) : RxState :=
  if s.inPkt = some p then { s with inPkt := none } else s

/-- What happens to the device. -/
inductive RxEvent where
  | receive (frame : List UInt8)
  | bulkIn (packet : USBPacket)
  | cancel (packet : USBPacket)

/-- What is seen of it: a frame whose size is returned, a packet that ends. -/
inductive RxOutput where
  | accepted (frame : List UInt8)
  | answered (answer : Answer)

/-- One event; a packet that is parked has not ended. -/
def rxStep (s : RxState) : RxEvent → RxState × List RxOutput
  | .receive frame =>
      let (next, result, completed) := receive s frame
      (next, (if result = frame.length then [.accepted frame] else []) ++
        completed.toList.map .answered)
  | .bulkIn packet =>
      let (next, answer, _) := handleDataIn s packet
      (next, if answer.status = .async then [] else [.answered answer])
  | .cancel packet => (cancelPacket s packet, [])

/-- The events of a run, one after the other. -/
def rxRun (s : RxState) : List RxEvent → RxState × List RxOutput
  | [] => (s, [])
  | event :: events =>
      let (next, outputs) := rxStep s event
      let (last, later) := rxRun next events
      (last, outputs ++ later)

/-- The frames that were accepted. -/
def accepted (outputs : List RxOutput) : List (List UInt8) :=
  outputs.filterMap fun
    | .accepted frame => some frame
    | .answered _ => none

/-- The bytes of the packets that were completed with success. -/
def delivered (outputs : List RxOutput) : List (List UInt8) :=
  outputs.filterMap fun
    | .accepted _ => none
    | .answered answer =>
        if answer.status = .success then some answer.data else none

end RiscosBuilder.Usb
