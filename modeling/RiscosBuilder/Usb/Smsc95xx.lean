import RiscosBuilder.Library.Loop
import RiscosBuilder.Library.Memory

/-!
# SMSC95xx transmission

`smsc_bulk_out` of the device that `files/qemu-riscos-raspi.patch` adds: the
bytes of bulk-OUT packets are collected in `out_buf`, and whole blocks among
them are sent.  `unsigned` and `uint32_t` are `UInt32`, and `out_buf` is the
memory that begins where the array does.
-/

namespace RiscosBuilder.Usb

open RiscosBuilder.Library

def SMSC_TX_CFG : Nat := 0x010
def TX_CFG_ON : UInt32 := 0x00000004
def SMSC_MAC_CR : Nat := 0x100
def MAC_CR_TXEN : UInt32 := 0x00000008

def TX_CMD_A_DATA_OFFSET : UInt32 := 0x001f0000
def TX_CMD_B_CSUM_ENABLE : UInt32 := 0x00004000
def TX_CMD_B_DIS_PADDING : UInt32 := 0x00001000
def TX_CMD_B_FRAME_LENGTH : UInt32 := 0x000007ff

def SMSC_BUF_SIZE : Nat := 16384 + 2048
def SMSC_MIN_FRAME : UInt32 := 14
def SMSC_MAX_FRAME : UInt32 := 1514
def SMSC_RUNT_PAD : Nat := 60

/-- The part of `SMSCState` that transmission works on. -/
structure SMSCState where
  reg : Nat → UInt32
  outBuf : Memory
  outLen : UInt32

/-- `smsc_tx_enabled`. -/
def txEnabled (s : SMSCState) : Bool :=
  s.reg (SMSC_TX_CFG / 4) &&& TX_CFG_ON ≠ 0 &&
    s.reg (SMSC_MAC_CR / 4) &&& MAC_CR_TXEN ≠ 0

/-- `off`: how far behind the command words the frame begins. -/
def dataOffset (cmdA : UInt32) : UInt32 :=
  (cmdA &&& TX_CMD_A_DATA_OFFSET) >>> 16

/-- `len`. -/
def frameLength (cmdB : UInt32) : UInt32 :=
  cmdB &&& TX_CMD_B_FRAME_LENGTH

/-- `csum`: the length of the checksum preamble. -/
def csum (cmdB : UInt32) : UInt32 :=
  if cmdB &&& TX_CMD_B_CSUM_ENABLE ≠ 0 then 4 else 0

/-- What `qemu_send_packet` is given for a frame. -/
def padded (cmdB : UInt32) (frame : List UInt8) : List UInt8 :=
  if frame.length < SMSC_RUNT_PAD ∧ cmdB &&& TX_CMD_B_DIS_PADDING = 0 then
    frame ++ List.replicate (SMSC_RUNT_PAD - frame.length) 0
  else frame

/--
The variables of the loop in `smsc_bulk_out`: where it is, what it has sent, and
whether it has left by the `return` for an implausible length.
-/
structure Transmission where
  pos : UInt32
  sent : List (List UInt8)
  dropped : Bool

/-- One turn of the loop; `none` when its test fails or it is left. -/
def transmitTurn (s : SMSCState) (t : Transmission) : Option Transmission :=
  if t.dropped ∨ ¬ 8 ≤ s.outLen - t.pos then none
  else
    let cmdA := s.outBuf.ldl t.pos.toNat
    let cmdB := s.outBuf.ldl (t.pos + 4).toNat
    let off := dataOffset cmdA
    let len := frameLength cmdB
    if len < SMSC_MIN_FRAME ∨ SMSC_MAX_FRAME + 4 < len then
      some { t with dropped := true }
    else if s.outLen - t.pos < 8 + off + len then none
    else
      let sent :=
        if csum cmdB < len ∧ txEnabled s then
          [padded cmdB (s.outBuf.bytes (t.pos + 8 + off + csum cmdB).toNat
            (len - csum cmdB).toNat)]
        else []
      let block := (8 + off + len + 3) &&& ~~~3
      some { t with pos := t.pos + block, sent := t.sent ++ sent }

/-- `usb_packet_copy` of what fits behind the bytes in `out_buf`. -/
def copyPacket (s : SMSCState) (packet : List UInt8) : SMSCState :=
  let sz := UInt32.ofNat SMSC_BUF_SIZE - s.outLen
  let sz := if sz.toNat > packet.length then UInt32.ofNat packet.length else sz
  { s with
    outBuf := s.outBuf.store s.outLen.toNat (packet.take sz.toNat)
    outLen := s.outLen + sz }

/-- What `smsc_bulk_out` leaves behind its loop: `memmove` to the front. -/
def keepRest (s : SMSCState) (pos : UInt32) : SMSCState :=
  if pos = 0 then s
  else
    { s with
      outBuf := s.outBuf.store 0 (s.outBuf.bytes pos.toNat
        (s.outLen - pos).toNat)
      outLen := s.outLen - pos }

/--
`smsc_bulk_out`: the state behind a packet, and the frames handed to the
network.  `none` when the loop takes more than `fuel` turns.
-/
def bulkOut (fuel : Nat) (s : SMSCState) (packet : List UInt8) :
    Option (SMSCState × List (List UInt8)) :=
  let s := copyPacket s packet
  (Loop.run (transmitTurn s) fuel ⟨0, [], false⟩).map fun t =>
    if t.dropped then ({ s with outLen := 0 }, t.sent)
    else (keepRest s t.pos, t.sent)

end RiscosBuilder.Usb
