import RiscosBuilder.Library.Trace
import RiscosBuilder.Usb.Registers

/-!
# The SMSC95xx device

The whole of `SMSCState` and what is called on it: `smsc_handle_control`,
`smsc_handle_data` and the other entries of its USB and network classes, put
together from transmission, reception and registers.  What the device does to
the outside is an output of the event that makes it do so.
-/

namespace RiscosBuilder.Usb

open RiscosBuilder.Library RiscosBuilder.Library.ByteImage

def SMSC_REQ_WRITE_REGISTER : Nat := 0xa0
def SMSC_REQ_READ_REGISTER : Nat := 0xa1

def USB_REQ_GET_STATUS : Nat := 0x00
def USB_REQ_CLEAR_FEATURE : Nat := 0x01
def USB_REQ_SET_FEATURE : Nat := 0x03

/-- `SMSCState`. -/
structure Device where
  linkDown : Bool
  macaddr : Memory
  highSpeed : Bool
  config : Bool
  reg : Nat → UInt32
  e2pCmd : UInt32
  e2pData : UInt32
  miiAddr : UInt32
  miiData : UInt32
  eeprom : Memory
  bmcr : UInt16
  anar : UInt16
  phy : Nat → UInt16
  outBuf : Memory
  outLen : UInt32
  inBuf : Memory
  inLen : UInt32
  inPtr : UInt32
  inPkt : Option USBPacket
  flushRx : Bool

namespace Device

/-- What transmission works on. -/
def tx (d : Device) : SMSCState where
  reg := d.reg
  outBuf := d.outBuf
  outLen := d.outLen

/-- What reception works on. -/
def rx (d : Device) : RxState where
  highSpeed := d.highSpeed
  config := d.config
  reg := d.reg
  inBuf := d.inBuf
  inLen := d.inLen
  inPtr := d.inPtr
  inPkt := d.inPkt
  flushRx := d.flushRx

/-- What the registers work on. -/
def regs (d : Device) : RegState where
  linkDown := d.linkDown
  macaddr := d.macaddr
  reg := d.reg
  e2pCmd := d.e2pCmd
  e2pData := d.e2pData
  miiAddr := d.miiAddr
  miiData := d.miiData
  eeprom := d.eeprom
  bmcr := d.bmcr
  anar := d.anar
  phy := d.phy
  outLen := d.outLen
  inLen := d.inLen
  inPtr := d.inPtr
  inPkt := d.inPkt
  flushRx := d.flushRx

def putTx (d : Device) (s : SMSCState) : Device :=
  { d with reg := s.reg, outBuf := s.outBuf, outLen := s.outLen }

def putRx (d : Device) (s : RxState) : Device :=
  { d with
    highSpeed := s.highSpeed
    config := s.config
    reg := s.reg
    inBuf := s.inBuf
    inLen := s.inLen
    inPtr := s.inPtr
    inPkt := s.inPkt
    flushRx := s.flushRx }

def putRegs (d : Device) (s : RegState) : Device :=
  { d with
    linkDown := s.linkDown
    macaddr := s.macaddr
    reg := s.reg
    e2pCmd := s.e2pCmd
    e2pData := s.e2pData
    miiAddr := s.miiAddr
    miiData := s.miiData
    eeprom := s.eeprom
    bmcr := s.bmcr
    anar := s.anar
    phy := s.phy
    outLen := s.outLen
    inLen := s.inLen
    inPtr := s.inPtr
    inPkt := s.inPkt
    flushRx := s.flushRx }

@[simp] theorem tx_putTx (d : Device) (s : SMSCState) : (d.putTx s).tx = s :=
  rfl

@[simp] theorem rx_putRx (d : Device) (s : RxState) : (d.putRx s).rx = s :=
  rfl

@[simp] theorem regs_putRegs (d : Device) (s : RegState) :
    (d.putRegs s).regs = s :=
  rfl

end Device

/-! ## What happens to the device, and what it does -/

/-- The upper half of `request`, with the direction in it. -/
inductive RequestType where
  | endpointRequest
  | endpointOutRequest
  | vendorDeviceRequest
  | vendorDeviceOutRequest
  | other
  deriving DecidableEq, Repr

/-- `pid`. -/
inductive Token where
  | setup
  | tokenIn
  | tokenOut
  deriving DecidableEq, Repr

/-- The `status` that a packet ends with. -/
inductive Ending where
  | success
  | nak
  | stall
  deriving DecidableEq, Repr

/-- What the device does to the host and to the network. -/
inductive DeviceOutput where
  /-- `qemu_send_packet` -/
  | sendPacket (frame : List UInt8)
  /-- `qemu_flush_queued_packets` -/
  | flushQueuedPackets
  /-- `usb_wakeup` -/
  | wakeup
  /-- A data packet ends, on return or by `usb_packet_complete`. -/
  | ended (packet : USBPacket) (status : Ending) (data : List UInt8)
  /-- A control transfer ends, with the bytes of its data stage. -/
  | controlled (status : Ending) (data : List UInt8)
  /-- `smsc_receive` takes a frame, -/
  | accepted (frame : List UInt8)
  /-- drops it, -/
  | dropped (frame : List UInt8)
  /-- or wants it again later, as a `smsc_can_receive` that is false does. -/
  | refused
  deriving DecidableEq, Repr

/--
What happens to the device.  `usb_desc_handle_control` handles the standard
requests first: SET_CONFIGURATION is one, and changes `config`.
-/
inductive DeviceEvent where
  | control (type : RequestType) (request index length : Nat)
      (data : List UInt8)
  | setConfiguration (config : Bool)
  | data (pid : Token) (ep : Nat) (packet : USBPacket) (bytes : List UInt8)
  | cancel (packet : USBPacket)
  | reset
  | canReceive
  | receive (frame : List UInt8)
  | link (down : Bool)

/-- A packet that is handed back has ended; one that is parked has not. -/
def Answer.outputs (answer : Answer) : List DeviceOutput :=
  match answer.status with
  | .success => [.ended answer.packet .success answer.data]
  | .nak => [.ended answer.packet .nak answer.data]
  | .async => []

/-- `smsc_reg_write`, with the restart of the network backend. -/
def Device.regWrite (d : Device) (off : Nat) (val : UInt32) :
    Device × List DeviceOutput :=
  (d.putRegs (Usb.regWrite d.regs off val),
    if off = SMSC_MAC_CR ∧ val &&& MAC_CR_RXEN ≠ 0 then [.flushQueuedPackets]
    else [])

/-- `smsc_handle_control`, on a request that is not a standard one. -/
def handleControl (d : Device) (type : RequestType)
    (request index length : Nat) (data : List UInt8) :
    Device × List DeviceOutput :=
  if type = .endpointRequest ∧ request = USB_REQ_GET_STATUS then
    (d, [.controlled .success ([0, 0].take (min length 2))])
  else if type = .endpointOutRequest ∧
      (request = USB_REQ_CLEAR_FEATURE ∨ request = USB_REQ_SET_FEATURE) then
    (d, [.controlled .success []])
  else if type = .vendorDeviceRequest ∧ request = SMSC_REQ_READ_REGISTER then
    let word := leBytes 4 (regRead d.regs (index % SMSC_REG_WINDOW)).toNat
    (d, [.controlled .success (word.take (min length 4))])
  else if type = .vendorDeviceOutRequest ∧
      request = SMSC_REQ_WRITE_REGISTER then
    if 4 ≤ length then
      let (d, outputs) := d.regWrite (index % SMSC_REG_WINDOW)
        (UInt32.ofNat (leWord (data.take 4)))
      (d, outputs ++ [.controlled .success []])
    else (d, [.controlled .success []])
  else (d, [.controlled .stall []])

/--
`smsc_handle_data`; `none` when the loop of `smsc_bulk_out` takes more than
`fuel` turns.
-/
def handleData (fuel : Nat) (d : Device) (pid : Token) (ep : Nat)
    (packet : USBPacket) (bytes : List UInt8) :
    Option (Device × List DeviceOutput) :=
  match pid with
  | .tokenOut =>
      if ep = 2 then
        (bulkOut fuel d.tx bytes).map fun (s, sent) =>
          (d.putTx s, sent.map .sendPacket ++ [.ended packet .success []])
      else some (d, [.ended packet .stall []])
  | .tokenIn =>
      if ep = 1 then
        let (s, answer, flushes) := handleDataIn d.rx packet
        some (d.putRx s,
          (if flushes then [.flushQueuedPackets] else []) ++ answer.outputs)
      else if ep = 3 then some (d, [.ended packet .nak []])
      else some (d, [.ended packet .stall []])
  | .setup => some (d, [.ended packet .stall []])

/-- `smsc_receive`, with what its caller is told. -/
def Device.receive (d : Device) (frame : List UInt8) :
    Device × List DeviceOutput :=
  let (s, result, completed) := Usb.receive d.rx frame
  (d.putRx s,
    if result = -1 then [.dropped frame]
    else if result = 0 then [.refused]
    else
      (match completed with
        | some answer => answer.outputs
        | none => [.wakeup]) ++ [.accepted frame])

/-- One event. -/
def deviceStep (fuel : Nat) (d : Device) :
    DeviceEvent → Option (Device × List DeviceOutput)
  | .control type request index length data =>
      some (handleControl d type request index length data)
  | .setConfiguration config => some ({ d with config }, [])
  | .data pid ep packet bytes => handleData fuel d pid ep packet bytes
  | .cancel packet => some (d.putRx (cancelPacket d.rx packet), [])
  | .reset => some (d.putRegs (handleReset d.regs), [])
  | .canReceive =>
      some (d, if Usb.canReceive d.rx then [] else [.refused])
  | .receive frame => some (d.receive frame)
  | .link down => some ({ d with linkDown := down }, [])

/-- An event with what the device does in it. -/
abbrev Label := DeviceEvent × List DeviceOutput

/-- The device takes a step; the loop of `smsc_bulk_out`, if it runs, ends. -/
def DeviceSteps (d : Device) (label : Label) (after : Device) : Prop :=
  ∃ fuel, deviceStep fuel d label.1 = some (after, label.2)

/-- All that the device does in a run. -/
def outputs (labels : List Label) : List DeviceOutput :=
  labels.flatMap Prod.snd

@[simp] theorem outputs_nil : outputs [] = [] :=
  rfl

@[simp] theorem outputs_snoc (labels : List Label) (label : Label) :
    outputs (labels ++ [label]) = outputs labels ++ label.2 := by
  simp [outputs]

end RiscosBuilder.Usb
