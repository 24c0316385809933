import Mathlib.Logic.Function.Basic
import RiscosBuilder.Usb.Receive

/-!
# SMSC95xx registers

The vendor register window of the device that `files/qemu-riscos-raspi.patch`
adds, with the EEPROM and the internal PHY behind it.  `eeprom` and `macaddr`
are memories that begin where the arrays do.
-/

namespace RiscosBuilder.Usb

open RiscosBuilder.Library RiscosBuilder.Library.ByteImage

def SMSC_ID_REV : Nat := 0x000
def SMSC_INT_STS : Nat := 0x008
def TX_CFG_STOP : UInt32 := 0x00000002
def SMSC_HW_CFG : Nat := 0x014
def HW_CFG_LRST : UInt32 := 0x00000008
def SMSC_PM_CTRL : Nat := 0x020
def PM_CTL_PHY_RST : UInt32 := 0x00000010
def SMSC_E2P_CMD : Nat := 0x030
def E2P_CMD_BUSY : UInt32 := 0x80000000
def E2P_CMD_MASK : UInt32 := 0x70000000
def E2P_CMD_READ : UInt32 := 0x00000000
def E2P_CMD_TIMEOUT : UInt32 := 0x00000400
def E2P_CMD_LOADED : UInt32 := 0x00000200
def E2P_CMD_ADDR : UInt32 := 0x000001ff
def SMSC_E2P_DATA : Nat := 0x034
def SMSC_BURST_CAP : Nat := 0x038
def SMSC_MII_ADDR : Nat := 0x114
def MII_WRITE : UInt32 := 0x00000002
def MII_BUSY : UInt32 := 0x00000001
def SMSC_MII_DATA : Nat := 0x118
def SMSC_REG_WINDOW : Nat := 0x200

def SMSC_CHIP_ID_9512 : UInt32 := 0xec00
def SMSC_ID_REV_VALUE : UInt32 := (SMSC_CHIP_ID_9512 <<< 16) ||| 0x0001

def SMSC_PHY_ADDRESS : UInt32 := 1
def PHY_BMCR : UInt32 := 0
def BMCR_RESET : UInt16 := 0x8000
def BMCR_NWAY_RESET : UInt16 := 0x0200
def PHY_BMSR : UInt32 := 1
def PHY_PHYIDR1 : UInt32 := 2
def PHY_PHYIDR2 : UInt32 := 3
def PHY_ANAR : UInt32 := 4
def PHY_ANLPAR : UInt32 := 5

def PHY_ANAR_RESET : UInt16 := 0x01e1
def PHY_ANLPAR_VALUE : UInt16 := 0x41e1
def PHY_BMCR_RESET : UInt16 := 0x3100
def PHY_BMSR_LINK_UP : UInt16 := 0x782d
def PHY_BMSR_LINK_DOWN : UInt16 := 0x7829

def SMSC_EEPROM_SIZE : UInt32 := 512
def SMSC_EEPROM_SIGNATURE : UInt8 := 0xa5
def SMSC_EEPROM_MAC_OFFSET : Nat := 1

/-- The part of `SMSCState` that the registers work on. -/
structure RegState where
  /-- `link_down` of the network queue. -/
  linkDown : Bool
  /-- `conf.macaddr.a`. -/
  macaddr : Memory
  reg : Nat → UInt32
  e2pCmd : UInt32
  e2pData : UInt32
  miiAddr : UInt32
  miiData : UInt32
  eeprom : Memory
  bmcr : UInt16
  anar : UInt16
  phy : Nat → UInt16
  outLen : UInt32
  inLen : UInt32
  inPtr : UInt32
  inPkt : Option USBPacket
  flushRx : Bool

/-- `s->reg[off / 4] = val`. -/
def RegState.put (s : RegState) (off : Nat) (val : UInt32) : RegState :=
  { s with reg := Function.update s.reg (off / 4) val }

/-- `smsc_link_up`. -/
def linkUp (s : RegState) : Bool :=
  !s.linkDown

/-- `smsc_phy_reset`. -/
def phyReset (s : RegState) : RegState :=
  { s with bmcr := PHY_BMCR_RESET, anar := PHY_ANAR_RESET, phy := fun _ => 0 }

/-- `smsc_phy_read`. -/
def phyRead (s : RegState) (phy reg : UInt32) : UInt16 :=
  if phy ≠ SMSC_PHY_ADDRESS then 0xffff
  else if reg = PHY_BMCR then s.bmcr
  else if reg = PHY_BMSR then
    if linkUp s then PHY_BMSR_LINK_UP else PHY_BMSR_LINK_DOWN
  else if reg = PHY_PHYIDR1 then 0x0007
  else if reg = PHY_PHYIDR2 then 0xc0f1
  else if reg = PHY_ANAR then s.anar
  else if reg = PHY_ANLPAR then if linkUp s then PHY_ANLPAR_VALUE else 0
  else s.phy (reg &&& 0x1f).toNat

/-- `smsc_phy_write`. -/
def phyWrite (s : RegState) (phy reg : UInt32) (val : UInt16) : RegState :=
  if phy ≠ SMSC_PHY_ADDRESS then s
  else if reg = PHY_BMCR then
    if val &&& BMCR_RESET ≠ 0 then phyReset s
    else { s with bmcr := val &&& ~~~BMCR_NWAY_RESET }
  else if reg = PHY_BMSR ∨ reg = PHY_PHYIDR1 ∨ reg = PHY_PHYIDR2 ∨
      reg = PHY_ANLPAR then s
  else if reg = PHY_ANAR then { s with anar := val }
  else { s with phy := Function.update s.phy (reg &&& 0x1f).toNat val }

/-- `smsc_lite_reset`. -/
def liteReset (s : RegState) : RegState :=
  let s := s.put SMSC_HW_CFG 0
  let s := s.put SMSC_TX_CFG 0
  let s := s.put SMSC_MAC_CR 0
  let s := s.put SMSC_INT_STS 0
  { s with outLen := 0, inLen := 0, inPtr := 0 }

/-- `smsc_reg_read`. -/
def regRead (s : RegState) (off : Nat) : UInt32 :=
  if off = SMSC_ID_REV then SMSC_ID_REV_VALUE
  else if off = SMSC_E2P_CMD then
    s.e2pCmd &&& ~~~(E2P_CMD_BUSY ||| E2P_CMD_TIMEOUT) ||| E2P_CMD_LOADED
  else if off = SMSC_E2P_DATA then s.e2pData &&& 0xff
  else if off = SMSC_MII_ADDR then s.miiAddr &&& ~~~MII_BUSY
  else if off = SMSC_MII_DATA then s.miiData &&& 0xffff
  else s.reg (off / 4)

/-- The PHY that is addressed by what is written to `SMSC_MII_ADDR`. -/
def miiPhy (val : UInt32) : UInt32 :=
  (val >>> 11) &&& 0x1f

/-- And its register. -/
def miiReg (val : UInt32) : UInt32 :=
  (val >>> 6) &&& 0x1f

/-- `smsc_reg_write` at `SMSC_E2P_CMD`. -/
def writeE2pCmd (s : RegState) (val : UInt32) : RegState :=
  let addr := val &&& E2P_CMD_ADDR
  let data :=
    if val &&& E2P_CMD_BUSY ≠ 0 ∧ val &&& E2P_CMD_MASK = E2P_CMD_READ then
      if addr < SMSC_EEPROM_SIZE then (s.eeprom addr.toNat).toUInt32 else 0xff
    else s.e2pData
  { s with
    e2pData := data
    e2pCmd := val &&& ~~~(E2P_CMD_BUSY ||| E2P_CMD_TIMEOUT) ||| E2P_CMD_LOADED }

/-- `smsc_reg_write` at `SMSC_MII_ADDR`. -/
def writeMiiAddr (s : RegState) (val : UInt32) : RegState :=
  let s :=
    if val &&& MII_BUSY ≠ 0 then
      if val &&& MII_WRITE ≠ 0 then
        phyWrite s (miiPhy val) (miiReg val) (s.miiData &&& 0xffff).toUInt16
      else
        { s with miiData := (phyRead s (miiPhy val) (miiReg val)).toUInt32 }
    else s
  { s with miiAddr := val &&& ~~~MII_BUSY }

/--
`smsc_reg_write`.  Enabling reception ends with `qemu_flush_queued_packets`,
which changes no register.
-/
def regWrite (s : RegState) (off : Nat) (val : UInt32) : RegState :=
  if off = SMSC_HW_CFG then
    if val &&& HW_CFG_LRST ≠ 0 then liteReset s
    else s.put off (val &&& ~~~HW_CFG_LRST)
  else if off = SMSC_PM_CTRL then
    if val &&& PM_CTL_PHY_RST ≠ 0 then
      (phyReset s).put off (val &&& ~~~PM_CTL_PHY_RST)
    else s.put off val
  else if off = SMSC_E2P_CMD then writeE2pCmd s val
  else if off = SMSC_E2P_DATA then { s with e2pData := val &&& 0xff }
  else if off = SMSC_MII_ADDR then writeMiiAddr s val
  else if off = SMSC_MII_DATA then { s with miiData := val &&& 0xffff }
  else if off = SMSC_TX_CFG then
    if val &&& TX_CFG_STOP ≠ 0 then s.put off (val &&& ~~~TX_CFG_ON)
    else s.put off val
  else if off = SMSC_BURST_CAP then s.put off (val &&& 0xff)
  else if off = SMSC_INT_STS then s.put off (s.reg (off / 4) &&& ~~~val)
  else s.put off val

/-- `smsc_handle_reset`. -/
def handleReset (s : RegState) : RegState :=
  let s :=
    { s with
      inPkt := none
      flushRx := false
      reg := fun _ => 0
      e2pCmd := E2P_CMD_LOADED
      e2pData := 0
      miiAddr := 0
      miiData := 0
      outLen := 0
      inLen := 0
      inPtr := 0 }
  let s := phyReset s
  let s := s.put SMSC_ADDRL (s.macaddr.ldl 0)
  s.put SMSC_ADDRH (UInt32.ofNat (leWord (s.macaddr.bytes 4 2)))

/-- The EEPROM image that `smsc_realize` publishes the address in. -/
def eepromImage (macaddr : Memory) : Memory :=
  let image : Memory := fun _ => 0xff
  let image := image.store 0 [SMSC_EEPROM_SIGNATURE]
  image.store SMSC_EEPROM_MAC_OFFSET (macaddr.bytes 0 6)

/-- The state that `smsc_realize` leaves behind. -/
def realize (s : RegState) : RegState :=
  handleReset { s with eeprom := eepromImage s.macaddr }

/-- What happens to the registers: accesses, USB resets, a cable. -/
inductive RegEvent where
  | write (off : Nat) (val : UInt32)
  | read (off : Nat)
  | reset
  | link (down : Bool)

/-- An access is to a whole register of the window. -/
def RegEvent.Aligned : RegEvent → Prop
  | write off _ => off % 4 = 0 ∧ off < SMSC_REG_WINDOW
  | read off => off % 4 = 0 ∧ off < SMSC_REG_WINDOW
  | _ => True

instance : DecidablePred RegEvent.Aligned
  | .write _ _ => inferInstanceAs (Decidable (_ ∧ _))
  | .read _ => inferInstanceAs (Decidable (_ ∧ _))
  | .reset => inferInstanceAs (Decidable True)
  | .link _ => inferInstanceAs (Decidable True)

/-- One event; reading a register changes none. -/
def regStep (s : RegState) : RegEvent → RegState
  | .write off val => regWrite s off val
  | .read _ => s
  | .reset => handleReset s
  | .link down => { s with linkDown := down }

/-- The state behind a number of events. -/
def regRun (s : RegState) (events : List RegEvent) : RegState :=
  events.foldl regStep s

end RiscosBuilder.Usb
