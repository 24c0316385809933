import RiscosBuilder.Library.Word
import RiscosBuilder.Usb.Registers

/-!
# Polls come to an end

The bits that a driver waits for are clear whenever it looks: the device has
done what was asked of it before the access returns.
-/

namespace RiscosBuilder.Usb

open RiscosBuilder.Library

namespace RegState

@[simp] theorem put_reg_same (s : RegState) (off : Nat) (val : UInt32) :
    (s.put off val).reg (off / 4) = val := by
  simp [put]

theorem put_reg_other (s : RegState) {off i : Nat} (val : UInt32)
    (other : i ≠ off / 4) : (s.put off val).reg i = s.reg i := by
  simp [put, other]

end RegState

/-! ## One write -/

/-- What becomes of a write to a register that resets nothing. -/
inductive Written (s : RegState) (off : Nat) (val : UInt32) : RegState → Prop where
  | put (value : UInt32) : Written s off val (s.put off value)
  | miiAddr : Written s off val (writeMiiAddr s val)
  | data (e2pCmd e2pData miiData : UInt32) :
      Written s off val { s with e2pCmd, e2pData, miiData }

theorem regWrite_written {s : RegState} {off : Nat} {val : UInt32}
    (hwCfg : off ≠ SMSC_HW_CFG) (pmCtrl : off ≠ SMSC_PM_CTRL) :
    Written s off val (regWrite s off val) := by
  rw [regWrite, if_neg hwCfg, if_neg pmCtrl]
  split_ifs
  · exact .data _ _ _
  · exact .data _ _ _
  · exact .miiAddr
  · exact .data _ _ _
  all_goals exact .put _

theorem regWrite_hwCfg (s : RegState) (val : UInt32) :
    regWrite s SMSC_HW_CFG val =
      if val &&& HW_CFG_LRST ≠ 0 then liteReset s
      else s.put SMSC_HW_CFG (val &&& ~~~HW_CFG_LRST) := by
  rw [regWrite, if_pos rfl]

theorem regWrite_pmCtrl (s : RegState) (val : UInt32) :
    regWrite s SMSC_PM_CTRL val =
      if val &&& PM_CTL_PHY_RST ≠ 0 then
        (phyReset s).put SMSC_PM_CTRL (val &&& ~~~PM_CTL_PHY_RST)
      else s.put SMSC_PM_CTRL val := by
  rw [regWrite, if_neg (by decide), if_pos rfl]

/-! ## The bits that clear themselves -/

/-- Where a register keeps such a bit, it is cleared. -/
structure SelfClear (s : RegState) : Prop where
  hwCfg : s.reg (SMSC_HW_CFG / 4) &&& HW_CFG_LRST = 0
  pmCtrl : s.reg (SMSC_PM_CTRL / 4) &&& PM_CTL_PHY_RST = 0
  reset : s.bmcr &&& BMCR_RESET = 0
  restart : s.bmcr &&& BMCR_NWAY_RESET = 0

namespace SelfClear

variable {s : RegState}

theorem of_same {next : RegState} (cleared : SelfClear s)
    (reg : next.reg = s.reg) (bmcr : next.bmcr = s.bmcr) : SelfClear next where
  hwCfg := by
    rw [reg]
    exact cleared.hwCfg
  pmCtrl := by
    rw [reg]
    exact cleared.pmCtrl
  reset := by
    rw [bmcr]
    exact cleared.reset
  restart := by
    rw [bmcr]
    exact cleared.restart

/-- Another register of the window is written. -/
theorem put (cleared : SelfClear s) {off : Nat} (val : UInt32)
    (hwCfg : off / 4 ≠ SMSC_HW_CFG / 4) (pmCtrl : off / 4 ≠ SMSC_PM_CTRL / 4) :
    SelfClear (s.put off val) where
  hwCfg := by
    rw [s.put_reg_other val (Ne.symm hwCfg)]
    exact cleared.hwCfg
  pmCtrl := by
    rw [s.put_reg_other val (Ne.symm pmCtrl)]
    exact cleared.pmCtrl
  reset := cleared.reset
  restart := cleared.restart

theorem putHwCfg (cleared : SelfClear s) {val : UInt32}
    (low : val &&& HW_CFG_LRST = 0) : SelfClear (s.put SMSC_HW_CFG val) where
  hwCfg := by
    rw [s.put_reg_same]
    exact low
  pmCtrl := by
    rw [s.put_reg_other val (by decide)]
    exact cleared.pmCtrl
  reset := cleared.reset
  restart := cleared.restart

theorem putPmCtrl (cleared : SelfClear s) {val : UInt32}
    (low : val &&& PM_CTL_PHY_RST = 0) : SelfClear (s.put SMSC_PM_CTRL val) where
  hwCfg := by
    rw [s.put_reg_other val (by decide)]
    exact cleared.hwCfg
  pmCtrl := by
    rw [s.put_reg_same]
    exact low
  reset := cleared.reset
  restart := cleared.restart

theorem phyReset (cleared : SelfClear s) : SelfClear (phyReset s) where
  hwCfg := cleared.hwCfg
  pmCtrl := cleared.pmCtrl
  reset := show PHY_BMCR_RESET &&& BMCR_RESET = 0 by decide
  restart := show PHY_BMCR_RESET &&& BMCR_NWAY_RESET = 0 by decide

theorem phyWrite (cleared : SelfClear s) (phy reg : UInt32) (val : UInt16) :
    SelfClear (phyWrite s phy reg val) := by
  unfold Usb.phyWrite
  split
  · exact cleared
  · split
    · split
      · exact cleared.phyReset
      · next kept =>
          rw [ne_eq, not_not] at kept
          refine ⟨cleared.hwCfg, cleared.pmCtrl, ?_, ?_⟩
          · show val &&& ~~~BMCR_NWAY_RESET &&& BMCR_RESET = 0
            rw [UInt16.and_assoc, UInt16.and_comm (~~~BMCR_NWAY_RESET),
              ← UInt16.and_assoc, kept, UInt16.zero_and]
          · show val &&& ~~~BMCR_NWAY_RESET &&& BMCR_NWAY_RESET = 0
            rw [UInt16.and_assoc, UInt16.not_and_self, UInt16.and_zero]
    · split
      · exact cleared
      · split
        · exact cleared.of_same rfl rfl
        · exact cleared.of_same rfl rfl

theorem liteReset (cleared : SelfClear s) : SelfClear (liteReset s) := by
  have hhwCfg := cleared.putHwCfg (show (0 : UInt32) &&& _ = 0 by decide)
  have htxCfg := @hhwCfg.put _ SMSC_TX_CFG 0 (by decide) (by decide)
  have hmacCr := @htxCfg.put _ SMSC_MAC_CR 0 (by decide) (by decide)
  have hintSts := @hmacCr.put _ SMSC_INT_STS 0 (by decide) (by decide)
  exact hintSts.of_same rfl rfl

theorem writeMiiAddr (cleared : SelfClear s) (val : UInt32) :
    SelfClear (writeMiiAddr s val) := by
  unfold Usb.writeMiiAddr
  dsimp only
  split
  · split
    · exact (cleared.phyWrite (miiPhy val) (miiReg val)
        (s.miiData &&& 0xffff).toUInt16).of_same rfl rfl
    · exact cleared.of_same rfl rfl
  · exact cleared.of_same rfl rfl

/-- Whatever is written to a whole register, the bits are clear behind it. -/
theorem regWrite (cleared : SelfClear s) {off : Nat} (whole : off % 4 = 0)
    (val : UInt32) : SelfClear (regWrite s off val) := by
  by_cases hwCfg : off = SMSC_HW_CFG
  · rw [hwCfg, regWrite_hwCfg]
    split
    · exact cleared.liteReset
    · exact cleared.putHwCfg (Word.clear_and val HW_CFG_LRST)
  by_cases pmCtrl : off = SMSC_PM_CTRL
  · rw [pmCtrl, regWrite_pmCtrl]
    split
    · exact cleared.phyReset.putPmCtrl (Word.clear_and val PM_CTL_PHY_RST)
    · next low =>
        rw [ne_eq, not_not] at low
        exact cleared.putPmCtrl low
  -- A register is known by its word once its offset is whole.
  have hhw : off / 4 ≠ SMSC_HW_CFG / 4 := by
    unfold SMSC_HW_CFG at hwCfg ⊢
    omega
  have hpm : off / 4 ≠ SMSC_PM_CTRL / 4 := by
    unfold SMSC_PM_CTRL at pmCtrl ⊢
    omega
  have hwritten := @regWrite_written s off val hwCfg pmCtrl
  generalize Usb.regWrite s off val = next at hwritten ⊢
  cases hwritten with
  | put value => exact cleared.put value hhw hpm
  | miiAddr => exact cleared.writeMiiAddr val
  | data e2pCmd e2pData miiData => exact cleared.of_same rfl rfl

theorem handleReset (s : RegState) : SelfClear (handleReset s) := by
  have hblank : SelfClear { s with reg := fun _ => 0, bmcr := 0 } :=
    ⟨UInt32.zero_and, UInt32.zero_and, UInt16.zero_and, UInt16.zero_and⟩
  have haddrl := @hblank.phyReset.put _ SMSC_ADDRL (s.macaddr.ldl 0) (by decide)
    (by decide)
  have haddrh := @haddrl.put _ SMSC_ADDRH
    (UInt32.ofNat (ByteImage.leWord (s.macaddr.bytes 4 2))) (by decide)
    (by decide)
  exact haddrh.of_same rfl rfl

theorem regStep (cleared : SelfClear s) {event : RegEvent}
    (aligned : event.Aligned) : SelfClear (regStep s event) := by
  cases event with
  | write off val => exact cleared.regWrite aligned.1 val
  | read off => exact cleared
  | reset => exact handleReset s
  | link down => exact cleared.of_same rfl rfl

theorem regRun (cleared : SelfClear s) {events : List RegEvent}
    (aligned : ∀ event ∈ events, event.Aligned) :
    SelfClear (regRun s events) := by
  induction events generalizing s with
  | nil => exact cleared
  | cons event events ih =>
      obtain ⟨hevent, hevents⟩ := List.forall_mem_cons.mp aligned
      exact ih (cleared.regStep hevent) hevents

end SelfClear

/-! ## What a read command finds -/

/-- The command reads a register of a PHY. -/
def MdioRead (val : UInt32) : Prop :=
  val &&& MII_BUSY ≠ 0 ∧ val &&& MII_WRITE = 0

/-- The command reads a byte of the EEPROM. -/
def EepromRead (val : UInt32) : Prop :=
  val &&& E2P_CMD_BUSY ≠ 0 ∧ val &&& E2P_CMD_MASK = E2P_CMD_READ

/-- The 32 registers of the internal PHY, in order. -/
def phyRegisters (s : RegState) : List UInt16 :=
  [s.bmcr, if linkUp s then PHY_BMSR_LINK_UP else PHY_BMSR_LINK_DOWN, 0x0007,
    0xc0f1, s.anar, if linkUp s then PHY_ANLPAR_VALUE else 0] ++
      (List.range' 6 26).map s.phy

/-- What a register of a PHY holds; nobody answers at another address. -/
def held (s : RegState) (phy reg : UInt32) : UInt16 :=
  if phy = SMSC_PHY_ADDRESS then (phyRegisters s).getD reg.toNat 0xffff
  else 0xffff

/-- The registers without a field of their own. -/
theorem phyRegisters_plain {s : RegState} {reg : Nat} (low : 6 ≤ reg)
    (high : reg < 32) : (phyRegisters s).getD reg 0xffff = s.phy reg := by
  obtain ⟨k, rfl⟩ := Nat.exists_eq_add_of_le low
  have hk : k < 26 := by omega
  rw [phyRegisters, List.getD_append_right _ _ _ _ (by simp)]
  simp [hk]

theorem phyRead_eq {s : RegState} {phy reg : UInt32} (few : reg.toNat < 32) :
    phyRead s phy reg = held s phy reg := by
  unfold phyRead held
  by_cases own : phy = SMSC_PHY_ADDRESS
  · rw [if_neg (not_not.mpr own), if_pos own]
    have hother : ∀ k : UInt32, reg ≠ k → reg.toNat ≠ k.toNat :=
      fun k different same => different (UInt32.toNat_inj.mp same)
    iterate 6
      split
      · next same => subst same; rfl
    next bmcr bmsr phyidr1 phyidr2 anar anlpar =>
      have hlow : 6 ≤ reg.toNat := by
        have := hother _ bmcr
        have := hother _ bmsr
        have := hother _ phyidr1
        have := hother _ phyidr2
        have := hother _ anar
        have := hother _ anlpar
        simp only [PHY_BMCR, PHY_BMSR, PHY_PHYIDR1, PHY_PHYIDR2, PHY_ANAR,
          PHY_ANLPAR, UInt32.reduceToNat] at *
        omega
      have hmask : (reg &&& 0x1f).toNat = reg.toNat :=
        (@Word.toNat_and_low 0x1f 5 _ rfl).trans (Nat.mod_eq_of_lt few)
      rw [phyRegisters_plain hlow few, hmask]
  · rw [if_pos own, if_neg own]

theorem miiReg_lt (val : UInt32) : (miiReg val).toNat < 32 := by
  rw [miiReg, @Word.toNat_and_low 0x1f 5 _ rfl]
  exact Nat.mod_lt _ (by decide)

/-- A command leaves what it has read where the driver looks for it. -/
theorem regRead_mdio {s : RegState} {val : UInt32} (command : MdioRead val) :
    regRead (regWrite s SMSC_MII_ADDR val) SMSC_MII_DATA =
      (held s (miiPhy val) (miiReg val)).toUInt32 := by
  obtain ⟨busy, kept⟩ := command
  have hwrite : regWrite s SMSC_MII_ADDR val = writeMiiAddr s val := rfl
  have hread : ∀ state, regRead state SMSC_MII_DATA =
      state.miiData &&& 0xffff := fun _ => rfl
  rw [hwrite, hread, writeMiiAddr, if_pos busy, if_neg (not_not.mpr kept)]
  exact (Word.toUInt32_and_mask _).trans (congrArg _ (phyRead_eq (miiReg_lt val)))

/-- Every address that a command can hold is one of the EEPROM. -/
theorem e2pAddr_lt (val : UInt32) : val &&& E2P_CMD_ADDR < SMSC_EEPROM_SIZE := by
  rw [UInt32.lt_iff_toNat_lt, @Word.toNat_and_low E2P_CMD_ADDR 9 _ rfl]
  exact Nat.mod_lt _ (by decide)

theorem regRead_eeprom {s : RegState} {val : UInt32} (command : EepromRead val) :
    regRead (regWrite s SMSC_E2P_CMD val) SMSC_E2P_DATA =
      (s.eeprom (val &&& E2P_CMD_ADDR).toNat).toUInt32 := by
  have hwrite : regWrite s SMSC_E2P_CMD val = writeE2pCmd s val := rfl
  have hread : ∀ state, regRead state SMSC_E2P_DATA = state.e2pData &&& 0xff :=
    fun _ => rfl
  obtain ⟨busy, read⟩ := command
  rw [hwrite, hread, writeE2pCmd, if_pos ⟨busy, read⟩, if_pos (e2pAddr_lt val)]
  exact Word.byte_toUInt32_and_mask _

/-- A soft reset touches neither the address nor what is behind the window. -/
structure SoftReset (s after : RegState) : Prop where
  addrl : regRead after SMSC_ADDRL = regRead s SMSC_ADDRL
  addrh : regRead after SMSC_ADDRH = regRead s SMSC_ADDRH
  eeprom : after.eeprom = s.eeprom
  phy : phyRegisters after = phyRegisters s ∧ after.phy = s.phy

theorem regWrite_soft {s : RegState} {val : UInt32}
    (reset : val &&& HW_CFG_LRST ≠ 0) :
    SoftReset s (regWrite s SMSC_HW_CFG val) := by
  have hwrite : regWrite s SMSC_HW_CFG val = liteReset s := by
    rw [regWrite_hwCfg, if_pos reset]
  have hreg : ∀ i, i ≠ SMSC_HW_CFG / 4 → i ≠ SMSC_TX_CFG / 4 →
      i ≠ SMSC_MAC_CR / 4 → i ≠ SMSC_INT_STS / 4 →
        (liteReset s).reg i = s.reg i := by
    intro i hwCfg txCfg macCr intSts
    unfold liteReset
    dsimp only
    rw [RegState.put_reg_other _ _ intSts, RegState.put_reg_other _ _ macCr,
      RegState.put_reg_other _ _ txCfg, RegState.put_reg_other _ _ hwCfg]
  rw [hwrite]
  refine ⟨?_, ?_, rfl, rfl, rfl⟩
  · exact hreg (SMSC_ADDRL / 4) (by decide) (by decide) (by decide) (by decide)
  · exact hreg (SMSC_ADDRH / 4) (by decide) (by decide) (by decide) (by decide)

/-- What a driver that polls the device relies on. -/
structure Prompt (s : RegState) : Prop where
  hwCfg : regRead s SMSC_HW_CFG &&& HW_CFG_LRST = 0
  pmCtrl : regRead s SMSC_PM_CTRL &&& PM_CTL_PHY_RST = 0
  e2pCmd : regRead s SMSC_E2P_CMD &&& (E2P_CMD_BUSY ||| E2P_CMD_TIMEOUT) = 0
  loaded : regRead s SMSC_E2P_CMD &&& E2P_CMD_LOADED = E2P_CMD_LOADED
  miiAddr : regRead s SMSC_MII_ADDR &&& MII_BUSY = 0
  bmcr : ∀ val, MdioRead val → miiPhy val = SMSC_PHY_ADDRESS →
    miiReg val = PHY_BMCR →
      regRead (regWrite s SMSC_MII_ADDR val) SMSC_MII_DATA &&&
        (BMCR_RESET ||| BMCR_NWAY_RESET).toUInt32 = 0
  mdio : ∀ val, MdioRead val →
    regRead (regWrite s SMSC_MII_ADDR val) SMSC_MII_DATA =
      (held s (miiPhy val) (miiReg val)).toUInt32
  eeprom : ∀ val, EepromRead val →
    regRead (regWrite s SMSC_E2P_CMD val) SMSC_E2P_DATA =
      (s.eeprom (val &&& E2P_CMD_ADDR).toNat).toUInt32
  soft : ∀ val, val &&& HW_CFG_LRST ≠ 0 →
    SoftReset s (regWrite s SMSC_HW_CFG val)

theorem SelfClear.prompt {s : RegState} (cleared : SelfClear s) : Prompt s where
  hwCfg := cleared.hwCfg
  pmCtrl := cleared.pmCtrl
  e2pCmd := Word.clear_or_and s.e2pCmd (by decide)
  loaded := Word.or_and_self _ E2P_CMD_LOADED
  miiAddr := Word.clear_and s.miiAddr MII_BUSY
  bmcr := by
    intro val command own bmcr
    rw [regRead_mdio command, own, bmcr]
    have hboth : s.bmcr &&& (BMCR_RESET ||| BMCR_NWAY_RESET) = 0 := by
      have hdistrib : s.bmcr &&& (BMCR_RESET ||| BMCR_NWAY_RESET) =
          s.bmcr &&& BMCR_RESET ||| s.bmcr &&& BMCR_NWAY_RESET :=
        UInt16.toBitVec_inj.mp BitVec.and_or_distrib_left
      rw [hdistrib, cleared.reset, cleared.restart, UInt16.or_self]
    show s.bmcr.toUInt32 &&& (BMCR_RESET ||| BMCR_NWAY_RESET).toUInt32 = 0
    rw [← UInt16.toUInt32_and, hboth]
    rfl
  mdio _ command := regRead_mdio command
  eeprom _ command := regRead_eeprom command
  soft _ reset := regWrite_soft reset

/--
In every state behind a reset, whatever has been written and read in whole
registers since, all that a driver waits for has already happened.
-/
theorem polls_end {s : RegState} {events : List RegEvent}
    (aligned : ∀ event ∈ events, event.Aligned) :
    Prompt (regRun (handleReset s) events) :=
  ((SelfClear.handleReset s).regRun aligned).prompt

/-- A device whose cable is out, before anything has been set up. -/
def unplugged : RegState :=
  ⟨true, fun _ => 0, fun _ => 0, 0, 0, 0, 0, fun _ => 0, 0, 0, fun _ => 0, 0, 0, 0,
    none, false⟩

/-- A driver resets the chip and its PHY, and begins to negotiate. -/
theorem polls_end_start :
    Prompt (regRun (handleReset unplugged)
      [.write SMSC_HW_CFG HW_CFG_LRST, .read SMSC_HW_CFG,
        .write SMSC_PM_CTRL PM_CTL_PHY_RST, .link false,
        .write SMSC_MII_DATA 0x1200,
        .write SMSC_MII_ADDR (0x800 ||| MII_WRITE ||| MII_BUSY)]) := by
  apply polls_end
  decide

/-! ## The EEPROM image -/

theorem regWrite_eeprom (s : RegState) (off : Nat) (val : UInt32) :
    (regWrite s off val).eeprom = s.eeprom := by
  have hphy : ∀ phy reg word, (phyWrite s phy reg word).eeprom = s.eeprom := by
    intro phy reg word
    unfold phyWrite
    split_ifs <;> rfl
  have hmii : (writeMiiAddr s val).eeprom = s.eeprom := by
    unfold writeMiiAddr
    dsimp only
    split_ifs
    · exact hphy _ _ _
    · rfl
    · rfl
  by_cases hwCfg : off = SMSC_HW_CFG
  · rw [hwCfg, regWrite_hwCfg]
    split <;> rfl
  by_cases pmCtrl : off = SMSC_PM_CTRL
  · rw [pmCtrl, regWrite_pmCtrl]
    split <;> rfl
  have hwritten := @regWrite_written s off val hwCfg pmCtrl
  generalize regWrite s off val = next at hwritten ⊢
  cases hwritten with
  | put value => rfl
  | miiAddr => exact hmii
  | data e2pCmd e2pData miiData => rfl

theorem regRun_eeprom (s : RegState) (events : List RegEvent) :
    (regRun s events).eeprom = s.eeprom := by
  induction events generalizing s with
  | nil => rfl
  | cons event events ih =>
      refine (ih (regStep s event)).trans ?_
      cases event with
      | write off val => exact regWrite_eeprom s off val
      | read off => rfl
      | reset => rfl
      | link down => rfl

/-- Whatever has been done to it, the EEPROM publishes the address. -/
theorem eeprom_published (s : RegState) (events : List RegEvent) :
    (regRun (realize s) events).eeprom.bytes 0 7 =
      SMSC_EEPROM_SIGNATURE :: s.macaddr.bytes 0 6 := by
  rw [regRun_eeprom]
  show (eepromImage s.macaddr).bytes 0 (1 + 6) = _
  have hsignature := Memory.bytes_store_same (fun _ => 0xff) 0
    [SMSC_EEPROM_SIGNATURE]
  have haddress := Memory.bytes_store_same
    (Memory.store (fun _ => 0xff) 0 [SMSC_EEPROM_SIGNATURE]) 1
    (s.macaddr.bytes 0 6)
  rw [Memory.bytes_length] at haddress
  rw [Memory.bytes_append, eepromImage, Memory.bytes_store_apart (Or.inl (by decide))]
  exact congrArg₂ (· ++ ·) hsignature haddress

end RiscosBuilder.Usb
