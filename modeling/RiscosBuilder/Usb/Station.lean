import RiscosBuilder.Usb.FlushPending

/-!
# The station

What the register window is for on the receiving side: the address that the
host has programmed, byte by byte, and the mode in `SMSC_MAC_CR`.  The device
accepts the frames that are meant for this station, and no other.
-/

namespace RiscosBuilder.Usb

open RiscosBuilder.Library RiscosBuilder.Library.ByteImage

/-- The station, as what the host has written makes it. -/
structure Station where
  macCr : UInt32
  address : List UInt8
  deriving DecidableEq, Repr

namespace Station

/-- Four bytes are written to a register. -/
def write (station : Station) (off : Nat) (bytes : List UInt8) : Station :=
  if off = SMSC_MAC_CR then
    { station with macCr := UInt32.ofNat (leWord bytes) }
  else if off = SMSC_ADDRL then
    { station with address := bytes ++ station.address.drop 4 }
  else if off = SMSC_ADDRH then
    { station with address := station.address.take 4 ++ bytes.take 2 }
  else if off = SMSC_HW_CFG ∧
      UInt32.ofNat (leWord bytes) &&& HW_CFG_LRST ≠ 0 then
    { station with macCr := 0 }
  else station

/-- An event; the device's own address is `mac`. -/
def after (mac : List UInt8) (station : Station) (label : Label) : Station :=
  match label.1 with
  | .control .vendorDeviceOutRequest request index length data =>
      if request = SMSC_REQ_WRITE_REGISTER ∧ 4 ≤ length then
        station.write (index % SMSC_REG_WINDOW) (data.take 4)
      else station
  | .reset => ⟨0, mac⟩
  | _ => station

/-- The station behind a run that begins with a reset. -/
def behind (mac : List UInt8) (labels : List Label) : Station :=
  labels.foldl (Station.after mac) ⟨0, mac⟩

/-- The frame is meant for the station. -/
def Wants (station : Station) (frame : List UInt8) : Prop :=
  station.macCr &&& MAC_CR_PRMS ≠ 0 ∨
    frame.take 6 = List.replicate 6 0xff ∨
    (frame.headD 0 &&& 0x01 ≠ 0 ∧ station.macCr &&& MAC_CR_MCPAS ≠ 0) ∨
    (frame.headD 0 &&& 0x01 = 0 ∧ frame.take 6 = station.address)

end Station

/-- Registers are written whole, from a buffer that holds the data stage. -/
def Label.Whole (label : Label) : Prop :=
  match label.1 with
  | .control .vendorDeviceOutRequest _ index length data =>
      index % SMSC_REG_WINDOW % 4 = 0 ∧ length ≤ data.length
  | _ => True

/-- The address in the two registers. -/
def addressBytes (reg : Nat → UInt32) : List UInt8 :=
  leBytes 4 (reg (SMSC_ADDRL / 4)).toNat ++
    leBytes 2 (reg (SMSC_ADDRH / 4) &&& 0xffff).toNat

/-- The registers hold the station. -/
structure Tuned (station : Station) (d : Device) : Prop where
  macCr : d.reg (SMSC_MAC_CR / 4) = station.macCr
  address : addressBytes d.reg = station.address

/-! ## One register write -/

theorem leBytes_two_mod (value : Nat) :
    leBytes 2 (value % 2 ^ 16) = leBytes 2 value := by
  have hlow : value % 2 ^ 16 % 256 = value % 256 := by omega
  have hhigh : value % 2 ^ 16 / 256 % 256 = value / 256 % 256 := by omega
  simp only [leBytes, hlow, hhigh]

theorem toNat_leWord {bytes : List UInt8} (four : bytes.length ≤ 4) :
    (UInt32.ofNat (leWord bytes)).toNat = leWord bytes := by
  have hlt := leWord_lt bytes
  have hpow : 256 ^ bytes.length ≤ 256 ^ 4 :=
    Nat.pow_le_pow_right (by decide) four
  exact UInt32.toNat_ofNat_of_lt' (Nat.lt_of_lt_of_le hlt hpow)

theorem addressBytes_congr {first second : Nat → UInt32}
    (low : first (SMSC_ADDRL / 4) = second (SMSC_ADDRL / 4))
    (high : first (SMSC_ADDRH / 4) = second (SMSC_ADDRH / 4)) :
    addressBytes first = addressBytes second := by
  rw [addressBytes, low, high, addressBytes]

/-- The two halves of an address. -/
theorem addressBytes_parts (reg : Nat → UInt32) :
    (addressBytes reg).take 4 = leBytes 4 (reg (SMSC_ADDRL / 4)).toNat ∧
      (addressBytes reg).drop 4 =
        leBytes 2 (reg (SMSC_ADDRH / 4) &&& 0xffff).toNat :=
  ⟨List.take_left' (leBytes_length 4 _), List.drop_left' (leBytes_length 4 _)⟩

theorem leBytes_ofNat_leWord {bytes : List UInt8} (four : bytes.length = 4) :
    leBytes 4 (UInt32.ofNat (leWord bytes)).toNat = bytes := by
  rw [toNat_leWord four.le, leBytes_leWord four.ge, List.take_of_length_le four.le]

theorem leBytes_low {bytes : List UInt8} (two : 2 ≤ bytes.length)
    (four : bytes.length ≤ 4) :
    leBytes 2 (UInt32.ofNat (leWord bytes) &&& 0xffff).toNat =
      bytes.take 2 := by
  rw [@Word.toNat_and_low 0xffff 16 _ rfl, toNat_leWord four, leBytes_two_mod,
    leBytes_leWord two]

/-- The registers still hold the station behind a write to one of them. -/
theorem Tuned.write {station : Station} {d : Device} (tuned : Tuned station d)
    {off : Nat} (whole : off % 4 = 0) {bytes : List UInt8}
    (four : bytes.length = 4) :
    Tuned (station.write off bytes)
      (d.regWrite off (UInt32.ofNat (leWord bytes))).1 := by
  obtain ⟨hmacCr, haddress⟩ := tuned
  obtain ⟨hlow, hhigh⟩ := addressBytes_parts d.reg
  rw [haddress] at hlow hhigh
  -- Of an aligned register that is not written, the word is kept.
  have hother : ∀ place, place ≠ off → place % 4 = 0 → place / 4 ≠ off / 4 := by
    omega
  obtain ⟨rfl, hresets, hreset⟩ | ⟨hplain, hkept⟩ :=
    regWrite_kept d.regs off (UInt32.ofNat (leWord bytes))
  · have hstation : station.write SMSC_HW_CFG bytes =
        { station with macCr := 0 } := by
      rw [Station.write, if_neg (by decide), if_neg (by decide),
        if_neg (by decide), if_pos ⟨rfl, hresets⟩]
    rw [hstation]
    refine ⟨?_, haddress ▸ ?_⟩
    · simp only [Device.regWrite, Device.putRegs, hreset]
      rfl
    · simp only [Device.regWrite, Device.putRegs, hreset]
      exact addressBytes_congr rfl rfl
  have hkeep : ∀ i, i ≠ off / 4 →
      (d.regWrite off (UInt32.ofNat (leWord bytes))).1.reg i = d.reg i :=
    hkept.reg
  by_cases macCr : off = SMSC_MAC_CR
  · subst macCr
    refine ⟨?_, ?_⟩
    · simp only [Station.write, if_true]
      exact RegState.put_reg_same d.regs SMSC_MAC_CR _
    · simp only [Station.write, if_true]
      rw [← haddress]
      exact addressBytes_congr (hkeep (SMSC_ADDRL / 4) (by decide))
        (hkeep (SMSC_ADDRH / 4) (by decide))
  by_cases addrl : off = SMSC_ADDRL
  · subst addrl
    have hstation : station.write SMSC_ADDRL bytes =
        { station with address := bytes ++ station.address.drop 4 } := by
      rw [Station.write, if_neg (by decide), if_pos rfl]
    rw [hstation]
    refine ⟨(hkeep (SMSC_MAC_CR / 4) (by decide)).trans hmacCr, ?_⟩
    have hword : (d.regWrite SMSC_ADDRL (UInt32.ofNat (leWord bytes))).1.reg
        (SMSC_ADDRL / 4) = UInt32.ofNat (leWord bytes) :=
      RegState.put_reg_same d.regs SMSC_ADDRL _
    have hsame := hkeep (SMSC_ADDRH / 4) (by decide)
    rw [addressBytes, hword, hsame, leBytes_ofNat_leWord four, hhigh]
  by_cases addrh : off = SMSC_ADDRH
  · subst addrh
    have hstation : station.write SMSC_ADDRH bytes =
        { station with address := station.address.take 4 ++ bytes.take 2 } := by
      rw [Station.write, if_neg (by decide), if_neg (by decide), if_pos rfl]
    rw [hstation]
    refine ⟨(hkeep (SMSC_MAC_CR / 4) (by decide)).trans hmacCr, ?_⟩
    have hword : (d.regWrite SMSC_ADDRH (UInt32.ofNat (leWord bytes))).1.reg
        (SMSC_ADDRH / 4) = UInt32.ofNat (leWord bytes) :=
      RegState.put_reg_same d.regs SMSC_ADDRH _
    have hsame := hkeep (SMSC_ADDRL / 4) (by decide)
    rw [addressBytes, hword, hsame, leBytes_low (by omega) four.le, hlow]
  · have hstation : station.write off bytes = station := by
      rw [Station.write, if_neg macCr, if_neg addrl, if_neg addrh,
        if_neg fun both => both.2 (hplain both.1)]
    rw [hstation]
    refine ⟨(hkeep _ (hother _ (Ne.symm macCr) rfl)).trans hmacCr, ?_⟩
    rw [← haddress]
    exact addressBytes_congr (hkeep _ (hother _ (Ne.symm addrl) rfl))
      (hkeep _ (hother _ (Ne.symm addrh) rfl))

/-- A reset seeds the registers with the device's own address. -/
theorem tuned_handleReset (d : Device) :
    Tuned ⟨0, d.macaddr.bytes 0 6⟩ (d.putRegs (handleReset d.regs)) := by
  refine ⟨rfl, ?_⟩
  have hlow : (d.putRegs (handleReset d.regs)).reg (SMSC_ADDRL / 4) =
      UInt32.ofNat (leWord (d.macaddr.bytes 0 4)) := rfl
  have hhigh : (d.putRegs (handleReset d.regs)).reg (SMSC_ADDRH / 4) =
      UInt32.ofNat (leWord (d.macaddr.bytes 4 2)) := rfl
  rw [addressBytes, hlow, hhigh,
    leBytes_ofNat_leWord (Memory.bytes_length _ _ _),
    leBytes_low (Memory.bytes_length _ _ _).ge (by simp),
    List.take_of_length_le (by simp)]
  exact (Memory.bytes_append d.macaddr 0 4 2).symm

/-! ## A run -/

/-- What is not a register keeps the registers. -/
structure RegsKept (d after : Device) : Prop where
  reg : after.reg = d.reg
  macaddr : after.macaddr = d.macaddr

theorem RegsKept.tuned {station : Station} {d after : Device}
    (kept : RegsKept d after) (tuned : Tuned station d) :
    Tuned station after :=
  ⟨kept.reg ▸ tuned.macCr, kept.reg ▸ tuned.address⟩

theorem receive_regsKept (d : Device) (frame : List UInt8) :
    RegsKept d (d.receive frame).1 := by
  refine ⟨?_, rfl⟩
  show (receive d.rx frame).1.reg = d.reg
  obtain ⟨_, -, -, hrefused⟩ | ⟨-, -, -, ⟨-, hstored⟩ | ⟨p, -, hpassed⟩⟩ :=
    receive_cases d.rx frame
  · rw [hrefused]
    rfl
  · rw [hstored]
    rfl
  · rw [hpassed]
    exact (bulkIn_spec_state _ p).reg

theorem handleData_regsKept {fuel : Nat} {d after : Device} {pid : Token}
    {ep : Nat} {packet : USBPacket} {bytes : List UInt8}
    {outs : List DeviceOutput}
    (step : handleData fuel d pid ep packet bytes = some (after, outs)) :
    RegsKept d after := by
  unfold handleData at step
  cases pid with
  | setup =>
      obtain ⟨rfl, rfl⟩ := Prod.mk.inj (Option.some.inj step)
      exact ⟨rfl, rfl⟩
  | tokenOut =>
      dsimp only at step
      split at step
      · obtain ⟨⟨s, sent⟩, hsent, same⟩ := Option.map_eq_some_iff.mp step
        obtain ⟨rfl, rfl⟩ := Prod.mk.inj same
        exact ⟨bulkOut_reg hsent, rfl⟩
      · obtain ⟨rfl, rfl⟩ := Prod.mk.inj (Option.some.inj step)
        exact ⟨rfl, rfl⟩
  | tokenIn =>
      dsimp only at step
      split at step
      · rw [handleDataIn_eq] at step
        obtain ⟨rfl, rfl⟩ := Prod.mk.inj (Option.some.inj step)
        exact ⟨(bulkIn_spec_state d.rx packet).reg, rfl⟩
      · split at step
        · obtain ⟨rfl, rfl⟩ := Prod.mk.inj (Option.some.inj step)
          exact ⟨rfl, rfl⟩
        · obtain ⟨rfl, rfl⟩ := Prod.mk.inj (Option.some.inj step)
          exact ⟨rfl, rfl⟩

/-- A register write does not change the device's own address. -/
theorem regWrite_macaddr (d : Device) (off : Nat) (val : UInt32) :
    (d.regWrite off val).1.macaddr = d.macaddr := by
  show (regWrite d.regs off val).macaddr = d.regs.macaddr
  obtain ⟨-, -, hreset⟩ | ⟨-, hkept⟩ := regWrite_kept d.regs off val
  · rw [hreset]
    rfl
  · exact hkept.macaddr

/-- A control transfer writes a register, or leaves the device as it is. -/
theorem handleControl_device (d : Device) (type : RequestType)
    (request index length : Nat) (data : List UInt8) :
    (handleControl d type request index length data).1 =
      if type = .vendorDeviceOutRequest ∧ request = SMSC_REQ_WRITE_REGISTER ∧
          4 ≤ length then
        (d.regWrite (index % SMSC_REG_WINDOW)
          (UInt32.ofNat (leWord (data.take 4)))).1
      else d := by
  unfold handleControl
  cases type with
  | vendorDeviceOutRequest =>
      by_cases writes : request = SMSC_REQ_WRITE_REGISTER
      · by_cases whole : 4 ≤ length
        · simp [writes, whole]
        · simp [writes, whole]
      · simp [writes]
  | endpointRequest => simp only [reduceCtorEq, false_and, if_false]; split <;> rfl
  | endpointOutRequest =>
      simp only [reduceCtorEq, false_and, if_false]; split <;> rfl
  | vendorDeviceRequest =>
      simp only [reduceCtorEq, false_and, if_false]; split <;> rfl
  | other => simp

theorem Tuned.step {station : Station} {d after : Device} {label : Label}
    (tuned : Tuned station d) (whole : label.Whole)
    (steps : DeviceSteps d label after) :
    Tuned (station.after (d.macaddr.bytes 0 6) label) after ∧
      after.macaddr = d.macaddr := by
  obtain ⟨event, outs⟩ := label
  obtain ⟨fuel, steps⟩ := steps
  have hkept : RegsKept d after →
      station.after (d.macaddr.bytes 0 6) (event, outs) = station →
      Tuned (station.after (d.macaddr.bytes 0 6) (event, outs)) after ∧
        after.macaddr = d.macaddr := by
    intro kept same
    rw [same]
    exact ⟨kept.tuned tuned, kept.macaddr⟩
  cases event with
  | control type request index length data =>
      have hsteps : handleControl d type request index length data =
          (after, outs) := Option.some.inj steps
      have hafter := handleControl_device d type request index length data
      rw [hsteps] at hafter
      simp only at hafter
      by_cases writes : type = .vendorDeviceOutRequest ∧
          request = SMSC_REQ_WRITE_REGISTER ∧ 4 ≤ length
      · rw [if_pos writes] at hafter
        obtain ⟨rfl, hwrite⟩ := writes
        have hfour : (data.take 4).length = 4 := by
          rw [List.length_take]
          have hlength := whole.2
          omega
        have hstation : station.after (d.macaddr.bytes 0 6)
            (.control .vendorDeviceOutRequest request index length data, outs) =
              station.write (index % SMSC_REG_WINDOW) (data.take 4) :=
          if_pos hwrite
        rw [hstation, hafter]
        exact ⟨tuned.write whole.1 hfour, regWrite_macaddr d _ _⟩
      · rw [if_neg writes] at hafter
        subst hafter
        refine hkept ⟨rfl, rfl⟩ ?_
        unfold Station.after
        split
        · next same =>
            obtain ⟨rfl, rfl, rfl, rfl, rfl⟩ := DeviceEvent.control.inj same
            exact if_neg fun both => writes ⟨rfl, both⟩
        · next same => cases same
        · rfl
  | setConfiguration config =>
      obtain ⟨rfl, rfl⟩ := Prod.mk.inj (Option.some.inj steps)
      exact hkept ⟨rfl, rfl⟩ rfl
  | data pid ep packet bytes => exact hkept (handleData_regsKept steps) rfl
  | cancel packet =>
      obtain ⟨rfl, rfl⟩ := Prod.mk.inj (Option.some.inj steps)
      refine hkept ⟨?_, rfl⟩ rfl
      simp only [Device.putRx, cancelPacket]
      split <;> rfl
  | reset =>
      obtain ⟨rfl, rfl⟩ := Prod.mk.inj (Option.some.inj steps)
      exact ⟨tuned_handleReset d, rfl⟩
  | canReceive =>
      obtain ⟨rfl, rfl⟩ := Prod.mk.inj (Option.some.inj steps)
      exact hkept ⟨rfl, rfl⟩ rfl
  | receive frame =>
      have hsteps : d.receive frame = (after, outs) := Option.some.inj steps
      have hregs := receive_regsKept d frame
      rw [hsteps] at hregs
      exact hkept hregs rfl
  | link down =>
      obtain ⟨rfl, rfl⟩ := Prod.mk.inj (Option.some.inj steps)
      exact hkept ⟨rfl, rfl⟩ rfl

/-! ## The frames that are accepted -/

/-- The device takes the frame: it may receive, and the station wants it. -/
def Takes (station : Station) (config : Bool) (frame : List UInt8) : Prop :=
  config = true ∧ station.macCr &&& MAC_CR_RXEN ≠ 0 ∧ 14 ≤ frame.length ∧
    frame.length ≤ 1514 ∧ station.Wants frame

theorem Tuned.filterAccept_iff {station : Station} {d : Device}
    (tuned : Tuned station d) (frame : List UInt8) :
    filterAccept d.rx frame = true ↔ station.Wants frame := by
  have hmacCr : d.rx.reg (SMSC_MAC_CR / 4) = station.macCr := tuned.macCr
  have haddress : leBytes 4 (d.rx.reg (SMSC_ADDRL / 4)).toNat ++
      leBytes 2 (d.rx.reg (SMSC_ADDRH / 4) &&& 0xffff).toNat =
        station.address := tuned.address
  unfold filterAccept Station.Wants
  rw [hmacCr, haddress]
  dsimp only
  by_cases promiscuous : station.macCr &&& MAC_CR_PRMS = 0
  · rw [if_neg (not_not_intro promiscuous)]
    by_cases group : frame.headD 0 &&& 0x01 = 0
    · have hnot : frame.take 6 ≠ List.replicate 6 0xff := by
        intro broadcast
        cases frame with
        | nil => simp at broadcast
        | cons byte frame =>
            rw [List.take_succ_cons, List.replicate_succ,
              List.cons.injEq] at broadcast
            rw [List.headD_cons, broadcast.1] at group
            exact absurd group (by decide)
      simp only [promiscuous, group, hnot, ne_eq, not_true_eq_false, if_false,
        decide_eq_true_eq, false_and, true_and, false_or]
    · by_cases broadcast : frame.take 6 = List.replicate 6 0xff
      · rw [if_pos group, if_pos broadcast]
        simp only [broadcast, true_or, or_true]
      · rw [if_pos group, if_neg broadcast]
        simp only [promiscuous, group, broadcast, ne_eq, not_true_eq_false,
          not_false_eq_true, decide_not, Bool.not_eq_true', decide_eq_false_iff_not,
          false_and, true_and, false_or, or_false]
  · simp [promiscuous]

/-- A frame is dropped, refused or stored. -/
theorem Tuned.receive_eq {station : Station} {d : Device}
    (tuned : Tuned station d) (frame : List UInt8) :
    (¬ Takes station d.config frame ∧ (d.receive frame).2 = [.dropped frame]) ∨
      (Takes station d.config frame ∧ d.inLen ≠ 0 ∧
        (d.receive frame).2 = [.refused]) ∨
      (Takes station d.config frame ∧ d.inLen = 0 ∧
        .accepted frame ∈ (d.receive frame).2 ∧
        .refused ∉ (d.receive frame).2 ∧
        .dropped frame ∉ (d.receive frame).2) := by
  have hmacCr : d.rx.reg (SMSC_MAC_CR / 4) = station.macCr := tuned.macCr
  have hfilter := tuned.filterAccept_iff frame
  have hmin : SMSC_MIN_FRAME.toNat = 14 := rfl
  have hmax : SMSC_MAX_FRAME.toNat = 1514 := rfl
  have hanswer : ∀ answer : Answer, .refused ∉ answer.outputs ∧
      .dropped frame ∉ answer.outputs := by
    intro answer
    unfold Answer.outputs
    split <;> simp
  unfold Device.receive Usb.receive Takes
  rw [hmacCr, hmin, hmax]
  by_cases disabled : d.rx.config = false ∨ station.macCr &&& MAC_CR_RXEN = 0
  · rw [if_pos disabled]
    refine Or.inl ⟨?_, rfl⟩
    rintro ⟨hconfig, hreceives, -⟩
    rcases disabled with unconfigured | stopped
    · exact absurd (hconfig.symm.trans unconfigured) (by decide)
    · exact hreceives stopped
  rw [if_neg disabled]
  rw [not_or, Bool.not_eq_false] at disabled
  by_cases size : frame.length < 14 ∨ 1514 < frame.length
  · rw [if_pos size]
    exact Or.inl ⟨by omega, rfl⟩
  rw [if_neg size]
  by_cases filtered : filterAccept d.rx frame = false
  · rw [if_pos filtered]
    refine Or.inl ⟨fun takes => ?_, rfl⟩
    rw [hfilter.mpr takes.2.2.2.2] at filtered
    exact Bool.noConfusion filtered
  rw [if_neg filtered]
  rw [Bool.not_eq_false] at filtered
  have htakes : d.config = true ∧ station.macCr &&& MAC_CR_RXEN ≠ 0 ∧
      14 ≤ frame.length ∧ frame.length ≤ 1514 ∧ station.Wants frame :=
    ⟨disabled.1, disabled.2, by omega, by omega, hfilter.mp filtered⟩
  have hblock : (rxBlockLength frame.length).toNat ≤ SMSC_BUF_SIZE := by
    rw [rxBlockLength_toNat (by omega), SMSC_BUF_SIZE]
    omega
  by_cases held : d.rx.inLen = 0
  · have hroom : ¬ (d.rx.inLen ≠ 0 ∨
        (rxBlockLength frame.length).toNat > SMSC_BUF_SIZE) := by
      rw [not_or]
      exact ⟨not_not_intro held, Nat.not_lt.mpr hblock⟩
    have hpositive : ¬ (frame.length : Int) = -1 ∧
        ¬ (frame.length : Int) = 0 := by
      omega
    refine Or.inr (Or.inr ⟨htakes, held, ?_⟩)
    rw [if_neg hroom]
    cases parked : (storeFrame d.rx frame).inPkt with
    | none =>
        dsimp only
        rw [parked]
        dsimp only
        rw [if_neg hpositive.1, if_neg hpositive.2]
        simp
    | some p =>
        dsimp only
        rw [parked]
        dsimp only
        rw [if_neg hpositive.1, if_neg hpositive.2]
        simpa using hanswer _
  · rw [if_pos (Or.inl held)]
    exact Or.inr (Or.inl ⟨htakes, held, rfl⟩)

/--
From a reset on, whatever happens, a frame that comes is accepted just if the
station that the host has programmed wants it and there is room; it is refused
just if there is none, and otherwise dropped.
-/
theorem station_receives (d : Device) {labels : List Label} {after : Device}
    (trace : Trace DeviceSteps (d.putRegs (handleReset d.regs)) labels after)
    (whole : ∀ label ∈ labels, label.Whole) (frame : List UInt8) :
    (.accepted frame ∈ (after.receive frame).2 ↔
        Takes (.behind (d.macaddr.bytes 0 6) labels) after.config frame ∧
          after.inLen = 0) ∧
      (.refused ∈ (after.receive frame).2 ↔
        Takes (.behind (d.macaddr.bytes 0 6) labels) after.config frame ∧
          after.inLen ≠ 0) ∧
      (.dropped frame ∈ (after.receive frame).2 ↔
        ¬ Takes (.behind (d.macaddr.bytes 0 6) labels) after.config
          frame) := by
  have hmeets : Meets DeviceSteps (d.putRegs (handleReset d.regs)) labels
      fun _ label => label.Whole := by
    rintro front label state ⟨rest, same⟩ -
    exact whole label (by rw [← same]; simp)
  obtain ⟨-, htuned⟩ := trace.invariant_of_meets
    (P := fun labels after => after.macaddr = d.macaddr ∧
      Tuned (.behind (d.macaddr.bytes 0 6) labels) after)
    ⟨rfl, tuned_handleReset d⟩
    (fun labels state label next holds hlabel steps => by
      obtain ⟨hmac, htuned⟩ := holds
      obtain ⟨hnext, hsame⟩ := htuned.step hlabel steps
      rw [hmac] at hnext
      rw [Station.behind, List.foldl_append]
      exact ⟨hsame.trans hmac, hnext⟩) hmeets
  obtain ⟨hnot, houts⟩ | ⟨htakes, hheld, houts⟩ |
    ⟨htakes, hempty, haccepted, hrefused, hdropped⟩ := htuned.receive_eq frame
  · rw [houts]
    simp [hnot]
  · rw [houts]
    simp [htakes, hheld]
  · simp [htakes, hempty, haccepted, hrefused, hdropped]

/-- The host lets the device receive, and nothing else. -/
def listenLabels : List Label :=
  [(.control .vendorDeviceOutRequest SMSC_REQ_WRITE_REGISTER SMSC_MAC_CR 4
    (leBytes 4 MAC_CR_RXEN.toNat),
    [.flushQueuedPackets, .controlled .success []])]

/-- The device then, and a frame for everybody. -/
def tuned : Device :=
  ((silent.putRegs (handleReset silent.regs)).regWrite SMSC_MAC_CR
    MAC_CR_RXEN).1

def broadcast : List UInt8 :=
  List.replicate 14 0xff

theorem station_receives_broadcast :
    (.accepted broadcast ∈ (tuned.receive broadcast).2 ↔
        Takes (.behind (silent.macaddr.bytes 0 6) listenLabels) tuned.config
          broadcast ∧ tuned.inLen = 0) ∧
      (.refused ∈ (tuned.receive broadcast).2 ↔
        Takes (.behind (silent.macaddr.bytes 0 6) listenLabels) tuned.config
          broadcast ∧ tuned.inLen ≠ 0) ∧
      (.dropped broadcast ∈ (tuned.receive broadcast).2 ↔
        ¬ Takes (.behind (silent.macaddr.bytes 0 6) listenLabels) tuned.config
          broadcast) := by
  have hlistens : DeviceSteps (silent.putRegs (handleReset silent.regs))
      (.control .vendorDeviceOutRequest SMSC_REQ_WRITE_REGISTER SMSC_MAC_CR 4
        (leBytes 4 MAC_CR_RXEN.toNat),
        [.flushQueuedPackets, .controlled .success []]) tuned := ⟨0, rfl⟩
  refine @station_receives silent listenLabels tuned (Trace.single hlistens)
    ?_ broadcast
  intro label member
  rw [listenLabels, List.mem_singleton] at member
  subst member
  exact ⟨rfl, by decide⟩

end RiscosBuilder.Usb
