import RiscosBuilder.Usb.Device
import RiscosBuilder.Usb.HostPackets
import RiscosBuilder.Usb.Polls

/-!
# The backend is restarted

A frame that the device refuses waits until the backend is restarted.  Whatever
makes the device able to receive again restarts it, and `smsc_receive`, which
must not be entered a second time, never does.
-/

namespace RiscosBuilder.Usb

open RiscosBuilder.Library RiscosBuilder.Library.ByteImage

/-! ## What one call can do -/

/-- What a register write leaves of the state, apart from its own register. -/
structure RegKept (s : RegState) (off : Nat) (next : RegState) : Prop where
  reg : ∀ i, i ≠ off / 4 → next.reg i = s.reg i
  macaddr : next.macaddr = s.macaddr
  inLen : next.inLen = s.inLen
  inPkt : next.inPkt = s.inPkt

namespace RegKept

variable {s : RegState} {off : Nat}

theorem put {state : RegState} (kept : RegKept s off state) (value : UInt32) :
    RegKept s off (state.put off value) where
  reg i other := (state.put_reg_other value other).trans (kept.reg i other)
  macaddr := kept.macaddr
  inLen := kept.inLen
  inPkt := kept.inPkt

theorem refl (s : RegState) (off : Nat) : RegKept s off s :=
  ⟨fun _ _ => rfl, rfl, rfl, rfl⟩

theorem phyReset (s : RegState) (off : Nat) :
    RegKept s off (phyReset s) :=
  ⟨fun _ _ => rfl, rfl, rfl, rfl⟩

theorem phyWrite (s : RegState) (off : Nat) (phy reg : UInt32) (word : UInt16) :
    RegKept s off (phyWrite s phy reg word) := by
  unfold Usb.phyWrite
  split_ifs
  · exact refl s off
  · exact phyReset s off
  · exact ⟨fun _ _ => rfl, rfl, rfl, rfl⟩
  · exact refl s off
  · exact ⟨fun _ _ => rfl, rfl, rfl, rfl⟩
  · exact ⟨fun _ _ => rfl, rfl, rfl, rfl⟩

theorem writeMiiAddr (s : RegState) (off : Nat) (val : UInt32) :
    RegKept s off (writeMiiAddr s val) := by
  unfold Usb.writeMiiAddr
  dsimp only
  split_ifs
  · obtain ⟨hreg, hmac, hlen, hpkt⟩ := phyWrite s off (miiPhy val) (miiReg val)
      (s.miiData &&& 0xffff).toUInt16
    exact ⟨hreg, hmac, hlen, hpkt⟩
  · exact ⟨fun _ _ => rfl, rfl, rfl, rfl⟩
  · exact ⟨fun _ _ => rfl, rfl, rfl, rfl⟩

end RegKept

/-- A register write is a soft reset, or keeps what does not concern it. -/
theorem regWrite_kept (s : RegState) (off : Nat) (val : UInt32) :
    (off = SMSC_HW_CFG ∧ val &&& HW_CFG_LRST ≠ 0 ∧
        regWrite s off val = liteReset s) ∨
      ((off = SMSC_HW_CFG → val &&& HW_CFG_LRST = 0) ∧
        RegKept s off (regWrite s off val)) := by
  by_cases hwCfg : off = SMSC_HW_CFG
  · subst hwCfg
    rw [regWrite_hwCfg]
    by_cases resets : val &&& HW_CFG_LRST = 0
    · rw [if_neg (not_not_intro resets)]
      exact Or.inr ⟨fun _ => resets, (RegKept.refl s _).put _⟩
    · rw [if_pos resets]
      exact Or.inl ⟨rfl, resets, rfl⟩
  refine Or.inr ⟨fun same => absurd same hwCfg, ?_⟩
  by_cases pmCtrl : off = SMSC_PM_CTRL
  · subst pmCtrl
    rw [regWrite_pmCtrl]
    split
    · exact (RegKept.phyReset s _).put _
    · exact (RegKept.refl s _).put _
  have hwritten := @regWrite_written s off val hwCfg pmCtrl
  generalize regWrite s off val = next at hwritten ⊢
  cases hwritten with
  | put value => exact (RegKept.refl s off).put value
  | miiAddr => exact RegKept.writeMiiAddr s off val
  | data e2pCmd e2pData miiData => exact ⟨fun _ _ => rfl, rfl, rfl, rfl⟩

/-- A register write does not touch the parked packet. -/
theorem regWrite_inPkt (s : RegState) (off : Nat) (val : UInt32) :
    (regWrite s off val).inPkt = s.inPkt := by
  obtain ⟨-, -, hreset⟩ | ⟨-, hkept⟩ := regWrite_kept s off val
  · rw [hreset]
    rfl
  · exact hkept.inPkt

/-- Writes to the other registers disable reception, or do not concern it. -/
theorem regWrite_macCr {s : RegState} {off : Nat} {val : UInt32}
    (whole : off % 4 = 0) (other : off ≠ SMSC_MAC_CR) :
    (regWrite s off val).reg (SMSC_MAC_CR / 4) = 0 ∨
      ((regWrite s off val).reg (SMSC_MAC_CR / 4) =
          s.reg (SMSC_MAC_CR / 4) ∧
        (regWrite s off val).inLen = s.inLen) := by
  have hplace : SMSC_MAC_CR / 4 ≠ off / 4 := by
    unfold SMSC_MAC_CR at *
    omega
  obtain ⟨-, -, hreset⟩ | ⟨-, hkept⟩ := regWrite_kept s off val
  · rw [hreset]
    exact Or.inl rfl
  · exact Or.inr ⟨hkept.reg _ hplace, hkept.inLen⟩

/-- At `SMSC_MAC_CR` the word is stored as it is. -/
theorem regWrite_at_macCr (s : RegState) (val : UInt32) :
    regWrite s SMSC_MAC_CR val = s.put SMSC_MAC_CR val :=
  rfl

/-! ## Frames that wait -/

/-- A frame is refused, or the backend is restarted. -/
def backlogAfter (waiting : Bool) : DeviceOutput → Bool
  | .refused => true
  | .flushQueuedPackets => false
  | _ => waiting

/-- A frame has been refused, and the backend has not been restarted since. -/
def backlog (outputs : List DeviceOutput) : Bool :=
  outputs.foldl backlogAfter false

/--
Registers are written whole, and the device is configured before it is made to
receive.
-/
def Orderly (d : Device) (label : Label) : Prop :=
  match label.1 with
  | .control .vendorDeviceOutRequest _ index _ _ =>
      index % SMSC_REG_WINDOW % 4 = 0
  | .setConfiguration true => d.reg (SMSC_MAC_CR / 4) &&& MAC_CR_RXEN = 0
  | _ => True

/-- What waits could not be received. -/
def Restarts (waiting : Bool) (d : Device) : Prop :=
  waiting = true → ¬ canReceive d.rx = true

theorem canReceive_iff (s : RxState) :
    canReceive s = true ↔ s.config = true ∧
      s.reg (SMSC_MAC_CR / 4) &&& MAC_CR_RXEN ≠ 0 ∧ s.inLen = 0 := by
  simp only [canReceive, Bool.and_eq_true, decide_eq_true_eq, and_assoc]

/-- What does not concern reception leaves it as it was. -/
theorem Restarts.of_same {waiting : Bool} {d after : Device}
    (holds : Restarts waiting d) (same : after.rx = d.rx) :
    Restarts waiting after := by
  unfold Restarts
  rw [same]
  exact holds

theorem foldl_backlogAfter {outs : List DeviceOutput}
    (plain : ∀ out ∈ outs, ∀ waiting, backlogAfter waiting out = waiting)
    (waiting : Bool) : outs.foldl backlogAfter waiting = waiting := by
  induction outs with
  | nil => rfl
  | cons out outs ih =>
      rw [List.forall_mem_cons] at plain
      rw [List.foldl_cons, plain.1]
      exact ih plain.2

theorem Answer.outputs_plain (answer : Answer) :
    ∀ out ∈ answer.outputs, ∀ waiting, backlogAfter waiting out = waiting := by
  unfold outputs
  split <;> simp [backlogAfter]

namespace Restarts

variable {waiting : Bool} {d : Device}

theorem regWrite (holds : Restarts waiting d) {off : Nat} {val : UInt32}
    (whole : off % 4 = 0) :
    Restarts ((d.regWrite off val).2.foldl backlogAfter waiting)
      (d.regWrite off val).1 := by
  unfold Restarts Device.regWrite
  rw [canReceive_iff]
  simp only [Device.putRegs, Device.rx]
  by_cases macCr : off = SMSC_MAC_CR
  · subst macCr
    by_cases enables : val &&& MAC_CR_RXEN = 0
    · rintro - ⟨-, receives, -⟩
      rw [regWrite_at_macCr, RegState.put_reg_same] at receives
      exact absurd enables receives
    · rw [if_pos ⟨rfl, enables⟩]
      intro waits
      exact absurd waits Bool.false_ne_true
  · rw [if_neg fun both => macCr both.1]
    rintro waits ⟨configured, receives, empty⟩
    rcases @regWrite_macCr d.regs off val whole macCr with
      disabled | ⟨sameReg, sameLen⟩
    · rw [disabled] at receives
      exact absurd (by decide) receives
    · refine holds waits ((canReceive_iff _).mpr ⟨configured, ?_, ?_⟩)
      · rw [sameReg] at receives
        exact receives
      · rw [sameLen] at empty
        exact empty

theorem control (holds : Restarts waiting d) {type : RequestType}
    {request index length : Nat} {data : List UInt8}
    (whole : type = .vendorDeviceOutRequest →
      index % SMSC_REG_WINDOW % 4 = 0) :
    Restarts ((handleControl d type request index length data).2.foldl
        backlogAfter waiting)
      (handleControl d type request index length data).1 := by
  unfold handleControl
  split_ifs with _ _ _ writes
  · exact holds
  · exact holds
  · exact holds
  · dsimp only
    rw [List.foldl_append]
    exact holds.regWrite (whole writes.1)
  · exact holds
  · exact holds

theorem receive (holds : Restarts waiting d) (frame : List UInt8) :
    Restarts ((d.receive frame).2.foldl backlogAfter waiting)
      (d.receive frame).1 := by
  unfold Device.receive
  obtain ⟨result, hheld, -, hrefused⟩ | ⟨hempty, hmin, -, hstored⟩ :=
    receive_cases d.rx frame
  · rw [hrefused]
    dsimp only
    by_cases drops : result = -1
    · rw [if_pos drops]
      exact holds.of_same rfl
    · rw [if_neg drops]
      by_cases refuses : result = 0
      · intro _ ready
        exact absurd ((canReceive_iff _).mp ready).2.2 (hheld refuses)
      · rw [if_neg refuses, foldl_backlogAfter (by simp [backlogAfter])]
        exact holds.of_same rfl
  · have hpositive : ¬ (frame.length : Int) = -1 ∧ ¬ (frame.length : Int) = 0 := by
      omega
    -- What could receive now could receive before the frame came.
    have hready : ∀ next : RxState, next.config = d.rx.config →
        next.reg = d.rx.reg → Restarts waiting (d.putRx next) := by
      intro next hconfig hreg waits ready
      have hafter := (canReceive_iff _).mp ready
      simp only [Device.rx_putRx, hconfig, hreg] at hafter
      exact holds waits ((canReceive_iff _).mpr
        ⟨hafter.1, hafter.2.1, hempty⟩)
    rcases hstored with ⟨-, hstored⟩ | ⟨p, -, hpassed⟩
    · rw [hstored]
      dsimp only
      rw [if_neg hpositive.1, if_neg hpositive.2,
        foldl_backlogAfter (by simp [backlogAfter])]
      exact hready _ rfl rfl
    · rw [hpassed]
      dsimp only
      have hspec := bulkIn_spec_state
        { storeFrame d.rx frame with inPkt := none } p
      rw [if_neg hpositive.1, if_neg hpositive.2, List.foldl_append,
        foldl_backlogAfter (Answer.outputs_plain _)]
      exact hready _ hspec.config hspec.reg

end Restarts

/-- Transmission leaves the registers alone. -/
theorem bulkOut_reg {fuel : Nat} {s next : SMSCState} {packet : List UInt8}
    {sent : List (List UInt8)} (step : bulkOut fuel s packet = some (next, sent)) :
    next.reg = s.reg := by
  unfold bulkOut at step
  obtain ⟨t, -, hnext⟩ := Option.map_eq_some_iff.mp step
  split at hnext
  · rw [← (Prod.mk.inj hnext).1]
    rfl
  · rw [← (Prod.mk.inj hnext).1]
    unfold keepRest
    split <;> rfl

namespace Restarts

variable {waiting : Bool} {d : Device}

theorem data (holds : Restarts waiting d) {fuel : Nat} {pid : Token} {ep : Nat}
    {packet : USBPacket} {bytes : List UInt8} {after : Device}
    {outs : List DeviceOutput}
    (step : handleData fuel d pid ep packet bytes = some (after, outs)) :
    Restarts (outs.foldl backlogAfter waiting) after := by
  have hplain : ∀ status, (after, outs) = (d, [.ended packet status []]) →
      Restarts (outs.foldl backlogAfter waiting) after := by
    rintro status same
    obtain ⟨rfl, rfl⟩ := Prod.mk.inj same
    exact holds
  cases pid with
  | setup => exact hplain .stall (Option.some.inj step).symm
  | tokenOut =>
      unfold handleData at step
      dsimp only at step
      by_cases bulk : ep = 2
      · rw [if_pos bulk] at step
        obtain ⟨⟨s, sent⟩, hsent, same⟩ := Option.map_eq_some_iff.mp step
        obtain ⟨rfl, rfl⟩ := Prod.mk.inj same
        rw [foldl_backlogAfter (by simp [backlogAfter, or_imp, forall_and])]
        refine holds.of_same ?_
        simp only [Device.putTx, Device.rx, bulkOut_reg hsent]
        rfl
      · rw [if_neg bulk] at step
        exact hplain .stall (Option.some.inj step).symm
  | tokenIn =>
      unfold handleData at step
      dsimp only at step
      by_cases bulk : ep = 1
      · rw [if_pos bulk] at step
        have hspec := bulkIn_spec_state d.rx packet
        rw [handleDataIn_eq] at step
        obtain ⟨rfl, rfl⟩ := Prod.mk.inj (Option.some.inj step)
        rw [List.foldl_append, foldl_backlogAfter (Answer.outputs_plain _)]
        by_cases flushes : (bulkIn d.rx packet).1.flushRx = true
        · rw [if_pos flushes]
          exact fun waits => absurd waits Bool.false_ne_true
        · rw [if_neg flushes]
          intro waits ready
          have hafter := (canReceive_iff _).mp ready
          simp only [Device.rx_putRx, hspec.config, hspec.reg] at hafter
          have hempty := (hspec.emptied hafter.2.2).resolve_right flushes
          exact holds waits ((canReceive_iff _).mpr
            ⟨hafter.1, hafter.2.1, hempty⟩)
      · rw [if_neg bulk] at step
        by_cases interrupt : ep = 3
        · rw [if_pos interrupt] at step
          exact hplain .nak (Option.some.inj step).symm
        · rw [if_neg interrupt] at step
          exact hplain .stall (Option.some.inj step).symm

theorem step (holds : Restarts waiting d) {label : Label} {after : Device}
    (orderly : Orderly d label) (steps : DeviceSteps d label after) :
    Restarts (label.2.foldl backlogAfter waiting) after := by
  obtain ⟨event, outs⟩ := label
  obtain ⟨fuel, steps⟩ := steps
  cases event with
  | control type request index length data =>
      obtain ⟨rfl, rfl⟩ := Prod.mk.inj (Option.some.inj steps)
      refine holds.control fun writes => ?_
      subst writes
      exact orderly
  | setConfiguration config =>
      obtain ⟨rfl, rfl⟩ := Prod.mk.inj (Option.some.inj steps)
      intro _ ready
      obtain ⟨hconfig, hreceives, -⟩ := (canReceive_iff _).mp ready
      obtain rfl : config = true := hconfig
      exact absurd orderly hreceives
  | data pid ep packet bytes => exact holds.data steps
  | cancel packet =>
      obtain ⟨rfl, rfl⟩ := Prod.mk.inj (Option.some.inj steps)
      unfold cancelPacket
      split
      · exact holds
      · exact holds
  | reset =>
      obtain ⟨rfl, rfl⟩ := Prod.mk.inj (Option.some.inj steps)
      intro _ ready
      obtain ⟨-, hreceives, -⟩ := (canReceive_iff _).mp ready
      have hzero : (d.putRegs (handleReset d.regs)).rx.reg
          (SMSC_MAC_CR / 4) = 0 := rfl
      rw [hzero] at hreceives
      exact absurd (by decide) hreceives
  | canReceive =>
      obtain ⟨rfl, rfl⟩ := Prod.mk.inj (Option.some.inj steps)
      by_cases ready : canReceive d.rx = true
      · rw [if_pos ready]
        exact holds
      · exact fun _ could => absurd could ready
  | receive frame =>
      obtain ⟨rfl, rfl⟩ := Prod.mk.inj (Option.some.inj steps)
      exact holds.receive frame
  | link down =>
      obtain ⟨rfl, rfl⟩ := Prod.mk.inj (Option.some.inj steps)
      exact holds

end Restarts

/-- Under `smsc_receive` the backend is not restarted. -/
theorem flush_not_mem_receive (d : Device) (frame : List UInt8) :
    .flushQueuedPackets ∉ (d.receive frame).2 := by
  have hanswer : ∀ answer : Answer, .flushQueuedPackets ∉ answer.outputs := by
    intro answer
    unfold Answer.outputs
    split <;> simp
  unfold Device.receive
  generalize Usb.receive d.rx frame = result
  obtain ⟨s, size, completed⟩ := result
  dsimp only
  split
  · simp
  · split
    · simp
    · cases completed with
      | none => simp
      | some answer => simpa using hanswer answer

/-- No call of `smsc_receive` restarts the backend. -/
def ReceivesQuietly (labels : List Label) : Prop :=
  ∀ frame outs, (DeviceEvent.receive frame, outs) ∈ labels →
    .flushQueuedPackets ∉ outs

theorem ReceivesQuietly.snoc {labels : List Label} {label : Label}
    {d after : Device} (earlier : ReceivesQuietly labels)
    (steps : DeviceSteps d label after) :
    ReceivesQuietly (labels ++ [label]) := by
  intro frame outs member
  rcases List.mem_append.mp member with before | last
  · exact earlier frame outs before
  · obtain rfl := List.mem_singleton.mp last
    obtain ⟨fuel, steps⟩ := steps
    have hsame : (d.receive frame).2 = outs :=
      (Prod.mk.inj (Option.some.inj steps)).2
    exact hsame ▸ flush_not_mem_receive d frame

/--
While the device can receive, no frame waits that it has refused: what made it
able to receive has restarted the backend, and no call of `smsc_receive` has.
-/
theorem refused_retried {start after : Device} {labels : List Label}
    (trace : Trace DeviceSteps start labels after)
    (orderly : Meets DeviceSteps start labels Orderly) :
    (canReceive after.rx = true → backlog (outputs labels) = false) ∧
      ReceivesQuietly labels := by
  have hstart : Restarts (backlog (outputs [])) start :=
    fun waits => absurd waits Bool.false_ne_true
  have hrun := trace.invariant_of_meets
    (P := fun labels d => Restarts (backlog (outputs labels)) d) hstart
    (fun labels d label after holds orderly steps => by
      rw [outputs_snoc, backlog, List.foldl_append]
      exact holds.step orderly steps) orderly
  refine ⟨fun ready => ?_, ?_⟩
  · by_contra waits
    exact hrun (Bool.not_eq_false _ ▸ waits) ready
  · exact trace.invariant (P := fun labels _ => ReceivesQuietly labels)
      (by simp [ReceivesQuietly])
      fun labels d label after earlier steps => earlier.snoc steps

/-- A configured device that has not been told to receive. -/
def silent : Device where
  linkDown := false
  macaddr := fun _ => 0
  highSpeed := true
  config := true
  reg := fun _ => 0
  e2pCmd := E2P_CMD_LOADED
  e2pData := 0
  miiAddr := 0
  miiData := 0
  eeprom := eepromImage fun _ => 0
  bmcr := PHY_BMCR_RESET
  anar := PHY_ANAR_RESET
  phy := fun _ => 0
  outBuf := fun _ => 0
  outLen := 0
  inBuf := fun _ => 0
  inLen := 0
  inPtr := 0
  inPkt := none
  flushRx := false

/-- It turns a frame away, and is then told to receive. -/
def wokenLabels : List Label :=
  [(.canReceive, [.refused]),
    (.control .vendorDeviceOutRequest SMSC_REQ_WRITE_REGISTER SMSC_MAC_CR 4
      (leBytes 4 MAC_CR_RXEN.toNat),
      [.flushQueuedPackets, .controlled .success []])]

theorem refused_retried_woken :
    (canReceive (silent.regWrite SMSC_MAC_CR MAC_CR_RXEN).1.rx = true →
        backlog (outputs wokenLabels) = false) ∧
      ReceivesQuietly wokenLabels := by
  have hturns : DeviceSteps silent (.canReceive, [.refused]) silent := ⟨0, rfl⟩
  have hwakes : DeviceSteps silent
      (.control .vendorDeviceOutRequest SMSC_REQ_WRITE_REGISTER SMSC_MAC_CR 4
        (leBytes 4 MAC_CR_RXEN.toNat),
        [.flushQueuedPackets, .controlled .success []])
      (silent.regWrite SMSC_MAC_CR MAC_CR_RXEN).1 := ⟨0, rfl⟩
  refine @refused_retried silent _ wokenLabels
    ((Trace.single hturns).snoc hwakes) ?_
  rintro front label d ⟨rest, same⟩ -
  have hmember : label ∈ wokenLabels := by
    rw [← same]
    simp
  simp only [wokenLabels, List.mem_cons, List.not_mem_nil, or_false] at hmember
  rcases hmember with rfl | rfl
  · trivial
  · rfl

end RiscosBuilder.Usb
