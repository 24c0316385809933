import RiscosBuilder.Usb.FlushPending
import Mathlib.Data.List.Count

/-!
# Every packet is accounted for

A data packet that the host hands over ends at once, or it is parked.  A parked
packet ends when a frame comes, or is taken back by the host.
-/

namespace RiscosBuilder.Usb

open RiscosBuilder.Library

/-- The data packets that the host has handed over. -/
def submitted (labels : List Label) : List USBPacket :=
  labels.flatMap fun label =>
    match label.1 with
    | .data _ _ packet _ => [packet]
    | _ => []

/-- The packets that have ended. -/
def endedPackets (outputs : List DeviceOutput) : List USBPacket :=
  outputs.flatMap fun
    | .ended packet _ _ => [packet]
    | _ => []

/-- What the host knows: the packet that it waits for, and those taken back. -/
structure Account where
  parked : Option USBPacket
  withdrawn : List USBPacket

/-- How a label changes it. -/
def Account.after (account : Account) (label : Label) : Account :=
  match label.1 with
  | .data _ _ packet _ =>
      if endedPackets label.2 = [] then { account with parked := some packet }
      else account
  | .receive _ =>
      if endedPackets label.2 = [] then account
      else { account with parked := none }
  | .cancel packet =>
      if account.parked = some packet then
        ⟨none, account.withdrawn ++ [packet]⟩
      else account
  | .reset => ⟨none, account.withdrawn ++ account.parked.toList⟩
  | _ => account

/-- The account behind a run that begins with no packet parked. -/
def account (labels : List Label) : Account :=
  labels.foldl Account.after ⟨none, []⟩

@[simp] theorem account_snoc (labels : List Label) (label : Label) :
    account (labels ++ [label]) = (account labels).after label := by
  simp [account]

@[simp] theorem endedPackets_append (front back : List DeviceOutput) :
    endedPackets (front ++ back) = endedPackets front ++ endedPackets back := by
  simp [endedPackets]

theorem endedPackets_sendPacket (sent : List (List UInt8)) :
    endedPackets (sent.map .sendPacket) = [] := by
  induction sent with
  | nil => rfl
  | cons frame sent ih => exact ih

/-! ## What a step does to the packets -/

theorem Answer.endedPackets_outputs (answer : Answer) :
    endedPackets answer.outputs =
      if answer.status = .async then [] else [answer.packet] := by
  unfold Answer.outputs
  cases answer.status <;> rfl

theorem handleControl_packets (d : Device) (type : RequestType)
    (request index length : Nat) (data : List UInt8) :
    endedPackets (handleControl d type request index length data).2 = [] ∧
      (handleControl d type request index length data).1.inPkt = d.inPkt := by
  unfold handleControl
  split_ifs
  · exact ⟨rfl, rfl⟩
  · exact ⟨rfl, rfl⟩
  · exact ⟨rfl, rfl⟩
  · refine ⟨?_, regWrite_inPkt d.regs _ _⟩
    simp only [Device.regWrite]
    split <;> rfl
  · exact ⟨rfl, rfl⟩
  · exact ⟨rfl, rfl⟩

theorem receive_packets (d : Device) (frame : List UInt8) :
    (endedPackets (d.receive frame).2 = [] ∧
        (d.receive frame).1.inPkt = d.inPkt) ∨
      ∃ packet, endedPackets (d.receive frame).2 = [packet] ∧
        d.inPkt = some packet ∧ (d.receive frame).1.inPkt = none := by
  unfold Device.receive
  obtain ⟨result, -, -, hrefused⟩ | ⟨-, hmin, hmax, hstored⟩ :=
    receive_cases d.rx frame
  · rw [hrefused]
    refine Or.inl ⟨?_, rfl⟩
    dsimp only
    split
    · rfl
    · split <;> rfl
  · have hpositive : ¬ (frame.length : Int) = -1 ∧ ¬ (frame.length : Int) = 0 := by
      omega
    rcases hstored with ⟨-, hstored⟩ | ⟨p, parked, hpassed⟩
    · rw [hstored]
      dsimp only
      rw [if_neg hpositive.1, if_neg hpositive.2]
      exact Or.inl ⟨rfl, rfl⟩
    · rw [hpassed]
      dsimp only
      rw [if_neg hpositive.1, if_neg hpositive.2]
      have hspec := bulkIn_spec_state
        { storeFrame d.rx frame with inPkt := none } p
      have hsuccess : (bulkIn { storeFrame d.rx frame with inPkt := none }
          p).2.status = .success := by
        by_contra waits
        exact @storeFrame_ready d.rx frame hmax (hspec.waits waits)
      have hkept := hspec.parks.resolve_left fun both => by
        simp [hsuccess] at both
      refine Or.inr ⟨p, ?_, parked, hkept.2⟩
      rw [endedPackets_append, Answer.endedPackets_outputs, hsuccess,
        if_neg (by decide), hspec.packet]
      rfl

theorem handleData_packets {fuel : Nat} {d after : Device} {pid : Token}
    {ep : Nat} {packet : USBPacket} {bytes : List UInt8}
    {outs : List DeviceOutput}
    (step : handleData fuel d pid ep packet bytes = some (after, outs)) :
    (endedPackets outs = [packet] ∧ after.inPkt = d.inPkt) ∨
      (endedPackets outs = [] ∧ d.inPkt = none ∧
        after.inPkt = some packet) := by
  have hplain : ∀ status, (after, outs) = (d, [.ended packet status []]) →
      endedPackets outs = [packet] ∧ after.inPkt = d.inPkt := by
    rintro status same
    obtain ⟨rfl, rfl⟩ := Prod.mk.inj same
    exact ⟨rfl, rfl⟩
  cases pid with
  | setup => exact Or.inl (hplain .stall (Option.some.inj step).symm)
  | tokenOut =>
      unfold handleData at step
      dsimp only at step
      by_cases bulk : ep = 2
      · rw [if_pos bulk] at step
        obtain ⟨⟨s, sent⟩, -, same⟩ := Option.map_eq_some_iff.mp step
        obtain ⟨rfl, rfl⟩ := Prod.mk.inj same
        refine Or.inl ⟨?_, rfl⟩
        rw [endedPackets_append, endedPackets_sendPacket]
        rfl
      · rw [if_neg bulk] at step
        exact Or.inl (hplain .stall (Option.some.inj step).symm)
  | tokenIn =>
      unfold handleData at step
      dsimp only at step
      by_cases bulk : ep = 1
      · rw [if_pos bulk] at step
        have hspec := bulkIn_spec_state d.rx packet
        rw [handleDataIn_eq] at step
        obtain ⟨rfl, rfl⟩ := Prod.mk.inj (Option.some.inj step)
        have hends : endedPackets
            ((if (bulkIn d.rx packet).1.flushRx then [.flushQueuedPackets]
              else []) ++ (bulkIn d.rx packet).2.outputs) =
            endedPackets (bulkIn d.rx packet).2.outputs := by
          split <;> rfl
        rw [hends, Answer.endedPackets_outputs]
        rcases hspec.parks with ⟨hasync, hfree, hparked⟩ | ⟨hdone, hkept⟩
        · rw [if_pos hasync]
          exact Or.inr ⟨rfl, hfree, hparked⟩
        · rw [if_neg hdone, hspec.packet]
          exact Or.inl ⟨rfl, hkept⟩
      · rw [if_neg bulk] at step
        by_cases interrupt : ep = 3
        · rw [if_pos interrupt] at step
          exact Or.inl (hplain .nak (Option.some.inj step).symm)
        · rw [if_neg interrupt] at step
          exact Or.inl (hplain .stall (Option.some.inj step).symm)

/-! ## The account -/

/-- The account is right, and every packet is in one of its places. -/
structure Accounted (labels : List Label) (d : Device) : Prop where
  parked : d.inPkt = (account labels).parked
  counts : ∀ packet, (submitted labels).count packet =
    (endedPackets (outputs labels)).count packet +
      (account labels).parked.toList.count packet +
      (account labels).withdrawn.count packet

@[simp] theorem submitted_snoc (labels : List Label) (label : Label) :
    submitted (labels ++ [label]) = submitted labels ++ submitted [label] := by
  simp [submitted]

namespace Accounted

variable {labels : List Label} {d after : Device} {outs : List DeviceOutput}

/-- A label that concerns no packet leaves the account as it is. -/
theorem other (accounted : Accounted labels d) {label : Label}
    (hands : submitted [label] = []) (ends : endedPackets label.2 = [])
    (kept : after.inPkt = d.inPkt)
    (same : (account labels).after label = account labels) :
    Accounted (labels ++ [label]) after := by
  refine ⟨by rw [account_snoc, same, kept, accounted.parked], fun packet => ?_⟩
  rw [submitted_snoc, account_snoc, same, outputs_snoc, endedPackets_append,
    hands, ends, List.append_nil, List.append_nil]
  exact accounted.counts packet

/-- A packet that is handed over ends at once, or is parked. -/
theorem data (accounted : Accounted labels d) {fuel : Nat} {pid : Token}
    {ep : Nat} {packet : USBPacket} {bytes : List UInt8}
    (step : handleData fuel d pid ep packet bytes = some (after, outs)) :
    Accounted (labels ++ [(.data pid ep packet bytes, outs)]) after := by
  have hsubmitted : submitted [(DeviceEvent.data pid ep packet bytes, outs)] =
      [packet] := rfl
  rcases handleData_packets step with ⟨hends, hkept⟩ | ⟨hends, hfree, hnow⟩
  · have hsame : (account labels).after (.data pid ep packet bytes, outs) =
        account labels := by
      simp [Account.after, hends]
    refine ⟨by rw [account_snoc, hsame, hkept, accounted.parked],
      fun other => ?_⟩
    rw [submitted_snoc, hsubmitted, account_snoc, hsame, outputs_snoc,
      endedPackets_append, hends, List.count_append, List.count_append,
      accounted.counts other]
    omega
  · have hsame : (account labels).after (.data pid ep packet bytes, outs) =
        ⟨some packet, (account labels).withdrawn⟩ := by
      simp [Account.after, hends]
    refine ⟨by rw [account_snoc, hsame, hnow], fun other => ?_⟩
    have hcount := accounted.counts other
    rw [← accounted.parked, hfree, Option.toList_none, List.count_nil] at hcount
    rw [submitted_snoc, hsubmitted, account_snoc, hsame, outputs_snoc,
      endedPackets_append, hends, List.append_nil, List.count_append, hcount,
      Option.toList_some]
    dsimp only
    omega

/-- A frame ends the packet that is parked, or none. -/
theorem receive (accounted : Accounted labels d) (frame : List UInt8) :
    Accounted (labels ++ [(.receive frame, (d.receive frame).2)])
      (d.receive frame).1 := by
  rcases receive_packets d frame with
    ⟨hends, hkept⟩ | ⟨packet, hends, hwaited, hnow⟩
  · exact accounted.other rfl hends hkept (by simp [Account.after, hends])
  · have hsame : (account labels).after (.receive frame, (d.receive frame).2) =
        ⟨none, (account labels).withdrawn⟩ := by
      simp [Account.after, hends]
    have hsubmitted : submitted
        [(DeviceEvent.receive frame, (d.receive frame).2)] = [] := rfl
    refine ⟨by rw [account_snoc, hsame, hnow], fun other => ?_⟩
    have hcount := accounted.counts other
    rw [← accounted.parked, hwaited, Option.toList_some] at hcount
    rw [submitted_snoc, account_snoc, hsame, outputs_snoc, endedPackets_append,
      hends, List.count_append, List.count_append, hcount, Option.toList_none,
      List.count_nil, hsubmitted, List.count_nil]
    dsimp only
    omega

/-- The packet that is taken back is the parked one, or none is. -/
theorem cancel (accounted : Accounted labels d) (packet : USBPacket) :
    Accounted (labels ++ [(.cancel packet, [])])
      (d.putRx (cancelPacket d.rx packet)) := by
  have hnow : (d.putRx (cancelPacket d.rx packet)).inPkt =
      if d.inPkt = some packet then none else d.inPkt := by
    by_cases waited : d.inPkt = some packet
    · simp [Device.putRx, cancelPacket, Device.rx, waited]
    · simp [Device.putRx, cancelPacket, Device.rx, waited]
  have haccount : (account labels).after (.cancel packet, []) =
      if d.inPkt = some packet then
        ⟨none, (account labels).withdrawn ++ [packet]⟩
      else account labels := by
    rw [accounted.parked]
    rfl
  by_cases waited : d.inPkt = some packet
  · rw [if_pos waited] at hnow haccount
    have hsubmitted : submitted [(DeviceEvent.cancel packet, [])] = [] := rfl
    refine ⟨by rw [account_snoc, haccount, hnow], fun other => ?_⟩
    have hcount := accounted.counts other
    rw [← accounted.parked, waited, Option.toList_some] at hcount
    rw [submitted_snoc, account_snoc, haccount, outputs_snoc,
      endedPackets_append, List.count_append, List.count_append, hcount,
      List.count_append, Option.toList_none, List.count_nil, hsubmitted,
      show endedPackets [] = [] from rfl, List.count_nil]
    omega
  · rw [if_neg waited] at hnow haccount
    exact accounted.other rfl rfl hnow haccount

/-- A reset takes back what is parked. -/
theorem reset (accounted : Accounted labels d) :
    Accounted (labels ++ [(.reset, [])]) (d.putRegs (handleReset d.regs)) := by
  refine ⟨by rw [account_snoc]; rfl, fun other => ?_⟩
  rw [submitted_snoc, account_snoc, outputs_snoc, endedPackets_append,
    List.count_append, List.count_append, accounted.counts other]
  simp only [Account.after, Option.toList_none, List.count_nil,
    List.count_append, submitted, endedPackets, List.flatMap_nil,
    List.flatMap_cons, List.append_nil]
  omega

theorem step {label : Label} (accounted : Accounted labels d)
    (steps : DeviceSteps d label after) :
    Accounted (labels ++ [label]) after := by
  obtain ⟨event, outs⟩ := label
  obtain ⟨fuel, steps⟩ := steps
  cases event with
  | control type request index length data =>
      obtain ⟨rfl, rfl⟩ := Prod.mk.inj (Option.some.inj steps)
      obtain ⟨hends, hkept⟩ := handleControl_packets d type request index
        length data
      exact accounted.other rfl hends hkept rfl
  | setConfiguration config =>
      obtain ⟨rfl, rfl⟩ := Prod.mk.inj (Option.some.inj steps)
      exact accounted.other rfl rfl rfl rfl
  | data pid ep packet bytes => exact accounted.data steps
  | cancel packet =>
      obtain ⟨rfl, rfl⟩ := Prod.mk.inj (Option.some.inj steps)
      exact accounted.cancel packet
  | reset =>
      obtain ⟨rfl, rfl⟩ := Prod.mk.inj (Option.some.inj steps)
      exact accounted.reset
  | canReceive =>
      obtain ⟨rfl, rfl⟩ := Prod.mk.inj (Option.some.inj steps)
      refine accounted.other rfl ?_ rfl rfl
      show endedPackets (if canReceive d.rx then [] else [.refused]) = []
      split <;> rfl
  | receive frame =>
      have hsteps : d.receive frame = (after, outs) := Option.some.inj steps
      have hreceive := accounted.receive frame
      rwa [hsteps] at hreceive
  | link down =>
      obtain ⟨rfl, rfl⟩ := Prod.mk.inj (Option.some.inj steps)
      exact accounted.other rfl rfl rfl rfl

end Accounted

/--
Every data packet that the host hands over has ended, is parked or was taken
back, once and in one of these ways; and the device has parked what the host
takes it to have parked.
-/
theorem packets_accounted {start after : Device} {labels : List Label}
    (free : start.inPkt = none)
    (trace : Trace DeviceSteps start labels after) :
    after.inPkt = (account labels).parked ∧
      (submitted labels).Perm (endedPackets (outputs labels) ++
        (account labels).parked.toList ++ (account labels).withdrawn) := by
  have hstart : Accounted [] start := ⟨free, fun _ => rfl⟩
  obtain ⟨hparked, hcounts⟩ := trace.invariant (P := Accounted) hstart
    fun _ _ _ _ accounted steps => accounted.step steps
  refine ⟨hparked, List.perm_iff_count.mpr fun packet => ?_⟩
  rw [List.count_append, List.count_append]
  exact hcounts packet

/-- A packet is parked, a second one is refused, and the first taken back. -/
def withdrawnLabels : List Label :=
  [(.data .tokenIn 1 ⟨0, 512⟩ [], []),
    (.data .tokenIn 1 ⟨1, 512⟩ [], [.ended ⟨1, 512⟩ .nak []]),
    (.cancel ⟨0, 512⟩, [])]

/-- The device with the first of them parked. -/
def waiting : Device :=
  silent.putRx { silent.rx with inPkt := some ⟨0, 512⟩ }

theorem packets_accounted_withdrawn :
    silent.inPkt = (account withdrawnLabels).parked ∧
      (submitted withdrawnLabels).Perm
        (endedPackets (outputs withdrawnLabels) ++
          (account withdrawnLabels).parked.toList ++
          (account withdrawnLabels).withdrawn) := by
  have hparks : DeviceSteps silent
      (.data .tokenIn 1 ⟨0, 512⟩ [], []) waiting := ⟨0, rfl⟩
  have hrefuses : DeviceSteps waiting
      (.data .tokenIn 1 ⟨1, 512⟩ [], [.ended ⟨1, 512⟩ .nak []]) waiting :=
    ⟨0, rfl⟩
  have htakes : DeviceSteps waiting (.cancel ⟨0, 512⟩, []) silent := ⟨0, rfl⟩
  exact packets_accounted rfl
    (((Trace.single hparks).snoc hrefuses).snoc htakes)

end RiscosBuilder.Usb
