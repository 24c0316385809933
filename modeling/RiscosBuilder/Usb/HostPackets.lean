import RiscosBuilder.Usb.Delivery

/-!
# The packets that the host waits for

The host controller waits for a packet from when it submits it until the packet
comes back or is cancelled, and it takes nothing from a packet that it does not
wait for.  What it has received that way are the blocks of the accepted frames,
each once and in order.
-/

namespace RiscosBuilder.Usb

open RiscosBuilder.Library RiscosBuilder.Library.ByteImage
  RiscosBuilder.Library.Transfer

/-! ## What becomes of a packet -/

/-- What `smsc_bulk_in` leaves of the state, and says of the packet. -/
structure BulkInSpec (s : RxState) (p : USBPacket) (next : RxState)
    (answer : Answer) : Prop where
  config : next.config = s.config
  reg : next.reg = s.reg
  packet : answer.packet = p
  emptied : next.inLen = 0 → s.inLen = 0 ∨ next.flushRx = true
  parks : (answer.status = .async ∧ s.inPkt = none ∧ next.inPkt = some p) ∨
    (answer.status ≠ .async ∧ next.inPkt = s.inPkt)
  waits : answer.status ≠ .success → s.inLen = 0 ∨ s.inPtr > s.inLen

theorem copyOut_spec_state (s : RxState) (p : USBPacket) (held : s.inLen ≠ 0) :
    BulkInSpec s p (copyOut s p).1 (copyOut s p).2 := by
  unfold copyOut
  dsimp only
  generalize (if (s.inLen - s.inPtr).toNat > p.size then UInt32.ofNat p.size
    else s.inLen - s.inPtr) = len
  split
  · exact ⟨rfl, rfl, rfl, fun _ => Or.inr rfl, Or.inr ⟨by simp, rfl⟩,
      fun waits => absurd rfl waits⟩
  · exact ⟨rfl, rfl, rfl, fun empty => absurd empty held,
      Or.inr ⟨by simp, rfl⟩, fun waits => absurd rfl waits⟩

theorem bulkIn_spec_state (s : RxState) (p : USBPacket) :
    BulkInSpec s p (bulkIn s p).1 (bulkIn s p).2 := by
  have hwaits : (s.inLen = 0 ∨ s.inPtr > s.inLen) →
      ∀ other : RxState, other.config = s.config →
      other.reg = s.reg → other.inPkt = s.inPkt →
      (other.inLen = 0 → s.inLen = 0 ∨ other.flushRx = true) →
      BulkInSpec s p
        (if other.inPkt.isSome then (other, (⟨p, .nak, []⟩ : Answer))
          else ({ other with inPkt := some p }, ⟨p, .async, []⟩)).1
        (if other.inPkt.isSome then (other, (⟨p, .nak, []⟩ : Answer))
          else ({ other with inPkt := some p }, ⟨p, .async, []⟩)).2 := by
    intro hidle other hconfig hreg hparked hempty
    by_cases parked : other.inPkt.isSome = true
    · rw [if_pos parked]
      exact ⟨hconfig, hreg, rfl, hempty, Or.inr ⟨by simp, hparked⟩,
        fun _ => hidle⟩
    · rw [if_neg parked]
      refine ⟨hconfig, hreg, rfl, hempty, Or.inl ⟨rfl, ?_, rfl⟩,
        fun _ => hidle⟩
      rw [← hparked]
      simpa using parked
  unfold bulkIn
  dsimp only
  by_cases beyond : s.inPtr > s.inLen
  · rw [if_pos beyond, if_pos (show (resetIn s).inLen = 0 from rfl)]
    exact hwaits (Or.inr beyond) (resetIn s) rfl rfl rfl fun _ => Or.inr rfl
  · rw [if_neg beyond]
    by_cases empty : s.inLen = 0
    · rw [if_pos empty]
      exact hwaits (Or.inl empty) s rfl rfl rfl fun _ => Or.inl empty
    · rw [if_neg empty]
      exact copyOut_spec_state s p empty

/-- What is stored leaves nobody waiting. -/
theorem storeFrame_ready {s : RxState} {frame : List UInt8}
    (short : frame.length ≤ 1514) :
    ¬ ((storeFrame s frame).inLen = 0 ∨
      (storeFrame s frame).inPtr > (storeFrame s frame).inLen) := by
  have hlength : (storeFrame s frame).inLen.toNat =
      4 + (frame.length + 4 + 3) / 4 * 4 := rxBlockLength_toNat short
  have hptr : (storeFrame s frame).inPtr.toNat = 0 := rfl
  rw [← UInt32.toNat_inj, gt_iff_lt, UInt32.lt_iff_toNat_lt, hlength, hptr,
    UInt32.toNat_zero]
  omega

/-! ## The host controller -/

/-- The packets that are waited for, and the data of those that have come back. -/
structure HostController where
  waiting : List USBPacket
  received : List (List UInt8)

namespace HostController

/-- What the controller does in an event. -/
def acts (host : HostController) : RxEvent → HostController
  | .receive _ => host
  | .bulkIn packet => { host with waiting := host.waiting ++ [packet] }
  | .cancel packet => { host with waiting := host.waiting.erase packet }

/-- A packet comes back; its data is taken if it was waited for. -/
def sees (host : HostController) : RxOutput → HostController
  | .accepted _ => host
  | .answered answer =>
      if answer.packet ∈ host.waiting then
        ⟨host.waiting.erase answer.packet, host.received ++ answered answer⟩
      else host

/-- The controller behind a run of the device from `s`. -/
def run (host : HostController) (s : RxState) : List RxEvent → HostController
  | [] => host
  | event :: events =>
      run ((rxStep s event).2.foldl sees (host.acts event)) (rxStep s event).1
        events

/-- A packet that comes back at once leaves those waiting that were. -/
theorem sees_submitted (parked : Option USBPacket) (received : List (List UInt8))
    {answer : Answer} {p : USBPacket} (packet : answer.packet = p) :
    sees ⟨parked.toList ++ [p], received⟩ (.answered answer) =
      ⟨parked.toList, received ++ answered answer⟩ := by
  have herase : (parked.toList ++ [p]).erase p = parked.toList := by
    cases parked with
    | none => simp
    | some q =>
        by_cases same : q = p
        · simp [same]
        · simp [same]
  simp [sees, packet, herase]

/-- The controller waits for the packet that the device has parked. -/
theorem sees_rxStep (s : RxState) (received : List (List UInt8))
    (event : RxEvent) :
    (rxStep s event).2.foldl sees (acts ⟨s.inPkt.toList, received⟩ event) =
      ⟨(rxStep s event).1.inPkt.toList,
        received ++ delivered (rxStep s event).2⟩ := by
  cases event with
  | receive frame =>
      obtain ⟨result, -, hresult, hrefused⟩ |
        ⟨-, -, short, ⟨hfree, hstored⟩ | ⟨p, hparked, hpassed⟩⟩ :=
        receive_cases s frame
      · simp [rxStep, hrefused, hresult, acts]
      · simp [rxStep, hstored, acts, sees, storeFrame]
      · have hspec := bulkIn_spec_state
          { storeFrame s frame with inPkt := none } p
        have hsuccess : (bulkIn { storeFrame s frame with inPkt := none }
            p).2.status = .success := by
          by_contra waits
          exact @storeFrame_ready s frame short (hspec.waits waits)
        generalize bulkIn _ p = back at hpassed hspec hsuccess
        have hfree : back.1.inPkt = none := (hspec.parks.resolve_left
          fun both => by simp [hsuccess] at both).2
        have hsees := sees_submitted none received hspec.packet
        rw [Option.toList_none, List.nil_append] at hsees
        simp only [rxStep, hpassed, acts, hparked, if_true, Option.toList_some,
          List.map_cons, List.map_nil, List.singleton_append, List.foldl_cons,
          List.foldl_nil]
        rw [show ∀ host : HostController, host.sees (.accepted frame) = host from
          fun _ => rfl, hsees, hfree]
        simp
  | bulkIn p =>
      have hspec := bulkIn_spec_state s p
      have hsees := sees_submitted s.inPkt received hspec.packet
      simp only [rxStep, handleDataIn_eq, acts]
      rcases hspec.parks with ⟨hasync, hfree, hparked⟩ | ⟨hdone, hkept⟩
      · simp [hasync, hfree, hparked]
      · simp [hdone, hkept, hsees]
  | cancel p =>
      simp only [rxStep, acts, cancelPacket, List.foldl_nil, delivered_nil,
        List.append_nil]
      by_cases parked : s.inPkt = some p
      · simp [parked]
      · rw [if_neg parked, List.erase_of_not_mem]
        simpa using parked

theorem run_eq (s : RxState) (received : List (List UInt8))
    (events : List RxEvent) :
    run ⟨s.inPkt.toList, received⟩ s events =
      ⟨(rxRun s events).1.inPkt.toList,
        received ++ delivered (rxRun s events).2⟩ := by
  induction events generalizing s received with
  | nil => simp [run, rxRun]
  | cons event events ih =>
      rw [run, sees_rxStep, ih]
      simp only [rxRun, delivered_append, List.append_assoc]

end HostController

/-! ## What comes next of a block -/

section Next

variable {s : RxState} {p : USBPacket}

/-- A packet that finds a block comes back with the next part of it. -/
theorem copyOut_next (ordered : s.inPtr.toNat ≤ s.inLen.toNat)
    (positive : 0 < p.size) :
    (copyOut s p).2 = ⟨p, .success, (rest s).take p.size⟩ ∧
      rest (copyOut s p).1 = (rest s).drop p.size := by
  obtain ⟨hanswer, hover, hmore⟩ := copyOut_spec ordered positive
  refine ⟨hanswer, ?_⟩
  by_cases finished : (rest s).length ≤ p.size ∧
      (s.inLen.toNat % (mps s).toNat ≠ 0 ∨ rest s = [])
  · rw [hover finished, List.drop_of_length_le finished.1]
    rfl
  · obtain ⟨ptr, hstate, hptr⟩ := hmore finished
    rw [hstate, rest_advanced hptr]

theorem bulkIn_next (bounds : Bounds s) (busy : s.inLen ≠ 0)
    (positive : 0 < p.size) :
    (bulkIn s p).2 = ⟨p, .success, (rest s).take p.size⟩ ∧
      rest (bulkIn s p).1 = (rest s).drop p.size := by
  have hordered : ¬ s.inPtr > s.inLen := UInt32.not_lt.mpr bounds.ordered
  unfold bulkIn
  simp only [if_neg hordered, if_neg busy]
  exact copyOut_next bounds.ordered positive

end Next

/-! ## Every accepted frame is delivered exactly once -/

/--
The device `now` behind a run in which it has put out `outputs`, and the host
controller.
-/
structure Delivers (now : RxState) (outputs : List RxOutput)
    (host : HostController) : Prop where
  bounds : Bounds now
  /-- The packets that are waited for are the one that is parked, -/
  waiting : host.waiting = now.inPkt.toList
  /-- and no other packet has come back. -/
  counted : host.received = delivered outputs
  bytes : host.received.flatten ++ rest now =
    ((accepted outputs).map rxBlock).flatten
  /-- Short packets end the blocks of all frames, or of all but the last. -/
  blocks : ∃ done part,
    collect (mps now).toNat host.received = (done.map rxBlock, part) ∧
      (now.inLen = 0 ∧ part = [] ∧ accepted outputs = done ∨
        now.inLen ≠ 0 ∧ ∃ frame, accepted outputs = done ++ [frame] ∧
          part ++ rest now = rxBlock frame)
  /-- A frame is accepted once the blocks of all others are delivered. -/
  accepts : ∀ frame : List UInt8, (receive now frame).2.1 = frame.length →
    collect (mps now).toNat host.received =
      ((accepted outputs).map rxBlock, [])
  frames : ∀ frame ∈ accepted outputs, readFrame (rxBlock frame) = frame
  /-- While a block is held, a packet comes back with the next part of it. -/
  takes : ∀ p, Multiple now p → now.inLen ≠ 0 →
    (rxStep now (.bulkIn p)).2 =
        [.answered ⟨p, .success, (rest now).take p.size⟩] ∧
      rest (rxStep now (.bulkIn p)).1 = (rest now).drop p.size
  /-- So does a parked packet, with the frame that meets it. -/
  passes : ∀ p frame, now.inPkt = some p →
    (receive now frame).2.1 = (frame.length : Int) →
      (rxStep now (.receive frame)).2 = [.accepted frame,
          .answered ⟨p, .success, (rxBlock frame).take p.size⟩] ∧
        rest (rxStep now (.receive frame)).1 = (rxBlock frame).drop p.size

theorem Delivering.takes {now : RxState} {frames packets : List (List UInt8)}
    (holds : Delivering now frames packets) {p : USBPacket}
    (multiple : Multiple now p) (busy : now.inLen ≠ 0) :
    (rxStep now (.bulkIn p)).2 =
        [.answered ⟨p, .success, (rest now).take p.size⟩] ∧
      rest (rxStep now (.bulkIn p)).1 = (rest now).drop p.size := by
  obtain ⟨hanswer, hrest⟩ := bulkIn_next holds.bounds busy multiple.1
  simp only [rxStep, handleDataIn_eq, hanswer]
  exact ⟨rfl, hrest⟩

theorem Delivering.passes {now : RxState} {frames packets : List (List UInt8)}
    (holds : Delivering now frames packets) {p : USBPacket} {frame : List UInt8}
    (parked : now.inPkt = some p)
    (returned : (receive now frame).2.1 = (frame.length : Int)) :
    (rxStep now (.receive frame)).2 = [.accepted frame,
        .answered ⟨p, .success, (rxBlock frame).take p.size⟩] ∧
      rest (rxStep now (.receive frame)).1 = (rxBlock frame).drop p.size := by
  obtain ⟨result, -, hresult, hrefused⟩ |
    ⟨empty, -, short, ⟨hfree, -⟩ | ⟨other, hparked, hpassed⟩⟩ :=
    receive_cases now frame
  · rw [hrefused] at returned
    exact absurd returned hresult
  · rw [hfree] at parked
    cases parked
  · obtain rfl : other = p := Option.some.inj (hparked.symm.trans parked)
    have hstored := storeFrame_delivering holds empty short
    have hbusy : (storeFrame now frame).inLen ≠ 0 := fun none =>
      @storeFrame_ready now frame short (Or.inl none)
    obtain ⟨hanswer, hrest⟩ := bulkIn_next hstored.bounds hbusy
      (holds.multiple other hparked).1
    have hblock : rest { storeFrame now frame with inPkt := none } =
        rxBlock frame := (@storeFrame_spec now frame short).2
    rw [hblock] at hanswer hrest
    simp only [rxStep, hpassed, hanswer]
    exact ⟨by simp, hrest⟩

/--
Every accepted frame is delivered exactly once.  Behind every run, what the
controller has received are the blocks of the accepted frames in order, except
for what is still in `in_buf`; and a frame is accepted only when nothing is.
-/
theorem receive_delivers {s : RxState} (idle : Idle s) {events : List RxEvent}
    (submitted : ∀ event ∈ events, Submitted s event) :
    Delivers (rxRun s events).1 (rxRun s events).2
      (HostController.run ⟨[], []⟩ s events) := by
  have hrun := rxRun_delivering idle.delivering submitted
  have hhost := HostController.run_eq s [] events
  rw [idle.inPkt, Option.toList_none, List.nil_append] at hhost
  rw [List.nil_append, List.nil_append] at hrun
  rw [hhost]
  have hflat := collect_flatten (mps (rxRun s events).1).toNat
    (delivered (rxRun s events).2)
  refine ⟨hrun.bounds, rfl, rfl, ?_, ?_, ?_, ?_, ?_, ?_⟩
  · cases hrun.progress with
    | idle empty read =>
        have hrest : rest (rxRun s events).1 = [] := by
          rw [rest, empty, UInt32.toNat_zero, Nat.zero_sub]
          rfl
        rw [← hflat, read, hrest]
        simp
    | busy busy last read whole length =>
        rw [← hflat, read, last, List.append_assoc, whole]
        simp
  · cases hrun.progress with
    | idle empty read => exact ⟨_, _, read, Or.inl ⟨empty, rfl, rfl⟩⟩
    | busy busy last read whole length =>
        exact ⟨_, _, read, Or.inr ⟨busy, _, last, whole⟩⟩
  · intro frame returned
    obtain ⟨result, -, hresult, hrefused⟩ | ⟨empty, -⟩ :=
      receive_cases (rxRun s events).1 frame
    · rw [hrefused] at returned
      exact absurd returned hresult
    · cases hrun.progress with
      | idle _ read => exact read
      | busy busy => exact absurd empty busy
  · intro frame member
    exact readFrame_rxBlock (accepted_run_length member)
  · intro p multiple busy
    exact hrun.takes multiple busy
  · intro p frame parked returned
    exact hrun.passes parked returned

/-- A device that receives everything, on a fast bus. -/
def listening : RxState :=
  ⟨true, true, fun _ => MAC_CR_RXEN ||| MAC_CR_PRMS, fun _ => 0, 0, 0, none,
    false⟩

/-- A frame that meets a parked packet, and is out before the next one comes. -/
theorem receive_delivers_parked :
    collect (mps listening).toNat (HostController.run ⟨[], []⟩ listening
        [.bulkIn ⟨0, 512⟩, .receive (List.replicate 14 0x61)]).received =
      ((accepted (rxRun listening
        [.bulkIn ⟨0, 512⟩, .receive (List.replicate 14 0x61)]).2).map rxBlock,
        []) :=
  (@receive_delivers listening ⟨rfl, rfl, rfl⟩
    [.bulkIn ⟨0, 512⟩, .receive (List.replicate 14 0x61)]
    (by simp [Submitted, Multiple, mps, listening])).accepts
    (List.replicate 14 0x62) (by decide +kernel)

end RiscosBuilder.Usb
