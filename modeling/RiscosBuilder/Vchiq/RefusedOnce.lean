import Mathlib.Logic.Relation
import RiscosBuilder.Vchiq.NeverOverwrites

/-!
# Every request is refused once

The guest appends to its stream and stores into its own side, rings doorbell 2
and reads doorbell 0, in any order.  At every moment the master's stream holds
the CONNECT and one CLOSE for each OPEN that has been consumed.
-/

namespace RiscosBuilder.Vchiq

open RiscosBuilder.Library

/-- The messages of a stream that end at the position, or in front of it. -/
def upTo : Nat → List GuestMessage → List GuestMessage
  | _, [] => []
  | pos, message :: rest =>
      if pos < message.stride then []
      else message :: upTo (pos - message.stride) rest

theorem upTo_total (read unread : List GuestMessage) :
    upTo (total read) (read ++ unread) = read := by
  induction read with
  | nil =>
      cases unread with
      | nil => rfl
      | cons message rest =>
          have hstride := message.le_stride
          rw [List.nil_append, total_nil, upTo, if_pos (by omega)]
  | cons message rest ih =>
      rw [List.cons_append, total_cons, upTo, if_neg (by omega),
        Nat.add_sub_cancel_left, ih]

/--
The device, the messages that the guest has published, and the number of
messages that the device had sent when doorbell 0 was last read.
-/
structure Link where
  device : MboxVchiqState
  posted : List GuestMessage
  acknowledged : Nat

namespace Link

/-- The messages that the device has consumed. -/
def read (link : Link) : List GuestMessage :=
  upTo link.device.rxPos.toNat link.posted

/-- The messages that it has not. -/
def unread (link : Link) : List GuestMessage :=
  link.posted.drop link.read.length

end Link

/-- The guest's position, which it has published. -/
def Area.slaveTx (a : Area) (memory : Memory) : Nat :=
  (memory.ldl (a.slaveState + 28)).toNat

/-- What the guest does not store into while messages are unread. -/
def Link.Reserved (a : Area) (link : Link) (addr : Nat) : Prop :=
  a.Master addr ∨
    (a.slaveState + 20 ≤ addr ∧ addr < a.slaveState + 24) ∨
    (a.slaveState + 28 ≤ addr ∧ addr < a.slaveState + 32) ∨
    a.Watched link.device.memory link.device.rxPos.toNat link.unread addr

/-- A step of the guest, or of the device when the guest asks for one. -/
inductive Step (a : Area) : Link → Link → Prop where
  | store {link : Link} {addr : Nat} {data : List UInt8}
      (own : ∀ i, link.Reserved a i → i < addr ∨ addr + data.length ≤ i) :
      Step a link
        { link with
          device := { link.device with
            memory := link.device.memory.store addr data } }
  | publish {link : Link} {message : GuestMessage}
      (stands : a.Stands link.device.memory
        (a.slaveTx link.device.memory) message)
      (low : a.slaveTx link.device.memory + message.stride < 2 ^ 32) :
      Step a link
        { link with
          device := { link.device with
            memory := link.device.memory.stl (a.slaveState + 28)
              (UInt32.ofNat (a.slaveTx link.device.memory +
                message.stride)) }
          posted := link.posted ++ [message] }
  | ring {link : Link} :
      Step a link
        { link with device := dbellWrite link.device DBELL_ARM_TO_VC }
  | read {link : Link} :
      Step a link
        { link with
          device := (dbellRead link.device DBELL_VC_TO_ARM).2
          acknowledged := link.device.sent.length }

/-- What holds of the link at every moment. -/
structure Linked (a : Area) (link : Link) : Prop where
  streaming : Streaming a link.device
  kept : Kept a link.device
  faithful : ∃ read unread, link.posted = read ++ unread ∧
    Faithful a read unread link.device
  woken : link.acknowledged < link.device.sent.length → Belled a link.device

namespace Linked

variable {a : Area} {link next : Link}

theorem split {read unread : List GuestMessage}
    (posted : link.posted = read ++ unread)
    (faithful : Faithful a read unread link.device) :
    link.read = read ∧ link.unread = unread := by
  have hread : link.read = read := by
    rw [Link.read, faithful.rxPos, posted, upTo_total]
  refine ⟨hread, ?_⟩
  rw [Link.unread, hread, posted, List.drop_left]

theorem store (linked : Linked a link) {addr : Nat} {data : List UInt8}
    (own : ∀ i, link.Reserved a i → i < addr ∨ addr + data.length ≤ i) :
    Linked a
      { link with
        device := { link.device with
          memory := link.device.memory.store addr data } } := by
  obtain ⟨hstreaming, hkept, ⟨read, unread, hposted, hfaithful⟩, hwoken⟩ :=
    linked
  obtain ⟨-, hunread⟩ := split hposted hfaithful
  have hquiet := hstreaming.handed.store fun i master => own i (Or.inl master)
  have hsame : Memory.SameOn (link.Reserved a) link.device.memory
      (link.device.memory.store addr data) := Memory.SameOn.store own
  refine ⟨hquiet.streaming hstreaming, hquiet.kept hstreaming.toReady hkept,
    ⟨read, unread, hposted, ?_⟩, ?_⟩
  · refine ⟨hfaithful.rxPos, ?_, ?_, hfaithful.replies⟩
    · rw [← hfaithful.slaveTx]
      congr 1
      apply (hsame.ldl _).symm
      intro i hi
      exact Or.inr (Or.inr (Or.inl (by omega)))
    · apply hfaithful.reads.same
      apply hsame.mono
      intro i watched
      rw [← hfaithful.rxPos, ← hunread] at watched
      exact Or.inr (Or.inr (Or.inr watched))
  · intro behind
    obtain ⟨htrigger, hdoorbell, hirq⟩ := hwoken behind
    refine ⟨?_, hdoorbell, hirq⟩
    rw [← htrigger]
    apply (hsame.ldl _).symm
    intro i hi
    exact Or.inr (Or.inl (by omega))

theorem publish (linked : Linked a link) {message : GuestMessage}
    (stands : a.Stands link.device.memory
      (a.slaveTx link.device.memory) message)
    (low : a.slaveTx link.device.memory + message.stride < 2 ^ 32) :
    Linked a
      { link with
        device := { link.device with
          memory := link.device.memory.stl (a.slaveState + 28)
            (UInt32.ofNat (a.slaveTx link.device.memory + message.stride)) }
        posted := link.posted ++ [message] } := by
  obtain ⟨hstreaming, hkept, ⟨read, unread, hposted, hfaithful⟩, hwoken⟩ :=
    linked
  obtain ⟨hlast, hspan, hqueue, hdata, htop⟩ := a.bounds
  have htx : a.slaveTx link.device.memory = total read + total unread :=
    hfaithful.slaveTx
  rw [htx] at stands low ⊢
  have hsame : Memory.SameOn
      (fun i => i < a.slaveState + 28 ∨ a.slaveState + 32 ≤ i)
      link.device.memory (link.device.memory.stl (a.slaveState + 28)
        (UInt32.ofNat (total read + total unread + message.stride))) := by
    apply Memory.SameOn.stl
    intro i outside
    omega
  have hquiet : Quiet a link.device
      { link.device with
        memory := link.device.memory.stl (a.slaveState + 28)
          (UInt32.ofNat (total read + total unread + message.stride)) } := by
    refine ⟨hstreaming.handed.of_settled rfl, rfl, rfl, ?_⟩
    apply hsame.mono
    intro i held
    have hmaster := Area.held_master held
    unfold Area.Master at hmaster
    unfold Area.slaveState
    omega
  refine ⟨hquiet.streaming hstreaming, hquiet.kept hstreaming.toReady hkept,
    ⟨read, unread ++ [message], ?_, hfaithful.rxPos, ?_, ?_,
      hfaithful.replies⟩, ?_⟩
  · rw [hposted, List.append_assoc]
  · rw [Memory.ldl_stl_same, total_append, UInt32.toNat_ofNat',
      Nat.mod_eq_of_lt low]
    simp [Nat.add_assoc]
  · have happended := hfaithful.reads.append stands
    apply happended.same
    apply hsame.mono
    intro i watched
    have houtside := (happended.outside watched).2
    omega
  · intro behind
    obtain ⟨htrigger, hdoorbell, hirq⟩ := hwoken behind
    refine ⟨?_, hdoorbell, hirq⟩
    rw [← htrigger]
    apply (hsame.ldl _).symm
    intro i hi
    omega

theorem ring (linked : Linked a link) (unmasked : a.Unmasked) :
    Linked a { link with device := dbellWrite link.device DBELL_ARM_TO_VC } := by
  obtain ⟨hstreaming, hkept, ⟨read, unread, hposted, hfaithful⟩, hwoken⟩ :=
    linked
  have hready := hstreaming.toReady
  obtain ⟨hnow, hbell⟩ := drain_faithful hready hfaithful
  obtain ⟨more, rest, hsplit, hafter⟩ := hnow
  rw [dbellWrite, if_pos rfl]
  refine ⟨((streaming_stable a).drain hready hstreaming).2,
    ((kept_stable unmasked).drain hready hkept).2,
    ⟨read ++ more, rest, ?_, hafter⟩, ?_⟩
  · rw [hposted, hsplit, List.append_assoc]
  · intro behind
    rcases hbell with belled | ⟨aside, sent⟩
    · exact belled
    · -- Nothing was queued, so that what rang the bell before still holds.
      obtain ⟨hlast, hspan, hqueue, hdata, htop⟩ := a.bounds
      change link.acknowledged < (drain link.device).sent.length at behind
      rw [sent] at behind
      obtain ⟨htrigger, hdoorbell, hirq⟩ := hwoken behind
      refine ⟨?_, ?_, ?_⟩
      · rw [← htrigger]
        exact (aside.ldl (by omega)).symm
      · show (drain link.device).doorbell0 &&& DBELL_HAVE_MESSAGES ≠ 0
        rw [aside.doorbell0]
        exact hdoorbell
      · exact aside.irq.trans hirq

theorem read (linked : Linked a link) :
    Linked a
      { link with
        device := (dbellRead link.device DBELL_VC_TO_ARM).2
        acknowledged := link.device.sent.length } := by
  obtain ⟨hstreaming, hkept, ⟨read, unread, hposted, hfaithful⟩, -⟩ := linked
  have hquiet := hstreaming.handed.doorbellRead DBELL_VC_TO_ARM
  refine ⟨hquiet.streaming hstreaming, hquiet.kept hstreaming.toReady hkept,
    ⟨read, unread, hposted, ?_⟩, ?_⟩
  · exact hfaithful.same (Memory.SameOn.refl _) rfl rfl
  · intro behind
    exact absurd behind (Nat.lt_irrefl _)

theorem step (linked : Linked a link) (unmasked : a.Unmasked)
    (step : Step a link next) : Linked a next := by
  cases step with
  | store own => exact linked.store own
  | publish stands low => exact linked.publish stands low
  | ring => exact linked.ring unmasked
  | read => exact linked.read

theorem reachable (linked : Linked a link) (unmasked : a.Unmasked)
    (reach : Relation.ReflTransGen (Step a) link next) : Linked a next := by
  induction reach with
  | refl => exact linked
  | tail _ last ih => exact ih.step unmasked last

end Linked

/-- The messages that the guest finds in the master's stream. -/
def masterStream (a : Area) (memory : Memory) : List (UInt32 × UInt32) :=
  (List.range ((memory.ldl (a.base.toNat + 60)).toNat / 8)).map
    (messageAt a memory)

/-- Every OPEN has been refused once, if it has been consumed, and only then. -/
structure RefusedOnce (a : Area) (link : Link) : Prop where
  consumed : total link.read = link.device.rxPos.toNat
  stream : masterStream a link.device.memory =
    (connect, 0) :: refusals link.read
  waiting : ∀ message rest, link.unread = message :: rest →
    message.isOpen = true →
    (queueMessage link.device (refusal message.msgid) 0).1 = false →
    (dbellWrite link.device DBELL_ARM_TO_VC).rxPos = link.device.rxPos
  woken : link.acknowledged < link.device.sent.length → Belled a link.device

theorem Streaming.masterStream {a : Area} {s : MboxVchiqState}
    (streaming : Streaming a s) (kept : Kept a s) :
    masterStream a s.memory =
      s.sent.map fun message => (message.msgid, message.size) := by
  rw [Vchiq.masterStream, streaming.published, streaming.txPos,
    Nat.mul_div_cancel_left _ (by decide)]
  exact kept

/-- An OPEN that cannot be answered is not consumed. -/
theorem Faithful.waits {a : Area} {s : MboxVchiqState}
    {read rest : List GuestMessage} {message : GuestMessage}
    (ready : Ready a s) (faithful : Faithful a read (message :: rest) s)
    (asks : message.isOpen = true)
    (refused : (queueMessage s (refusal message.msgid) 0).1 = false) :
    (drain s).rxPos = s.rxPos := by
  have hfull : s.sent.length = 512 * (a.spare + 1) := by
    rw [ready.queueMessage_zero] at refused
    by_contra room
    rw [if_neg room] at refused
    exact absurd refused.symm Bool.false_ne_true
  obtain ⟨start, hready, -, hsent, hfaithful, hdrain⟩ :=
    drain_start ready faithful
  have hstop : drainTurn (start.memory.ldl (a.slaveState + 28))
      (start, false) = none := by
    rw [drainTurn_faithful hready hfaithful rfl, if_pos asks,
      if_pos (by rw [hsent, hfull])]
  rw [Loop.turns_of_done 256 hstop] at hdrain
  have hrx : start.rxPos = s.rxPos := by
    rw [← UInt32.toNat_inj, hfaithful.rxPos, faithful.rxPos]
  rw [hdrain, ← hrx]
  rfl

theorem Linked.refusedOnce {a : Area} {link : Link} (linked : Linked a link) :
    RefusedOnce a link := by
  obtain ⟨hstreaming, hkept, ⟨read, unread, hposted, hfaithful⟩, hwoken⟩ :=
    linked
  obtain ⟨hread, hunread⟩ := Linked.split hposted hfaithful
  refine ⟨?_, ?_, ?_, hwoken⟩
  · rw [hread, hfaithful.rxPos]
  · rw [hread, hstreaming.masterStream hkept]
    exact hfaithful.replies
  · intro message rest first asks refused
    rw [hunread] at first
    rw [first] at hfaithful
    exact hfaithful.waits hstreaming.toReady asks refused

/-- A power of two slots a side leaves every index alone. -/
theorem Area.unmasked_of_two_pow {a : Area} {k : Nat}
    (pow : a.zero.perSide.toNat = 2 ^ k) : a.Unmasked := by
  intro i hi
  obtain ⟨-, hspan, -, -, -⟩ := a.bounds
  rw [pow]
  exact Nat.and_two_pow_sub_one_of_lt_two_pow (by omega)

/--
Behind an accepted handover with a power of two slots a side, whatever the
guest has posted before and whatever steps follow, each OPEN is refused once.
-/
theorem refused_once {a : Area} {s after : MboxVchiqState} {fuel k : Nat}
    (pow : a.zero.perSide.toNat = 2 ^ k)
    (found : slotZeroAt s a.base = a.zero)
    (accepted : (takeArea s a.base).1 = true)
    (handed : handover fuel s a.base = some after)
    {posted : List GuestMessage} (reads : a.Reads s.memory 0 posted)
    (slaveTx : a.slaveTx s.memory = total posted) {link : Link}
    (reach : Relation.ReflTransGen (Step a) ⟨after, posted, 0⟩ link) :
    RefusedOnce a link := by
  have hunmasked := Area.unmasked_of_two_pow pow
  have hopened : Kept a (opened a s) := by
    unfold Kept
    rw [opened_sent]
    rfl
  have hstart : Linked a ⟨after, posted, 0⟩ := by
    refine ⟨handover_streaming accepted found handed,
      (kept_stable hunmasked).handover accepted found handed hopened,
      ⟨[], posted, rfl, handover_faithful accepted found handed reads slaveTx⟩,
      fun _ => ?_⟩
    show Belled a after
    rw [handover_opened accepted found handed]
    exact ((opened_ready found).queued opened_room connect).handed.belled
  exact (hstart.reachable hunmasked reach).refusedOnce

/-- A guest whose requests are not published. -/
def unpublished : Memory :=
  (requests 4).stl 0x1101c 0

/-- One request is published, the bell is rung, and doorbell 0 is read. -/
theorem refused_once_four_slots : ∃ link : Link, link.posted = [request] ∧
    RefusedOnce fourASide link := by
  have hfound : slotZeroAt (idle unpublished) fourASide.base =
      fourASide.zero := by decide +kernel
  have haccepted : (takeArea (idle unpublished) fourASide.base).1 = true := by
    decide +kernel
  have hstands : fourASide.Stands (requested fourASide unpublished).memory
      (fourASide.slaveTx (requested fourASide unpublished).memory) request :=
    ⟨⟨by decide +kernel, by decide +kernel, by decide +kernel⟩,
      by decide +kernel, by decide +kernel, by decide +kernel⟩
  have hpublish : Step fourASide ⟨requested fourASide unpublished, [], 0⟩ _ :=
    Step.publish hstands (by decide +kernel)
  exact ⟨_, rfl, @refused_once _ _ _ _ 2 rfl hfound haccepted
    (handover_accepted haccepted hfound) [] trivial (by decide +kernel) _
      (((Relation.ReflTransGen.single hpublish).tail Step.ring).tail
        Step.read)⟩

end RiscosBuilder.Vchiq
