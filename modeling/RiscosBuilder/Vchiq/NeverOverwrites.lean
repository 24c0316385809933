import RiscosBuilder.Vchiq.Refusal

/-!
# No message is overwritten

When the slot queue index that the code computes with a mask is the index
itself, the messages of the master's stream lie side by side, and stay there
whatever the guest does on its own side.
-/

namespace RiscosBuilder.Vchiq

open RiscosBuilder.Library

/-- The mask leaves the number of every slot of the master's stream alone. -/
def Area.Unmasked (a : Area) : Prop :=
  ∀ i ≤ a.spare, i &&& (a.zero.perSide.toNat - 1) = i

instance (a : Area) : Decidable a.Unmasked :=
  inferInstanceAs (Decidable (∀ i ≤ a.spare, _ = i))

/-! ## The guest -/

/-- What may happen behind a handover. -/
inductive Event where
  | store (addr : Nat) (data : List UInt8)
  | doorbellRead (offset : Nat)
  | doorbellWrite (offset : Nat)

namespace Event

def apply (s : MboxVchiqState) : Event → MboxVchiqState
  | store addr data => { s with memory := s.memory.store addr data }
  | doorbellRead offset => (dbellRead s offset).2
  | doorbellWrite offset => dbellWrite s offset

/-- The guest stores nothing on the master's side. -/
def Own (a : Area) : Event → Prop
  | store addr data => ∀ i, a.Master i → i < addr ∨ addr + data.length ≤ i
  | _ => True

end Event

/-- The state behind a number of events. -/
def run (s : MboxVchiqState) (events : List Event) : MboxVchiqState :=
  events.foldl Event.apply s

variable {a : Area} {s : MboxVchiqState}

theorem Handed.doorbellRead (handed : Handed a s) (offset : Nat) :
    Quiet a s (dbellRead s offset).2 := by
  unfold dbellRead
  split
  · exact ⟨handed.of_settled rfl, rfl, rfl, Memory.SameOn.refl _⟩
  · exact ⟨handed, rfl, rfl, Memory.SameOn.refl _⟩

theorem Handed.store (handed : Handed a s) {addr : Nat} {data : List UInt8}
    (own : ∀ i, a.Master i → i < addr ∨ addr + data.length ≤ i) :
    Quiet a s { s with memory := s.memory.store addr data } where
  handed := handed.of_settled rfl
  sent := rfl
  txPos := rfl
  memory := Memory.SameOn.store fun i held => own i (Area.held_master held)

namespace Stable

variable {P : MboxVchiqState → Prop}

theorem apply (stable : Stable a P) {event : Event} (own : event.Own a)
    (ready : Ready a s) (holds : P s) :
    Ready a (event.apply s) ∧ P (event.apply s) := by
  cases event with
  | store addr data =>
      have hquiet := ready.handed.store own
      exact ⟨hquiet.ready ready, stable.quiet ready hquiet holds⟩
  | doorbellRead offset =>
      have hquiet := ready.handed.doorbellRead offset
      exact ⟨hquiet.ready ready, stable.quiet ready hquiet holds⟩
  | doorbellWrite offset =>
      show Ready a (dbellWrite s offset) ∧ P (dbellWrite s offset)
      unfold dbellWrite
      split
      · exact stable.drain ready holds
      · exact ⟨ready, holds⟩

theorem run (stable : Stable a P) {events : List Event}
    (own : ∀ event ∈ events, event.Own a) (ready : Ready a s) (holds : P s) :
    Ready a (run s events) ∧ P (run s events) := by
  induction events generalizing s with
  | nil => exact ⟨ready, holds⟩
  | cons event rest ih =>
      obtain ⟨hready, hholds⟩ :=
        stable.apply (own event List.mem_cons_self) ready holds
      exact ih (fun later member => own later (List.mem_cons_of_mem _ member))
        hready hholds

end Stable

/-! ## What stays as it is -/

theorem streaming_stable (a : Area) : Stable a (Streaming a) where
  quiet _ quiet streaming := quiet.streaming streaming
  queued ready room msgid _ := ready.queued room msgid

/-- The places of an unmasked stream lie side by side. -/
theorem Area.Unmasked.place (unmasked : a.Unmasked) {n : Nat}
    (inside : 8 * n < 4096 * (a.spare + 1)) :
    a.place (8 * n) = a.base.toNat + 4096 * a.zero.first.toNat + 8 * n := by
  have hindex : a.index (8 * n) = 8 * n / 4096 := unmasked _ (by omega)
  unfold Area.place
  omega

/-- Queueing a message leaves those in front of it as they are. -/
theorem kept_stable (unmasked : a.Unmasked) : Stable a (Kept a) where
  quiet ready quiet kept := quiet.kept ready kept
  queued := by
    intro s ready room msgid kept
    obtain ⟨hlast, hspan, hqueue, hdata, htop⟩ := a.bounds
    have hused := ready.used
    have hplace := @unmasked.place _ s.sent.length (by omega)
    have hmemory := ready.queued_memory room msgid
    have hlength : (queued s msgid).sent.length = s.sent.length + 1 := by
      simp [queued]
    unfold Kept
    rw [hlength, List.range_succ, List.map_append, hmemory]
    have hnew : (queued s msgid).sent.map
        (fun message => (message.msgid, message.size)) =
          s.sent.map (fun message => (message.msgid, message.size)) ++
            [(msgid, 0)] := by
      simp [queued]
    rw [hnew, ← kept]
    refine congrArg₂ (· ++ ·) ?_ ?_
    · apply List.map_congr_left
      intro n hn
      have hlt := List.mem_range.mp hn
      have hearlier := @unmasked.place _ n (by omega)
      unfold messageAt
      rw [Memory.ldl_stl_apart (by omega), Memory.ldl_stl_apart (by omega),
        Memory.ldl_stl_apart (by omega), Memory.ldl_stl_apart (by omega),
        Memory.ldl_stl_apart (by omega), Memory.ldl_stl_apart (by omega)]
    · rw [List.map_singleton, messageAt, Memory.ldl_stl_apart (by omega),
        Memory.ldl_stl_apart (by omega), Memory.ldl_stl_same,
        Memory.ldl_stl_apart (by omega), Memory.ldl_stl_same]

theorem Ready.header (ready : Ready a s) {n : Nat} (sent : n < s.sent.length) :
    s.sent[n].header.toNat = a.place (8 * n) := by
  have hheaders := congrArg (fun list => list[n]?) ready.headers
  simpa [sent] using hheaders

theorem Kept.read (kept : Kept a s) {n : Nat} (sent : n < s.sent.length) :
    messageAt a s.memory n = (s.sent[n].msgid, s.sent[n].size) := by
  have hmessages := congrArg (fun list => list[n]?) kept
  simpa [sent] using hmessages

/-- No message of the master's stream is overwritten. -/
structure NeverOverwrites (a : Area) (s : MboxVchiqState) : Prop where
  placed : ∀ n (sent : n < s.sent.length),
    a.zero.first.toNat + 8 * n / 4096 ≤ a.zero.last.toNat ∧
      s.sent[n].header.toNat = a.base.toNat +
        4096 * (a.zero.first.toNat + 8 * n / 4096) + 8 * n % 4096
  disjoint : s.sent.Pairwise fun first second =>
    first.header.toNat + 8 ≤ second.header.toNat ∨
      second.header.toNat + 8 ≤ first.header.toNat
  kept : ∀ message ∈ s.sent, vchiqLdl s message.header = message.msgid ∧
    s.memory.ldl (message.header.toNat + 4) = message.size
  published : (vchiqLdl s (s.master + SS_TX_POS)).toNat = 8 * s.sent.length
  refused : s.sent.length = 512 * (a.spare + 1) →
    ∀ msgid size, queueMessage s msgid size = (false, s)

theorem Handed.txPos (handed : Handed a s) :
    (s.master + SS_TX_POS).toNat = a.base.toNat + 60 := by
  obtain ⟨hlast, hspan, hqueue, hdata, htop⟩ := a.bounds
  rw [handed.master, a.toNat_master]
  · rfl
  · simp only [SS_TX_POS, UInt32.reduceToNat]
    omega

theorem Streaming.neverOverwrites (streaming : Streaming a s)
    (unmasked : a.Unmasked) (kept : Kept a s) : NeverOverwrites a s where
  placed := by
    intro n sent
    obtain ⟨hlast, -, -, -, -⟩ := a.bounds
    have hused := streaming.used
    rw [streaming.header sent, unmasked.place (by omega)]
    omega
  disjoint := by
    rw [List.pairwise_iff_getElem]
    intro i j hi hj before
    have hused := streaming.used
    rw [streaming.header hi, streaming.header hj, unmasked.place (by omega),
      unmasked.place (by omega)]
    omega
  kept := by
    intro message member
    obtain ⟨n, hn, rfl⟩ := List.mem_iff_getElem.mp member
    have hread := kept.read hn
    rw [vchiqLdl, streaming.header hn]
    exact ⟨congrArg Prod.fst hread, congrArg Prod.snd hread⟩
  published := by
    rw [vchiqLdl, streaming.handed.txPos, streaming.published,
      streaming.txPos]
  refused := streaming.refused

/--
Behind an accepted handover of an area that the mask leaves alone, no run in
which the guest keeps to its own side overwrites a message.
-/
theorem never_overwrites {a : Area} {s after : MboxVchiqState} {fuel : Nat}
    (unmasked : a.Unmasked) (found : slotZeroAt s a.base = a.zero)
    (accepted : (takeArea s a.base).1 = true)
    (handed : handover fuel s a.base = some after) {events : List Event}
    (own : ∀ event ∈ events, event.Own a) :
    NeverOverwrites a (run after events) := by
  have hafter := handover_streaming accepted found handed
  have hopened : Kept a (opened a s) := by
    unfold Kept
    rw [opened_sent]
    rfl
  have hkept := (kept_stable unmasked).handover accepted found handed hopened
  have hstreaming := ((streaming_stable a).run own hafter.toReady hafter).2
  exact hstreaming.neverOverwrites unmasked
    ((kept_stable unmasked).run own hafter.toReady hkept).2

/-! ## Three and four slots a side -/

/-- Three master slots from slot 2 on, and up to `perSide` a side. -/
def threeSlots (perSide : UInt32) : SlotZero :=
  ⟨8192, 8, perSide, 2, 4⟩

/-- An OPEN without data. -/
def request : GuestMessage :=
  ⟨makeMsg VCHIQ_MSG_OPEN 0 0, 0⟩

/-- A guest that has filled slot 5 with requests, and published them. -/
def requests (perSide : UInt32) : Memory :=
  (Memory.stl (fun i =>
    if 0x15000 ≤ i then if i % 8 = 3 then 2 else 0
    else areaMemory 0x10000 (threeSlots perSide) i) 0x1101c 4096).stl 0x11048 5

theorem plausible_three : Plausible (threeSlots 3) :=
  ⟨by decide, by decide, by decide, by decide, by decide⟩

theorem plausible_four : Plausible (threeSlots 4) :=
  ⟨by decide, by decide, by decide, by decide, by decide⟩

/-- The area with three slots a side. -/
def threeASide : Area where
  base := 0x10000
  zero := threeSlots 3
  sane := plausible_three
  apart := apart_of_data plausible_three (by decide) (by decide) (by decide)

/-- The area with four slots a side. -/
def fourASide : Area where
  base := 0x10000
  zero := threeSlots 4
  sane := plausible_four
  apart := apart_of_data plausible_four (by decide) (by decide) (by decide)

/-- The device behind the handover. -/
def requested (a : Area) (memory : Memory) : MboxVchiqState :=
  ringArmDoorbell (queued (opened a (idle memory)) connect)

/-- With four slots a side, the requests are answered side by side. -/
theorem never_overwrites_four_slots :
    NeverOverwrites fourASide (run (requested fourASide (requests 4))
      [.doorbellWrite DBELL_ARM_TO_VC, .store 0x15000 [0, 0],
        .doorbellRead DBELL_VC_TO_ARM, .doorbellWrite DBELL_ARM_TO_VC]) := by
  have hfound : slotZeroAt (idle (requests 4))
      fourASide.base = fourASide.zero := by decide +kernel
  have haccepted : (takeArea (idle (requests 4))
      fourASide.base).1 = true := by decide +kernel
  apply never_overwrites (by decide) hfound haccepted
    (handover_accepted haccepted hfound)
  intro event member
  simp only [List.mem_cons, List.not_mem_nil, or_false] at member
  rcases member with rfl | rfl | rfl | rfl
  · trivial
  · intro i master
    have hmaster : (0x10020 ≤ i ∧ i < 0x11000) ∨ (0x12000 ≤ i ∧ i < 0x15000) :=
      master
    simp only [List.length_cons, List.length_nil]
    omega
  · trivial
  · trivial

/-- All of the requests stand in the slot. -/
theorem requests_stand : ∀ k < 512,
    threeASide.slaveSlot (requests 3) (8 * k) = 5 ∧
      (requests 3).ldl (0x15000 + 8 * k) = request.msgid ∧
      (requests 3).ldl (0x15000 + 8 * k + 4) = request.size := by
  decide +kernel

theorem requests_read {count k : Nat} (inside : k + count ≤ 512) :
    threeASide.Reads (requests 3) (8 * k) (List.replicate count request) := by
  induction count generalizing k with
  | zero => trivial
  | succ count ih =>
      obtain ⟨hslot, hmsgid, hsize⟩ := requests_stand k (by omega)
      have hplace : threeASide.slavePlace (requests 3) (8 * k) =
          0x15000 + 8 * k := by
        have hbase : threeASide.base.toNat = 0x10000 := rfl
        unfold Area.slavePlace
        rw [hslot, hbase]
        omega
      have hstride : request.stride = 8 := rfl
      rw [List.replicate_succ]
      refine ⟨⟨?_, ?_, ?_, ?_⟩, ?_⟩
      · rw [hslot]
        exact ⟨by decide, by decide, by decide⟩
      · rw [hplace]
        exact hmsgid
      · rw [hplace]
        exact hsize
      · rw [hstride]
        omega
      · rw [hstride, show 8 * k + 8 = 8 * (k + 1) by omega]
        exact ih (by omega)

/--
With three slots a side, the second doorbell has the device answer the 512th
request where the CONNECT stands.
-/
theorem never_overwrites_not_three_slots :
    slotZeroAt (idle (requests 3)) threeASide.base = threeASide.zero ∧
      (takeArea (idle (requests 3)) threeASide.base).1 = true ∧
      handover 3 (idle (requests 3)) threeASide.base =
        some (requested threeASide (requests 3)) ∧
      ¬ NeverOverwrites threeASide (run (requested threeASide (requests 3))
        [.doorbellWrite DBELL_ARM_TO_VC, .doorbellWrite DBELL_ARM_TO_VC]) := by
  have hfound : slotZeroAt (idle (requests 3)) threeASide.base =
      threeASide.zero := by decide +kernel
  have haccepted : (takeArea (idle (requests 3)) threeASide.base).1 = true := by
    decide +kernel
  have hhanded : handover 3 (idle (requests 3)) threeASide.base =
      some (requested threeASide (requests 3)) := handover_accepted haccepted hfound
  refine ⟨hfound, haccepted, hhanded, ?_⟩
  intro never
  have hrun : ∀ s, run s [.doorbellWrite DBELL_ARM_TO_VC,
      .doorbellWrite DBELL_ARM_TO_VC] = drain (drain s) := fun _ => rfl
  rw [hrun] at never
  have hready := (handover_streaming haccepted hfound hhanded).toReady
  have htotal : total (List.replicate 512 request) = 4096 := by
    decide +kernel
  have hposted : ((requests 3).ldl (threeASide.slaveState + 28)).toNat =
      total (List.replicate 512 request) := by
    rw [htotal]
    decide +kernel
  have hfaithful := handover_faithful haccepted hfound hhanded
    (@requests_read 512 0 (le_refl 512)) hposted
  have hcount : (refusals (List.replicate 256 request)).length = 256 := by
    decide +kernel
  have hslots : 512 * (threeASide.spare + 1) = 1536 := rfl
  rw [show (512 : Nat) = 256 + 256 from rfl, List.replicate_add] at hfaithful
  obtain ⟨hready, hfaithful⟩ := drain_takes hready hfaithful
    List.length_replicate (by
      rw [hslots, hfaithful.sent_length]
      decide)
  rw [List.nil_append] at hfaithful
  obtain ⟨hready, hfaithful⟩ := @drain_takes _ _ _ _ [] hready
    (by rwa [List.append_nil]) List.length_replicate (by
      rw [hslots, hfaithful.sent_length, hcount]
      decide)
  generalize drain (drain (requested threeASide (requests 3))) = last
    at never hready hfaithful
  have hlength := hfaithful.sent_length
  rw [refusals_append, List.length_append, hcount] at hlength
  have hapart := List.pairwise_iff_getElem.mp never.disjoint 0 512
    (by omega) (by omega) (by decide)
  have hsame : threeASide.place (8 * 512) = threeASide.place (8 * 0) := by
    decide
  rw [hready.header, hready.header, hsame] at hapart
  omega

end RiscosBuilder.Vchiq
