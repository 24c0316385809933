import RiscosBuilder.Vchiq.Drain

/-!
# The stream after a handover

A handover leaves a stream behind that holds the CONNECT and nothing else, and
of which the guest has been told.
-/

namespace RiscosBuilder.Vchiq

open RiscosBuilder.Library

/-- The CONNECT. -/
def connect : UInt32 :=
  makeMsg VCHIQ_MSG_CONNECT 0 0

/-- The device before it queues the CONNECT. -/
def opened (a : Area) (s : MboxVchiqState) : MboxVchiqState :=
  armed (filled (taken s a.base) (a.spare + 1))

section

variable {a : Area} {s : MboxVchiqState}

theorem opened_handed (found : slotZeroAt s a.base = a.zero) :
    Handed a (opened a s) := by
  have hfilled := filled_eq (taken s a.base) (a.spare + 1)
  unfold opened
  rw [hfilled]
  constructor <;> simp [armed, taken, found]

theorem opened_sent : (opened a s).sent = [] := by
  simp [opened, armed]

/-- The stores that arm the events leave the slot queue as it is. -/
theorem opened_ldl {place : Nat} (behind : a.base.toNat + 68 ≤ place) :
    (opened a s).memory.ldl place =
      (filled (taken s a.base) (a.spare + 1)).memory.ldl place := by
  obtain ⟨-, -, hqueue, -, -⟩ := a.bounds
  have hmaster : (filled (taken s a.base) (a.spare + 1)).master =
      a.base + SZ_HEADER_SIZE := by
    rw [filled_eq]
    rfl
  have hfield : ∀ offset : UInt32, offset.toNat ≤ 32 →
      (a.base + SZ_HEADER_SIZE + offset).toNat + 4 ≤ place := by
    intro offset low
    rw [a.toNat_master (by omega)]
    omega
  simp only [opened, armed, vchiqStl, hmaster]
  rw [Memory.ldl_stl_apart (Or.inr (hfield _ (by decide))),
    Memory.ldl_stl_apart (Or.inr (hfield _ (by decide))),
    Memory.ldl_stl_apart (Or.inr (hfield _ (by decide)))]

theorem opened_ready (found : slotZeroAt s a.base = a.zero) :
    Ready a (opened a s) where
  handed := opened_handed found
  queue := by
    intro i hi
    obtain ⟨-, hspan, hqueue, hdata, htop⟩ := a.bounds
    have horder := a.sane.order
    rw [opened_ldl (by omega), filled_ldl (by omega) (by omega), found,
      UInt32.ofNat_add, UInt32.ofNat_toNat]
  txPos := by
    rw [opened_sent]
    simp [opened]
  used := by
    rw [opened_sent]
    exact Nat.zero_le _
  headers := by
    rw [opened_sent]
    rfl

/-- There is room for the CONNECT. -/
theorem opened_room : (opened a s).sent.length ≠ 512 * (a.spare + 1) := by
  rw [opened_sent, List.length_nil]
  omega

/-- An accepted handover comes to an end. -/
theorem handover_accepted (accepted : (takeArea s a.base).1 = true)
    (found : slotZeroAt s a.base = a.zero) :
    handover (a.spare + 1) s a.base =
      some (ringArmDoorbell (queued (opened a s) connect)) := by
  obtain ⟨hlast, hspan, hqueue, hdata, htop⟩ := a.bounds
  rcases takeArea_cases s a.base with
    ⟨next, hrefused, -, -⟩ | ⟨htaken, -, -⟩
  · simp [hrefused] at accepted
  · have hslots : (slotZeroAt s a.base).slots = a.spare + 1 := by
      rw [found]
      rfl
    obtain ⟨hrun, -⟩ := handover_stores htaken (found ▸ a.sane)
      (by rw [found]; omega) (by rw [hslots]; omega) (le_refl _)
    rw [← hslots, hrun, hslots, announce_eq]
    · rfl
    · rw [filled_eq]
      rfl
    · rw [filled_eq]
      show (slotZeroAt s a.base).first.toNat ≤ (slotZeroAt s a.base).last.toNat
      rw [found]
      exact a.sane.order

/-- And in nothing else. -/
theorem handover_opened (accepted : (takeArea s a.base).1 = true)
    (found : slotZeroAt s a.base = a.zero) {fuel : Nat} {after : MboxVchiqState}
    (handed : handover fuel s a.base = some after) :
    after = ringArmDoorbell (queued (opened a s) connect) :=
  handover_unique handed (handover_accepted accepted found)

theorem handover_streaming (accepted : (takeArea s a.base).1 = true)
    (found : slotZeroAt s a.base = a.zero) {fuel : Nat} {after : MboxVchiqState}
    (handed : handover fuel s a.base = some after) : Streaming a after := by
  have hstreaming := (opened_ready found).queued opened_room connect
  rw [handover_opened accepted found handed]
  exact hstreaming.handed.quiet_ring.streaming hstreaming

theorem Stable.handover {P : MboxVchiqState → Prop} (stable : Stable a P)
    (accepted : (takeArea s a.base).1 = true)
    (found : slotZeroAt s a.base = a.zero) {fuel : Nat} {after : MboxVchiqState}
    (handed : Vchiq.handover fuel s a.base = some after)
    (holds : P (opened a s)) : P after := by
  have hready := opened_ready found
  have hstreaming := hready.queued opened_room connect
  rw [handover_opened accepted found handed]
  exact stable.quiet hstreaming.toReady hstreaming.handed.quiet_ring
    (stable.queued hready opened_room connect holds)

end

end RiscosBuilder.Vchiq
