import RiscosBuilder.Library.Observe
import RiscosBuilder.Vchiq.Handover

/-!
# Rejected handovers

A handover that is refused may leave the fields behind that an accepted one
settles.  An idle device reads none of them before the next accepted handover
settles them again, so nobody can tell.
-/

namespace RiscosBuilder.Vchiq

open RiscosBuilder.Library

/-! ## What is asked and what is seen -/

/-- What is asked of the device, and what the guest does to its own memory. -/
inductive Request where
  | handover (base : UInt32)
  | doorbellRead (offset : Nat)
  | doorbellWrite (offset : Nat)
  | store (addr : Nat) (data : List UInt8)
  | reset

/-- What can be seen of the device: what it replies, and what it has done. -/
@[ext]
structure Sight where
  reply : UInt32
  memory : Memory
  stores : List Store
  doorbell0 : UInt32
  irq : Bool

def MboxVchiqState.sight (s : MboxVchiqState) (reply : UInt32) : Sight :=
  ⟨reply, s.memory, s.stores, s.doorbell0, s.irq⟩

/--
A request, with `fuel` turns for the filling of the slot queue.  A handover
that takes more is seen as far as it has come, and has no state behind it.
-/
def serve (fuel : Nat) (s : MboxVchiqState) :
    Request → Sight × Option MboxVchiqState
  | .handover base =>
      match Vchiq.handover fuel s base with
      | some after => (after.sight 0, some after)
      | none =>
          ((Loop.turns fillTurn fuel ((takeArea s base).2, 0)).1.sight 0, none)
  | .doorbellRead offset =>
      ((dbellRead s offset).2.sight (dbellRead s offset).1,
        some (dbellRead s offset).2)
  | .doorbellWrite offset =>
      ((dbellWrite s offset).sight 0, some (dbellWrite s offset))
  | .store addr data =>
      let after := { s with memory := s.memory.store addr data }
      (after.sight 0, some after)
  | .reset => ((Vchiq.reset s).sight 0, some (Vchiq.reset s))

/-! ## Idle devices -/

/-- The state without the fields that a handover settles. -/
def blank (s : MboxVchiqState) : MboxVchiqState :=
  { s with
    slotZero := 0
    master := 0
    slave := 0
    slotSize := 0
    maxSlotsPerSide := 0
    slotFirst := 0
    slotLast := 0
    txPos := 0
    rxPos := 0 }

/-- The same state, or two of an idle device that differ in such fields only. -/
def Alike (s t : MboxVchiqState) : Prop :=
  s = t ∨ s.active = false ∧ blank s = blank t

theorem sight_of_blank {s t : MboxVchiqState} (same : blank s = blank t)
    (reply : UInt32) : s.sight reply = t.sight reply := by
  show (blank s).sight reply = (blank t).sight reply
  rw [same]

theorem Alike.sight {s t : MboxVchiqState} (alike : Alike s t)
    (reply : UInt32) : s.sight reply = t.sight reply := by
  rcases alike with rfl | ⟨-, same⟩
  · rfl
  · exact sight_of_blank same reply

/-! ## Refused handovers -/

theorem takeArea_of_active {s : MboxVchiqState} (active : s.active = true)
    (base : UInt32) : takeArea s base = (false, s) := by
  simp [takeArea, active]

/-- Refused or not, taking the area changes such fields only. -/
theorem takeArea_blank (s : MboxVchiqState) (base : UInt32) :
    blank (takeArea s base).2 = blank s := by
  simp only [takeArea, apply_ite Prod.snd, apply_ite blank]
  simp only [blank, ite_self]

private theorem ite_fst_congr {α β : Type} {c : Prop} [Decidable c]
    {x y z w : α × β} (first : x.1 = z.1) (second : y.1 = w.1) :
    (if c then x else y).1 = (if c then z else w).1 := by
  split
  · exact first
  · exact second

/-- Whether an area is taken depends on the memory alone, if the device is idle. -/
theorem takeArea_congr {s t : MboxVchiqState} (active : s.active = t.active)
    (memory : s.memory = t.memory) (base : UInt32) :
    (takeArea s base).1 = (takeArea t base).1 := by
  simp only [takeArea, vchiqLdl, active, memory]
  iterate 6 refine ite_fst_congr rfl ?_
  rfl

theorem handover_of_refused {s : MboxVchiqState} {base : UInt32}
    (refused : (takeArea s base).1 = false) (fuel : Nat) :
    handover fuel s base = some (takeArea s base).2 := by
  unfold handover
  split
  · next next same => rw [same]
  · next next same => simp [same] at refused

theorem takeArea_of_accepted {s : MboxVchiqState} {base : UInt32}
    (accepted : (takeArea s base).1 = true) :
    takeArea s base = (true, taken s base) := by
  rcases takeArea_cases s base with ⟨next, refused, -, -⟩ | ⟨same, -, -⟩
  · simp [refused] at accepted
  · exact same

/-! ## Accepted handovers -/

/-- The state with other positions in the streams. -/
def moved (tx rx : UInt32) (s : MboxVchiqState) : MboxVchiqState :=
  { s with txPos := tx, rxPos := rx }

/-- Filling the slot queue does not look at them. -/
theorem fillTurn_moved (tx rx : UInt32) (state : MboxVchiqState × UInt32) :
    fillTurn (Prod.map (moved tx rx) id state) =
      (fillTurn state).map (Prod.map (moved tx rx) id) := by
  obtain ⟨s, i⟩ := state
  show fillTurn (moved tx rx s, i) = _
  unfold fillTurn
  dsimp only
  rw [apply_ite (Option.map (Prod.map (moved tx rx) id))]
  rfl

/-- And what comes behind it starts them anew. -/
theorem announce_moved (tx rx : UInt32) (s : MboxVchiqState) :
    announce (moved tx rx s) = announce s := rfl

/-- An area that is taken leaves no other trace of the state before. -/
theorem taken_of_blank {s t : MboxVchiqState} (same : blank s = blank t)
    (base : UInt32) : taken s base = moved s.txPos s.rxPos (taken t base) := by
  simp only [blank, MboxVchiqState.mk.injEq, true_and] at same
  obtain ⟨hactive, hdoorbell, hirq, hmemory, hstores, hsent⟩ := same
  simp only [taken, moved, slotZeroAt, vchiqLdl, hmemory, hactive, hdoorbell,
    hirq, hstores, hsent]

theorem handover_of_blank {s t : MboxVchiqState} {base : UInt32}
    (same : blank s = blank t) (hs : (takeArea s base).1 = true)
    (ht : (takeArea t base).1 = true) (fuel : Nat) :
    handover fuel s base = handover fuel t base := by
  have hrun : Loop.run fillTurn fuel (taken s base, 0) =
      (Loop.run fillTurn fuel (taken t base, 0)).map
        (Prod.map (moved s.txPos s.rxPos) id) := by
    rw [taken_of_blank same]
    exact Loop.run_map (fillTurn_moved s.txPos s.rxPos) fuel (taken t base, 0)
  simp only [handover, takeArea_of_accepted hs, takeArea_of_accepted ht, hrun,
    Option.map_map]
  exact congrArg (fun f => Option.map f _)
    (funext fun filled => announce_moved s.txPos s.rxPos filled.1)

/-- As far as the filling has come, it looks the same as well. -/
theorem turns_of_blank {s t : MboxVchiqState} (same : blank s = blank t)
    (base : UInt32) (fuel : Nat) (reply : UInt32) :
    (Loop.turns fillTurn fuel (taken s base, 0)).1.sight reply =
      (Loop.turns fillTurn fuel (taken t base, 0)).1.sight reply := by
  have hturns : Loop.turns fillTurn fuel (taken s base, 0) =
      Prod.map (moved s.txPos s.rxPos) id
        (Loop.turns fillTurn fuel (taken t base, 0)) := by
    rw [taken_of_blank same]
    exact Loop.turns_map (fillTurn_moved s.txPos s.rxPos) fuel (taken t base, 0)
  rw [hturns]
  rfl

/-- An accepted handover that comes to an end leaves an active device. -/
theorem handover_active {fuel : Nat} {s after : MboxVchiqState} {base : UInt32}
    (accepted : (takeArea s base).1 = true)
    (handed : handover fuel s base = some after) : after.active = true := by
  simp only [handover, takeArea_of_accepted accepted] at handed
  obtain ⟨filled, -, rfl⟩ := Option.map_eq_some_iff.mp handed
  unfold announce queueMessage
  dsimp only
  split_ifs <;> rfl

/-! ## A handover more or less -/

theorem Alike.handover {s t : MboxVchiqState} (alike : Alike s t) (fuel : Nat)
    (base : UInt32) :
    (serve fuel s (.handover base)).1 = (serve fuel t (.handover base)).1 ∧
      Option.Rel Alike (serve fuel s (.handover base)).2
        (serve fuel t (.handover base)).2 := by
  rcases alike with rfl | ⟨hidle, same⟩
  · refine ⟨rfl, ?_⟩
    cases (serve fuel s (.handover base)).2 with
    | none => exact .none
    | some after => exact .some (Or.inl rfl)
  · have hactive : s.active = t.active := by
      show (blank s).active = (blank t).active
      rw [same]
    have hmemory : s.memory = t.memory := by
      show (blank s).memory = (blank t).memory
      rw [same]
    have haccepted := takeArea_congr hactive hmemory base
    cases accepted : (takeArea s base).1 with
    | false =>
        rw [accepted] at haccepted
        have hsame : blank (takeArea s base).2 = blank (takeArea t base).2 := by
          rw [takeArea_blank, takeArea_blank, same]
        have hactive : (takeArea s base).2.active = false := by
          show (blank (takeArea s base).2).active = false
          rw [takeArea_blank]
          exact hidle
        simp only [serve, handover_of_refused accepted,
          handover_of_refused haccepted.symm]
        exact ⟨sight_of_blank hsame 0, .some (Or.inr ⟨hactive, hsame⟩)⟩
    | true =>
        rw [accepted] at haccepted
        have hsame := handover_of_blank same accepted haccepted.symm fuel
        simp only [serve, hsame]
        cases Vchiq.handover fuel t base with
        | none =>
            rw [takeArea_of_accepted accepted,
              takeArea_of_accepted haccepted.symm]
            exact ⟨turns_of_blank same base fuel 0, .none⟩
        | some after => exact ⟨rfl, .some (Or.inl rfl)⟩

theorem Alike.doorbellRead {s t : MboxVchiqState} (alike : Alike s t)
    (offset : Nat) : (dbellRead s offset).1 = (dbellRead t offset).1 ∧
      Alike (dbellRead s offset).2 (dbellRead t offset).2 := by
  rcases alike with rfl | ⟨hidle, same⟩
  · exact ⟨rfl, Or.inl rfl⟩
  · unfold dbellRead
    split
    · refine ⟨?_, Or.inr ⟨hidle, ?_⟩⟩
      · exact congrArg Sight.doorbell0 (sight_of_blank same 0)
      · exact congrArg
          (fun state => { state with doorbell0 := (0 : UInt32), irq := false }) same
    · exact ⟨rfl, Or.inr ⟨hidle, same⟩⟩

/-- An idle device does nothing when the doorbell is rung. -/
theorem Alike.doorbellWrite {s t : MboxVchiqState} (alike : Alike s t)
    (offset : Nat) : Alike (dbellWrite s offset) (dbellWrite t offset) := by
  rcases alike with rfl | ⟨hidle, same⟩
  · exact Or.inl rfl
  · have hother : t.active = false := by
      show (blank t).active = false
      rw [← same]
      exact hidle
    unfold dbellWrite drain
    simp only [hidle, hother, Bool.false_eq_true, if_false, ite_self]
    exact Or.inr ⟨hidle, same⟩

theorem Alike.store {s t : MboxVchiqState} (alike : Alike s t) (addr : Nat)
    (data : List UInt8) :
    Alike { s with memory := s.memory.store addr data }
      { t with memory := t.memory.store addr data } := by
  rcases alike with rfl | ⟨hidle, same⟩
  · exact Or.inl rfl
  · refine Or.inr ⟨hidle, ?_⟩
    exact congrArg (fun state : MboxVchiqState =>
      { state with memory := state.memory.store addr data }) same

theorem Alike.reset {s t : MboxVchiqState} (alike : Alike s t) :
    Alike (reset s) (reset t) := by
  rcases alike with rfl | ⟨hidle, same⟩
  · exact Or.inl rfl
  · refine Or.inl ?_
    show Vchiq.reset (blank s) = Vchiq.reset (blank t)
    rw [same]

/-- Whatever is asked of them, devices that are alike cannot be told apart. -/
theorem alike_simulates (fuel : Nat) : Simulates (serve fuel) Alike := by
  intro s t request alike
  cases request with
  | handover base => exact alike.handover fuel base
  | doorbellRead offset =>
      obtain ⟨hreply, hnext⟩ := alike.doorbellRead offset
      simp only [serve, hreply]
      exact ⟨hnext.sight _, .some hnext⟩
  | doorbellWrite offset =>
      have hnext := alike.doorbellWrite offset
      exact ⟨hnext.sight 0, .some hnext⟩
  | store addr data =>
      have hnext := alike.store addr data
      exact ⟨hnext.sight 0, .some hnext⟩
  | reset => exact ⟨alike.reset.sight 0, .some alike.reset⟩

/-- A rejected handover leaves a device that is alike. -/
theorem rejected_alike {fuel : Nat} {s after : MboxVchiqState} {base : UInt32}
    (handed : handover fuel s base = some after)
    (rejected : s.active = true ∨ after.active = false) : Alike after s := by
  cases active : s.active with
  | true =>
      have hsame := takeArea_of_active active base
      rw [handover_of_refused (by rw [hsame]), hsame] at handed
      exact Or.inl (Option.some.inj handed).symm
  | false =>
      have hafter : after.active = false := by simpa [active] using rejected
      cases accepted : (takeArea s base).1 with
      | true =>
          rw [handover_active accepted handed] at hafter
          exact Bool.noConfusion hafter
      | false =>
          rw [handover_of_refused accepted] at handed
          obtain rfl := Option.some.inj handed
          exact Or.inr ⟨hafter, takeArea_blank s base⟩

/--
A handover that finds the device active, or leaves it idle, touches neither the
memory nor the doorbell nor the interrupt line, and nothing that is asked of
the device later shows that it has been sent.
-/
theorem rejected_handover {fuel : Nat} {s after : MboxVchiqState} {base : UInt32}
    (handed : handover fuel s base = some after)
    (rejected : s.active = true ∨ after.active = false) :
    (after.memory = s.memory ∧ after.stores = s.stores ∧
        after.doorbell0 = s.doorbell0 ∧ after.irq = s.irq) ∧
      ∀ turns requests,
        observe (serve turns) after requests = observe (serve turns) s requests := by
  have halike := rejected_alike handed rejected
  have hsight := halike.sight 0
  refine ⟨⟨?_, ?_, ?_, ?_⟩, ?_⟩
  · exact congrArg Sight.memory hsight
  · exact congrArg Sight.stores hsight
  · exact congrArg Sight.doorbell0 hsight
  · exact congrArg Sight.irq hsight
  · intro turns requests
    exact (alike_simulates turns).observe_eq halike requests

/-- The master's slots are handed over the wrong way round. -/
theorem rejected_handover_range :
    let s := idle (areaMemory 0x10000 ⟨8192, 8, 3, 4, 2⟩)
    let after := (takeArea s 0x10000).2
    after.slotZero ≠ s.slotZero ∧
      ((after.memory = s.memory ∧ after.stores = s.stores ∧
          after.doorbell0 = s.doorbell0 ∧ after.irq = s.irq) ∧
        ∀ turns requests, observe (serve turns) after requests =
          observe (serve turns) s requests) := by
  intro s after
  have hrefused : (takeArea s 0x10000).1 = false := by decide +kernel
  exact ⟨by decide +kernel, rejected_handover (handover_of_refused hrefused 0)
    (Or.inr (by decide +kernel))⟩

end RiscosBuilder.Vchiq
