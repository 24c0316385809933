import RiscosBuilder.Vchiq.GuestStream

/-!
# Refusing the guest's requests

A drain answers every OPEN that it consumes, consumes none that it does not
answer, and rings the bell when it has answered one.
-/

namespace RiscosBuilder.Vchiq

open RiscosBuilder.Library

/-- What the steps between two rings of the bell leave alone. -/
structure Aside (a : Area) (s next : MboxVchiqState) : Prop where
  memory : Memory.SameOn (fun i => ¬ a.Master i) s.memory next.memory
  doorbell0 : next.doorbell0 = s.doorbell0
  irq : next.irq = s.irq

/-- The device is in step with the guest's stream, and has answered what it has read. -/
structure Faithful (a : Area) (read unread : List GuestMessage)
    (s : MboxVchiqState) : Prop where
  rxPos : s.rxPos.toNat = total read
  slaveTx : (s.memory.ldl (a.slaveState + 28)).toNat =
    total read + total unread
  reads : a.Reads s.memory (total read) unread
  replies : s.sent.map (fun message => (message.msgid, message.size)) =
    (connect, 0) :: refusals read

variable {a : Area} {s next : MboxVchiqState}

namespace Aside

theorem refl (a : Area) (s : MboxVchiqState) : Aside a s s :=
  ⟨Memory.SameOn.refl _, rfl, rfl⟩

theorem trans {last : MboxVchiqState} (first : Aside a s next)
    (second : Aside a next last) : Aside a s last where
  memory := first.memory.trans second.memory
  doorbell0 := second.doorbell0.trans first.doorbell0
  irq := second.irq.trans first.irq

theorem untouched (aside : Aside a s next) :
    Memory.SameOn a.Untouched s.memory next.memory :=
  aside.memory.mono fun _ untouched => untouched.1

/-- A word of the slave's shared state. -/
theorem ldl (aside : Aside a s next) {offset : Nat}
    (inside : offset + 4 ≤ a.zero.shared.toNat) :
    s.memory.ldl (a.slaveState + offset) =
      next.memory.ldl (a.slaveState + offset) := by
  obtain ⟨hlast, hspan, hqueue, hdata, htop⟩ := a.bounds
  apply aside.memory.ldl
  intro i hi
  unfold Area.Master Area.slaveState
  omega

end Aside

theorem Handed.aside_master (handed : Handed a s) {offset : UInt32}
    (low : offset.toNat ≤ 24) (val : UInt32) :
    Aside a s (vchiqStl s .field (s.master + offset) val) := by
  obtain ⟨hlast, hspan, hqueue, hdata, htop⟩ := a.bounds
  refine ⟨Memory.SameOn.stl ?_, rfl, rfl⟩
  intro i untouched
  rw [handed.master, a.toNat_master (by omega)]
  unfold Area.Master at untouched
  omega

theorem Ready.aside_queued (ready : Ready a s)
    (room : s.sent.length ≠ 512 * (a.spare + 1)) (msgid : UInt32) :
    Aside a s (Vchiq.queued s msgid) := by
  obtain ⟨hlast, hspan, hqueue, hdata, htop⟩ := a.bounds
  have hused := ready.used
  have hheld := @a.place_held s.sent.length (by omega)
  refine ⟨?_, rfl, rfl⟩
  rw [ready.queued_memory room]
  have hfirst : Memory.SameOn (fun i => ¬ a.Master i) s.memory
      (s.memory.stl (a.place (8 * s.sent.length)) msgid) := by
    apply Memory.SameOn.stl
    intro i untouched
    unfold Area.Master at untouched
    omega
  apply hfirst.trans
  apply Memory.SameOn.trans (Memory.SameOn.stl _)
  · apply Memory.SameOn.stl
    intro i untouched
    unfold Area.Master at untouched
    omega
  · intro i untouched
    unfold Area.Master at untouched
    omega

namespace Faithful

variable {read unread : List GuestMessage}

/-- Steps of the device leave the guest's stream as it is. -/
theorem same (faithful : Faithful a read unread s)
    (memory : Memory.SameOn a.Untouched s.memory next.memory)
    (rxPos : next.rxPos = s.rxPos) (sent : next.sent = s.sent) :
    Faithful a read unread next where
  rxPos := by rw [rxPos, faithful.rxPos]
  slaveTx := by
    obtain ⟨hlast, hspan, hqueue, hdata, htop⟩ := a.bounds
    rw [← faithful.slaveTx]
    congr 1
    apply (memory.ldl _).symm
    intro i hi
    unfold Area.Untouched Area.Master Area.slaveState
    omega
  reads := faithful.reads.same
    (memory.mono fun _ watched => faithful.reads.untouched watched)
  replies := by rw [sent, faithful.replies]

theorem sent_length (faithful : Faithful a read unread s) :
    s.sent.length = (refusals read).length + 1 := by
  rw [← List.length_cons, ← faithful.replies, List.length_map]

/-- The message that is read next is the first unread one. -/
theorem rxHeader {message : GuestMessage} {rest : List GuestMessage}
    (faithful : Faithful a read (message :: rest) s) (handed : Handed a s) :
    vchiqLdl s (rxHeader s) = message.msgid ∧
      vchiqLdl s (Vchiq.rxHeader s + 4) = message.size := by
  obtain ⟨hlast, hspan, hqueue, hdata, htop⟩ := a.bounds
  obtain ⟨stands, -⟩ := faithful.reads
  have hindex := a.index_lt (total read)
  have hentry := a.toNat_entry s.rxPos
  have hfits := stands.fits
  have htop' := stands.elsewhere.top
  have height := message.le_stride
  rw [faithful.rxPos] at hentry
  have hread : vchiqLdl s (s.slave + SS_SLOT_QUEUE + 4 *
      ((s.rxPos / s.slotSize) &&& (s.maxSlotsPerSide - 1))) =
        s.memory.ldl (a.slaveEntry (total read)) := by
    rw [handed.slave, handed.slotSize, handed.maxSlotsPerSide,
      UInt32.add_assoc, vchiqLdl, a.toNat_slave (by omega), hentry]
    unfold Area.slaveEntry Area.slaveState
    congr 1
    omega
  have hheader : (Vchiq.rxHeader s).toNat =
      a.slavePlace s.memory (total read) := by
    unfold Area.slavePlace
    unfold Area.slaveSlot at htop' ⊢
    rw [Vchiq.rxHeader, hread, handed.slotZero, handed.slotSize,
      UInt32.toNat_add, UInt32.toNat_add, UInt32.toNat_mul, UInt32.toNat_mod,
      faithful.rxPos, VCHIQ_SLOT_SIZE]
    simp only [UInt32.reduceToNat]
    omega
  have hsecond : (Vchiq.rxHeader s + 4).toNat =
      a.slavePlace s.memory (total read) + 4 := by
    rw [UInt32.toNat_add, hheader]
    unfold Area.slavePlace
    simp only [UInt32.reduceToNat]
    omega
  rw [vchiqLdl, vchiqLdl, hheader, hsecond]
  exact ⟨stands.msgid, stands.size⟩

/-- The loop ends at the end of the stream. -/
theorem at_end (faithful : Faithful a read unread s) :
    s.rxPos = s.memory.ldl (a.slaveState + 28) ↔ unread = [] := by
  rw [← UInt32.toNat_inj, faithful.rxPos, faithful.slaveTx]
  cases unread with
  | nil => simp
  | cons message rest =>
      have hstride := message.le_stride
      simp only [total_cons, reduceCtorEq, iff_false]
      omega

/-- The message that is consumed was the first unread one. -/
theorem consume {message : GuestMessage} {rest : List GuestMessage}
    (faithful : Faithful a read (message :: rest) s)
    (memory : Memory.SameOn a.Untouched s.memory next.memory)
    (rxPos : next.rxPos = s.rxPos)
    (replies : next.sent.map (fun message => (message.msgid, message.size)) =
      (connect, 0) :: refusals (read ++ [message])) :
    Faithful a (read ++ [message]) rest (consume next message.size) := by
  have hlimit := (s.memory.ldl (a.slaveState + 28)).toNat_lt
  have htotal := faithful.slaveTx
  rw [total_cons] at htotal
  obtain ⟨stands, hrest⟩ := faithful.reads
  have hfits := stands.fits
  have hlength : total (read ++ [message]) = total read + message.stride := by
    simp
  have hmoved := (faithful.reads.same (memory.mono fun _ watched =>
    faithful.reads.untouched watched)).2
  constructor
  · show (next.rxPos + vchiqStride message.size).toNat = _
    rw [UInt32.toNat_add, GuestMessage.toNat_vchiqStride (by omega), rxPos,
      faithful.rxPos, hlength]
    omega
  · obtain ⟨hlast, hspan, hqueue, hdata, htop⟩ := a.bounds
    have hsame : s.memory.ldl (a.slaveState + 28) =
        next.memory.ldl (a.slaveState + 28) := by
      apply memory.ldl
      intro i hi
      unfold Area.Untouched Area.Master Area.slaveState
      omega
    show (next.memory.ldl (a.slaveState + 28)).toNat = _
    rw [← hsame, htotal, hlength]
    omega
  · rw [hlength]
    exact hmoved
  · exact replies

end Faithful

/-! ## A turn of the loop -/

section

variable {read rest : List GuestMessage} {message : GuestMessage}

theorem refusals_singleton (message : GuestMessage) :
    refusals [message] =
      if message.isOpen then [(refusal message.msgid, 0)] else [] := by
  unfold refusals
  by_cases asks : message.isOpen = true
  · simp [asks]
  · simp [asks]

/-- A turn reads the first unread message. -/
theorem drainTurn_faithful {slaveTx : UInt32} (ready : Ready a s)
    (faithful : Faithful a read (message :: rest) s)
    (ahead : s.memory.ldl (a.slaveState + 28) = slaveTx) (replied : Bool) :
    drainTurn slaveTx (s, replied) =
      if message.isOpen then
        if s.sent.length = 512 * (a.spare + 1) then none
        else some (consume (queued s (refusal message.msgid)) message.size,
          true)
      else some (consume s message.size, replied) := by
  obtain ⟨hmsgid, hsize⟩ := faithful.rxHeader ready.handed
  have hgoing : ¬ s.rxPos = slaveTx := by
    rw [← ahead, faithful.at_end]
    exact List.cons_ne_nil _ _
  rw [drainTurn_eq ready, if_neg hgoing, hmsgid, hsize]
  exact if_congr (by simp [GuestMessage.isOpen]) rfl rfl

/-- An OPEN is consumed with its answer. -/
theorem Faithful.answer (ready : Ready a s)
    (faithful : Faithful a read (message :: rest) s)
    (asks : message.isOpen = true)
    (room : s.sent.length ≠ 512 * (a.spare + 1)) :
    Faithful a (read ++ [message]) rest
      (Vchiq.consume (queued s (refusal message.msgid)) message.size) := by
  apply faithful.consume (ready.aside_queued room _).untouched
  · rfl
  · rw [refusals_append, refusals_singleton, if_pos asks, ← List.cons_append,
      ← faithful.replies]
    simp [queued]

/-- Any other message is consumed without one. -/
theorem Faithful.skip (faithful : Faithful a read (message :: rest) s)
    (other : ¬ message.isOpen = true) :
    Faithful a (read ++ [message]) rest
      (Vchiq.consume s message.size) := by
  apply faithful.consume (Memory.SameOn.refl _)
  · rfl
  · rw [refusals_append, refusals_singleton, if_neg other, List.append_nil]
    exact faithful.replies

/-- The message has been consumed, and answered if it asks for a service. -/
structure Consumed (a : Area) (read : List GuestMessage) (message : GuestMessage)
    (rest : List GuestMessage) (s : MboxVchiqState) (replied : Bool)
    (state : MboxVchiqState × Bool) : Prop where
  ready : Ready a state.1
  aside : Aside a s state.1
  faithful : Faithful a (read ++ [message]) rest state.1
  sent_length : state.1.sent.length ≤ s.sent.length + 1
  silent : state.2 = false → replied = false ∧ state.1.sent = s.sent

/-- A turn is the end of the loop, or consumes the first unread message. -/
theorem drainTurn_cases {slaveTx : UInt32} (ready : Ready a s)
    (faithful : Faithful a read (message :: rest) s)
    (ahead : s.memory.ldl (a.slaveState + 28) = slaveTx) (replied : Bool) :
    (s.sent.length = 512 * (a.spare + 1) ∧
        drainTurn slaveTx (s, replied) = none) ∨
      ∃ state, drainTurn slaveTx (s, replied) = some state ∧
        Consumed a read message rest s replied state := by
  have hturn := drainTurn_faithful ready faithful ahead replied
  by_cases asks : message.isOpen = true
  · rw [if_pos asks] at hturn
    by_cases full : s.sent.length = 512 * (a.spare + 1)
    · rw [if_pos full] at hturn
      exact Or.inl ⟨full, hturn⟩
    · rw [if_neg full] at hturn
      have hqueued := (ready.queued full (refusal message.msgid)).toReady
      refine Or.inr ⟨_, hturn, ?_, ?_, faithful.answer ready asks full, ?_, ?_⟩
      · exact (hqueued.handed.consume message.size).ready hqueued
      · exact (ready.aside_queued full _).trans
          ⟨Memory.SameOn.refl _, rfl, rfl⟩
      · simp [consume, queued]
      · intro silent
        exact absurd silent.symm Bool.false_ne_true
  · rw [if_neg asks] at hturn
    refine Or.inr ⟨_, hturn, ?_, ⟨Memory.SameOn.refl _, rfl, rfl⟩,
      faithful.skip asks, Nat.le_succ _, fun silent => ⟨silent, rfl⟩⟩
    exact (ready.handed.consume message.size).ready ready

end

/-! ## The loop -/

/-- What holds throughout a drain of the messages that were unread at its start. -/
structure Draining (a : Area) (start : MboxVchiqState)
    (read unread : List GuestMessage) (state : MboxVchiqState × Bool) : Prop where
  ready : Ready a state.1
  aside : Aside a start state.1
  silent : state.2 = false → state.1.sent = start.sent
  faithful : ∃ more rest, unread = more ++ rest ∧
    Faithful a (read ++ more) rest state.1

theorem Draining.turn {start : MboxVchiqState}
    {read unread : List GuestMessage} {state next : MboxVchiqState × Bool}
    (draining : Draining a start read unread state)
    (turn : drainTurn (start.memory.ldl (a.slaveState + 28)) state =
      some next) : Draining a start read unread next := by
  obtain ⟨s, replied⟩ := state
  obtain ⟨hready, haside, hsilent, more, rest, hsplit, hfaithful⟩ := draining
  obtain ⟨hlast, hspan, hqueue, hdata, htop⟩ := a.bounds
  have hahead := (haside.ldl (show 28 + 4 ≤ a.zero.shared.toNat by omega)).symm
  cases rest with
  | nil =>
      rw [drainTurn_eq hready, if_pos] at turn
      · exact absurd turn.symm (Option.some_ne_none next)
      · rw [← hahead]
        exact hfaithful.at_end.mpr rfl
  | cons message rest =>
      have hmore : unread = (more ++ [message]) ++ rest := by
        rw [hsplit, List.append_assoc]
        rfl
      rcases drainTurn_cases hready hfaithful hahead replied with
        ⟨-, stops⟩ | ⟨state, hturn, consumed⟩
      · rw [stops] at turn
        exact absurd turn.symm (Option.some_ne_none next)
      · rw [hturn, Option.some.injEq] at turn
        subst turn
        refine ⟨consumed.ready, haside.trans consumed.aside, ?_,
          more ++ [message], rest, hmore, ?_⟩
        · intro silent
          obtain ⟨hbefore, hsent⟩ := consumed.silent silent
          exact hsent.trans (hsilent hbefore)
        · rw [← List.append_assoc]
          exact consumed.faithful

/-- The guest has been told that there are messages. -/
structure Belled (a : Area) (s : MboxVchiqState) : Prop where
  trigger : s.memory.ldl (a.slaveState + 20) = 1
  doorbell0 : s.doorbell0 &&& DBELL_HAVE_MESSAGES ≠ 0
  irq : s.irq = true

theorem Handed.trigger (handed : Handed a s) :
    (s.slave + SS_TRIGGER_FIRED).toNat = a.slaveState + 20 := by
  obtain ⟨hlast, hspan, hqueue, hdata, htop⟩ := a.bounds
  rw [handed.slave, a.toNat_slave]
  · rfl
  · simp only [SS_TRIGGER_FIRED, UInt32.reduceToNat]
    omega

theorem Handed.belled (handed : Handed a s) : Belled a (ringArmDoorbell s) where
  trigger := by
    show (s.memory.stl (s.slave + SS_TRIGGER_FIRED).toNat 1).ldl _ = 1
    rw [handed.trigger, Memory.ldl_stl_same]
  doorbell0 := by
    show (s.doorbell0 ||| 4) &&& 4 ≠ 0
    intro none
    have hbit := congrArg (fun word => word.toNat.testBit 2) none
    have hfour : Nat.testBit 4 2 = true := by decide
    simp [UInt32.toNat_and, UInt32.toNat_or, hfour] at hbit
  irq := rfl

theorem Handed.ring_untouched (handed : Handed a s) :
    Memory.SameOn a.Untouched s.memory (ringArmDoorbell s).memory := by
  apply Memory.SameOn.stl
  intro i untouched
  rw [handed.trigger]
  have houter := untouched.2
  omega

/-- The bell leaves the guest's stream alone. -/
theorem Faithful.ring {read unread : List GuestMessage}
    (faithful : Faithful a read unread s) (handed : Handed a s) :
    Faithful a read unread (ringArmDoorbell s) :=
  faithful.same handed.ring_untouched rfl rfl

/-- The bell is rung behind a loop that has answered a message. -/
def rung (state : MboxVchiqState × Bool) : MboxVchiqState :=
  if state.2 then ringArmDoorbell state.1 else state.1

/-- The state in which the loop starts, and what becomes of the one it ends in. -/
theorem drain_start {read unread : List GuestMessage} (ready : Ready a s)
    (faithful : Faithful a read unread s) :
    ∃ start, Ready a start ∧ Aside a s start ∧ start.sent = s.sent ∧
      Faithful a read unread start ∧
      drain s = rung (Loop.turns
        (drainTurn (start.memory.ldl (a.slaveState + 28))) 256
          (start, false)) := by
  have hfired : SS_TRIGGER_FIRED.toNat ≤ 24 := by decide
  have hquiet := ready.handed.quiet_master hfired 0
  have haside := ready.handed.aside_master hfired 0
  refine ⟨vchiqStl s .field (s.master + SS_TRIGGER_FIRED) 0,
    hquiet.ready ready, haside, hquiet.sent,
    faithful.same haside.untouched rfl hquiet.sent, ?_⟩
  have htx : vchiqLdl (vchiqStl s .field (s.master + SS_TRIGGER_FIRED) 0)
      ((vchiqStl s .field (s.master + SS_TRIGGER_FIRED) 0).slave +
        SS_TX_POS) =
      (vchiqStl s .field (s.master + SS_TRIGGER_FIRED) 0).memory.ldl
        (a.slaveState + 28) := by
    obtain ⟨hlast, hspan, hqueue, hdata, htop⟩ := a.bounds
    rw [vchiqLdl, hquiet.handed.slave, a.toNat_slave]
    · rfl
    · simp only [SS_TX_POS, UInt32.reduceToNat]
      omega
  rw [drain, if_pos ready.handed.active, ← htx]
  dsimp only
  generalize Loop.turns _ 256 _ = state
  obtain ⟨last, flag⟩ := state
  cases flag with
  | false => rfl
  | true => rfl

/-- What a drain does to the guest's stream and to the bell. -/
theorem drain_faithful {read unread : List GuestMessage} (ready : Ready a s)
    (faithful : Faithful a read unread s) :
    (∃ more rest, unread = more ++ rest ∧
        Faithful a (read ++ more) rest (drain s)) ∧
      (Belled a (drain s) ∨
        (Aside a s (drain s) ∧ (drain s).sent = s.sent)) := by
  obtain ⟨start, hready, haside, hsent, hfaithful, hdrain⟩ :=
    drain_start ready faithful
  have hstart : Draining a start read unread (start, false) :=
    ⟨hready, Aside.refl a start, fun _ => rfl, [], unread, rfl, by
      rwa [List.append_nil]⟩
  have hend := Loop.turns_invariant (P := Draining a start read unread)
    (fun state next draining turn => draining.turn turn) hstart 256
  rw [hdrain]
  generalize Loop.turns _ 256 _ = state at hend
  obtain ⟨last, replied⟩ := state
  obtain ⟨hready, hkept, hsilent, more, rest, hsplit, hfaithful⟩ := hend
  cases replied with
  | true =>
      exact ⟨⟨more, rest, hsplit, hfaithful.ring hready.handed⟩,
        Or.inl hready.handed.belled⟩
  | false =>
      exact ⟨⟨more, rest, hsplit, hfaithful⟩, Or.inr ⟨haside.trans hkept,
        (hsilent rfl).trans hsent⟩⟩

/-! ## After a handover -/

theorem filled_same (s : MboxVchiqState) {count : Nat}
    (inside : count ≤ a.spare + 1) :
    Memory.SameOn (fun i => ¬ a.Master i) s.memory
      (filled (taken s a.base) count).memory := by
  induction count with
  | zero => exact Memory.SameOn.refl _
  | succ count ih =>
      obtain ⟨hlast, hspan, hqueue, hdata, htop⟩ := a.bounds
      apply (ih (by omega)).trans
      apply Memory.SameOn.stl
      intro i untouched
      have haddr := entry_addr s a.base count
      rw [haddr, Nat.mod_eq_of_lt (by omega)]
      unfold Area.Master at untouched
      omega

theorem opened_same (s : MboxVchiqState) :
    Memory.SameOn (fun i => ¬ a.Master i) s.memory (opened a s).memory := by
  obtain ⟨hlast, hspan, hqueue, hdata, htop⟩ := a.bounds
  have hmaster : (filled (taken s a.base) (a.spare + 1)).master =
      a.base + SZ_HEADER_SIZE := by
    rw [filled_eq]
    rfl
  have hfield : ∀ (memory : Memory) (offset val : UInt32), offset.toNat ≤ 32 →
      Memory.SameOn (fun i => ¬ a.Master i) memory
        (memory.stl (a.base + SZ_HEADER_SIZE + offset).toNat val) := by
    intro memory offset val low
    apply Memory.SameOn.stl
    intro i untouched
    rw [a.toNat_master (by omega)]
    unfold Area.Master at untouched
    omega
  simp only [opened, armed, vchiqStl, hmaster]
  exact (((filled_same s (le_refl _)).trans
    (hfield _ _ _ (by decide))).trans (hfield _ _ _ (by decide))).trans
      (hfield _ _ _ (by decide))

/-- A handover finds the guest's stream as the guest has left it. -/
theorem handover_faithful (accepted : (takeArea s a.base).1 = true)
    (found : slotZeroAt s a.base = a.zero) {fuel : Nat} {after : MboxVchiqState}
    (handed : handover fuel s a.base = some after)
    {posted : List GuestMessage} (reads : a.Reads s.memory 0 posted)
    (slaveTx : (s.memory.ldl (a.slaveState + 28)).toNat = total posted) :
    Faithful a [] posted after := by
  have hready := opened_ready found
  have hqueued := hready.queued opened_room connect
  have haside := hready.aside_queued opened_room connect
  have hsame := ((opened_same s).trans haside.memory).mono
    fun i (untouched : a.Untouched i) => untouched.1
  have hslave : Memory.SameOn a.Untouched s.memory after.memory := by
    rw [handover_opened accepted found handed]
    exact hsame.trans hqueued.handed.ring_untouched
  constructor
  · rw [handover_opened accepted found handed]
    simp [ringArmDoorbell, queued, opened, armed]
  · rw [total_nil, Nat.zero_add, ← slaveTx]
    congr 1
    apply (hslave.ldl _).symm
    obtain ⟨hlast, hspan, hqueue, hdata, htop⟩ := a.bounds
    intro i hi
    unfold Area.Untouched Area.Master Area.slaveState
    omega
  · exact reads.same (hslave.mono fun _ watched => reads.untouched watched)
  · rw [handover_opened accepted found handed]
    simp [ringArmDoorbell, queued, opened_sent, refusals]

/-! ## How far a drain comes -/

theorem turns_faithful {slaveTx : UInt32} {more rest : List GuestMessage} :
    ∀ {read : List GuestMessage} {s : MboxVchiqState} {replied : Bool},
      Ready a s → Faithful a read (more ++ rest) s →
      s.memory.ldl (a.slaveState + 28) = slaveTx →
      s.sent.length + more.length ≤ 512 * (a.spare + 1) →
      ∃ next flag, Loop.turns (drainTurn slaveTx) more.length (s, replied) =
          (next, flag) ∧ Ready a next ∧
        Faithful a (read ++ more) rest next := by
  induction more with
  | nil =>
      intro read s replied ready faithful ahead room
      refine ⟨s, replied, rfl, ready, ?_⟩
      rwa [List.append_nil]
  | cons message more ih =>
      intro read s replied ready faithful ahead room
      obtain ⟨hlast, hspan, hqueue, hdata, htop⟩ := a.bounds
      rw [List.length_cons] at room
      rcases drainTurn_cases ready faithful ahead replied with
        ⟨full, -⟩ | ⟨⟨after, flag⟩, hturn, consumed⟩
      · omega
      · have hsent : after.sent.length ≤ s.sent.length + 1 :=
          consumed.sent_length
        obtain ⟨next, last, hturns, hready, hfaithful⟩ :=
          @ih (read ++ [message]) after flag consumed.ready consumed.faithful
            ((consumed.aside.ldl (by omega)).symm.trans ahead) (by omega)
        refine ⟨next, last, ?_, hready, ?_⟩
        · rw [List.length_cons, Loop.turns, hturn]
          exact hturns
        · rw [List.append_assoc] at hfaithful
          exact hfaithful

/-- While there is room, a drain takes 256 messages. -/
theorem drain_takes {read more rest : List GuestMessage} (ready : Ready a s)
    (faithful : Faithful a read (more ++ rest) s) (count : more.length = 256)
    (room : s.sent.length + 256 ≤ 512 * (a.spare + 1)) :
    Ready a (drain s) ∧ Faithful a (read ++ more) rest (drain s) := by
  obtain ⟨start, hready, -, hsent, hfaithful, hdrain⟩ :=
    drain_start ready faithful
  obtain ⟨next, flag, hturns, hready, hfaithful⟩ :=
    @turns_faithful a _ more rest read start false hready hfaithful rfl
      (by rw [hsent, count]; exact room)
  rw [count] at hturns
  rw [hdrain, hturns]
  cases flag with
  | false => exact ⟨hready, hfaithful⟩
  | true =>
      exact ⟨hready.handed.quiet_ring.ready hready,
        hfaithful.ring hready.handed⟩

end RiscosBuilder.Vchiq
