import RiscosBuilder.Vchiq.Area

/-!
# The master's stream

What holds of the messages that the device has queued since the handover,
whatever the number of slots on a side is: every message is where the masked
slot queue index puts it, and once the slots are used up there are no more.
-/

namespace RiscosBuilder.Vchiq

open RiscosBuilder.Library

/-- The slot queue is filled, and the messages sent follow one another. -/
structure Ready (a : Area) (s : MboxVchiqState) : Prop where
  handed : Handed a s
  queue : ∀ i ≤ a.spare, s.memory.ldl (a.base.toNat + 104 + 4 * i) =
    UInt32.ofNat (a.zero.first.toNat + i)
  txPos : s.txPos.toNat = 8 * s.sent.length
  used : s.sent.length ≤ 512 * (a.spare + 1)
  headers : s.sent.map (fun message => message.header.toNat) =
    (List.range s.sent.length).map fun n => a.place (8 * n)

/-- And the guest is told how far they go. -/
structure Streaming (a : Area) (s : MboxVchiqState) : Prop extends Ready a s where
  published : s.memory.ldl (a.base.toNat + 60) = s.txPos

/-- The message that stands at the place of the `n`-th. -/
def messageAt (a : Area) (memory : Memory) (n : Nat) : UInt32 × UInt32 :=
  (memory.ldl (a.place (8 * n)), memory.ldl (a.place (8 * n) + 4))

/-- Every message sent still stands in its place. -/
def Kept (a : Area) (s : MboxVchiqState) : Prop :=
  (List.range s.sent.length).map (messageAt a s.memory) =
    s.sent.map fun message => (message.msgid, message.size)

/-! ## What leaves the stream alone -/

/-- Nothing changes of what the master's stream rests on. -/
structure Quiet (a : Area) (s next : MboxVchiqState) : Prop where
  handed : Handed a next
  sent : next.sent = s.sent
  txPos : next.txPos = s.txPos
  memory : Memory.SameOn a.Held s.memory next.memory

namespace Quiet

variable {a : Area} {s next : MboxVchiqState}

theorem ready (quiet : Quiet a s next) (ready : Ready a s) : Ready a next where
  handed := quiet.handed
  queue := by
    intro i hi
    rw [← ready.queue i hi]
    apply (quiet.memory.ldl _).symm
    intro j hj
    unfold Area.Held
    omega
  txPos := by rw [quiet.txPos, quiet.sent, ready.txPos]
  used := by rw [quiet.sent]; exact ready.used
  headers := by rw [quiet.sent]; exact ready.headers

theorem streaming (quiet : Quiet a s next) (streaming : Streaming a s) :
    Streaming a next where
  toReady := quiet.ready streaming.toReady
  published := by
    rw [quiet.txPos, ← streaming.published]
    apply (quiet.memory.ldl _).symm
    intro j hj
    unfold Area.Held
    omega

theorem messageAt (quiet : Quiet a s next) {n : Nat}
    (inside : 8 * n < 4096 * (a.spare + 1)) :
    messageAt a next.memory n = messageAt a s.memory n := by
  obtain ⟨hlow, hhigh⟩ := a.place_held inside
  unfold Vchiq.messageAt
  rw [quiet.memory.ldl, quiet.memory.ldl]
  · intro j hj
    unfold Area.Held
    omega
  · intro j hj
    unfold Area.Held
    omega

theorem kept (quiet : Quiet a s next) (ready : Ready a s) (kept : Kept a s) :
    Kept a next := by
  unfold Kept
  rw [quiet.sent, ← kept]
  apply List.map_congr_left
  intro n hn
  have hused := ready.used
  have hlt := List.mem_range.mp hn
  exact quiet.messageAt (by omega)

end Quiet

/-- A store outside of what the stream rests on. -/
theorem Handed.quiet_stl {a : Area} {s : MboxVchiqState} (handed : Handed a s)
    {site : Site} {addr val : UInt32}
    (apart : ∀ i, a.Held i → i < addr.toNat ∨ addr.toNat + 4 ≤ i) :
    Quiet a s (vchiqStl s site addr val) where
  handed := handed.of_settled rfl
  sent := vchiqStl_sent s site addr val
  txPos := vchiqStl_txPos s site addr val
  memory := Memory.SameOn.stl apart

/-! ## Queueing -/

namespace Ready

variable {a : Area} {s : MboxVchiqState}

/-- The slots are used up once every one of them is full. -/
theorem outOfSlots_iff (ready : Ready a s) :
    OutOfSlots s ↔ s.sent.length = 512 * (a.spare + 1) := by
  obtain ⟨hlast, -, -, hdata, htop⟩ := a.bounds
  have hpos := ready.txPos
  have hused := ready.used
  rw [OutOfSlots, ready.handed.slotFirst, ready.handed.slotLast,
    ready.handed.slotSize, gt_iff_lt, UInt32.lt_iff_toNat_lt,
    UInt32.toNat_add, UInt32.toNat_div, hpos, VCHIQ_SLOT_SIZE]
  simp only [UInt32.reduceToNat]
  omega

/-- The next message goes to the next place. -/
theorem nextHeader (ready : Ready a s)
    (room : s.sent.length ≠ 512 * (a.spare + 1)) :
    (nextHeader s).toNat = a.place (8 * s.sent.length) := by
  obtain ⟨hlast, -, -, hdata, htop⟩ := a.bounds
  have hused := ready.used
  have hindex := a.index_le (8 * s.sent.length)
  have hentry := a.toNat_entry s.txPos
  rw [ready.txPos] at hentry
  have hread : vchiqLdl s (s.master + SS_SLOT_QUEUE + 4 *
      ((s.txPos / s.slotSize) &&& (s.maxSlotsPerSide - 1))) =
        UInt32.ofNat (a.zero.first.toNat + a.index (8 * s.sent.length)) := by
    obtain ⟨-, hspan, hqueue, -, -⟩ := a.bounds
    have hlt := a.index_lt (8 * s.sent.length)
    rw [ready.handed.master, ready.handed.slotSize,
      ready.handed.maxSlotsPerSide, UInt32.add_assoc, vchiqLdl,
      a.toNat_master (by omega), hentry, ← ready.queue _ (by omega)]
    congr 1
    omega
  have hslot : (UInt32.ofNat (a.zero.first.toNat +
      a.index (8 * s.sent.length))).toNat =
        a.zero.first.toNat + a.index (8 * s.sent.length) := by
    rw [UInt32.toNat_ofNat']
    omega
  rw [Vchiq.nextHeader, hread, ready.handed.slotZero, ready.handed.slotSize,
    UInt32.toNat_add, UInt32.toNat_add, UInt32.toNat_mul, UInt32.toNat_mod,
    hslot, ready.txPos, VCHIQ_SLOT_SIZE, Area.place]
  simp only [UInt32.reduceToNat]
  omega

/-- The position behind the next message. -/
theorem toNat_txPos (ready : Ready a s) : (s.txPos + 8).toNat = 8 * (s.sent.length + 1) := by
  obtain ⟨hlast, -, -, hdata, htop⟩ := a.bounds
  have hpos := ready.txPos
  have hused := ready.used
  rw [UInt32.toNat_add, hpos]
  simp only [UInt32.reduceToNat]
  omega

/-- Where the three stores of a message go. -/
theorem queued_memory (ready : Ready a s)
    (room : s.sent.length ≠ 512 * (a.spare + 1)) (msgid : UInt32) :
    (queued s msgid).memory =
      ((s.memory.stl (a.place (8 * s.sent.length)) msgid).stl
        (a.place (8 * s.sent.length) + 4) 0).stl (a.base.toNat + 60)
          (s.txPos + 8) := by
  obtain ⟨hlast, -, hqueue, hdata, htop⟩ := a.bounds
  have hused := ready.used
  have hheld := @a.place_held s.sent.length (by omega)
  have hnext : (Vchiq.nextHeader s + 4).toNat =
      a.place (8 * s.sent.length) + 4 := by
    rw [UInt32.toNat_add, ready.nextHeader room]
    simp only [UInt32.reduceToNat]
    omega
  have htx : (s.master + SS_TX_POS).toNat = a.base.toNat + 60 := by
    rw [ready.handed.master, a.toNat_master]
    · rfl
    · simp only [SS_TX_POS, UInt32.reduceToNat]
      omega
  rw [queued, hnext, htx, ready.nextHeader room]

/-- A message that is queued continues the stream. -/
theorem queued (ready : Ready a s)
    (room : s.sent.length ≠ 512 * (a.spare + 1)) (msgid : UInt32) :
    Streaming a (queued s msgid) := by
  obtain ⟨hlast, hspan, hqueue, hdata, htop⟩ := a.bounds
  have hused := ready.used
  have hheld := @a.place_held s.sent.length (by omega)
  have hmemory := ready.queued_memory room msgid
  have hlength : (Vchiq.queued s msgid).sent.length = s.sent.length + 1 := by
    simp [Vchiq.queued]
  refine ⟨⟨ready.handed.of_settled rfl, ?_, ?_, ?_, ?_⟩, ?_⟩
  · intro i hi
    rw [hmemory, Memory.ldl_stl_apart (by omega),
      Memory.ldl_stl_apart (by omega), Memory.ldl_stl_apart (by omega)]
    exact ready.queue i hi
  · rw [hlength]
    exact ready.toNat_txPos
  · rw [hlength]
    omega
  · rw [hlength, List.range_succ, List.map_append, ← ready.headers]
    simp [Vchiq.queued, ready.nextHeader room]
  · rw [hmemory, Memory.ldl_stl_same]
    rfl

/-- A message without data is queued until the slots are used up. -/
theorem queueMessage_zero (ready : Ready a s) (msgid : UInt32) :
    queueMessage s msgid 0 =
      if s.sent.length = 512 * (a.spare + 1) then (false, s)
      else (true, Vchiq.queued s msgid) := by
  rw [queueMessage_eq ready.handed.slotSize (by rw [ready.txPos]; omega)]
  exact if_congr ready.outOfSlots_iff rfl rfl

/-- Once the slots are used up, any message is refused. -/
theorem refused (ready : Ready a s)
    (full : s.sent.length = 512 * (a.spare + 1)) (msgid size : UInt32) :
    queueMessage s msgid size = (false, s) := by
  have hfull := ready.outOfSlots_iff.mpr full
  unfold OutOfSlots at hfull
  simp only [queueMessage, if_pos hfull, ite_self]

end Ready

end RiscosBuilder.Vchiq
