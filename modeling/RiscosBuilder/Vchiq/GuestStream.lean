import RiscosBuilder.Vchiq.Opening

/-!
# The guest's stream

The messages that the guest has published and the device has not consumed yet,
as they stand in memory, and what a turn of the draining loop makes of them.
-/

namespace RiscosBuilder.Vchiq

open RiscosBuilder.Library

/-- A message in the guest's stream, without its data. -/
structure GuestMessage where
  msgid : UInt32
  size : UInt32
  deriving DecidableEq, Repr

namespace GuestMessage

/-- How far the next message is behind this one. -/
def stride (message : GuestMessage) : Nat :=
  (message.size.toNat + 15) / 8 * 8

/-- The message asks for a service. -/
def isOpen (message : GuestMessage) : Bool :=
  msgType message.msgid = VCHIQ_MSG_OPEN

theorem le_stride (message : GuestMessage) : 8 ≤ message.stride := by
  unfold stride
  omega

theorem toNat_vchiqStride {message : GuestMessage}
    (fits : message.stride ≤ 4096) :
    (vchiqStride message.size).toNat = message.stride := by
  unfold stride at fits ⊢
  have hsum : (message.size + 8 + 7).toNat = message.size.toNat + 15 := by
    rw [UInt32.toNat_add, UInt32.toNat_add]
    simp only [UInt32.reduceToNat]
    omega
  rw [vchiqStride, @Word.toNat_and_not _ 7 3 (by decide) rfl, hsum]
  rfl

end GuestMessage

/-- The length of a stream. -/
def total (stream : List GuestMessage) : Nat :=
  (stream.map GuestMessage.stride).sum

@[simp] theorem total_nil : total [] = 0 := rfl

@[simp] theorem total_cons (message : GuestMessage)
    (stream : List GuestMessage) :
    total (message :: stream) = message.stride + total stream := rfl

@[simp] theorem total_append (first second : List GuestMessage) :
    total (first ++ second) = total first + total second := by
  simp [total]

/-- What the device answers to the messages. -/
def refusals (stream : List GuestMessage) : List (UInt32 × UInt32) :=
  (stream.filter GuestMessage.isOpen).map fun message =>
    (refusal message.msgid, 0)

theorem refusals_append (first second : List GuestMessage) :
    refusals (first ++ second) = refusals first ++ refusals second := by
  simp [refusals]

namespace Area

/-- The slave's shared state. -/
def slaveState (a : Area) : Nat :=
  a.base.toNat + 32 + a.zero.shared.toNat

/-- The entry of the slave's slot queue for a position in its stream. -/
def slaveEntry (a : Area) (pos : Nat) : Nat :=
  a.slaveState + 72 + 4 * a.index pos

/-- The slot that a position in the slave's stream is in. -/
def slaveSlot (a : Area) (memory : Memory) (pos : Nat) : Nat :=
  (memory.ldl (a.slaveEntry pos)).toNat

/-- The address of a position in the slave's stream. -/
def slavePlace (a : Area) (memory : Memory) (pos : Nat) : Nat :=
  a.base.toNat + 4096 * a.slaveSlot memory pos + pos % 4096

/-- The slot is behind the shared states and none of the master's. -/
structure Elsewhere (a : Area) (slot : Nat) : Prop where
  behind : 32 + 2 * a.zero.shared.toNat ≤ 4096 * slot
  other : slot < a.zero.first.toNat ∨ a.zero.last.toNat < slot
  top : a.base.toNat + 4096 * (slot + 1) ≤ 2 ^ 32

/-- The message stands at a position of the slave's stream. -/
structure Stands (a : Area) (memory : Memory) (pos : Nat)
    (message : GuestMessage) : Prop where
  elsewhere : a.Elsewhere (a.slaveSlot memory pos)
  msgid : memory.ldl (a.slavePlace memory pos) = message.msgid
  size : memory.ldl (a.slavePlace memory pos + 4) = message.size
  fits : pos % 4096 + message.stride ≤ 4096

/-- The messages stand one behind the other, from a position on. -/
def Reads (a : Area) (memory : Memory) : Nat → List GuestMessage → Prop
  | _, [] => True
  | pos, message :: rest =>
      a.Stands memory pos message ∧
        a.Reads memory (pos + message.stride) rest

/-- What the device looks at when it reads the messages. -/
def Watched (a : Area) (memory : Memory) : Nat → List GuestMessage → Nat → Prop
  | _, [], _ => False
  | pos, message :: rest, addr =>
      (a.slaveEntry pos ≤ addr ∧ addr < a.slaveEntry pos + 4) ∨
        (a.slavePlace memory pos ≤ addr ∧
          addr < a.slavePlace memory pos + 8) ∨
        a.Watched memory (pos + message.stride) rest addr

/-- What the device never stores into: neither the master's side nor the
slave's trigger. -/
def Untouched (a : Area) (addr : Nat) : Prop :=
  ¬ a.Master addr ∧ (addr < a.slaveState + 20 ∨ a.slaveState + 24 ≤ addr)

variable {a : Area} {memory other : Memory}

/-- A message stands as long as what is read of it is the same. -/
theorem Stands.same {pos : Nat} {message : GuestMessage}
    (stands : a.Stands memory pos message)
    (entry : memory.ldl (a.slaveEntry pos) = other.ldl (a.slaveEntry pos))
    (first : memory.ldl (a.slavePlace memory pos) =
      other.ldl (a.slavePlace memory pos))
    (second : memory.ldl (a.slavePlace memory pos + 4) =
      other.ldl (a.slavePlace memory pos + 4)) :
    a.slavePlace other pos = a.slavePlace memory pos ∧
      a.Stands other pos message := by
  have hslot : a.slaveSlot other pos = a.slaveSlot memory pos := by
    unfold slaveSlot
    rw [entry]
  have hplace : a.slavePlace other pos = a.slavePlace memory pos := by
    unfold slavePlace
    rw [hslot]
  refine ⟨hplace, ?_, ?_, ?_, stands.fits⟩
  · rw [hslot]
    exact stands.elsewhere
  · rw [hplace, ← first]
    exact stands.msgid
  · rw [hplace, ← second]
    exact stands.size

theorem Reads.same {pos : Nat} {stream : List GuestMessage}
    (reads : a.Reads memory pos stream)
    (same : Memory.SameOn (a.Watched memory pos stream) memory other) :
    a.Reads other pos stream := by
  induction stream generalizing pos with
  | nil => trivial
  | cons message rest ih =>
      obtain ⟨stands, hrest⟩ := reads
      constructor
      · apply (stands.same _ _ _).2
        · apply same.ldl
          intro i hi
          exact Or.inl (by omega)
        · apply same.ldl
          intro i hi
          exact Or.inr (Or.inl (by omega))
        · apply same.ldl
          intro i hi
          exact Or.inr (Or.inl (by omega))
      · exact ih hrest (same.mono fun i hi => Or.inr (Or.inr hi))

/-- What is read of a message is neither the master's nor a fixed field. -/
theorem Reads.outside {pos : Nat} {stream : List GuestMessage}
    (reads : a.Reads memory pos stream) {addr : Nat}
    (watched : a.Watched memory pos stream addr) :
    ¬ a.Master addr ∧ (addr < a.slaveState ∨ a.slaveState + 72 ≤ addr) := by
  induction stream generalizing pos with
  | nil => exact watched.elim
  | cons message rest ih =>
      obtain ⟨stands, hrest⟩ := reads
      obtain ⟨hlast, hspan, hqueue, hdata, htop⟩ := a.bounds
      have hindex := a.index_lt pos
      rcases watched with entry | header | behind
      · unfold slaveEntry at entry
        unfold Master slaveState at *
        omega
      · obtain ⟨hbehind, hother, -⟩ := stands.elsewhere
        have hfits := stands.fits
        have height := message.le_stride
        unfold slavePlace at header
        generalize a.slaveSlot memory pos = slot at header hbehind hother
        unfold Master slaveState
        omega
      · exact ih hrest behind

/-- The device never stores into it. -/
theorem Reads.untouched {pos : Nat} {stream : List GuestMessage}
    (reads : a.Reads memory pos stream) {addr : Nat}
    (watched : a.Watched memory pos stream addr) : a.Untouched addr := by
  obtain ⟨hmaster, hfields⟩ := reads.outside watched
  exact ⟨hmaster, by omega⟩

/-- A message published at the end continues the stream. -/
theorem Reads.append {pos : Nat} {stream : List GuestMessage}
    (reads : a.Reads memory pos stream) {message : GuestMessage}
    (stands : a.Stands memory (pos + total stream) message) :
    a.Reads memory pos (stream ++ [message]) := by
  induction stream generalizing pos with
  | nil => exact ⟨stands, trivial⟩
  | cons head rest ih =>
      obtain ⟨hhead, hrest⟩ := reads
      refine ⟨hhead, ih hrest ?_⟩
      rw [total_cons, ← Nat.add_assoc] at stands
      exact stands

end Area

end RiscosBuilder.Vchiq
