import RiscosBuilder.Vchiq.Handover

/-!
# Slot zero areas

A slot zero area in which no number wraps and whose master slots lie behind the
two shared states: where everything in it is, and what of it belongs to the
master's stream.
-/

namespace RiscosBuilder.Vchiq

open RiscosBuilder.Library

/-- No number in the area wraps, and the shared states and master's slots are apart. -/
structure Apart (z : SlotZero) (base : Nat) : Prop where
  queue : 72 + 4 * z.perSide.toNat < 2 ^ 32
  data : 32 + 2 * z.shared.toNat ≤ 4096 * z.first.toNat
  top : base + 4096 * (z.last.toNat + 1) ≤ 2 ^ 32

/-- It is apart when its sizes do not wrap and the master's slots are data slots. -/
theorem apart_of_data {z : SlotZero} {base : Nat} (sane : Plausible z)
    (sizes : 32 + 4 * z.maxSlots.toNat < 2 ^ 32)
    (data : z.zeroSize.toNat ≤ 4096 * z.first.toNat)
    (top : base + 4096 * (z.last.toNat + 1) ≤ 2 ^ 32) : Apart z base := by
  obtain ⟨hsize, hle, hqueue, horder, -⟩ := sane
  rw [Nat.mod_eq_of_lt sizes] at hsize
  exact ⟨by omega, by omega, top⟩

/-- An area that passes the checks of the handover and is apart. -/
structure Area where
  base : UInt32
  zero : SlotZero
  sane : Plausible zero
  apart : Apart zero base.toNat

namespace Area

/-- How many slots the master's stream has, less one. -/
def spare (a : Area) : Nat :=
  a.zero.last.toNat - a.zero.first.toNat

/-- The slot queue entry that belongs to a position in a stream. -/
def index (a : Area) (pos : Nat) : Nat :=
  (pos / 4096) &&& (a.zero.perSide.toNat - 1)

/-- The address of the master's position `pos`, for a queue that has been filled. -/
def place (a : Area) (pos : Nat) : Nat :=
  a.base.toNat + 4096 * (a.zero.first.toNat + a.index pos) + pos % 4096

/-- What the master's stream rests on: its queue, its position, and its slots. -/
def Held (a : Area) (addr : Nat) : Prop :=
  (a.base.toNat + 60 ≤ addr ∧ addr < a.base.toNat + 64) ∨
    (a.base.toNat + 104 ≤ addr ∧ addr < a.base.toNat + 108 + 4 * a.spare) ∨
    (a.base.toNat + 4096 * a.zero.first.toNat ≤ addr ∧
      addr < a.base.toNat + 4096 * (a.zero.last.toNat + 1))

/-- The master's side: its shared state and its slots. -/
def Master (a : Area) (addr : Nat) : Prop :=
  (a.base.toNat + 32 ≤ addr ∧
      addr < a.base.toNat + 32 + a.zero.shared.toNat) ∨
    (a.base.toNat + 4096 * a.zero.first.toNat ≤ addr ∧
      addr < a.base.toNat + 4096 * (a.zero.last.toNat + 1))

/-- The bounds of an area, as numbers. -/
theorem bounds (a : Area) :
    a.zero.first.toNat + a.spare = a.zero.last.toNat ∧
      a.spare < a.zero.perSide.toNat ∧
      72 + 4 * a.zero.perSide.toNat ≤ a.zero.shared.toNat ∧
      32 + 2 * a.zero.shared.toNat ≤ 4096 * a.zero.first.toNat ∧
      a.base.toNat + 4096 * (a.zero.last.toNat + 1) ≤ 2 ^ 32 := by
  have horder := a.sane.order
  have hspan := a.sane.span
  have hqueue := a.sane.queue_le
  have hwrap := a.apart.queue
  rw [Nat.mod_eq_of_lt hwrap] at hqueue
  exact ⟨Nat.add_sub_cancel' horder, hspan, hqueue, a.apart.data, a.apart.top⟩

theorem held_master {a : Area} {addr : Nat} (held : a.Held addr) :
    a.Master addr := by
  obtain ⟨-, hspan, hqueue, -, -⟩ := a.bounds
  unfold Held at held
  unfold Master
  omega

theorem index_le (a : Area) (pos : Nat) : a.index pos ≤ pos / 4096 :=
  Nat.and_le_left

theorem index_lt (a : Area) (pos : Nat) :
    a.index pos < a.zero.perSide.toNat := by
  obtain ⟨-, hspan, -, -, -⟩ := a.bounds
  have hle : a.index pos ≤ a.zero.perSide.toNat - 1 := Nat.and_le_right
  omega

/-- A message in the stream fits behind its place. -/
theorem place_held {a : Area} {n : Nat}
    (inside : 8 * n < 4096 * (a.spare + 1)) :
    a.base.toNat + 4096 * a.zero.first.toNat ≤ a.place (8 * n) ∧
      a.place (8 * n) + 8 ≤ a.base.toNat + 4096 * (a.zero.last.toNat + 1) := by
  obtain ⟨hlast, -, -, -, -⟩ := a.bounds
  have hindex := a.index_le (8 * n)
  unfold place
  omega

/-- The index that the code computes. -/
theorem toNat_index (a : Area) (pos : UInt32) :
    ((pos / VCHIQ_SLOT_SIZE) &&& (a.zero.perSide - 1)).toNat =
      a.index pos.toNat := by
  obtain ⟨-, hspan, -, -, -⟩ := a.bounds
  rw [UInt32.toNat_and, UInt32.toNat_div, Word.toNat_sub_of_le]
  · rfl
  · exact Nat.one_le_of_lt hspan

/-- A field of the master's shared state. -/
theorem toNat_master (a : Area) {offset : UInt32}
    (inside : offset.toNat ≤ a.zero.shared.toNat) :
    (a.base + SZ_HEADER_SIZE + offset).toNat =
      a.base.toNat + 32 + offset.toNat := by
  obtain ⟨-, -, -, hdata, htop⟩ := a.bounds
  have horder := a.sane.order
  simp only [SZ_HEADER_SIZE, UInt32.toNat_add, UInt32.reduceToNat]
  omega

/-- A field of the slave's shared state. -/
theorem toNat_slave (a : Area) {offset : UInt32}
    (inside : offset.toNat ≤ a.zero.shared.toNat) :
    (a.base + SZ_HEADER_SIZE + a.zero.shared + offset).toNat =
      a.base.toNat + 32 + a.zero.shared.toNat + offset.toNat := by
  obtain ⟨-, -, -, hdata, htop⟩ := a.bounds
  have horder := a.sane.order
  simp only [SZ_HEADER_SIZE, UInt32.toNat_add, UInt32.reduceToNat]
  omega

/-- A slot queue entry is a field. -/
theorem toNat_entry (a : Area) (pos : UInt32) :
    (SS_SLOT_QUEUE + 4 * ((pos / VCHIQ_SLOT_SIZE) &&&
      (a.zero.perSide - 1))).toNat = 72 + 4 * a.index pos.toNat := by
  obtain ⟨-, -, hqueue, hdata, htop⟩ := a.bounds
  have horder := a.sane.order
  have hindex := a.index_lt pos.toNat
  rw [SS_SLOT_QUEUE, UInt32.toNat_add, UInt32.toNat_mul, a.toNat_index]
  simp only [UInt32.reduceToNat]
  omega

end Area

/-- The device has been handed the area. -/
structure Handed (a : Area) (s : MboxVchiqState) : Prop where
  active : s.active = true
  slotZero : s.slotZero = a.base
  master : s.master = a.base + SZ_HEADER_SIZE
  slave : s.slave = a.base + SZ_HEADER_SIZE + a.zero.shared
  slotSize : s.slotSize = VCHIQ_SLOT_SIZE
  maxSlotsPerSide : s.maxSlotsPerSide = a.zero.perSide
  slotFirst : s.slotFirst = a.zero.first
  slotLast : s.slotLast = a.zero.last

/-- The fields that a handover settles. -/
def settled (s : MboxVchiqState) :
    Bool × UInt32 × UInt32 × UInt32 × UInt32 × UInt32 × UInt32 × UInt32 :=
  (s.active, s.slotZero, s.master, s.slave, s.slotSize, s.maxSlotsPerSide,
    s.slotFirst, s.slotLast)

theorem Handed.of_settled {a : Area} {s next : MboxVchiqState}
    (handed : Handed a s) (same : settled next = settled s) :
    Handed a next := by
  simp only [settled, Prod.mk.injEq] at same
  obtain ⟨hactive, hzero, hmaster, hslave, hsize, hside, hfirst, hlast⟩ := same
  exact ⟨hactive.trans handed.active, hzero.trans handed.slotZero,
    hmaster.trans handed.master, hslave.trans handed.slave,
    hsize.trans handed.slotSize, hside.trans handed.maxSlotsPerSide,
    hfirst.trans handed.slotFirst, hlast.trans handed.slotLast⟩

end RiscosBuilder.Vchiq
