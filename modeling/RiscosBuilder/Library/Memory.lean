import RiscosBuilder.Library.ByteImage

/-!
# Memories

A memory gives a byte at every address.  Runs of bytes and little-endian 32-bit
words are read from it and stored in it.
-/

namespace RiscosBuilder.Library

open ByteImage

/-- The bytes at the addresses. -/
abbrev Memory := Nat → UInt8

namespace Memory

/-- The `count` bytes from `start` on. -/
def bytes (memory : Memory) (start count : Nat) : List UInt8 :=
  (List.range count).map fun i => memory (start + i)

/-- Store a run of bytes. -/
def store (memory : Memory) (start : Nat) (data : List UInt8) : Memory :=
  fun i =>
    if start ≤ i ∧ i < start + data.length then data.getD (i - start) 0
    else memory i

/-- Load a little-endian word of 32 bits. -/
def ldl (memory : Memory) (addr : Nat) : UInt32 :=
  UInt32.ofNat (leWord (memory.bytes addr 4))

/-- Store a little-endian word of 32 bits. -/
def stl (memory : Memory) (addr : Nat) (value : UInt32) : Memory :=
  memory.store addr (leBytes 4 value.toNat)

variable {memory : Memory}

@[simp] theorem bytes_length (memory : Memory) (start count : Nat) :
    (memory.bytes start count).length = count := by
  simp [bytes]

theorem bytes_append (memory : Memory) (start first second : Nat) :
    memory.bytes start (first + second) =
      memory.bytes start first ++ memory.bytes (start + first) second := by
  simp [bytes, List.range_add, List.map_append, Function.comp_def,
    Nat.add_assoc]

/-- A slice of a run of bytes is a run of bytes. -/
theorem slice_bytes (memory : Memory) {start count i size : Nat}
    (inside : i + size ≤ count) :
    slice (memory.bytes start count) i (i + size) =
      memory.bytes (start + i) size := by
  obtain ⟨rest, rfl⟩ := Nat.exists_eq_add_of_le inside
  have hmiddle := slice_append_middle (memory.bytes start i)
    (memory.bytes (start + i) size) (memory.bytes (start + (i + size)) rest)
  rwa [← bytes_append, ← bytes_append, bytes_length, bytes_length] at hmiddle

theorem drop_bytes (memory : Memory) {start count i : Nat} (inside : i ≤ count) :
    (memory.bytes start count).drop i = memory.bytes (start + i) (count - i) := by
  obtain ⟨rest, rfl⟩ := Nat.exists_eq_add_of_le inside
  rw [bytes_append, Nat.add_sub_cancel_left]
  exact List.drop_left' (bytes_length _ _ _)

theorem bytes_congr {other : Memory} {start place count : Nat}
    (same : ∀ i < count, memory (start + i) = other (place + i)) :
    memory.bytes start count = other.bytes place count :=
  List.map_congr_left fun i member => same i (List.mem_range.mp member)

theorem bytes_store_same (memory : Memory) (start : Nat) (data : List UInt8) :
    (memory.store start data).bytes start data.length = data := by
  apply List.ext_getElem
  · simp
  · intro i hfirst hsecond
    simp [bytes, store, hsecond]

theorem store_apart {start i : Nat} {data : List UInt8}
    (apart : i < start ∨ start + data.length ≤ i) :
    memory.store start data i = memory i := by
  rw [store, if_neg]
  omega

theorem bytes_store_apart {start place count : Nat} {data : List UInt8}
    (apart : place + count ≤ start ∨ start + data.length ≤ place) :
    (memory.store start data).bytes place count =
      memory.bytes place count := by
  apply bytes_congr
  intro i inside
  exact store_apart (by omega)

/-- Two runs stored one behind the other. -/
theorem store_append (memory : Memory) (start : Nat) (first second : List UInt8) :
    (memory.store start first).store (start + first.length) second =
      memory.store start (first ++ second) := by
  funext i
  simp only [store, List.length_append, List.getD_eq_getElem?_getD]
  by_cases behind : start + first.length ≤ i
  · rw [List.getElem?_append_right (by omega), Nat.sub_sub]
    by_cases inside : i < start + first.length + second.length
    · rw [if_pos ⟨behind, inside⟩, if_pos (by omega)]
    · rw [if_neg (by omega), if_neg (by omega), if_neg (by omega)]
  · rw [if_neg (by omega)]
    by_cases inside : start ≤ i
    · rw [if_pos (by omega), if_pos (by omega),
        List.getElem?_append_left (by omega)]
    · rw [if_neg (by omega), if_neg (by omega)]

@[simp] theorem store_nil (memory : Memory) (start : Nat) :
    memory.store start [] = memory := by
  funext i
  exact if_neg (by simp only [List.length_nil]; omega)

theorem ldl_stl_same (memory : Memory) (addr : Nat) (value : UInt32) :
    (memory.stl addr value).ldl addr = value := by
  have hbytes := memory.bytes_store_same addr (leBytes 4 value.toNat)
  rw [leBytes_length] at hbytes
  rw [ldl, stl, hbytes, leWord_leBytes value.toNat_lt, UInt32.ofNat_toNat]

theorem ldl_stl_apart {addr place : Nat} {value : UInt32}
    (apart : place + 4 ≤ addr ∨ addr + 4 ≤ place) :
    (memory.stl addr value).ldl place = memory.ldl place := by
  rw [ldl, stl, bytes_store_apart (by simpa using apart), ldl]

theorem stl_apart {addr i : Nat} {value : UInt32}
    (apart : i < addr ∨ addr + 4 ≤ i) : memory.stl addr value i = memory i :=
  store_apart (by simpa using apart)

/-! ## Memories that agree on a region -/

/-- The two memories agree on the region. -/
def SameOn (region : Nat → Prop) (memory other : Memory) : Prop :=
  ∀ i, region i → memory i = other i

namespace SameOn

variable {region : Nat → Prop} {other last : Memory}

theorem refl (memory : Memory) : SameOn region memory memory :=
  fun _ _ => rfl

theorem trans (first : SameOn region memory other)
    (second : SameOn region other last) : SameOn region memory last :=
  fun i inside => (first i inside).trans (second i inside)

theorem mono {inner : Nat → Prop} (same : SameOn region memory other)
    (within : ∀ i, inner i → region i) : SameOn inner memory other :=
  fun i inside => same i (within i inside)

theorem store {start : Nat} {data : List UInt8}
    (apart : ∀ i, region i → i < start ∨ start + data.length ≤ i) :
    SameOn region memory (memory.store start data) :=
  fun i inside => (store_apart (apart i inside)).symm

theorem stl {addr : Nat} {value : UInt32}
    (apart : ∀ i, region i → i < addr ∨ addr + 4 ≤ i) :
    SameOn region memory (memory.stl addr value) :=
  fun i inside => (stl_apart (apart i inside)).symm

theorem ldl {addr : Nat} (same : SameOn region memory other)
    (inside : ∀ i < 4, region (addr + i)) :
    memory.ldl addr = other.ldl addr := by
  rw [Memory.ldl, bytes_congr fun i hi => same _ (inside i hi), Memory.ldl]

end SameOn

/-! ## What stands at an address -/

/-- The run of bytes stands at the address. -/
def At (memory : Memory) (start : Nat) (data : List UInt8) : Prop :=
  memory.bytes start data.length = data

theorem at_append {start : Nat} {first second : List UInt8} :
    memory.At start (first ++ second) ↔
      memory.At start first ∧ memory.At (start + first.length) second := by
  unfold At
  rw [List.length_append, bytes_append]
  constructor
  · intro whole
    exact List.append_inj whole (bytes_length _ _ _)
  · rintro ⟨hfirst, hsecond⟩
    rw [hfirst, hsecond]

theorem at_store_same (memory : Memory) (start : Nat) (data : List UInt8) :
    (memory.store start data).At start data :=
  memory.bytes_store_same start data

theorem At.store_apart {start place : Nat} {data other : List UInt8}
    (held : memory.At place other)
    (apart : place + other.length ≤ start ∨ start + data.length ≤ place) :
    (memory.store start data).At place other :=
  (bytes_store_apart apart).trans held

theorem At.ldl_eq {start : Nat} {value : UInt32}
    (held : memory.At start (leBytes 4 value.toNat)) :
    memory.ldl start = value := by
  rw [At, leBytes_length] at held
  rw [ldl, held, leWord_leBytes value.toNat_lt, UInt32.ofNat_toNat]

end Memory

end RiscosBuilder.Library
