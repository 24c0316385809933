import RiscosBuilder.Library.ByteImage

/-!
# Files

The content of a file is a byte string.  A write overwrites what stands at its
place; behind the end of the file it leaves zeros in between.
-/

namespace RiscosBuilder.Library.FileImage

open ByteImage

/-- `f.truncate(size)` of an empty file. -/
def zeros (size : Nat) : List UInt8 :=
  List.replicate size 0

/-- `f.seek(place)` and `f.write(data)`. -/
def writeAt (file : List UInt8) (place : Nat) (data : List UInt8) : List UInt8 :=
  (file ++ zeros (place - file.length)).take place ++ data ++
    file.drop (place + data.length)

/-- The two have the same bytes from `start` up to `stop`. -/
def Agree (file other : List UInt8) (start stop : Nat) : Prop :=
  ∀ i, start ≤ i → i < stop → file[i]? = other[i]?

section Write

variable {file data : List UInt8} {place : Nat}

theorem writeAt_inside (inside : place ≤ file.length) :
    writeAt file place data =
      file.take place ++ data ++ file.drop (place + data.length) := by
  rw [writeAt, Nat.sub_eq_zero_of_le inside]
  simp [zeros]

theorem writeAt_end (file data : List UInt8) :
    writeAt file file.length data = file ++ data := by
  rw [writeAt_inside (Nat.le_refl _)]
  simp

theorem writeAt_length (inside : place + data.length ≤ file.length) :
    (writeAt file place data).length = file.length := by
  rw [writeAt_inside (by omega)]
  simp only [List.length_append, List.length_take, List.length_drop]
  omega

/-- A write changes nothing outside its own place. -/
theorem writeAt_outside (inside : place ≤ file.length) {i : Nat}
    (outside : i < place ∨ place + data.length ≤ i) :
    (writeAt file place data)[i]? = file[i]? := by
  have htake : (file.take place).length = place := List.length_take_of_le inside
  rw [writeAt_inside inside]
  rcases outside with before | behind
  · rw [List.append_assoc, List.getElem?_append_left (by omega),
      List.getElem?_take_of_lt before]
  · rw [List.getElem?_append_right (by simp only [List.length_append]; omega),
      List.getElem?_drop]
    congr 1
    simp only [List.length_append]
    omega

theorem writeAt_within (inside : place ≤ file.length) {i : Nat}
    (low : place ≤ i) (high : i < place + data.length) :
    (writeAt file place data)[i]? = data[i - place]? := by
  have htake : (file.take place).length = place := List.length_take_of_le inside
  rw [writeAt_inside inside,
    List.getElem?_append_left (by simp only [List.length_append]; omega),
    List.getElem?_append_right (by omega), htake]

/-- Whatever the file held there or in front, it holds what was written. -/
theorem slice_writeAt (file : List UInt8) (place : Nat) (data : List UInt8) :
    slice (writeAt file place data) place (place + data.length) = data := by
  have hfront : ((file ++ zeros (place - file.length)).take place).length =
      place := by
    simp only [zeros, List.length_take, List.length_append,
      List.length_replicate]
    omega
  have hmiddle := slice_append_middle
    ((file ++ zeros (place - file.length)).take place) data
    (file.drop (place + data.length))
  rwa [hfront] at hmiddle

/-- What stands there may be written there. -/
theorem writeAt_slice {length : Nat} (inside : place + length ≤ file.length) :
    writeAt file place (slice file place (place + length)) = file := by
  have hlength : (slice file place (place + length)).length = length := by
    rw [slice_length]
    omega
  rw [writeAt_inside (by omega), hlength]
  exact take_slice_drop (Nat.le_add_right _ _)

/-- The second of two writes to one place is the one that counts. -/
theorem writeAt_writeAt {first second : List UInt8}
    (same : second.length = first.length)
    (inside : place + first.length ≤ file.length) :
    writeAt (writeAt file place first) place second =
      writeAt file place second := by
  have hfront : (file.take place).length = place := by
    rw [List.length_take]
    omega
  have hagain : place ≤ (writeAt file place first).length := by
    rw [writeAt_length inside]
    omega
  have hdirect : place ≤ file.length := by omega
  rw [writeAt_inside hagain, writeAt_inside hdirect, writeAt_inside hdirect, same]
  congr 1
  · rw [List.append_assoc, List.take_append_of_le_length (by omega),
      List.take_of_length_le (by omega)]
  · exact List.drop_left' (by rw [List.length_append, hfront])

end Write

namespace Agree

variable {file other : List UInt8} {start stop : Nat}

theorem empty (file other : List UInt8) (start : Nat) :
    Agree file other start start := fun i low high => by omega

theorem mono {low high : Nat} (agree : Agree file other start stop)
    (left : start ≤ low) (right : high ≤ stop) : Agree file other low high :=
  fun i hlow hhigh => agree i (by omega) (by omega)

/-- The next bytes are written behind the last. -/
theorem write_next {data : List UInt8} {place : Nat}
    (agree : Agree file other start place) (inside : place ≤ file.length)
    (next : data <+: other.drop place) :
    Agree (writeAt file place data) other start (place + data.length) := by
  intro i low high
  by_cases before : i < place
  · rw [writeAt_outside inside (Or.inl before)]
    exact agree i low before
  · obtain ⟨rest, hrest⟩ := next
    have hnext : (other.drop place)[i - place]? = data[i - place]? := by
      rw [← hrest, List.getElem?_append_left (by omega)]
    rw [writeAt_within inside (by omega) high, ← hnext, List.getElem?_drop,
      Nat.add_sub_cancel' (by omega)]

theorem eq_of_length (agree : Agree file other 0 other.length)
    (length : file.length = other.length) : file = other := by
  apply List.ext_getElem?
  intro i
  by_cases high : i < other.length
  · exact agree i (Nat.zero_le _) high
  · rw [List.getElem?_eq_none (by omega), List.getElem?_eq_none (by omega)]

end Agree

end RiscosBuilder.Library.FileImage
