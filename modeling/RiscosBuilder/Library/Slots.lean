import RiscosBuilder.Library.FileImage
import Mathlib.Data.List.Infix
import Mathlib.Logic.Function.Basic

/-!
# Slots

Places of fixed size in a byte image.  Slots that are apart hold their contents
independently of each other: filling one of a family is an update of the map
from the slots to what they hold.
-/

namespace RiscosBuilder.Library

open ByteImage FileImage

/-- A place in an image. -/
structure Slot where
  start : Nat
  size : Nat
  deriving DecidableEq, Repr

namespace Slot

def stop (slot : Slot) : Nat :=
  slot.start + slot.size

/-- The slot lies in the image. -/
def Inside (slot : Slot) (image : List UInt8) : Prop :=
  slot.stop ≤ image.length

/-- No byte belongs to both. -/
def Apart (first second : Slot) : Prop :=
  first.size = 0 ∨ second.size = 0 ∨ first.stop ≤ second.start ∨
    second.stop ≤ first.start

instance (slot : Slot) (image : List UInt8) : Decidable (slot.Inside image) :=
  inferInstanceAs (Decidable (_ ≤ _))

instance (first second : Slot) : Decidable (first.Apart second) :=
  inferInstanceAs (Decidable (_ ∨ _))

/-- The bytes in the slot. -/
def content (image : List UInt8) (slot : Slot) : List UInt8 :=
  slice image slot.start slot.stop

/-- The image with other bytes in the slot. -/
def fill (image : List UInt8) (slot : Slot) (data : List UInt8) : List UInt8 :=
  writeAt image slot.start data

theorem Apart.symm {first second : Slot} (apart : first.Apart second) :
    second.Apart first := by
  unfold Apart at *
  omega

theorem content_length {image : List UInt8} {slot : Slot}
    (inside : slot.Inside image) : (content image slot).length = slot.size := by
  unfold Inside stop at inside
  rw [content, slice_length, stop]
  omega

section Fill

variable {image data : List UInt8} {slot : Slot}

theorem fill_length (inside : slot.Inside image)
    (fits : data.length = slot.size) :
    (fill image slot data).length = image.length := by
  unfold Inside stop at inside
  exact writeAt_length (by omega)

theorem fill_inside (inside : slot.Inside image)
    (fits : data.length = slot.size) {other : Slot} :
    other.Inside (fill image slot data) ↔ other.Inside image := by
  rw [Inside, Inside, fill_length inside fits]

/-- In the slot stands what it was filled with. -/
theorem getElem?_fill_within (inside : slot.Inside image)
    (fits : data.length = slot.size) {i : Nat} (low : slot.start ≤ i)
    (high : i < slot.stop) :
    (fill image slot data)[i]? = data[i - slot.start]? := by
  unfold Inside stop at inside
  unfold stop at high
  exact writeAt_within (by omega) low (by omega)

/-- And elsewhere what stood there. -/
theorem getElem?_fill_apart (inside : slot.Inside image)
    (fits : data.length = slot.size) {i : Nat}
    (apart : i < slot.start ∨ slot.stop ≤ i) :
    (fill image slot data)[i]? = image[i]? := by
  unfold Inside at inside
  unfold stop at *
  exact writeAt_outside (by omega) (by omega)

theorem content_fill (fits : data.length = slot.size) :
    content (fill image slot data) slot = data := by
  have hslice := slice_writeAt image slot.start data
  rwa [fits] at hslice

/-- A slice is known by its bytes. -/
theorem slice_congr {first second : List UInt8} {start stop : Nat}
    (same : ∀ i, start ≤ i → i < stop → first[i]? = second[i]?) :
    slice first start stop = slice second start stop := by
  apply List.ext_getElem?
  intro k
  by_cases within : k < stop - start
  · rw [slice, slice, List.getElem?_take_of_lt within,
      List.getElem?_take_of_lt within, List.getElem?_drop, List.getElem?_drop]
    exact same (start + k) (by omega) (by omega)
  · rw [List.getElem?_eq_none, List.getElem?_eq_none]
    · rw [slice_length]
      omega
    · rw [slice_length]
      omega

theorem holds_iff_slice {off : Nat} {bytes : List UInt8} :
    Holds image off bytes ↔ slice image off (off + bytes.length) = bytes := by
  refine ⟨Holds.slice_eq, fun same => ?_⟩
  rw [slice, Nat.add_sub_cancel_left] at same
  exact same ▸ List.take_prefix _ _

theorem content_fill_apart (inside : slot.Inside image)
    (fits : data.length = slot.size) {other : Slot}
    (apart : slot.Apart other) :
    content (fill image slot data) other = content image other := by
  apply slice_congr
  intro i low high
  by_cases empty : slot.size = 0
  · have hdata : data = [] := List.length_eq_zero_iff.mp (fits.trans empty)
    unfold Inside stop at inside
    rw [fill, hdata, writeAt_inside (by omega), List.append_nil,
      List.length_nil, Nat.add_zero, List.take_append_drop]
  · refine getElem?_fill_apart inside fits ?_
    unfold Apart at apart
    unfold stop at *
    omega

/-- Bytes that stand apart from the slot stood there before. -/
theorem holds_fill_iff (inside : slot.Inside image)
    (fits : data.length = slot.size) {off : Nat} {bytes : List UInt8}
    (apart : off + bytes.length ≤ slot.start ∨ slot.stop ≤ off) :
    Holds (fill image slot data) off bytes ↔ Holds image off bytes := by
  have hsame : slice (fill image slot data) off (off + bytes.length) =
      slice image off (off + bytes.length) :=
    slice_congr fun i low high => getElem?_fill_apart inside fits (by omega)
  rw [holds_iff_slice, hsame, ← holds_iff_slice]

/-- Bytes that stand within the slot stand in what it was filled with. -/
theorem holds_of_fill_within (inside : slot.Inside image)
    (fits : data.length = slot.size) {off : Nat} {bytes : List UInt8}
    (low : slot.start ≤ off) (high : off + bytes.length ≤ slot.stop)
    (holds : Holds (fill image slot data) off bytes) :
    Holds data (off - slot.start) bytes := by
  refine holds_iff_slice.mpr (Eq.trans ?_ holds.slice_eq)
  apply List.ext_getElem?
  intro k
  by_cases within : k < bytes.length
  · rw [slice, slice, List.getElem?_take_of_lt (by omega),
      List.getElem?_take_of_lt (by omega), List.getElem?_drop,
      List.getElem?_drop,
      getElem?_fill_within inside fits (by omega) (by omega)]
    congr 1
    omega
  · rw [slice, slice, List.getElem?_eq_none (by rw [List.length_take]; omega),
      List.getElem?_eq_none (by rw [List.length_take]; omega)]

end Fill

/-- Two slots that are apart may be filled in either order. -/
theorem fill_comm {image front back : List UInt8} {first second : Slot}
    (insideFirst : first.Inside image) (insideSecond : second.Inside image)
    (fitsFirst : front.length = first.size)
    (fitsSecond : back.length = second.size) (apart : first.Apart second) :
    fill (fill image first front) second back =
      fill (fill image second back) first front := by
  have hfirst := (fill_inside insideFirst fitsFirst).mpr insideSecond
  have hsecond := (fill_inside insideSecond fitsSecond).mpr insideFirst
  apply List.ext_getElem?
  intro i
  by_cases inFirst : first.start ≤ i ∧ i < first.stop
  · have hout : i < second.start ∨ second.stop ≤ i := by
      unfold Apart at apart
      unfold stop at *
      omega
    rw [getElem?_fill_apart hfirst fitsSecond hout,
      getElem?_fill_within insideFirst fitsFirst inFirst.1 inFirst.2,
      getElem?_fill_within hsecond fitsFirst inFirst.1 inFirst.2]
  · rw [getElem?_fill_apart hsecond fitsFirst (by omega)]
    by_cases inSecond : second.start ≤ i ∧ i < second.stop
    · rw [getElem?_fill_within hfirst fitsSecond inSecond.1 inSecond.2,
        getElem?_fill_within insideSecond fitsSecond inSecond.1 inSecond.2]
    · rw [getElem?_fill_apart hfirst fitsSecond (by omega),
        getElem?_fill_apart insideFirst fitsFirst (by omega),
        getElem?_fill_apart insideSecond fitsSecond (by omega)]

end Slot

end RiscosBuilder.Library
