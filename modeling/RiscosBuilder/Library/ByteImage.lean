import Mathlib.Algebra.Ring.Nat
import Mathlib.Data.List.Basic

/-!
# Byte images

Slices of a byte image, little-endian words in it, and the places where a byte
pattern occurs.
-/

namespace RiscosBuilder.Library.ByteImage

/-- `image[start:stop]` for indices that do not count from the end. -/
def slice (image : List UInt8) (start stop : Nat) : List UInt8 :=
  (image.drop start).take (stop - start)

/-- The number whose little-endian bytes are given. -/
def leWord : List UInt8 → Nat
  | [] => 0
  | byte :: bytes => byte.toNat + 256 * leWord bytes

/-- The `count` little-endian bytes of a number. -/
def leBytes : Nat → Nat → List UInt8
  | 0, _ => []
  | count + 1, value => UInt8.ofNat (value % 256) :: leBytes count (value / 256)

/-- `count` words from `off` on; `none` when they do not all lie in the image. -/
def unpackFrom (count : Nat) (image : List UInt8) (off : Nat) :
    Option (List Nat) :=
  if off + 4 * count ≤ image.length then
    some ((List.range count).map fun i =>
      leWord (slice image (off + 4 * i) (off + 4 * i + 4)))
  else none

/--
The places where `pattern` occurs in an image whose first byte is number
`start`, in order and overlapping ones included.
-/
def occurrences (pattern : List UInt8) : Nat → List UInt8 → List Nat
  | _, [] => []
  | start, byte :: image =>
      if pattern.isPrefixOf (byte :: image) then
        start :: occurrences pattern (start + 1) image
      else occurrences pattern (start + 1) image

/-- `image.find(pattern, start)`, without the `-1`. -/
def find (image pattern : List UInt8) (start : Nat) : Option Nat :=
  (occurrences pattern 0 image).find? fun place => start ≤ place

theorem slice_length (image : List UInt8) (start stop : Nat) :
    (slice image start stop).length = min (stop - start) (image.length - start) := by
  simp [slice]

theorem slice_append_middle (front middle back : List UInt8) :
    slice (front ++ middle ++ back) front.length
      (front.length + middle.length) = middle := by
  simp [slice]

/-- An image around one of its slices. -/
theorem take_slice_drop {image : List UInt8} {start stop : Nat}
    (order : start ≤ stop) :
    image.take start ++ slice image start stop ++ image.drop stop = image := by
  have hdrop : image.drop stop = (image.drop start).drop (stop - start) := by
    rw [List.drop_drop, Nat.add_sub_cancel' order]
  rw [slice, hdrop, List.append_assoc, List.take_append_drop,
    List.take_append_drop]

@[simp] theorem leBytes_length (count value : Nat) :
    (leBytes count value).length = count := by
  induction count generalizing value with
  | zero => rfl
  | succ count ih => simp [leBytes, ih]

theorem leWord_leBytes {count value : Nat} (fits : value < 256 ^ count) :
    leWord (leBytes count value) = value := by
  induction count generalizing value with
  | zero =>
      simp only [Nat.pow_zero] at fits
      simp [leBytes, leWord]
      omega
  | succ count ih =>
      have hdiv : value / 256 < 256 ^ count := by
        rw [Nat.pow_succ] at fits
        omega
      simp only [leBytes, leWord, ih hdiv, UInt8.toNat_ofNat']
      omega

/-- The bytes of a word are those that it was made of. -/
theorem leBytes_leWord {count : Nat} {bytes : List UInt8}
    (short : count ≤ bytes.length) :
    leBytes count (leWord bytes) = bytes.take count := by
  induction count generalizing bytes with
  | zero => rfl
  | succ count ih =>
      cases bytes with
      | nil => simp at short
      | cons byte bytes =>
          have hlow : (byte.toNat + 256 * leWord bytes) % 256 = byte.toNat := by
            rw [Nat.add_mul_mod_self_left]
            exact Nat.mod_eq_of_lt byte.toNat_lt
          have hhigh : (byte.toNat + 256 * leWord bytes) / 256 =
              leWord bytes := by
            rw [Nat.add_mul_div_left _ _ (by decide),
              Nat.div_eq_of_lt byte.toNat_lt, Nat.zero_add]
          rw [leBytes, leWord, hlow, hhigh, ih (Nat.le_of_succ_le_succ short),
            UInt8.ofNat_toNat, List.take_succ_cons]

theorem leWord_lt (bytes : List UInt8) : leWord bytes < 256 ^ bytes.length := by
  induction bytes with
  | nil => exact Nat.one_pos
  | cons byte bytes ih =>
      have hbyte : byte.toNat < 256 := byte.toNat_lt
      rw [leWord, List.length_cons, Nat.pow_succ]
      omega

/-- `occurrences` lists exactly the places where the pattern is a prefix. -/
theorem mem_occurrences {pattern image : List UInt8} {start place : Nat} :
    place ∈ occurrences pattern start image ↔
      start ≤ place ∧ place < start + image.length ∧
        pattern <+: image.drop (place - start) := by
  induction image generalizing start with
  | nil =>
      simp only [occurrences, List.not_mem_nil, List.length_nil, false_iff]
      omega
  | cons byte image ih =>
      have htail : place ∈ occurrences pattern (start + 1) image ↔
          start < place ∧ place < start + (byte :: image).length ∧
            pattern <+: (byte :: image).drop (place - start) := by
        rw [ih]
        constructor
        · rintro ⟨hlow, hhigh, hprefix⟩
          refine ⟨by omega, by simp only [List.length_cons]; omega, ?_⟩
          rwa [show place - start = (place - (start + 1)) + 1 by omega,
            List.drop_succ_cons]
        · rintro ⟨hlow, hhigh, hprefix⟩
          simp only [List.length_cons] at hhigh
          refine ⟨by omega, by omega, ?_⟩
          rwa [show place - start = (place - (start + 1)) + 1 by omega,
            List.drop_succ_cons] at hprefix
      have hhead : place = start →
          (pattern.isPrefixOf (byte :: image) = true ↔
            pattern <+: (byte :: image).drop (place - start)) := by
        rintro rfl
        rw [Nat.sub_self, List.drop_zero, List.isPrefixOf_iff_prefix]
      unfold occurrences
      by_cases same : place = start
      · have hnot : place ∉ occurrences pattern (start + 1) image := by
          rw [htail]
          omega
        split
        · next found =>
            simp only [List.mem_cons, same, true_or, true_iff]
            refine ⟨Nat.le_refl _, by simp, ?_⟩
            simpa [same] using (hhead same).mp found
        · next absent =>
            simp only [hnot, false_iff]
            rintro ⟨-, -, hprefix⟩
            exact absent ((hhead same).mpr hprefix)
      · have hiff : (start ≤ place ↔ start < place) := by omega
        split <;> simp [same, htail, hiff]

/-- The places come in ascending order, each once. -/
theorem occurrences_pairwise (pattern : List UInt8) (start : Nat)
    (image : List UInt8) :
    (occurrences pattern start image).Pairwise (· < ·) := by
  induction image generalizing start with
  | nil => simp [occurrences]
  | cons byte image ih =>
      unfold occurrences
      split
      · refine List.pairwise_cons.mpr ⟨fun place member => ?_, ih _⟩
        have hlow := (mem_occurrences.mp member).1
        omega
      · exact ih _

theorem occurrences_length_le (pattern : List UInt8) (start : Nat)
    (image : List UInt8) :
    (occurrences pattern start image).length ≤ image.length := by
  induction image generalizing start with
  | nil => exact Nat.le_refl _
  | cons byte image ih =>
      unfold occurrences
      split
      · exact Nat.succ_le_succ (ih _)
      · exact Nat.le_succ_of_le (ih _)

/-! ## What stands at a place of an image -/

/-- The bytes of `data` stand at `off` in the image. -/
def Holds (image : List UInt8) (off : Nat) (data : List UInt8) : Prop :=
  data <+: image.drop off

instance (image : List UInt8) (off : Nat) (data : List UInt8) :
    Decidable (Holds image off data) :=
  inferInstanceAs (Decidable (_ <+: _))

theorem holds_append {image : List UInt8} {off : Nat} {first second : List UInt8} :
    Holds image off (first ++ second) ↔
      Holds image off first ∧ Holds image (off + first.length) second := by
  unfold Holds
  rw [← List.drop_drop]
  constructor
  · rintro ⟨tail, htail⟩
    rw [← htail, List.append_assoc]
    exact ⟨List.prefix_append _ _, by simp⟩
  · rintro ⟨⟨tail, htail⟩, hsecond⟩
    rw [← htail, List.drop_left] at hsecond
    obtain ⟨rest, rfl⟩ := hsecond
    exact ⟨rest, by rw [← htail, List.append_assoc]⟩

theorem Holds.slice_eq {image data : List UInt8} {off : Nat}
    (holds : Holds image off data) :
    slice image off (off + data.length) = data := by
  rw [slice, Nat.add_sub_cancel_left]
  exact (List.prefix_iff_eq_take.mp holds).symm

theorem Holds.length_le {image data : List UInt8} {off : Nat}
    (holds : Holds image off data) (nonempty : data ≠ []) :
    off + data.length ≤ image.length := by
  have hle := List.IsPrefix.length_le holds
  have hpos := List.length_pos_of_ne_nil nonempty
  rw [List.length_drop] at hle
  omega

/-- `struct.pack` of little-endian words. -/
def packWords (values : List Nat) : List UInt8 :=
  values.flatMap (leBytes 4)

@[simp] theorem packWords_length (values : List Nat) :
    (packWords values).length = 4 * values.length := by
  induction values with
  | nil => rfl
  | cons value values ih =>
      simp only [packWords, List.flatMap_cons, List.length_append,
        leBytes_length, List.length_cons] at ih ⊢
      omega

/-- Unpacking gives back the words that were packed. -/
theorem unpackFrom_of_holds {image : List UInt8} {off : Nat} {values : List Nat}
    (holds : Holds image off (packWords values)) (nonempty : values ≠ [])
    (fit : ∀ value ∈ values, value < 2 ^ 32) :
    unpackFrom values.length image off = some values := by
  have hpacked : packWords values ≠ [] := by
    intro hempty
    have hzero := congrArg List.length hempty
    rw [packWords_length, List.length_nil] at hzero
    exact nonempty (List.length_eq_zero_iff.mp (by omega))
  have hlength := holds.length_le hpacked
  rw [packWords_length] at hlength
  rw [unpackFrom, if_pos hlength]
  clear hlength hpacked nonempty
  congr 1
  induction values generalizing off with
  | nil => rfl
  | cons value values ih =>
      rw [packWords, List.flatMap_cons, holds_append] at holds
      have hhead : leWord (slice image off (off + 4)) = value := by
        have hslice := holds.1.slice_eq
        rw [leBytes_length] at hslice
        rw [hslice]
        exact leWord_leBytes (fit value List.mem_cons_self)
      have htail := @ih (off + 4)
        (by simpa [packWords] using holds.2)
        (fun other member => fit other (List.mem_cons_of_mem _ member))
      rw [List.length_cons, List.range_succ_eq_map, List.map_cons,
        List.map_map, Nat.mul_zero, Nat.add_zero, hhead]
      congr 1
      conv => rhs; rw [← htail]
      refine List.map_congr_left fun i _ => ?_
      simp only [Function.comp_apply, Nat.succ_eq_add_one, Nat.mul_add]
      congr 2 <;> omega

end RiscosBuilder.Library.ByteImage
