import Mathlib.Algebra.Ring.Nat
import Mathlib.Data.Nat.Bitwise

/-!
# Words of 32 bits

What masks do to the number a word stands for.
-/

namespace RiscosBuilder.Library.Word

/-- Clearing the low bits rounds down to a multiple. -/
theorem toNat_and_not {x mask : UInt32} {k : Nat} (small : k ≤ 32)
    (low : mask.toNat = 2 ^ k - 1) :
    (x &&& ~~~mask).toNat = x.toNat / 2 ^ k * 2 ^ k := by
  rw [UInt32.toNat_and, UInt32.toNat_not, low]
  apply Nat.eq_of_testBit_eq
  intro i
  have hpow : 2 ^ k - 1 < 2 ^ 32 :=
    Nat.lt_of_lt_of_le (Nat.sub_lt (Nat.two_pow_pos k) Nat.one_pos)
      (Nat.pow_le_pow_right (by decide) small)
  have hmask := Nat.testBit_two_pow_sub_succ hpow i
  rw [show UInt32.size - 1 - (2 ^ k - 1) = 2 ^ 32 - (2 ^ k - 1 + 1) by
    rw [UInt32.size]; omega]
  rw [Nat.testBit_and, hmask, Nat.testBit_two_pow_sub_one,
    ← Nat.shiftRight_eq_div_pow, ← Nat.shiftLeft_eq, Nat.testBit_shiftLeft,
    Nat.testBit_shiftRight]
  by_cases low : i < k
  · simp [low, Nat.not_le.mpr low]
  · have hle : k ≤ i := Nat.not_lt.mp low
    rw [Nat.add_sub_cancel' hle]
    by_cases inside : i < 32
    · simp [low, hle, inside]
    · have hlarge : x.toNat.testBit i = false :=
        Nat.testBit_lt_two_pow (Nat.lt_of_lt_of_le x.toNat_lt
          (Nat.pow_le_pow_right (by decide) (Nat.not_lt.mp inside)))
      simp [hlarge]

theorem toNat_add_of_lt {x y : UInt32} (fits : x.toNat + y.toNat < 2 ^ 32) :
    (x + y).toNat = x.toNat + y.toNat := by
  rw [UInt32.toNat_add, Nat.mod_eq_of_lt fits]

theorem toNat_sub_of_le {x y : UInt32} (order : y.toNat ≤ x.toNat) :
    (x - y).toNat = x.toNat - y.toNat :=
  UInt32.toNat_sub_of_le _ _ (UInt32.le_iff_toNat_le.mpr order)

/-! ## Bits of a word -/

/-- The bits in a mask are clear once they have been cleared. -/
theorem clear_and (x mask : UInt32) : x &&& ~~~mask &&& mask = 0 := by
  rw [UInt32.and_assoc, UInt32.not_and_self, UInt32.and_zero]

theorem or_and (x y z : UInt32) : (x ||| y) &&& z = x &&& z ||| y &&& z :=
  UInt32.toBitVec_inj.mp BitVec.and_or_distrib_right

/-- And stay clear when other bits are set. -/
theorem clear_or_and {mask set : UInt32} (x : UInt32) (apart : set &&& mask = 0) :
    (x &&& ~~~mask ||| set) &&& mask = 0 := by
  rw [or_and, clear_and, apart, UInt32.or_self]

/-- Bits that are set are found. -/
theorem or_and_self (x set : UInt32) : (x ||| set) &&& set = set := by
  apply UInt32.toBitVec_inj.mp
  ext i
  simp only [UInt32.toBitVec_and, UInt32.toBitVec_or, BitVec.getElem_and,
    BitVec.getElem_or]
  cases x.toBitVec[i] <;> simp

/-- Keeping the low bits leaves the remainder. -/
theorem toNat_and_low {mask : UInt32} {k : Nat} (x : UInt32)
    (low : mask.toNat = 2 ^ k - 1) : (x &&& mask).toNat = x.toNat % 2 ^ k := by
  rw [UInt32.toNat_and, low, Nat.and_two_pow_sub_one_eq_mod]

/-- Keeping as many bits as a narrow word has leaves it alone. -/
theorem toUInt32_and_mask (x : UInt16) : x.toUInt32 &&& 0xffff = x.toUInt32 := by
  apply UInt32.toNat_inj.mp
  rw [@toNat_and_low 0xffff 16 _ rfl, UInt16.toNat_toUInt32,
    Nat.mod_eq_of_lt x.toNat_lt]

theorem byte_toUInt32_and_mask (x : UInt8) :
    x.toUInt32 &&& 0xff = x.toUInt32 := by
  apply UInt32.toNat_inj.mp
  rw [@toNat_and_low 0xff 8 _ rfl, UInt8.toNat_toUInt32,
    Nat.mod_eq_of_lt x.toNat_lt]

end RiscosBuilder.Library.Word
