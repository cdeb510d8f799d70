import Mathlib.Data.Nat.Bitwise
import Chip8.Machine.Arithmetic

/-!
# Bytes as numbers

What sums, differences, shifts and masks of bytes are as numbers, and with them the
flag of a left shift: the highest bit of its operand, times a weight that the
dialect settles.
-/

namespace Chip8

theorem carry_add_result (vx vy : UInt8) :
    256 * (flagByte (255 < vx.toNat + vy.toNat)).toNat + (vx + vy).toNat =
      vx.toNat + vy.toNat := by
  have hx := vx.toNat_lt
  have hy := vy.toNat_lt
  rw [toNat_flagByte, UInt8.toNat_add]
  rcases Nat.lt_or_ge 255 (vx.toNat + vy.toNat) with hcarry | hnone
  · rw [if_pos (decide_eq_true hcarry)]
    omega
  · rw [if_neg (by simpa using hnone)]
    omega

theorem toNat_sub_eq_emod (vx vy : UInt8) :
    ((vx - vy).toNat : Int) = ((vx.toNat : Int) - vy.toNat) % 256 := by
  have hx := vx.toNat_lt
  have hy := vy.toNat_lt
  rw [UInt8.toNat_sub]
  omega

theorem toNat_shiftRight_of_lt (vx : UInt8) {distance : UInt8}
    (h : distance.toNat < 8) :
    (vx >>> distance).toNat = vx.toNat / 2 ^ distance.toNat := by
  rw [UInt8.toNat_shiftRight, Nat.mod_eq_of_lt h, Nat.shiftRight_eq_div_pow]

theorem toNat_shiftLeft_one (vx : UInt8) :
    (vx <<< 1).toNat = 2 * vx.toNat % 256 := by
  rw [UInt8.toNat_shiftLeft]
  change vx.toNat <<< 1 % 256 = _
  rw [Nat.shiftLeft_eq, Nat.mul_comm]

theorem toNat_lowest_bit (vx : UInt8) : (vx &&& 1).toNat = vx.toNat % 2 := by
  rw [UInt8.toNat_and]
  exact Nat.and_one_is_mod vx.toNat

theorem toNat_highest_bit (vx : UInt8) :
    (vx &&& 0x80).toNat = 128 * (vx.toNat / 128) := by
  have hx := vx.toNat_lt
  have hmask : vx.toNat &&& 2 ^ 7 = (vx.toNat.testBit 7).toNat * 2 ^ 7 :=
    Nat.and_two_pow vx.toNat 7
  rw [Nat.toNat_testBit] at hmask
  rw [UInt8.toNat_and]
  change vx.toNat &&& 2 ^ 7 = _
  omega

namespace Dialect

theorem toNat_shiftFlag (dialect : Dialect) (value : UInt8) :
    (dialect.shiftFlag value).toNat =
      (if dialect.normalizeShiftFlag then 1 else 128) * (value.toNat / 128) := by
  unfold shiftFlag
  cases dialect.normalizeShiftFlag with
  | false => exact toNat_highest_bit value
  | true =>
      rw [if_pos rfl, if_pos rfl, Nat.one_mul]
      exact toNat_shiftRight_of_lt value (by decide)

def shiftedBit (dialect : Dialect) : UInt8 :=
  if dialect.normalizeShiftFlag then 1 else 0x80

theorem shiftFlag_eq (dialect : Dialect) (value : UInt8) :
    dialect.shiftFlag value = if 0x80 ≤ value then dialect.shiftedBit else 0 := by
  have hlt := value.toNat_lt
  have hle : 0x80 ≤ value ↔ 128 ≤ value.toNat := UInt8.le_iff_toNat_le
  have hweight : dialect.shiftedBit.toNat =
      if dialect.normalizeShiftFlag then 1 else 128 := by
    unfold shiftedBit
    split <;> rfl
  apply UInt8.toNat_inj.mp
  rw [toNat_shiftFlag, ← hweight]
  by_cases hset : 0x80 ≤ value
  · have hone : value.toNat / 128 = 1 := by
      rw [hle] at hset
      omega
    rw [if_pos hset, hone, Nat.mul_one]
  · have hzero : value.toNat / 128 = 0 := by
      rw [hle] at hset
      omega
    rw [if_neg hset, hzero]
    rfl

theorem shiftFlag_ne {d d' : Dialect} {value : UInt8}
    (h : d.shiftFlag value ≠ d'.shiftFlag value) :
    0x80 ≤ value ∧ d.normalizeShiftFlag ≠ d'.normalizeShiftFlag := by
  constructor
  · by_contra hdark
    rw [shiftFlag_eq, shiftFlag_eq, if_neg hdark, if_neg hdark] at h
    exact h rfl
  · intro hsame
    exact h (by simp only [shiftFlag, hsame])

end Dialect

end Chip8
