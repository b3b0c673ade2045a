import Mathlib.Tactic

/-!
# Monkey.Lib.CInt

The fixed-width integer conversions of C on a machine with 32-bit `int` and
64-bit `long`: a value assigned to `int` is reduced to the two's-complement
range, a value assigned to `unsigned long` is reduced modulo `2 ^ 64`.
-/

namespace Monkey

/-- Conversion to `int`: the representative of `x` modulo `2 ^ 32` in
`[-2 ^ 31, 2 ^ 31)`. -/
def toInt (x : Int) : Int := x.bmod (2 ^ 32)

/-- Conversion to `unsigned int`. -/
def toUInt (x : Int) : Nat := (x % 2 ^ 32).toNat

/-- Conversion to `unsigned long`. -/
def toULong (x : Int) : Nat := (x % 2 ^ 64).toNat

theorem toInt_lower (x : Int) : -2 ^ 31 ≤ toInt x := by
  unfold toInt
  have := Int.le_bmod (x := x) (m := 2 ^ 32) (by decide)
  omega

theorem toInt_upper (x : Int) : toInt x < 2 ^ 31 := by
  unfold toInt
  have := Int.bmod_lt (x := x) (m := 2 ^ 32) (by decide)
  omega

/-- A value already in range is unchanged. -/
theorem toInt_eq_self {x : Int} (hl : -2 ^ 31 ≤ x) (hu : x < 2 ^ 31) : toInt x = x := by
  unfold toInt
  apply Int.bmod_eq_of_le <;> omega

/-- An `unsigned int` that is too large for an `int` becomes a negative one. -/
theorem toInt_eq_sub {x : Int} (hl : 2 ^ 31 ≤ x) (hu : x < 2 ^ 32) : toInt x = x - 2 ^ 32 := by
  have hwrap : (x - 2 ^ 32).bmod (2 ^ 32) = x.bmod (2 ^ 32) := Int.sub_bmod_right x (2 ^ 32)
  rw [toInt, ← hwrap]
  exact toInt_eq_self (by omega) (by omega)

/-- A value below the range of `int` only grows when it is kept in one. -/
theorem le_toInt {x : Int} (h : x < 2 ^ 31) : x ≤ toInt x := by
  by_cases hl : -2 ^ 31 ≤ x
  · exact (toInt_eq_self hl h).ge
  · have := toInt_lower x
    omega

/-- A value above it only gets smaller. -/
theorem toInt_le {x : Int} (h : -2 ^ 31 ≤ x) : toInt x ≤ x := by
  by_cases hu : x < 2 ^ 31
  · exact (toInt_eq_self h hu).le
  · have := toInt_upper x
    omega

theorem toULong_le {x : Int} (h : 0 ≤ x) : (toULong x : Int) ≤ x := by
  lift x to Nat using h
  exact Int.ofNat_le.mpr (Nat.mod_le x (2 ^ 64))

theorem toUInt_eq_self {x : Int} (hl : 0 ≤ x) (hu : x < 2 ^ 32) : (toUInt x : Int) = x := by
  unfold toUInt
  omega

/-- An `int` on the way loses nothing. -/
theorem toUInt_toInt (x : Int) : toUInt (toInt x) = toUInt x := by
  unfold toUInt toInt
  rw [show (2 : Int) ^ 32 = ((2 ^ 32 : Nat) : Int) from rfl, Int.bmod_emod]

/-- Nor does an `unsigned int` in a difference. -/
theorem toInt_toUInt_sub (x y : Int) : toInt (toUInt x - y) = toInt (x - y) := by
  unfold toUInt toInt
  rw [Int.toNat_of_nonneg (Int.emod_nonneg x (by decide))]
  exact Int.emod_sub_bmod x (2 ^ 32)

/-- `toInt` is the identity exactly on its range. -/
theorem toInt_eq_self_iff {x : Int} : toInt x = x ↔ -2 ^ 31 ≤ x ∧ x < 2 ^ 31 := by
  constructor
  · intro h
    have hl := toInt_lower x
    have hu := toInt_upper x
    omega
  · rintro ⟨hl, hu⟩
    exact toInt_eq_self hl hu

/-- Only a multiple of `2 ^ 32` becomes zero. -/
theorem toInt_eq_zero {x : Int} (h : toInt x = 0) : x % 2 ^ 32 = 0 := by
  have hmod := @Int.bmod_emod x (2 ^ 32)
  rw [show x.bmod (2 ^ 32) = 0 from h] at hmod
  exact hmod.symm

end Monkey
