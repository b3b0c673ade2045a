import Mathlib.Tactic
import Mathlib.Data.Nat.Size
import Mathlib.Data.Nat.Bitwise

/-!
# Monkey.Lib.Bits

Bit tricks on naturals.  A number is *smeared* over `n` places when every bit is
set that has a set bit of it fewer than `n` places above; doubling the distance
with a shift and an or, a word is smeared over all its places and becomes a power
of two less one.
-/

namespace Monkey

/-- Bit `i` of `y` tells whether `x` has a set bit among the `n` from `i` on. -/
def Smeared (n x y : Nat) : Prop :=
  ∀ i, y.testBit i = true ↔ ∃ j < n, x.testBit (i + j) = true

theorem Smeared.one (x : Nat) : Smeared 1 x x := by
  intro i
  constructor
  · intro h
    exact ⟨0, Nat.one_pos, h⟩
  · rintro ⟨j, hj, h⟩
    obtain rfl : j = 0 := by omega
    exact h

/-- **Doubling step.** -/
theorem Smeared.double {n x y : Nat} (h : Smeared n x y) : Smeared (2 * n) x (y ||| y >>> n) := by
  intro i
  rw [Nat.testBit_or, Nat.testBit_shiftRight, Bool.or_eq_true, h i, h (n + i)]
  constructor
  · rintro (⟨j, hj, hbit⟩ | ⟨j, hj, hbit⟩)
    · exact ⟨j, by omega, hbit⟩
    · exact ⟨n + j, by omega, by rwa [show i + (n + j) = n + i + j by omega]⟩
  · rintro ⟨j, hj, hbit⟩
    by_cases hjn : j < n
    · exact .inl ⟨j, hjn, hbit⟩
    · exact .inr ⟨j - n, by omega, by rwa [show n + i + (j - n) = i + j by omega]⟩

/-- A bit is set at or above `i` exactly when the number reaches `2 ^ i`. -/
theorem exists_testBit_iff_two_pow_le {x i : Nat} :
    (∃ j, x.testBit (i + j) = true) ↔ 2 ^ i ≤ x := by
  constructor
  · rintro ⟨j, h⟩
    calc 2 ^ i ≤ 2 ^ (i + j) := Nat.pow_le_pow_right (by decide) (Nat.le_add_right i j)
      _ ≤ x := Nat.ge_two_pow_of_testBit h
  · intro h
    obtain ⟨k, hk, hbit⟩ := Nat.exists_ge_and_testBit_of_ge_two_pow h
    exact ⟨k - i, by rwa [show i + (k - i) = k by omega]⟩

/-- **A word smeared over all its places** is the power of two above it, less one. -/
theorem Smeared.eq_two_pow_sub_one {n x y : Nat} (h : Smeared n x y) (hx : x < 2 ^ n) :
    y = 2 ^ x.size - 1 := by
  apply Nat.eq_of_testBit_eq
  intro i
  have hiff : y.testBit i = true ↔ i < x.size := by
    rw [h i, Nat.lt_size, ← exists_testBit_iff_two_pow_le]
    constructor
    · rintro ⟨j, -, hbit⟩
      exact ⟨j, hbit⟩
    · rintro ⟨j, hbit⟩
      refine ⟨j, ?_, hbit⟩
      by_contra hj
      have hbig : 2 ^ n ≤ 2 ^ (i + j) := Nat.pow_le_pow_right (by decide) (by omega)
      have := Nat.ge_two_pow_of_testBit hbit
      omega
  rw [Nat.testBit_two_pow_sub_one, Bool.eq_iff_iff, hiff, decide_eq_true_iff]

end Monkey
