import Mathlib.Tactic
import Mathlib.Data.BitVec

/-!
# Monkey.Lib.ByteOrder

Words of four octets in memory.  A machine reads them in one of two orders, and `htonl`
is the word that lies in memory with its most significant octet first.  It keeps the
operations on bits on either machine; the order of numbers it keeps on one only, on the
other the last octet of the number weighs most.
-/

namespace Monkey

inductive ByteOrder
  | little | big
deriving DecidableEq, Repr

/-- The word of four octets, the most significant one first. -/
def word (b₃ b₂ b₁ b₀ : BitVec 8) : BitVec 32 := b₃ ++ b₂ ++ b₁ ++ b₀

/-- Octet `i` of a word, octet 0 the least significant. -/
def octet (x : BitVec 32) (i : Nat) : BitVec 8 := x.extractLsb' (8 * i) 8

/-- The word at four octets of memory. -/
def ByteOrder.read : ByteOrder → BitVec 8 → BitVec 8 → BitVec 8 → BitVec 8 → BitVec 32
  | .little, m₀, m₁, m₂, m₃ => word m₃ m₂ m₁ m₀
  | .big, m₀, m₁, m₂, m₃ => word m₀ m₁ m₂ m₃

/-- `htonl`. -/
def htonl (order : ByteOrder) (x : BitVec 32) : BitVec 32 :=
  order.read (octet x 3) (octet x 2) (octet x 1) (octet x 0)

/-! ## octets -/

theorem word_toNat (b₃ b₂ b₁ b₀ : BitVec 8) :
    (word b₃ b₂ b₁ b₀).toNat = b₃.toNat * 2 ^ 24 + b₂.toNat * 2 ^ 16 + b₁.toNat * 2 ^ 8 + b₀.toNat := by
  have happend : ∀ (w : Nat) (x : BitVec w) (y : BitVec 8), (x ++ y).toNat = x.toNat * 2 ^ 8 + y.toNat := by
    intro w x y
    rw [BitVec.toNat_append, ← Nat.shiftLeft_add_eq_or_of_lt y.isLt, Nat.shiftLeft_eq]
  show (b₃ ++ b₂ ++ b₁ ++ b₀).toNat = _
  rw [happend, happend, happend]
  omega

theorem octet_toNat (x : BitVec 32) (i : Nat) : (octet x i).toNat = x.toNat / 2 ^ (8 * i) % 256 := by
  simp [octet, Nat.shiftRight_eq_div_pow]

theorem octet_lt (x : BitVec 32) (i : Nat) : (octet x i).toNat < 256 := (octet x i).isLt

theorem word_octet (x : BitVec 32) : word (octet x 3) (octet x 2) (octet x 1) (octet x 0) = x := by
  apply BitVec.eq_of_toNat_eq
  have hx := x.isLt
  rw [word_toNat, octet_toNat, octet_toNat, octet_toNat, octet_toNat]
  omega

theorem htonl_big (x : BitVec 32) : htonl .big x = x := word_octet x

theorem htonl_little_toNat (x : BitVec 32) : (htonl .little x).toNat =
    (octet x 0).toNat * 2 ^ 24 + (octet x 1).toNat * 2 ^ 16 + (octet x 2).toNat * 2 ^ 8 + (octet x 3).toNat :=
  word_toNat ..

theorem octet_word (b₃ b₂ b₁ b₀ : BitVec 8) : octet (word b₃ b₂ b₁ b₀) 3 = b₃ ∧
    octet (word b₃ b₂ b₁ b₀) 2 = b₂ ∧ octet (word b₃ b₂ b₁ b₀) 1 = b₁ ∧ octet (word b₃ b₂ b₁ b₀) 0 = b₀ := by
  have h₀ := b₀.isLt
  have h₁ := b₁.isLt
  have h₂ := b₂.isLt
  have h₃ := b₃.isLt
  refine ⟨?_, ?_, ?_, ?_⟩
  all_goals
    apply BitVec.eq_of_toNat_eq
    rw [octet_toNat, word_toNat]
    omega

theorem htonl_htonl (order : ByteOrder) (x : BitVec 32) : htonl order (htonl order x) = x := by
  cases order with
  | big => rw [htonl_big, htonl_big]
  | little =>
      obtain ⟨h₃, h₂, h₁, h₀⟩ := octet_word (octet x 0) (octet x 1) (octet x 2) (octet x 3)
      simp only [htonl, ByteOrder.read]
      rw [h₃, h₂, h₁, h₀, word_octet]

theorem htonl_inj {order : ByteOrder} {x y : BitVec 32} : htonl order x = htonl order y ↔ x = y := by
  constructor
  · intro h
    rw [← htonl_htonl order x, h, htonl_htonl]
  · rintro rfl
    rfl

/-! ## bits -/

theorem octet_and (x y : BitVec 32) (i : Nat) : octet (x &&& y) i = octet x i &&& octet y i :=
  BitVec.extractLsb'_and

theorem octet_or (x y : BitVec 32) (i : Nat) : octet (x ||| y) i = octet x i ||| octet y i :=
  BitVec.extractLsb'_or

theorem octet_and_le (x y : BitVec 32) (i : Nat) : (octet (x &&& y) i).toNat ≤ (octet x i).toNat := by
  rw [octet_and, BitVec.toNat_and]
  exact Nat.and_le_left

theorem octet_le_or (x y : BitVec 32) (i : Nat) : (octet x i).toNat ≤ (octet (x ||| y) i).toNat := by
  rw [octet_or, BitVec.toNat_or]
  exact Nat.left_le_or

theorem htonl_and (order : ByteOrder) (x y : BitVec 32) :
    htonl order (x &&& y) = htonl order x &&& htonl order y := by
  have hword : ∀ a₃ a₂ a₁ a₀ b₃ b₂ b₁ b₀ : BitVec 8, word (a₃ &&& b₃) (a₂ &&& b₂) (a₁ &&& b₁) (a₀ &&& b₀) =
      word a₃ a₂ a₁ a₀ &&& word b₃ b₂ b₁ b₀ := by
    intro a₃ a₂ a₁ a₀ b₃ b₂ b₁ b₀
    show (a₃ &&& b₃) ++ (a₂ &&& b₂) ++ (a₁ &&& b₁) ++ (a₀ &&& b₀) =
      (a₃ ++ a₂ ++ a₁ ++ a₀) &&& (b₃ ++ b₂ ++ b₁ ++ b₀)
    rw [BitVec.and_append, BitVec.and_append, BitVec.and_append]
  cases order
  all_goals
    simp only [htonl, ByteOrder.read, octet_and, hword]

theorem htonl_not (order : ByteOrder) (x : BitVec 32) : htonl order (~~~ x) = ~~~ htonl order x := by
  have hword : ∀ a₃ a₂ a₁ a₀ : BitVec 8, word (~~~ a₃) (~~~ a₂) (~~~ a₁) (~~~ a₀) = ~~~ word a₃ a₂ a₁ a₀ := by
    intro a₃ a₂ a₁ a₀
    show (~~~ a₃) ++ (~~~ a₂) ++ (~~~ a₁) ++ (~~~ a₀) = ~~~ (a₃ ++ a₂ ++ a₁ ++ a₀)
    rw [BitVec.not_append, BitVec.not_append, BitVec.not_append]
  have hoctet : ∀ i < 4, octet (~~~ x) i = ~~~ octet x i := by
    intro i hi
    apply BitVec.eq_of_getLsbD_eq
    intro j hj
    simp only [octet, BitVec.getLsbD_extractLsb', BitVec.getLsbD_not]
    have hlt : 8 * i + j < 32 := by omega
    simp [hj, hlt]
  cases order
  all_goals
    simp only [htonl, ByteOrder.read, hoctet 0 (by decide), hoctet 1 (by decide), hoctet 2 (by decide),
      hoctet 3 (by decide), hword]

theorem htonl_or (order : ByteOrder) (x y : BitVec 32) :
    htonl order (x ||| y) = htonl order x ||| htonl order y := by
  rw [← BitVec.not_inj, ← htonl_not, BitVec.not_or, htonl_and, htonl_not, htonl_not, BitVec.not_or]

/-! ## numbers -/

/-- On a little-endian machine the order is kept where it holds of each octet. -/
theorem htonl_little_le {x y : BitVec 32} (h : ∀ i, (octet x i).toNat ≤ (octet y i).toNat) :
    htonl .little x ≤ htonl .little y := by
  rw [BitVec.le_def, htonl_little_toNat, htonl_little_toNat]
  have h₀ := h 0
  have h₁ := h 1
  have h₂ := h 2
  have h₃ := h 3
  omega

/-- One more in the first place is one more of the last octet. -/
theorem htonl_little_add_le {x y : BitVec 32} (h : ∀ i, (octet x i).toNat ≤ (octet y i).toNat)
    (hroom : (octet x 0).toNat < 255) :
    htonl .little x + 0x01000000#32 ≤ htonl .little y ↔ (octet x 0).toNat < (octet y 0).toNat := by
  have h₁ := h 1
  have h₂ := h 2
  have h₃ := h 3
  have hy₁ := octet_lt y 1
  have hy₂ := octet_lt y 2
  have hy₃ := octet_lt y 3
  rw [BitVec.le_def, BitVec.toNat_add, htonl_little_toNat, htonl_little_toNat, BitVec.toNat_ofNat]
  omega

/-- One less is one less of the last octet. -/
theorem htonl_little_le_sub {x y : BitVec 32} (h : ∀ i, (octet y i).toNat ≤ (octet x i).toNat)
    (hroom : 0 < (octet x 0).toNat) :
    htonl .little y ≤ htonl .little x - 0x01000000#32 ↔ (octet y 0).toNat < (octet x 0).toNat := by
  have h₁ := h 1
  have h₂ := h 2
  have h₃ := h 3
  have hx₀ := octet_lt x 0
  have hx₁ := octet_lt x 1
  have hx₂ := octet_lt x 2
  have hx₃ := octet_lt x 3
  rw [BitVec.le_def, BitVec.toNat_sub, htonl_little_toNat, htonl_little_toNat, BitVec.toNat_ofNat]
  omega

/-! ## masks -/

/-- A number under a mask of its upper bits. -/
theorem toNat_and_mask (x : BitVec 32) (k : Nat) :
    (x &&& 0xffffffff#32 <<< k).toNat = x.toNat / 2 ^ k * 2 ^ k := by
  have hones : ∀ j < 32, (0xffffffff#32).getLsbD j = true := by decide
  apply Nat.eq_of_testBit_eq
  intro i
  rw [Nat.testBit_mul_two_pow, Nat.testBit_div_two_pow, BitVec.testBit_toNat, BitVec.testBit_toNat,
    BitVec.getLsbD_and, BitVec.getLsbD_shiftLeft]
  by_cases hki : k ≤ i
  · rw [show i - k + k = i by omega]
    by_cases hi : i < 32
    · simp [hi, hki, hones (i - k) (by omega)]
    · simp [hi, hki, BitVec.getLsbD_of_ge x i (by omega)]
  · simp [hki]

/-- A number with the bits outside the mask set. -/
theorem toNat_or_not_mask (x : BitVec 32) {k : Nat} (hk : k ≤ 32) :
    (x ||| ~~~ (0xffffffff#32 <<< k)).toNat = x.toNat / 2 ^ k * 2 ^ k + (2 ^ k - 1) := by
  have hones : ∀ j < 32, (0xffffffff#32).getLsbD j = true := by decide
  have hlt : 2 ^ k - 1 < 2 ^ k := Nat.sub_lt (Nat.two_pow_pos k) Nat.one_pos
  apply Nat.eq_of_testBit_eq
  intro i
  rw [Nat.mul_comm, Nat.testBit_two_pow_mul_add _ hlt, Nat.testBit_div_two_pow, Nat.testBit_two_pow_sub_one,
    BitVec.testBit_toNat, BitVec.testBit_toNat, BitVec.getLsbD_or, BitVec.getLsbD_not, BitVec.getLsbD_shiftLeft]
  by_cases hik : i < k
  · simp [hik, hik.trans_le hk]
  · rw [if_neg hik, show i - k + k = i by omega]
    by_cases hi : i < 32
    · simp [hi, hik, hones (i - k) (by omega)]
    · simp [hi, BitVec.getLsbD_of_ge x i (by omega)]

end Monkey
