import Monkey.Lib.CString

/-!
# Monkey.Auth.Base64

`base64.c` of the auth plugin: decoding gives back every encoded text.

The functions here are on values, with `base64` as the coding that the standard defines.  The
buffers that are filled on the way are in `Monkey.Auth.Encode` and `Monkey.Auth.Decode`.
-/

namespace Monkey.Auth

/-- `base64_table`. -/
def base64Table : Bytes :=
  ascii "ABCDEFGHIJKLMNOPQRSTUVWXYZabcdefghijklmnopqrstuvwxyz0123456789+/".toList

/-- The padding character. -/
def base64Pad : UInt8 := 0x3d

/-! ## encoding -/

def base64Char (i : Nat) : UInt8 := base64Table.getD i 0

/-- A text in base64: four characters for three bytes, the last ones padded. -/
def base64 : Bytes → Bytes
  | x :: y :: z :: s =>
      base64Char (x.toNat / 4) :: base64Char (x.toNat % 4 * 16 + y.toNat / 16) ::
        base64Char (y.toNat % 16 * 4 + z.toNat / 64) :: base64Char (z.toNat % 64) :: base64 s
  | [x, y] =>
      [base64Char (x.toNat / 4), base64Char (x.toNat % 4 * 16 + y.toNat / 16),
        base64Char (y.toNat % 16 * 4), base64Pad]
  | [x] => [base64Char (x.toNat / 4), base64Char (x.toNat % 4 * 16), base64Pad, base64Pad]
  | [] => []

/-! ## decoding -/

/-- `dtable`: the number of a character, `0x80` for those that are skipped. -/
def dtable (c : UInt8) : UInt8 :=
  if c = base64Pad then 0
  else
    match base64Table.findIdx? (· == c) with
    | some i => UInt8.ofNat i
    | none => 0x80

/-- The loop of `base64_decode` over the characters that are not skipped; the group with
the padding is the last one. -/
def base64DecodeLoop : Bytes → Option Bytes
  | a :: b :: c :: d :: s =>
      let group := [(dtable a <<< 2) ||| (dtable b >>> 4), (dtable b <<< 4) ||| (dtable c >>> 2),
        (dtable c <<< 6) ||| dtable d]
      match [a, b, c, d].count base64Pad with
      | 0 => (base64DecodeLoop s).map (group ++ ·)
      | 1 => some (group.take 2)
      | 2 => some (group.take 1)
      | _ => none
  | _ => some []

/-- `base64_decode`. -/
def base64Decode (src : Bytes) : Option Bytes :=
  let count := (src.filter (dtable · ≠ 0x80)).length
  if count = 0 ∨ count % 4 ≠ 0 then none else base64DecodeLoop (src.filter (dtable · ≠ 0x80))

/-! ## the round trip -/

theorem base64Char_table : ∀ i < 64, dtable (base64Char i) = UInt8.ofNat i ∧ base64Char i ≠ base64Pad := by
  decide +kernel

theorem dtable_base64Char {i : Nat} (h : i < 64) : dtable (base64Char i) = UInt8.ofNat i :=
  (base64Char_table i h).1

theorem base64Char_ne_pad {i : Nat} (h : i < 64) : base64Char i ≠ base64Pad := (base64Char_table i h).2

/-- A byte from its upper bits and its `k` lower ones. -/
theorem join_bits {u v c : UInt8} (k : Nat) (hu : u.toNat = c.toNat / 2 ^ k * 2 ^ k) (hv : v.toNat = c.toNat % 2 ^ k) :
    u ||| v = c := by
  apply UInt8.toNat.inj
  rw [UInt8.toNat_or, hu, hv, Nat.mul_comm, ← Nat.two_pow_add_eq_or_of_lt (Nat.mod_lt _ (Nat.two_pow_pos k)),
    Nat.div_add_mod]

/-- The three bytes of a group from the numbers of its characters. -/
theorem decode_group (x y z : UInt8) :
    ((UInt8.ofNat (x.toNat / 4) <<< 2) ||| (UInt8.ofNat (x.toNat % 4 * 16 + y.toNat / 16) >>> 4) = x) ∧
    ((UInt8.ofNat (x.toNat % 4 * 16 + y.toNat / 16) <<< 4) |||
      (UInt8.ofNat (y.toNat % 16 * 4 + z.toNat / 64) >>> 2) = y) ∧
    ((UInt8.ofNat (y.toNat % 16 * 4 + z.toNat / 64) <<< 6) ||| UInt8.ofNat (z.toNat % 64) = z) := by
  have hx := x.toNat_lt
  have hy := y.toNat_lt
  have hz := z.toNat_lt
  refine ⟨join_bits 2 ?_ ?_, join_bits 4 ?_ ?_, join_bits 6 ?_ ?_⟩
  all_goals
    simp only [UInt8.toNat_shiftLeft, UInt8.toNat_shiftRight, UInt8.toNat_ofNat', Nat.shiftLeft_eq,
      Nat.shiftRight_eq_div_pow, UInt8.reduceToNat, Nat.reducePow, Nat.reduceMod]
    omega

/-- The characters of a text are none that are skipped. -/
theorem filter_base64 (s : Bytes) : (base64 s).filter (dtable · ≠ 0x80) = base64 s := by
  have hchar : ∀ i < 64, dtable (base64Char i) ≠ 0x80 := by
    intro i hi h
    rw [dtable_base64Char hi] at h
    have hvalue : i % 256 = 128 := congrArg UInt8.toNat h
    omega
  have hpad : dtable base64Pad ≠ 0x80 := by decide
  rw [List.filter_eq_self]
  fun_induction base64 s with
  | case1 x y z s ih =>
      have hx := x.toNat_lt
      have hy := y.toNat_lt
      have hz := z.toNat_lt
      simp only [List.forall_mem_cons, decide_eq_true_eq]
      exact ⟨hchar _ (by omega), hchar _ (by omega), hchar _ (by omega), hchar _ (by omega),
        fun c hc => of_decide_eq_true (ih c hc)⟩
  | case2 x y =>
      have hx := x.toNat_lt
      have hy := y.toNat_lt
      simp only [List.forall_mem_cons, decide_eq_true_eq]
      exact ⟨hchar _ (by omega), hchar _ (by omega), hchar _ (by omega), hpad, by simp⟩
  | case3 x =>
      have hx := x.toNat_lt
      simp only [List.forall_mem_cons, decide_eq_true_eq]
      exact ⟨hchar _ (by omega), hchar _ (by omega), hpad, hpad, by simp⟩
  | case4 => simp

theorem base64_length (s : Bytes) : (base64 s).length = (s.length + 2) / 3 * 4 := by
  fun_induction base64 s with
  | case1 x y z s ih =>
      simp only [List.length_cons, ih]
      omega
  | case2 x y => simp
  | case3 x => simp
  | case4 => rfl

/-- A full group. -/
theorem base64DecodeLoop_group {i j k l : Nat} (hi : i < 64) (hj : j < 64) (hk : k < 64) (hl : l < 64) (s : Bytes) :
    base64DecodeLoop (base64Char i :: base64Char j :: base64Char k :: base64Char l :: s) =
      (base64DecodeLoop s).map ([(UInt8.ofNat i <<< 2) ||| (UInt8.ofNat j >>> 4),
        (UInt8.ofNat j <<< 4) ||| (UInt8.ofNat k >>> 2), (UInt8.ofNat k <<< 6) ||| UInt8.ofNat l] ++ ·) := by
  have hcount : [base64Char i, base64Char j, base64Char k, base64Char l].count base64Pad = 0 := by
    simp [List.count_eq_zero, (base64Char_ne_pad hi).symm, (base64Char_ne_pad hj).symm,
      (base64Char_ne_pad hk).symm, (base64Char_ne_pad hl).symm]
  simp only [base64DecodeLoop, hcount, dtable_base64Char hi, dtable_base64Char hj, dtable_base64Char hk,
    dtable_base64Char hl]

theorem base64DecodeLoop_base64 (s : Bytes) : base64DecodeLoop (base64 s) = some s := by
  fun_induction base64 s with
  | case1 x y z s ih =>
      have hx := x.toNat_lt
      have hy := y.toNat_lt
      have hz := z.toNat_lt
      obtain ⟨h₁, h₂, h₃⟩ := decode_group x y z
      rw [base64DecodeLoop_group (by omega) (by omega) (by omega) (by omega), ih, h₁, h₂, h₃]
      rfl
  | case2 x y =>
      have hx := x.toNat_lt
      have hy := y.toNat_lt
      obtain ⟨h₁, h₂, -⟩ := decode_group x y 0
      have hi : x.toNat / 4 < 64 := by omega
      have hj : x.toNat % 4 * 16 + y.toNat / 16 < 64 := by omega
      have hk : y.toNat % 16 * 4 < 64 := by omega
      have hcount : [base64Char (x.toNat / 4), base64Char (x.toNat % 4 * 16 + y.toNat / 16),
          base64Char (y.toNat % 16 * 4), base64Pad].count base64Pad = 1 := by
        simp [base64Char_ne_pad hi, base64Char_ne_pad hj, base64Char_ne_pad hk]
      simp only [base64DecodeLoop, hcount, dtable_base64Char hi, dtable_base64Char hj, dtable_base64Char hk]
      simp only [UInt8.toNat_zero, Nat.zero_div, Nat.add_zero] at h₁ h₂
      rw [h₁, h₂]
      rfl
  | case3 x =>
      have hx := x.toNat_lt
      obtain ⟨h₁, -⟩ := decode_group x 0 0
      have hi : x.toNat / 4 < 64 := by omega
      have hj : x.toNat % 4 * 16 < 64 := by omega
      have hcount : [base64Char (x.toNat / 4), base64Char (x.toNat % 4 * 16), base64Pad, base64Pad].count
          base64Pad = 2 := by
        simp [base64Char_ne_pad hi, base64Char_ne_pad hj]
      simp only [base64DecodeLoop, hcount, dtable_base64Char hi, dtable_base64Char hj]
      simp only [UInt8.toNat_zero, Nat.zero_div, Nat.add_zero] at h₁
      rw [h₁]
      rfl
  | case4 => rfl

/-- **Round trip**: a text that is not empty is decoded from its encoding. -/
theorem base64Decode_base64 {s : Bytes} (hs : s ≠ []) : base64Decode (base64 s) = some s := by
  have hpos : 0 < s.length := List.length_pos_iff.mpr hs
  have hlen := base64_length s
  unfold base64Decode
  simp only [filter_base64]
  rw [if_neg (by omega)]
  exact base64DecodeLoop_base64 s

end Monkey.Auth
