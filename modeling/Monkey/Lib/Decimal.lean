import Monkey.Lib.CString

/-!
# Monkey.Lib.Decimal

Numbers in decimal digits: what `%u` and `%i` of `printf` write.
-/

namespace Monkey

/-- `%u` of `printf`. -/
def decimal (n : Nat) : Bytes := (Nat.toDigits 10 n).map fun c => UInt8.ofNat c.toNat

/-- `%i` of `printf`. -/
def decimalInt (x : Int) : Bytes :=
  if x < 0 then 0x2d :: decimal x.natAbs else decimal x.natAbs

/-- The digit of a number below 10. -/
def decimalDigit (n : Nat) : UInt8 := UInt8.ofNat (48 + n)

theorem decimalDigit_spec {n : Nat} (h : n < 10) : isdigit (decimalDigit n) = true ∧
    (decimalDigit n).toNat - 0x30 = n ∧ UInt8.ofNat n.digitChar.toNat = decimalDigit n := by
  have hall : ∀ n < 10, isdigit (decimalDigit n) = true ∧ (decimalDigit n).toNat - 0x30 = n ∧
      UInt8.ofNat n.digitChar.toNat = decimalDigit n := by decide
  exact hall n h

theorem decimal_of_lt {n : Nat} (h : n < 10) : decimal n = [decimalDigit n] := by
  rw [decimal, Nat.toDigits_of_lt_base h, List.map_singleton, (decimalDigit_spec h).2.2]

theorem decimal_of_le {n : Nat} (h : 10 ≤ n) :
    decimal n = decimal (n / 10) ++ [decimalDigit (n % 10)] := by
  rw [decimal, Nat.toDigits_of_base_le (by decide) h, List.map_append, List.map_singleton,
    (decimalDigit_spec (Nat.mod_lt n (by decide))).2.2]
  rfl

theorem isdigit_of_mem_decimal {n : Nat} : ∀ c ∈ decimal n, isdigit c = true := by
  induction n using Nat.strongRecOn with
  | ind n ih =>
      rcases lt_or_ge n 10 with hn | hn
      · simpa [decimal_of_lt hn] using (decimalDigit_spec hn).1
      · rw [decimal_of_le hn]
        intro c hc
        rcases List.mem_append.mp hc with hc | hc
        · exact ih (n / 10) (Nat.div_lt_self (by omega) (by decide)) c hc
        · rw [List.mem_singleton.mp hc]
          exact (decimalDigit_spec (Nat.mod_lt n (by decide))).1

theorem length_decimal {k n : Nat} (h : n < 10 ^ (k + 1)) : (decimal n).length ≤ k + 1 := by
  induction k generalizing n with
  | zero => simp [decimal_of_lt h]
  | succ k ih =>
      rcases lt_or_ge n 10 with hn | hn
      · simp [decimal_of_lt hn]
      · have hlen := @ih (n / 10) (Nat.div_lt_of_lt_mul (by omega))
        rw [decimal_of_le hn, List.length_append, List.length_singleton]
        omega

/-! ## leading zeros -/

/-- `%0kd` of `printf`. -/
def zeroPadded (k n : Nat) : Bytes := List.replicate (k - (decimal n).length) 0x30 ++ decimal n

theorem zeroPadded_one {n : Nat} (h : n < 10) : zeroPadded 1 n = [decimalDigit n] := by
  simp [zeroPadded, decimal_of_lt h]

theorem zeroPadded_succ {k : Nat} (hk : 1 ≤ k) (n : Nat) :
    zeroPadded (k + 1) n = zeroPadded k (n / 10) ++ [decimalDigit (n % 10)] := by
  rcases lt_or_ge n 10 with hn | hn
  · obtain ⟨k, rfl⟩ : ∃ k', k = k' + 1 := ⟨k - 1, by omega⟩
    have hzero : decimal 0 = [0x30] := rfl
    simp [zeroPadded, decimal_of_lt hn, Nat.div_eq_of_lt hn, Nat.mod_eq_of_lt hn, hzero,
      List.replicate_succ']
  · rw [zeroPadded, zeroPadded, decimal_of_le hn, ← List.append_assoc, List.length_append,
      List.length_singleton, Nat.add_sub_add_right]

theorem length_zeroPadded {k n : Nat} (h : n < 10 ^ (k + 1)) : (zeroPadded (k + 1) n).length = k + 1 := by
  have := length_decimal h
  rw [zeroPadded, List.length_append, List.length_replicate]
  omega

/-! ## reading the digits back -/

theorem digits_snoc {ds : Bytes} (hds : ∀ c ∈ ds, isdigit c = true) {c : UInt8} (hc : isdigit c = true)
    (acc : Nat) : digits acc (ds ++ [c]) = digits acc ds * 10 + (c.toNat - 0x30) := by
  induction ds generalizing acc with
  | nil => simp [digits, hc]
  | cons d ds ih =>
      obtain ⟨hd, hds⟩ := List.forall_mem_cons.mp hds
      rw [List.cons_append, digits, if_pos hd, digits, if_pos hd, ih hds]

theorem digits_decimal (n : Nat) : digits 0 (decimal n) = n := by
  induction n using Nat.strongRecOn with
  | ind n ih =>
      rcases lt_or_ge n 10 with hn | hn
      · simp [decimal_of_lt hn, digits, decimalDigit_spec hn]
      · have hdigit := decimalDigit_spec (Nat.mod_lt n (by decide : 10 > 0))
        rw [decimal_of_le hn, digits_snoc isdigit_of_mem_decimal hdigit.1,
          ih (n / 10) (Nat.div_lt_self (by omega) (by decide)), hdigit.2.1]
        omega

theorem digits_zeros (k : Nat) (ds : Bytes) : digits 0 (List.replicate k 0x30 ++ ds) = digits 0 ds := by
  induction k with
  | zero => simp
  | succ k ih =>
      have hzero : isdigit 0x30 = true := rfl
      rw [List.replicate_succ, List.cons_append, digits, if_pos hzero]
      exact ih

theorem digits_zeroPadded (k n : Nat) : digits 0 (zeroPadded k n) = n := by
  rw [zeroPadded, digits_zeros, digits_decimal]

theorem isdigit_of_mem_zeroPadded {k n : Nat} : ∀ c ∈ zeroPadded k n, isdigit c = true := by
  intro c hc
  rcases List.mem_append.mp hc with hc | hc
  · rw [List.eq_of_mem_replicate hc]
    rfl
  · exact isdigit_of_mem_decimal c hc

/-- A number and its text determine each other. -/
theorem decimal_inj {m n : Nat} (h : decimal m = decimal n) : m = n := by
  rw [← digits_decimal m, h, digits_decimal]

/-- The text of a negative number is not that of another one. -/
theorem decimalInt_eq_decimal {x : Int} {n : Nat} (h : decimalInt x = decimal n) : x = n := by
  unfold decimalInt at h
  split at h
  · have hminus := isdigit_of_mem_decimal (n := n) 0x2d (h ▸ List.mem_cons_self)
    contradiction
  · have := decimal_inj h
    omega

end Monkey
