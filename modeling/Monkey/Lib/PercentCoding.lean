import Monkey.Lib.Chunked

/-!
# Monkey.Lib.PercentCoding

Texts in which `%XY` stands for the byte `0xXY`.

A `%` too close to the end for two digits stands for itself.  What a text stands for is
the relation `Decodes`; a text stands for nothing exactly if it is `Malformed`, and every
spelling of a byte string stands for that string alone.
-/

namespace Monkey

/-- `%`. -/
def percent : UInt8 := 0x25

/-- What a text stands for, byte by byte. -/
inductive Decodes : Bytes → Bytes → Prop
  | nil : Decodes [] []
  | escape {c d : UInt8} {m n : Nat} {s t : Bytes} : hexDigitValue c = some m → hexDigitValue d = some n →
      Decodes s t → Decodes (percent :: c :: d :: s) (UInt8.ofNat (16 * m + n) :: t)
  | plain {c : UInt8} {s t : Bytes} : c ≠ percent ∨ s.length < 2 → Decodes s t → Decodes (c :: s) (c :: t)

/-- Some `%` has two characters after it that are not two digits. -/
def Malformed (s : Bytes) : Prop :=
  ∃ before c d after, s = before ++ percent :: c :: d :: after ∧ ¬ (isxdigit c = true ∧ isxdigit d = true)

/-- A spelling of a byte string: any of its bytes in two digits of either case, and every
`%` among them. -/
inductive Spells : Bytes → Bytes → Prop
  | nil : Spells [] []
  | escape {b c d : UInt8} {path text : Bytes} : hexDigitValue c = some (b.toNat / 16) →
      hexDigitValue d = some (b.toNat % 16) → Spells path text → Spells (b :: path) (percent :: c :: d :: text)
  | plain {b : UInt8} {path text : Bytes} : b ≠ percent → Spells path text → Spells (b :: path) (b :: text)

theorem isxdigit_iff {c : UInt8} : isxdigit c = true ↔ ∃ m, hexDigitValue c = some m := Option.isSome_iff_exists

/-- A digit is no `%`. -/
theorem isxdigit_ne_percent {c : UInt8} (h : isxdigit c = true) : c ≠ percent := by
  rintro rfl
  contradiction

/-! ## malformed texts -/

theorem not_malformed_of_length {s : Bytes} (h : s.length ≤ 2) : ¬ Malformed s := by
  rintro ⟨before, c, d, after, rfl, -⟩
  rw [List.length_append, List.length_cons, List.length_cons, List.length_cons] at h
  omega

theorem Malformed.cons {s : Bytes} (h : Malformed s) (c : UInt8) : Malformed (c :: s) := by
  obtain ⟨before, d, e, after, rfl, hdigits⟩ := h
  exact ⟨c :: before, d, e, after, rfl, hdigits⟩

/-- A byte that is no `%` does not matter. -/
theorem malformed_plain {c : UInt8} (hc : c ≠ percent) {s : Bytes} : Malformed (c :: s) ↔ Malformed s := by
  refine ⟨?_, fun h => h.cons c⟩
  rintro ⟨before, d, e, after, heq, hdigits⟩
  cases before with
  | nil => exact absurd (List.cons.inj heq).1 hc
  | cons b before => exact ⟨before, d, e, after, (List.cons.inj heq).2, hdigits⟩

/-- A sequence is malformed, or what follows it. -/
theorem malformed_escape {c d : UInt8} {s : Bytes} :
    Malformed (percent :: c :: d :: s) ↔ ¬ (isxdigit c = true ∧ isxdigit d = true) ∨ Malformed s := by
  by_cases hdigits : isxdigit c = true ∧ isxdigit d = true
  · constructor
    · rintro ⟨before, e, f, after, heq, hbad⟩
      cases before with
      | nil =>
          obtain ⟨-, hcd⟩ := List.cons.inj heq
          obtain ⟨rfl, hd⟩ := List.cons.inj hcd
          obtain ⟨rfl, -⟩ := List.cons.inj hd
          exact absurd hdigits hbad
      | cons b before =>
          have hrest : Malformed (c :: d :: s) := ⟨before, e, f, after, (List.cons.inj heq).2, hbad⟩
          rw [malformed_plain (isxdigit_ne_percent hdigits.1), malformed_plain (isxdigit_ne_percent hdigits.2)] at hrest
          exact .inr hrest
    · rintro (hbad | hrest)
      · exact absurd hdigits hbad
      · exact ((hrest.cons d).cons c).cons percent
  · exact ⟨fun _ => .inl hdigits, fun _ => ⟨[], c, d, s, rfl, hdigits⟩⟩

/-! ## what a text stands for -/

/-- A text stands for one byte string at most. -/
theorem Decodes.unique {s t t' : Bytes} (h : Decodes s t) (h' : Decodes s t') : t = t' := by
  induction h generalizing t' with
  | nil =>
      cases h'
      rfl
  | escape hc hd _ ih =>
      cases h' with
      | escape hc' hd' hrest =>
          obtain rfl := Option.some.inj (hc.symm.trans hc')
          obtain rfl := Option.some.inj (hd.symm.trans hd')
          rw [ih hrest]
      | plain hplain _ =>
          rcases hplain with hne | hshort
          · exact absurd rfl hne
          · rw [List.length_cons, List.length_cons] at hshort
            omega
  | plain hplain _ ih =>
      cases h' with
      | escape _ _ _ =>
          rcases hplain with hne | hshort
          · exact absurd rfl hne
          · rw [List.length_cons, List.length_cons] at hshort
            omega
      | plain _ hrest => rw [ih hrest]

/-- A text that decodes is not malformed. -/
theorem Decodes.not_malformed {s t : Bytes} (h : Decodes s t) : ¬ Malformed s := by
  induction h with
  | nil => exact not_malformed_of_length (Nat.zero_le _)
  | escape hc hd _ ih =>
      rw [malformed_escape, not_or, not_not]
      exact ⟨⟨isxdigit_iff.mpr ⟨_, hc⟩, isxdigit_iff.mpr ⟨_, hd⟩⟩, ih⟩
  | @plain c s t hplain _ ih =>
      rcases hplain with hne | hshort
      · rwa [malformed_plain hne]
      · exact not_malformed_of_length (by rw [List.length_cons]; omega)

/-- A text takes at least as many bytes as what it stands for. -/
theorem Decodes.length_le {s t : Bytes} (h : Decodes s t) : t.length ≤ s.length := by
  induction h with
  | nil => exact le_rfl
  | escape _ _ _ ih =>
      simp only [List.length_cons]
      omega
  | plain _ _ ih =>
      simp only [List.length_cons]
      omega

/-- **A spelling** stands for the string. -/
theorem Spells.decodes {path text : Bytes} (h : Spells path text) : Decodes text path := by
  induction h with
  | nil => exact .nil
  | @escape b c d path text hc hd _ ih =>
      have hb : UInt8.ofNat (16 * (b.toNat / 16) + b.toNat % 16) = b := by
        rw [Nat.div_add_mod, UInt8.ofNat_toNat]
      exact hb ▸ .escape hc hd ih
  | plain hb _ ih => exact .plain (.inl hb) ih

end Monkey
