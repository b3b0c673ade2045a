import Monkey.Lib.CString

/-!
# Monkey.Lib.Extent

A buffer that is filled from its start, and how far the functions of the C library read
in memory that does not end where the bytes that matter do.  A search or a number that
ends in the first bytes is the same whatever follows them, and is read nowhere else.
-/

namespace Monkey

/-! ## filling a buffer -/

/-- A buffer after some bytes are stored at `i`. -/
def fillAt (buf : Bytes) (i : Nat) (bs : Bytes) : Bytes := buf.take i ++ bs ++ buf.drop (i + bs.length)

theorem take_fillAt {buf : Bytes} {i : Nat} (h : i ≤ buf.length) (bs : Bytes) :
    (fillAt buf i bs).take (i + bs.length) = buf.take i ++ bs := by
  have hlen : (buf.take i ++ bs).length = i + bs.length := by rw [List.length_append, List.length_take_of_le h]
  rw [fillAt, ← hlen, List.take_left]

theorem drop_fillAt {buf : Bytes} {i : Nat} (h : i ≤ buf.length) (bs : Bytes) :
    (fillAt buf i bs).drop (i + bs.length) = buf.drop (i + bs.length) := by
  have hlen : (buf.take i ++ bs).length = i + bs.length := by rw [List.length_append, List.length_take_of_le h]
  rw [fillAt, ← hlen, List.drop_left]

theorem length_fillAt {buf : Bytes} {i : Nat} {bs : Bytes} (h : i + bs.length ≤ buf.length) :
    (fillAt buf i bs).length = buf.length := by
  rw [fillAt, List.length_append, List.length_append, List.length_take, List.length_drop]
  omega

/-! ## searches -/

/-- The bytes `strstr` reads: up to the end of the match, else up to the NUL. -/
def strstrReach (hay needle : Bytes) : Nat :=
  match strstr hay needle with
  | some p => p + needle.length
  | none => strlen hay + 1

theorem strlen_lt_of_mem {u : Bytes} (h : 0 ∈ u) : strlen u < u.length := by
  rcases Nat.lt_or_eq_of_le (cstr_length_le u) with hlt | heq
  · exact hlt
  · have hself : cstr u = u := (List.takeWhile_prefix _).eq_of_length heq
    exact absurd (hself.symm ▸ h) (zero_notMem_cstr u)

/-- A string that ends is not changed by what follows it. -/
theorem cstr_append_of_mem {u : Bytes} (h : 0 ∈ u) (w : Bytes) : cstr (u ++ w) = cstr u := by
  have hstop : ¬ (cstr u).length = u.length := (strlen_lt_of_mem h).ne
  unfold cstr at hstop ⊢
  rw [List.takeWhile_append, if_neg hstop]

/-- A NUL behind the bytes ends the string. -/
theorem cstr_append_nul (u w : Bytes) : cstr (u ++ 0 :: w) = cstr u := by
  by_cases h : 0 ∈ u
  · rw [cstr_append_of_mem h]
  · rw [cstr_append h, cstr_eq_self h]
    exact List.append_nil u

theorem strlen_append_of_mem {u : Bytes} (h : 0 ∈ u) (w : Bytes) : strlen (u ++ w) = strlen u := by
  rw [strlen, strlen, cstr_append_of_mem h]

theorem cstr_prefix_append (u w : Bytes) : cstr u <+: cstr (u ++ w) := by
  by_cases h : 0 ∈ u
  · rw [cstr_append_of_mem h]
  · rw [cstr_append h, cstr_eq_self h]
    exact List.prefix_append u _

theorem strstr_end_le {u needle : Bytes} {p : Nat} (h : strstr u needle = some p) (hne : needle ≠ []) :
    p + needle.length ≤ u.length := by
  have hend := (isPrefix_drop_of_strstr h).length_le
  have hpos := List.length_pos_iff.mpr hne
  rw [List.length_drop] at hend
  omega

/-- A match in the first bytes is the one that is found. -/
theorem strstr_append {u w needle : Bytes} {p : Nat} (h : strstr u needle = some p) (hne : needle ≠ []) :
    strstr (u ++ w) needle = some p := by
  have hsound := findSub_sound h
  have hpos := List.length_pos_iff.mpr hne
  have hend := hsound.length_le
  rw [List.length_drop] at hend
  have hcstr := cstr_prefix_append u w
  have hlen := hcstr.length_le
  refine findSub_eq_some (hsound.trans (hcstr.drop p)) (by omega) ?_
  intro q hq hmatch
  apply findSub_least h hq
  exact List.prefix_of_prefix_length_le hmatch (hcstr.drop q) (by rw [List.length_drop]; omega)

/-- A search of a string that ends is not changed by what follows it. -/
theorem strstr_append_of_mem {u : Bytes} (h : 0 ∈ u) (w needle : Bytes) :
    strstr (u ++ w) needle = strstr u needle := by
  rw [strstr, strstr, cstr_append_of_mem h]

/-! ## numbers -/

/-- A number without its sign. -/
def unsigned : Bytes → Bytes
  | 0x2d :: s => s
  | 0x2b :: s => s
  | s => s

/-- What follows a number: the blanks before it, a sign and its digits are read. -/
def afterNumber (s : Bytes) : Bytes := (unsigned (s.dropWhile isspace)).dropWhile isdigit

/-- The bytes `atoi` reads: the number, and the byte that ends it. -/
def atoiReach (s : Bytes) : Nat := s.length - (afterNumber s).length + 1

theorem dropWhile_append_of_ne_nil {p : UInt8 → Bool} {u : Bytes} (h : u.dropWhile p ≠ []) (w : Bytes) :
    (u ++ w).dropWhile p = u.dropWhile p ++ w := by
  rw [List.dropWhile_append, if_neg]
  simpa using h

theorem unsigned_of_ne {c : UInt8} (hminus : c ≠ 0x2d) (hplus : c ≠ 0x2b) (s : Bytes) :
    unsigned (c :: s) = c :: s := by
  unfold unsigned
  split
  · next hc => exact absurd (List.cons.inj hc).1 hminus
  · next hc => exact absurd (List.cons.inj hc).1 hplus
  · rfl

theorem unsigned_suffix (s : Bytes) : unsigned s <:+ s := by
  unfold unsigned
  split
  · exact List.suffix_cons _ _
  · exact List.suffix_cons _ _
  · exact List.suffix_rfl

theorem unsigned_append {u : Bytes} (h : u ≠ []) (w : Bytes) : unsigned (u ++ w) = unsigned u ++ w := by
  obtain ⟨c, s, rfl⟩ := List.exists_cons_of_ne_nil h
  by_cases hminus : c = 0x2d
  · subst hminus
    rfl
  · by_cases hplus : c = 0x2b
    · subst hplus
      rfl
    · rw [List.cons_append, unsigned_of_ne hminus hplus, unsigned_of_ne hminus hplus, List.cons_append]

theorem afterNumber_suffix (s : Bytes) : afterNumber s <:+ s :=
  (List.dropWhile_suffix _).trans ((unsigned_suffix _).trans (List.dropWhile_suffix _))

/-- A number that ends in the first bytes. -/
theorem afterNumber_append {u : Bytes} (h : afterNumber u ≠ []) (w : Bytes) :
    afterNumber (u ++ w) = afterNumber u ++ w := by
  have hnumber : u.dropWhile isspace ≠ [] := by
    intro hnil
    apply h
    rw [afterNumber, hnil]
    rfl
  rw [afterNumber, dropWhile_append_of_ne_nil hnumber, unsigned_append hnumber, dropWhile_append_of_ne_nil h]
  rfl

theorem atoiReach_append {u : Bytes} (h : afterNumber u ≠ []) (w : Bytes) :
    atoiReach (u ++ w) ≤ u.length := by
  have hpos := List.length_pos_iff.mpr h
  have hle := (afterNumber_suffix u).length_le
  rw [atoiReach, afterNumber_append h, List.length_append, List.length_append]
  omega

theorem digits_append_of_ends {u : Bytes} (h : u.dropWhile isdigit ≠ []) (w : Bytes) (acc : Nat) :
    digits acc (u ++ w) = digits acc u := by
  induction u generalizing acc with
  | nil => exact absurd rfl h
  | cons c u ih =>
      rw [List.cons_append, digits, digits]
      by_cases hc : isdigit c = true
      · rw [if_pos hc, if_pos hc]
        rw [List.dropWhile_cons_of_pos hc] at h
        exact ih h _
      · rw [if_neg hc, if_neg hc]

/-- `strtol` of a number that ends in the first bytes. -/
theorem strtol_append {u : Bytes} (h : afterNumber u ≠ []) (w : Bytes) : strtol (u ++ w) = strtol u := by
  have hnumber : u.dropWhile isspace ≠ [] := by
    intro hnil
    apply h
    rw [afterNumber, hnil]
    rfl
  obtain ⟨c, t, ht⟩ := List.exists_cons_of_ne_nil hnumber
  rw [afterNumber, ht] at h
  rw [strtol, strtol, dropWhile_append_of_ne_nil hnumber, ht]
  simp only [List.cons_append]
  by_cases hminus : c = 0x2d
  · subst hminus
    have hdigits : t.dropWhile isdigit ≠ [] := h
    rw [if_pos rfl, if_pos rfl, digits_append_of_ends hdigits]
  · rw [if_neg hminus, if_neg hminus]
    by_cases hplus : c = 0x2b
    · subst hplus
      have hdigits : t.dropWhile isdigit ≠ [] := h
      rw [if_pos rfl, if_pos rfl, digits_append_of_ends hdigits]
    · rw [unsigned_of_ne hminus hplus] at h
      rw [if_neg hplus, if_neg hplus, ← List.cons_append, digits_append_of_ends h]

/-- Blanks in front of a number belong to it. -/
theorem afterNumber_blank {u : Bytes} (h : ∀ c ∈ u, isspace c = true) (w : Bytes) :
    afterNumber (u ++ w) = afterNumber w := by
  rw [afterNumber, afterNumber, List.dropWhile_append_of_pos h]

/-- A number that fills the first bytes goes on behind them. -/
theorem length_afterNumber_append {u : Bytes} (h : afterNumber u = []) (w : Bytes) :
    (afterNumber (u ++ w)).length ≤ w.length := by
  by_cases hblank : u.dropWhile isspace = []
  · rw [afterNumber_blank (List.dropWhile_eq_nil_iff.mp hblank)]
    exact (afterNumber_suffix w).length_le
  · rw [afterNumber, dropWhile_append_of_ne_nil hblank, unsigned_append hblank,
      List.dropWhile_append_of_pos (List.dropWhile_eq_nil_iff.mp h)]
    exact (List.dropWhile_suffix _).length_le

/-- A number is read in the first bytes alone exactly when it ends there. -/
theorem atoiReach_append_le_iff {u : Bytes} (w : Bytes) : atoiReach (u ++ w) ≤ u.length ↔ afterNumber u ≠ [] := by
  refine ⟨fun hle hnil => ?_, fun h => atoiReach_append h w⟩
  have hlong := length_afterNumber_append hnil w
  rw [atoiReach, List.length_append] at hle
  omega

/-- A text with a line end behind a byte that is no blank ends the number. -/
theorem afterNumber_ne_nil {u : Bytes} (h : ∃ c ∈ u, isspace c = false) : afterNumber (u ++ [0x0a]) ≠ [] := by
  have hne : u.dropWhile isspace ≠ [] := by
    obtain ⟨c, hc, hspace⟩ := h
    intro hnil
    have hall := List.dropWhile_eq_nil_iff.mp hnil c hc
    rw [hspace] at hall
    contradiction
  rw [afterNumber, dropWhile_append_of_ne_nil hne, unsigned_append hne]
  intro hnil
  have hdigit := List.dropWhile_eq_nil_iff.mp hnil 0x0a (by simp)
  exact absurd hdigit (by decide)

/-! ## comparisons -/

/-- A comparison that meets a byte the other text does not have ends there. -/
theorem strncmpWith_append_stop {f : UInt8 → UInt8} {s t : Bytes} {n : Nat} (hn : n ≤ t.length)
    (h : ∃ c ∈ s, ∀ d ∈ t, f c ≠ f d) (w : Bytes) : strncmpWith f (s ++ w) t n = strncmpWith f s t n := by
  induction s generalizing t n with
  | nil => simp at h
  | cons a s ih =>
      cases n with
      | zero => cases t <;> rfl
      | succ n =>
          cases t with
          | nil => simp at hn
          | cons d t =>
              rw [List.cons_append, strncmpWith, strncmpWith]
              by_cases hsame : f a = f d
              · obtain ⟨c, hc, hother⟩ := h
                obtain rfl | hc := List.mem_cons.mp hc
                · exact absurd hsame (hother d List.mem_cons_self)
                · rw [ih (Nat.le_of_succ_le_succ hn) ⟨c, hc, fun e he => hother e (List.mem_cons_of_mem _ he)⟩]
              · rw [beq_eq_false_iff_ne.mpr hsame, Bool.false_and, Bool.false_and]

end Monkey
