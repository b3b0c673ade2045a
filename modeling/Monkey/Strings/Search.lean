import Monkey.Strings
import Mathlib.Order.Bounds.Basic

/-!
# Monkey.Strings.Search

`_mk_string_search` with all its modifiers (`mk_string.c`), against the search it stands
for: the least position at which the needle lies within the length given.

A length of zero or less is a search of the whole string.  With a positive length the
loop bounds where a match starts, and not where it ends.
-/

namespace Monkey

theorem Sensitivity.fold_eq_zero (mode : Sensitivity) {c : UInt8}
    (h : mode.fold c = mode.fold 0) : c = 0 := by
  cases mode with
  | sensitive => exact h
  | insensitive => exact toupper_eq_zero c h

/-- `_mk_string_search`. -/
def mkStringSearchBase (string search : Bytes) (mode : Sensitivity) (len : Int) : Int :=
  if len ≤ 0 then
    position (match mode with
      | .sensitive => strstr string search
      | .insensitive => strcasestr string search)
  else position (mkStringSearchLoop mode search len.toNat string 0)

/-! ## the searches of the other modules -/

theorem mkStringSearch_eq (haystack needle : Bytes) :
    mkStringSearch haystack needle = mkStringSearchBase haystack needle .sensitive (-1) := rfl

theorem mkStringSearchI_eq (haystack needle : Bytes) :
    mkStringSearchI haystack needle = mkStringSearchBase haystack needle .insensitive (-1) := rfl

theorem mkStringSearchN_eq (haystack needle : Bytes) (len : Int) :
    mkStringSearchN haystack needle len = mkStringSearchBase haystack needle .insensitive len := rfl

/-! ## what is searched for -/

/-- The needle lies at `p` in the string, as the modifier compares them. -/
def MatchesAt (mode : Sensitivity) (string needle : Bytes) (p : Nat) : Prop :=
  needle.map mode.fold <+: ((cstr string).map mode.fold).drop p

instance (mode : Sensitivity) (string needle : Bytes) (p : Nat) :
    Decidable (MatchesAt mode string needle p) := inferInstanceAs (Decidable (_ <+: _))

/-- The result of a search within the first `len` bytes. -/
def SearchExact (mode : Sensitivity) (string needle : Bytes) (len : Nat) (result : Int) : Prop :=
  (∃ p : Nat, result = p ∧
      IsLeast {q | MatchesAt mode string needle q ∧ q + needle.length ≤ len} p) ∨
    (result = -1 ∧ ∀ q, MatchesAt mode string needle q → len < q + needle.length)

/-- The needle first lies across the end of the first `len` bytes; of no bytes, it lies
anywhere. -/
def CrossesEnd (mode : Sensitivity) (string needle : Bytes) (len : Nat) : Prop :=
  ∃ p, IsLeast {q | MatchesAt mode string needle q} p ∧ (p < len ∨ len = 0) ∧ len < p + needle.length

section exact

variable {mode : Sensitivity} {string needle : Bytes}

/-- The first match of the bytes is the least position of one. -/
theorem findSub_eq_some_iff {s : Bytes} {p : Nat} :
    findSub needle s = some p ↔ IsLeast {q | needle <+: s.drop q} p := by
  constructor
  · intro h
    refine ⟨findSub_sound h, fun q hq => ?_⟩
    by_contra hlt
    exact findSub_least h (not_le.mp hlt) hq
  · rintro ⟨hp, hmin⟩
    by_cases hlen : p ≤ s.length
    · refine findSub_eq_some hp hlen fun q hq hmatch => ?_
      have := hmin hmatch
      omega
    · have hnil : needle = [] := by
        rw [Set.mem_ofPred_eq, List.drop_eq_nil_of_le (by omega)] at hp
        exact List.prefix_nil.mp hp
      have := hmin (a := 0) (by simp [hnil])
      omega

theorem findSub_eq_none_iff {s : Bytes} (hne : needle ≠ []) :
    findSub needle s = none ↔ ∀ q, ¬ needle <+: s.drop q := by
  constructor
  · intro h q hmatch
    by_cases hlen : q ≤ s.length
    · obtain ⟨p, hp, -⟩ := findSub_of_prefix_drop hmatch hlen
      rw [h] at hp
      contradiction
    · rw [List.drop_eq_nil_of_le (by omega)] at hmatch
      exact hne (List.prefix_nil.mp hmatch)
  · intro h
    cases hfound : findSub needle s with
    | none => rfl
    | some p => exact absurd (findSub_sound hfound) (h p)

/-- The comparison at a position stays in the string. -/
theorem isPrefix_map_cstr (h0 : 0 ∉ needle) (s : Bytes) :
    needle.map mode.fold <+: s.map mode.fold ↔ needle.map mode.fold <+: (cstr s).map mode.fold := by
  constructor
  · intro h
    induction needle generalizing s with
    | nil => exact List.nil_prefix
    | cons d needle ih =>
        obtain ⟨hd, hrest⟩ := not_or.mp fun h => h0 (List.mem_cons.mpr h)
        cases s with
        | nil => exact h
        | cons c s =>
            obtain ⟨hfold, h⟩ := List.cons_prefix_cons.mp h
            have hc : c ≠ 0 := by
              rintro rfl
              exact hd (mode.fold_eq_zero hfold).symm
            rw [show cstr (c :: s) = c :: cstr s from List.takeWhile_cons_of_pos (by simpa using hc)]
            exact List.cons_prefix_cons.mpr ⟨hfold, ih hrest s h⟩
  · exact fun h => h.trans ((List.takeWhile_prefix _).map mode.fold)

/-- **The loop** finds the first match, if it starts below `len`. -/
theorem mkStringSearchLoop_eq (hne : needle ≠ []) (h0 : 0 ∉ needle) (s : Bytes) {len i : Nat} (hi : i < len) :
    mkStringSearchLoop mode needle len s i =
      ((findSub (needle.map mode.fold) ((cstr s).map mode.fold)).map (· + i)).filter (· < len) := by
  have hne' : needle.map mode.fold ≠ [] := by simpa using hne
  induction s generalizing i with
  | nil =>
      rw [mkStringSearchLoop, if_neg hne, show cstr [] = [] from rfl, List.map_nil,
        (findSub_eq_none_iff hne').mpr (by simpa using hne)]
      rfl
  | cons c s ih =>
      have hstring : (needle.map mode.fold).isPrefixOf ((c :: s).map mode.fold) =
          (needle.map mode.fold).isPrefixOf ((cstr (c :: s)).map mode.fold) := by
        rw [Bool.eq_iff_iff, List.isPrefixOf_iff_prefix, List.isPrefixOf_iff_prefix, isPrefix_map_cstr h0]
      rw [mkStringSearchLoop, hstring]
      by_cases hc : c = 0
      · subst hc
        rw [show cstr (0 :: s) = [] from rfl, List.map_nil, if_neg (by simpa using hne),
          (findSub_eq_none_iff hne').mpr (by simpa using hne)]
        simp
      · rw [show cstr (c :: s) = c :: cstr s from List.takeWhile_cons_of_pos (by simpa using hc),
          List.map_cons, findSub.eq_2, if_neg hc]
        by_cases hpre : (needle.map mode.fold).isPrefixOf (mode.fold c :: (cstr s).map mode.fold) = true
        · rw [if_pos hpre, if_pos hpre, Option.map_some, Nat.zero_add,
            Option.filter_some_pos (by simpa using hi)]
        · rw [if_neg hpre, if_neg hpre, Option.map_map]
          by_cases hlast : i + 1 ≥ len
          · rw [if_pos hlast, eq_comm, Option.filter_eq_none_iff]
            rintro _ hp
            obtain ⟨p, -, rfl⟩ := Option.map_eq_some_iff.mp hp
            simp only [Function.comp_apply, decide_eq_true_eq]
            omega
          · rw [if_neg hlast, ih (by omega)]
            simp only [Function.comp_def, Nat.add_assoc, Nat.add_comm 1 i]

/-- What `_mk_string_search` returns. -/
theorem mkStringSearchBase_eq (hne : needle ≠ []) (h0 : 0 ∉ needle) (string : Bytes) (len : Nat) :
    mkStringSearchBase string needle mode len = position
      ((findSub (needle.map mode.fold) ((cstr string).map mode.fold)).filter
        fun p => p < len ∨ len = 0) := by
  unfold mkStringSearchBase
  by_cases hlen : len = 0
  · subst hlen
    have hfold : (match mode with
        | .sensitive => strstr string needle
        | .insensitive => strcasestr string needle) =
        findSub (needle.map mode.fold) ((cstr string).map mode.fold) := by
      cases mode with
      | sensitive => simp [Sensitivity.fold, strstr]
      | insensitive => rfl
    rw [if_pos (by decide), hfold]
    cases findSub (needle.map mode.fold) ((cstr string).map mode.fold) with
    | none => rfl
    | some p => rw [Option.filter_some_pos (by simp)]
  · rw [if_neg (by omega), Int.toNat_natCast, mkStringSearchLoop_eq hne h0 string (by omega)]
    simp [hlen]

/-- **A bounded search** is exact exactly when the needle does not first lie across the
end. -/
theorem searchExact_iff (hne : needle ≠ []) (h0 : 0 ∉ needle) (string : Bytes) (len : Nat) :
    SearchExact mode string needle len (mkStringSearchBase string needle mode len) ↔
      ¬ CrossesEnd mode string needle len := by
  have hne' : needle.map mode.fold ≠ [] := by simpa using hne
  have hpos := List.length_pos_iff.mpr hne
  rw [mkStringSearchBase_eq hne h0]
  cases hfound : findSub (needle.map mode.fold) ((cstr string).map mode.fold) with
  | none =>
      have hnone := (findSub_eq_none_iff hne').mp hfound
      refine iff_of_true (.inr ⟨rfl, fun q hq => absurd hq (hnone q)⟩) ?_
      rintro ⟨p, hleast, -⟩
      exact hnone p hleast.1
  | some p =>
      have hleast : IsLeast {q | MatchesAt mode string needle q} p := findSub_eq_some_iff.mp hfound
      have hcross : CrossesEnd mode string needle len ↔ (p < len ∨ len = 0) ∧ len < p + needle.length := by
        constructor
        · rintro ⟨q, hq, hend⟩
          rwa [hleast.unique hq]
        · exact fun hend => ⟨p, hleast, hend⟩
      rw [hcross, Option.filter_some]
      by_cases hin : p < len ∨ len = 0
      · rw [if_pos (by simpa using hin), and_iff_right hin]
        constructor
        · rintro (⟨q, hq, hfit, -⟩ | ⟨hq, -⟩)
          · obtain rfl : p = q := Int.ofNat.inj hq
            exact not_lt.mpr hfit.2
          · simp [position] at hq
        · intro hend
          exact .inl ⟨p, rfl, ⟨hleast.1, not_lt.mp hend⟩, fun q hq => hleast.2 hq.1⟩
      · rw [if_neg (by simpa using hin)]
        refine iff_of_true (.inr ⟨rfl, fun q hq => ?_⟩) fun h => hin h.1
        have := hleast.2 hq
        omega

end exact

end Monkey
