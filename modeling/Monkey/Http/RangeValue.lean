import Monkey.Http.Window
import Monkey.Lib.Tokens

/-!
# Monkey.Http.RangeValue

The `Range` values `mk_http_range_parse` accepts, against the ones it is meant for
(`IsRange`).  The unit is compared over the bytes in front of the `=` only, and the numbers
are what `atol` makes of whatever stands there, so more is accepted; a range whose end is
zero is refused.
-/

namespace Monkey

/-! ## the grammar -/

def IsUnit (u : Bytes) : Prop := u.map toupper = rangeUnit.map toupper

instance (u : Bytes) : Decidable (IsUnit u) := inferInstanceAs (Decidable (_ = _))

/-- A decimal number below 2^31. -/
structure IsNumeral (ds : Bytes) : Prop where
  ne_nil : ds ≠ []
  isdigit : ∀ c ∈ ds, isdigit c = true
  small : digits 0 ds < 2 ^ 31

/-- A `Range` value and what it says. -/
inductive IsRange : Bytes → RangeForm → Prop
  | between {u a b : Bytes} (hu : IsUnit u) (ha : IsNumeral a) (hb : IsNumeral b)
      (hle : digits 0 a ≤ digits 0 b) :
      IsRange (u ++ 0x3d :: (a ++ 0x2d :: b)) (.between (digits 0 a) (digits 0 b))
  | startingAt {u a : Bytes} (hu : IsUnit u) (ha : IsNumeral a) :
      IsRange (u ++ 0x3d :: (a ++ 0x2d :: [])) (.startingAt (digits 0 a))
  | suffix {u n : Bytes} (hu : IsUnit u) (hn : IsNumeral n) (hpos : 0 < digits 0 n) :
      IsRange (u ++ 0x3d :: ([] ++ 0x2d :: n)) (.suffix (digits 0 n))

/-- The two bounds of a range. -/
def RangeForm.bounds : RangeForm → Int × Int
  | .suffix last => (-1, last)
  | .between first last => (first, last)
  | .startingAt first => (first, -1)

/-- Exactly the values of the grammar are accepted, with their bounds. -/
structure RangeRead (v : Bytes) (sr : SessionRequest) : Prop where
  accepted : (mkHttpRangeParse sr).1 = 0 ↔ ∃ form, IsRange v form
  bounds : ∀ form, IsRange v form →
    ((mkHttpRangeParse sr).2.headers.ranges0, (mkHttpRangeParse sr).2.headers.ranges1) = form.bounds

/-! ## what is accepted -/

/-- The bytes in front of the `=` start the unit. -/
def UnitTaken (u : Bytes) : Prop := u.map toupper <+: rangeUnit.map toupper

/-- The numbers of a value with `f` and `s` around its first `-`; behind a `-` at the start
the number is read past the end of the value. -/
def numbersRead (f s tail : Bytes) : RangeForm :=
  if f = [] then .suffix (rangeNumber (s ++ tail))
  else if s = [] then .startingAt (rangeNumber (f ++ [0x2d]))
  else .between (rangeNumber f) (rangeNumber s)

/-- The checks of the bounds. -/
def RangeForm.Taken : RangeForm → Prop
  | .suffix last => 0 < last
  | .between first last => 0 < last ∧ first ≤ last
  | .startingAt _ => True

/-- A value that is accepted as some range, be it one or not. -/
def RangeTaken (v tail : Bytes) : Prop :=
  ∃ u f s, v = u ++ 0x3d :: (f ++ 0x2d :: s) ∧ UnitTaken u ∧ 0x2d ∉ f ∧ (numbersRead f s tail).Taken

theorem applyRange_fst (sr : SessionRequest) (form : RangeForm) :
    (applyRange sr (some form)).1 = 0 ↔ form.Taken := by
  cases form with
  | suffix last =>
      simp only [applyRange, RangeForm.Taken]
      split <;> omega
  | between first last =>
      simp only [applyRange, RangeForm.Taken]
      split <;> omega
  | startingAt first => exact iff_of_true rfl trivial

theorem applyRange_bounds {sr : SessionRequest} (h1 : sr.headers.ranges1 = -1) (form : RangeForm) :
    ((applyRange sr (some form)).2.headers.ranges0, (applyRange sr (some form)).2.headers.ranges1) =
      form.bounds := by
  cases form with
  | suffix last => rfl
  | between first last => rfl
  | startingAt first => exact Prod.ext rfl h1

/-! ## the form of a value -/

theorem UnitTaken.notMem {u : Bytes} (h : UnitTaken u) : 0x3d ∉ u ∧ 0x2d ∉ u := by
  have hsub := h.subset
  constructor
  · intro hmem
    have hin := hsub (List.mem_map_of_mem hmem)
    exact absurd hin (by decide)
  · intro hmem
    have hin := hsub (List.mem_map_of_mem hmem)
    exact absurd hin (by decide)

theorem IsUnit.unitTaken {u : Bytes} (h : IsUnit u) : UnitTaken u := by
  rw [UnitTaken, h]

theorem rangeForm_of_value {v tail : Bytes} (hlen : v.length < 2 ^ 31) :
    rangeForm ⟨some (v ++ tail), v.length⟩ =
      rangeFormAt (v ++ tail) v.length (position (memchr (v ++ tail) 0x3d v.length))
        (position (memchr (v ++ tail) 0x2d v.length)) := by
  have hint : toInt ((v.length : Nat) : Int) = v.length := toInt_eq_self (by omega) (by omega)
  simp only [rangeForm, mkStringCharSearch, hint, Int.toNat_natCast]
  rw [if_neg (by omega)]

/-- Without the pieces of a range there is no form. -/
theorem rangeForm_eq_none {v tail : Bytes} (h0 : 0 ∉ v) (hlen : v.length < 2 ^ 31)
    (hnone : ∀ u f s, v = u ++ 0x3d :: (f ++ 0x2d :: s) → UnitTaken u → 0x2d ∈ f) :
    rangeForm ⟨some (v ++ tail), v.length⟩ = none := by
  rw [rangeForm_of_value hlen]
  refine if_pos ?_
  by_cases heq : 0x3d ∈ v
  · obtain ⟨u, w, rfl, hu⟩ := List.eq_append_cons_of_mem heq
    have hfind : memchr (u ++ 0x3d :: w ++ tail) 0x3d (u ++ 0x3d :: w).length = some u.length := by
      rw [List.append_assoc, List.cons_append]
      exact memchr_append_cons hu _ (by simp)
    by_cases hunit : UnitTaken u
    · refine .inr (.inr ?_)
      have hminus : 0x2d ∉ u ++ 0x3d :: w := by
        intro hmem
        rcases List.mem_append.mp hmem with hmem | hmem
        · exact hunit.notMem.2 hmem
        · rcases List.mem_cons.mp hmem with hmem | hmem
          · exact absurd hmem (by decide)
          · obtain ⟨f, s, rfl, hf⟩ := List.eq_append_cons_of_mem hmem
            exact hf (hnone u f s rfl hunit)
      rw [memchr_eq_none (by rwa [List.take_left])]
      decide
    · refine .inr (.inl ?_)
      have hu0 : 0 ∉ u := fun hmem => h0 (List.mem_append_left _ hmem)
      rw [hfind, position, Option.elim_some, Int.ofNat_eq_natCast, Int.toNat_natCast, List.append_assoc,
        strncasecmp_token hu0, Bool.eq_false_iff]
      exact fun hpre => hunit (List.isPrefixOf_iff_prefix.mp hpre)
  · refine .inl ?_
    rw [memchr_eq_none (by rwa [List.take_left])]
    decide

/-- The copy of a piece. -/
theorem mkStringCopySubstr_piece {data a b c : Bytes} {m n : Int} (hdata : data = a ++ (b ++ c))
    (hm : m = a.length) (hn : n = a.length + b.length) : mkStringCopySubstr data m n = some b := by
  subst hdata hm hn
  rw [mkStringCopySubstr, if_neg (by omega), add_sub_cancel_left, Int.toNat_natCast, Int.toNat_natCast,
    List.drop_left, List.take_left]

/-- The form of a value with the pieces of a range. -/
theorem rangeForm_pieces {u f s tail : Bytes} (h0 : 0 ∉ u) (hu : UnitTaken u) (hf : 0x2d ∉ f)
    (hlen : (u ++ 0x3d :: (f ++ 0x2d :: s)).length < 2 ^ 31) :
    rangeForm ⟨some (u ++ 0x3d :: (f ++ 0x2d :: s) ++ tail), (u ++ 0x3d :: (f ++ 0x2d :: s)).length⟩ =
      some (numbersRead f s tail) := by
  have heq : memchr (u ++ 0x3d :: (f ++ 0x2d :: s) ++ tail) 0x3d
      (u ++ 0x3d :: (f ++ 0x2d :: s)).length = some u.length := by
    rw [List.append_assoc, List.cons_append]
    exact memchr_append_cons hu.notMem.1 _ (by simp)
  have hsep : memchr (u ++ 0x3d :: (f ++ 0x2d :: s) ++ tail) 0x2d
      (u ++ 0x3d :: (f ++ 0x2d :: s)).length = some (u.length + 1 + f.length) := by
    have hnot : 0x2d ∉ u ++ 0x3d :: f := by
      intro hmem
      rcases List.mem_append.mp hmem with hmem | hmem
      · exact hu.notMem.2 hmem
      · rcases List.mem_cons.mp hmem with hmem | hmem
        · exact absurd hmem (by decide)
        · exact hf hmem
    have hsplit : u ++ 0x3d :: (f ++ 0x2d :: s) ++ tail = u ++ 0x3d :: f ++ 0x2d :: (s ++ tail) := by simp
    rw [hsplit, memchr_append_cons hnot _ (by simp)]
    simp only [List.length_append, List.length_cons]
    congr 1
    omega
  have hunit : strncasecmp (u ++ 0x3d :: (f ++ 0x2d :: s) ++ tail) rangeUnit u.length = true := by
    rw [List.append_assoc, strncasecmp_token h0]
    exact List.isPrefixOf_iff_prefix.mpr hu
  have hsize : (u ++ 0x3d :: (f ++ 0x2d :: s)).length = u.length + 1 + f.length + 1 + s.length := by
    simp only [List.length_append, List.length_cons]
    omega
  rw [rangeForm_of_value hlen, heq, hsep, hsize]
  change rangeFormAt _ _ (u.length : Nat) (u.length + 1 + f.length : Nat) = _
  rw [rangeFormAt, Int.toNat_natCast, hunit, if_neg (by simp; omega), numbersRead]
  by_cases hfirst : f = []
  · subst hfirst
    have hsplit : u ++ 0x3d :: ([] ++ 0x2d :: s) ++ tail = (u ++ [0x3d, 0x2d]) ++ (s ++ tail) := by simp
    rw [if_pos (by simp), if_pos rfl, hsplit, Int.toNat_natCast, List.drop_left' (by simp)]
  · have hfpos := List.length_pos_iff.mpr hfirst
    rw [if_neg (by push_cast; omega), if_neg hfirst]
    by_cases hlast : s = []
    · subst hlast
      have hcopy : mkStringCopySubstr (u ++ 0x3d :: (f ++ 0x2d :: []) ++ tail) ((u.length : Nat) + 1)
          (u.length + 1 + f.length + 1 + ([] : Bytes).length : Nat) = some (f ++ [0x2d]) :=
        @mkStringCopySubstr_piece _ (u ++ [0x3d]) _ tail _ _ (by simp) (by simp) (by simp; omega)
      rw [if_neg (by push_cast; simp), if_pos (by push_cast; simp), if_pos rfl, hcopy]
      rfl
    · have hspos := List.length_pos_iff.mpr hlast
      have hcopyFirst : mkStringCopySubstr (u ++ 0x3d :: (f ++ 0x2d :: s) ++ tail) ((u.length : Nat) + 1)
          (u.length + 1 + f.length : Nat) = some f :=
        @mkStringCopySubstr_piece _ (u ++ [0x3d]) _ (0x2d :: (s ++ tail)) _ _ (by simp) (by simp) (by simp)
      have hcopyLast : mkStringCopySubstr (u ++ 0x3d :: (f ++ 0x2d :: s) ++ tail)
          ((u.length + 1 + f.length : Nat) + 1) (u.length + 1 + f.length + 1 + s.length : Nat) = some s :=
        @mkStringCopySubstr_piece _ (u ++ 0x3d :: (f ++ [0x2d])) _ tail _ _ (by simp) (by simp; omega)
          (by simp; omega)
      rw [if_pos (by push_cast; omega), if_neg hlast, hcopyFirst, hcopyLast]
      rfl

/-! ## a value of the grammar -/

/-- A numeral is read whole, up to a byte that is no digit. -/
theorem IsNumeral.rangeNumber_eq {ds t : Bytes} (h : IsNumeral ds)
    (ht : ∀ c ∈ t.head?, Monkey.isdigit c = false) : rangeNumber (ds ++ t) = digits 0 ds := by
  have hsmall := h.small
  have hnumber := @strtol_number [] ds t (by simp) h.isdigit h.ne_nil ht (by omega)
  rw [List.nil_append] at hnumber
  rw [rangeNumber, hnumber, toInt_eq_self (by omega) (by omega)]

theorem IsNumeral.rangeNumber_self {ds : Bytes} (h : IsNumeral ds) : rangeNumber ds = digits 0 ds := by
  have hread := @IsNumeral.rangeNumber_eq ds [] h (by simp)
  rwa [List.append_nil] at hread

theorem IsNumeral.notMem {ds : Bytes} (h : IsNumeral ds) : 0x2d ∉ ds :=
  fun hmem => absurd (h.isdigit _ hmem) (by decide)

/-- The code has the form of a value of the grammar. -/
theorem IsRange.rangeForm_eq {v : Bytes} {form : RangeForm} (h : IsRange v form) (h0 : 0 ∉ v)
    (hlen : v.length < 2 ^ 31) (tail : Bytes) :
    rangeForm ⟨some (v ++ (mkCrlf ++ tail)), v.length⟩ = some form := by
  cases h with
  | @between u a b hu ha hb hle =>
      rw [rangeForm_pieces (fun hmem => h0 (List.mem_append_left _ hmem)) hu.unitTaken ha.notMem hlen,
        numbersRead, if_neg ha.ne_nil, if_neg hb.ne_nil, ha.rangeNumber_self, hb.rangeNumber_self]
  | @startingAt u a hu ha =>
      rw [rangeForm_pieces (fun hmem => h0 (List.mem_append_left _ hmem)) hu.unitTaken ha.notMem hlen,
        numbersRead, if_neg ha.ne_nil, if_pos rfl, ha.rangeNumber_eq]
      intro c hc
      obtain rfl := Option.mem_some_iff.mp hc
      decide
  | @suffix u n hu hn hpos =>
      rw [rangeForm_pieces (fun hmem => h0 (List.mem_append_left _ hmem)) hu.unitTaken List.not_mem_nil hlen,
        numbersRead, if_pos rfl, hn.rangeNumber_eq]
      intro c hc
      obtain rfl := Option.mem_some_iff.mp hc
      decide

/-- Of the grammar only a range that ends at zero is refused. -/
theorem IsRange.taken_iff {v : Bytes} {form : RangeForm} (h : IsRange v form) :
    form.Taken ↔ ∀ first, form ≠ .between first 0 := by
  cases h with
  | @between u a b hu ha hb hle =>
      simp only [RangeForm.Taken, ne_eq, RangeForm.between.injEq, not_and]
      constructor
      · intro htaken first _
        omega
      · intro hne
        have := hne _ rfl
        omega
  | startingAt hu ha => simp [RangeForm.Taken]
  | suffix hu hn hpos =>
      simp only [RangeForm.Taken, ne_eq, reduceCtorEq, not_false_eq_true, implies_true, iff_true]
      omega

/-! ## what is accepted and what should be -/

/-- A value is accepted exactly when its pieces are taken. -/
theorem mkHttpRangeParse_iff_taken {v tail : Bytes} (h0 : 0 ∉ v) (hlen : v.length < 2 ^ 31)
    {sr : SessionRequest} (hrange : sr.range = ⟨some (v ++ tail), v.length⟩) :
    (mkHttpRangeParse sr).1 = 0 ↔ RangeTaken v tail := by
  rw [mkHttpRangeParse_eq, hrange]
  constructor
  · intro haccepted
    by_contra hnot
    -- either the pieces are missing or their numbers are refused
    by_cases hpieces : ∃ u f s, v = u ++ 0x3d :: (f ++ 0x2d :: s) ∧ UnitTaken u ∧ 0x2d ∉ f
    · obtain ⟨u, f, s, rfl, hu, hf⟩ := hpieces
      rw [rangeForm_pieces (fun hmem => h0 (List.mem_append_left _ hmem)) hu hf hlen,
        applyRange_fst] at haccepted
      exact hnot ⟨u, f, s, rfl, hu, hf, haccepted⟩
    · rw [rangeForm_eq_none h0 hlen] at haccepted
      · exact absurd haccepted (by decide : (-1 : Int) ≠ 0)
      · intro u f s hv hu
        by_contra hf
        exact hpieces ⟨u, f, s, hv, hu, hf⟩
  · rintro ⟨u, f, s, rfl, hu, hf, htaken⟩
    rw [rangeForm_pieces (fun hmem => h0 (List.mem_append_left _ hmem)) hu hf hlen, applyRange_fst]
    exact htaken

/-- **Range values**: a value is accepted as the grammar says exactly when it is a range that
does not end at zero, or is none and its pieces are not taken for one. -/
theorem range_value_iff {v tail : Bytes} (h0 : 0 ∉ v) (hlen : v.length < 2 ^ 31) {sr : SessionRequest}
    (hrange : sr.range = ⟨some (v ++ (mkCrlf ++ tail)), v.length⟩)
    (hfresh : sr.headers.ranges1 = -1) :
    RangeRead v sr ↔
      (∃ form, IsRange v form ∧ ∀ first, form ≠ .between first 0) ∨
        ((∀ form, ¬ IsRange v form) ∧ ¬ RangeTaken v (mkCrlf ++ tail)) := by
  by_cases hvalue : ∃ form, IsRange v form
  · obtain ⟨form, hform⟩ := hvalue
    have hread := hform.rangeForm_eq h0 hlen tail
    have hunique : ∀ form', IsRange v form' → form' = form := fun form' hform' =>
      Option.some.inj ((hform'.rangeForm_eq h0 hlen tail).symm.trans hread)
    have hparse : mkHttpRangeParse sr = applyRange sr (some form) := by
      rw [mkHttpRangeParse_eq, hrange, hread]
    constructor
    · intro hexact
      have hok := hexact.accepted.mpr ⟨form, hform⟩
      rw [hparse, applyRange_fst] at hok
      exact .inl ⟨form, hform, hform.taken_iff.mp hok⟩
    · rintro (⟨form', hform', hend⟩ | ⟨hnone, -⟩)
      · obtain rfl := hunique form' hform'
        refine ⟨?_, fun form'' hform'' => ?_⟩
        · rw [hparse, applyRange_fst]
          exact iff_of_true (hform.taken_iff.mpr hend) ⟨form', hform⟩
        · rw [hunique form'' hform'', hparse]
          exact applyRange_bounds hfresh form'
      · exact absurd hform (hnone form)
  · have hnone : ∀ form, ¬ IsRange v form := not_exists.mp hvalue
    constructor
    · intro hexact
      refine .inr ⟨hnone, fun htaken => hvalue (hexact.accepted.mp ?_)⟩
      exact (mkHttpRangeParse_iff_taken h0 hlen hrange).mpr htaken
    · rintro (⟨form, hform, -⟩ | ⟨-, hrefused⟩)
      · exact absurd hform (hnone form)
      · refine ⟨?_, fun form hform => absurd hform (hnone form)⟩
        exact iff_of_false (fun hok => hrefused ((mkHttpRangeParse_iff_taken h0 hlen hrange).mp hok)) hvalue

/-- A request with a `Range` header. -/
def rangeValueRequest (v : Bytes) : SessionRequest := { range := ⟨some (v ++ mkCrlf), v.length⟩ }

theorem isRange_ten_bytes : IsRange (ascii "bytes=10-19".toList) (.between 10 19) :=
  @IsRange.between (ascii "bytes".toList) (ascii "10".toList) (ascii "19".toList) (by decide)
    ⟨by decide, by decide +kernel, by decide⟩ ⟨by decide, by decide +kernel, by decide⟩ (by decide)

theorem range_value_ten_bytes :
    RangeRead (ascii "bytes=10-19".toList) (rangeValueRequest (ascii "bytes=10-19".toList)) :=
  (@range_value_iff (ascii "bytes=10-19".toList) [] (by decide) (by decide)
    (rangeValueRequest (ascii "bytes=10-19".toList)) (by decide) (by decide)).mpr
    (.inl ⟨_, isRange_ten_bytes, by simp⟩)

/-- The first byte of a file alone cannot be asked for. -/
theorem not_range_value_first_byte :
    ¬ RangeRead (ascii "bytes=0-0".toList) (rangeValueRequest (ascii "bytes=0-0".toList)) := by
  intro hread
  have hfirst : IsRange (ascii "bytes=0-0".toList) (.between 0 0) :=
    @IsRange.between (ascii "bytes".toList) (ascii "0".toList) (ascii "0".toList) (by decide)
      ⟨by decide, by decide +kernel, by decide⟩ ⟨by decide, by decide +kernel, by decide⟩ (by decide)
  exact absurd (hread.accepted.mpr ⟨_, hfirst⟩) (by decide)

end Monkey
