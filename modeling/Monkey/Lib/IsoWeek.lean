import Monkey.Lib.Calendar

/-!
# Monkey.Lib.IsoWeek

The year of the ISO 8601 week of a day, which is that of the Thursday of the week, and the
days on which it is not the year of the calendar.
-/

namespace Monkey

/-- The days since the last Monday. -/
def sinceMonday (n : Int) : Nat := (n % 7).toNat

/-- The year to which the week of a day belongs. -/
def isoYear (n : Int) : Int := (dateOf (n - sinceMonday n + 3)).year

theorem daysBeforeYear_succ (year : Int) : daysBeforeYear (year + 1) = daysBeforeYear year + yearLength year := by
  unfold daysBeforeYear yearLength isLeap
  split
  · next h =>
      rw [decide_eq_true_eq] at h
      omega
  · next h =>
      rw [decide_eq_true_eq] at h
      omega

theorem daysBeforeYear_mono {y y' : Int} (h : y ≤ y') : daysBeforeYear y ≤ daysBeforeYear y' := by
  unfold daysBeforeYear
  omega

theorem length_yearLength (year : Int) : 365 ≤ yearLength year ∧ yearLength year ≤ 366 := by
  unfold yearLength
  split <;> omega

/-- The year of a day. -/
theorem year_eq_iff {n y : Int} :
    (dateOf n).year = y ↔ daysBeforeYear y ≤ n ∧ n < daysBeforeYear y + yearLength y := by
  obtain ⟨hn, hpos, hlt⟩ := yearOf_spec n
  have hyear : (dateOf n).year = (yearOf n).1 := rfl
  rw [hyear]
  constructor
  · rintro rfl
    omega
  · rintro ⟨hlow, hhigh⟩
    rw [← daysBeforeYear_succ] at hhigh
    have hlt' : n < daysBeforeYear ((yearOf n).1 + 1) := by
      rw [daysBeforeYear_succ]
      omega
    have hle : ¬ (yearOf n).1 + 1 ≤ y := fun h => by
      have := daysBeforeYear_mono h
      omega
    have hge : ¬ y + 1 ≤ (yearOf n).1 := fun h => by
      have := daysBeforeYear_mono h
      omega
    omega

theorem daysBeforeMonth_pos : ∀ leap, ∀ mon < 12, mon ≠ 0 → 31 ≤ daysBeforeMonth leap mon := by decide

theorem daysBeforeMonth_low : ∀ leap, ∀ mon < 11,
    daysBeforeMonth leap mon + (monthLengths leap).getD mon 0 + 31 ≤ (monthLengths leap).sum := by decide

theorem daysBeforeMonth_last : ∀ leap, daysBeforeMonth leap 11 + 31 = (monthLengths leap).sum := by decide

/-- The first days of January that belong to a week of the year before, and the last ones of
December that belong to one of the next. -/
def InOverlap (n : Int) : Prop :=
  (dateOf n).mon = 0 ∧ (dateOf n).mday + 3 ≤ sinceMonday n ∨ (dateOf n).mon = 11 ∧ 28 + sinceMonday n < (dateOf n).mday

instance (n : Int) : Decidable (InOverlap n) := inferInstanceAs (Decidable (_ ∨ _))

/-- **The year of the week** is that of the calendar but for these days. -/
theorem isoYear_eq_iff (n : Int) : isoYear n = (dateOf n).year ↔ ¬ InOverlap n := by
  obtain ⟨hvalid, hnumber⟩ := dateOf_spec n
  obtain ⟨y, hy⟩ : ∃ y, (dateOf n).year = y := ⟨_, rfl⟩
  have hsum := sum_monthLengths y
  have hyear := length_yearLength y
  have hmon := hvalid.mon
  have hmday := hvalid.mday_pos
  have hmday' := hvalid.mday_le
  have hfirst := daysBeforeMonth_pos (isLeap y) (dateOf n).mon hmon
  have hlast := daysBeforeMonth_last (isLeap y)
  have hweek : sinceMonday n < 7 := by
    unfold sinceMonday
    omega
  rw [isoYear, hy, year_eq_iff, InOverlap, ← hsum]
  rw [dayNumber, hy] at hnumber
  rw [hy] at hmday'
  by_cases hdec : (dateOf n).mon = 11
  · have hlength : ∀ leap, (monthLengths leap).getD 11 0 = 31 := by decide
    rw [hdec] at hnumber hmday' ⊢
    rw [hlength] at hmday'
    omega
  · have hlow := daysBeforeMonth_low (isLeap y) (dateOf n).mon (by omega)
    by_cases hjan : (dateOf n).mon = 0
    · have hzero : daysBeforeMonth (isLeap y) 0 = 0 := rfl
      rw [hjan, hzero] at hnumber
      omega
    · have := hfirst hjan
      omega

end Monkey
