import Mathlib.Tactic

/-!
# Monkey.Lib.Calendar

The Gregorian calendar, forwards and backwards without limit: the number of a day,
counted from 1 January of the year 1, and the date of a numbered day.
-/

namespace Monkey

/-- A date; `mon` counts from 0 for January. -/
structure Date where
  year : Int
  mon : Nat
  mday : Nat
deriving DecidableEq, Repr

def isLeap (year : Int) : Bool := year % 4 = 0 ∧ (year % 100 ≠ 0 ∨ year % 400 = 0)

def monthLengths (leap : Bool) : List Nat := [31, if leap then 29 else 28, 31, 30, 31, 30, 31, 31, 30, 31, 30, 31]

def yearLength (year : Int) : Int := if isLeap year then 366 else 365

/-- The days before 1 January of a year. -/
def daysBeforeYear (year : Int) : Int :=
  365 * (year - 1) + (year - 1) / 4 - (year - 1) / 100 + (year - 1) / 400

/-- The days of a year before a month. -/
def daysBeforeMonth (leap : Bool) (mon : Nat) : Nat := ((monthLengths leap).take mon).sum

/-- The number of a day. -/
def dayNumber (d : Date) : Int :=
  daysBeforeYear d.year + daysBeforeMonth (isLeap d.year) d.mon + d.mday - 1

/-- A date of the calendar. -/
structure Date.Valid (d : Date) : Prop where
  mon : d.mon < 12
  mday_pos : 1 ≤ d.mday
  mday_le : d.mday ≤ (monthLengths (isLeap d.year)).getD d.mon 0

/-- The day of the week, 0 for Sunday. -/
def weekday (n : Int) : Nat := ((n + 1) % 7).toNat

/-! ## the date of a day -/

/-- The year of a day and its number in it, through the cycles of 400, 100 and 4 years. -/
def yearOf (n : Int) : Int × Int :=
  let r := n % 146097
  let n100 := min (r / 36524) 3
  let r := r - n100 * 36524
  let n4 := r / 1461
  let r := r % 1461
  let n1 := min (r / 365) 3
  (n / 146097 * 400 + n100 * 100 + n4 * 4 + n1 + 1, r - n1 * 365)

/-- The month in which a day falls, and its number in it. -/
def monthOf : List Nat → Nat → Nat × Nat
  | [], day => (0, day)
  | len :: lens, day =>
      if day < len then (0, day) else ((monthOf lens (day - len)).1 + 1, (monthOf lens (day - len)).2)

/-- The date of a day. -/
def dateOf (n : Int) : Date :=
  let (year, yday) := yearOf n
  let (mon, day) := monthOf (monthLengths (isLeap year)) yday.toNat
  { year := year, mon := mon, mday := day + 1 }

/-- A year in the cycles: `a` of 400 years, `b` of 100, `c` of 4, and `e` more years. -/
theorem daysBeforeYear_cycles {a b c e : Int} (hb : 0 ≤ b) (hb' : b ≤ 3) (hc : 0 ≤ c) (hc' : c ≤ 24)
    (he : 0 ≤ e) (he' : e ≤ 3) :
    daysBeforeYear (a * 400 + b * 100 + c * 4 + e + 1) = a * 146097 + b * 36524 + c * 1461 + e * 365 := by
  unfold daysBeforeYear
  have h4 : (a * 400 + b * 100 + c * 4 + e + 1 - 1) / 4 = a * 100 + b * 25 + c := by omega
  have h100 : (a * 400 + b * 100 + c * 4 + e + 1 - 1) / 100 = a * 4 + b := by omega
  have h400 : (a * 400 + b * 100 + c * 4 + e + 1 - 1) / 400 = a := by omega
  rw [h4, h100, h400]
  ring

/-- The last year of a cycle of 4 is a leap year, but for the last one of a cycle of 100 that is
not the last one of a cycle of 400. -/
theorem isLeap_cycles {a b c : Int} (hc : 0 ≤ c) (hc' : c ≤ 24) (h : c = 24 → b = 3) :
    isLeap (a * 400 + b * 100 + c * 4 + 3 + 1) = true := by
  unfold isLeap
  rw [decide_eq_true_eq]
  omega

theorem yearOf_spec (n : Int) :
    daysBeforeYear (yearOf n).1 + (yearOf n).2 = n ∧ 0 ≤ (yearOf n).2 ∧
      (yearOf n).2 < yearLength (yearOf n).1 := by
  obtain ⟨r, hr⟩ : ∃ r, n % 146097 = r := ⟨_, rfl⟩
  obtain ⟨b, hb⟩ : ∃ b, min (r / 36524) 3 = b := ⟨_, rfl⟩
  obtain ⟨c, hc⟩ : ∃ c, (r - b * 36524) / 1461 = c := ⟨_, rfl⟩
  obtain ⟨u, hu⟩ : ∃ u, (r - b * 36524) % 1461 = u := ⟨_, rfl⟩
  obtain ⟨e, he⟩ : ∃ e, min (u / 365) 3 = e := ⟨_, rfl⟩
  have hyear : yearOf n = (n / 146097 * 400 + b * 100 + c * 4 + e + 1, u - e * 365) := by
    rw [yearOf, hr, hb, hc, hu, he]
  have hb0 : 0 ≤ b ∧ b ≤ 3 := by omega
  have hc0 : 0 ≤ c ∧ c ≤ 24 := by omega
  have he0 : 0 ≤ e ∧ e ≤ 3 := by omega
  rw [hyear]
  refine ⟨?_, by omega, ?_⟩
  · rw [daysBeforeYear_cycles hb0.1 hb0.2 hc0.1 hc0.2 he0.1 he0.2]
    omega
  · change u - e * 365 < yearLength _
    unfold yearLength
    split
    · omega
    · next hleap =>
        -- only the last year of a cycle can have one day more
        by_contra hlong
        have he3 : e = 3 := by omega
        subst he3
        exact hleap (isLeap_cycles hc0.1 hc0.2 (by omega))

theorem monthOf_spec {lens : List Nat} {day : Nat} (h : day < lens.sum) :
    (monthOf lens day).1 < lens.length ∧ (lens.take (monthOf lens day).1).sum + (monthOf lens day).2 = day ∧
      (monthOf lens day).2 < lens.getD (monthOf lens day).1 0 := by
  induction lens generalizing day with
  | nil => simp at h
  | cons len lens ih =>
      rw [monthOf]
      split
      · next hlt => simpa using hlt
      · next hle =>
          rw [List.sum_cons] at h
          obtain ⟨hmon, hsum, hday⟩ := @ih (day - len) (by omega)
          refine ⟨by simpa using hmon, ?_, by simpa using hday⟩
          rw [List.take_succ_cons, List.sum_cons]
          omega

theorem sum_monthLengths (year : Int) : ((monthLengths (isLeap year)).sum : Int) = yearLength year := by
  unfold yearLength
  cases isLeap year <;> rfl

/-- `dateOf` is a date of the calendar, and the one with the number. -/
theorem dateOf_spec (n : Int) : (dateOf n).Valid ∧ dayNumber (dateOf n) = n := by
  obtain ⟨hyear, hpos, hlt⟩ := yearOf_spec n
  rw [← sum_monthLengths] at hlt
  obtain ⟨hmon, hsum, hday⟩ := @monthOf_spec (monthLengths (isLeap (yearOf n).1)) (yearOf n).2.toNat (by omega)
  refine ⟨⟨?_, ?_, ?_⟩, ?_⟩
  · exact hmon
  · simp [dateOf]
  · exact hday
  · simp only [dayNumber, dateOf, daysBeforeMonth]
    omega

/-- Days before the year 10000 have a year of at most four digits. -/
theorem year_dateOf {n : Int} (h0 : 366 ≤ n) (hn : n < 3652059) :
    1 ≤ (dateOf n).year ∧ (dateOf n).year < 10000 := by
  obtain ⟨hyear, hpos, hlt⟩ := yearOf_spec n
  have hdate : (dateOf n).year = (yearOf n).1 := rfl
  have hle : yearLength (yearOf n).1 ≤ 366 := by
    unfold yearLength
    split <;> omega
  rw [hdate]
  unfold daysBeforeYear at hyear
  omega

end Monkey
