import Mathlib.Algebra.Order.BigOperators.Group.List
import Mathlib.Data.List.GetD
import Mathlib.Tactic.Common
import Mathlib.Tactic.IntervalCases

/-!
# Ebftpd.Lib.Calendar

Days of the Gregorian calendar, numbered from the first of January of the year 1, which is day 1
and a Monday. The calendar is taken to go on in both directions.

* `yearOf_bounds`: the year of a day is the one whose first and last day it lies between.
* `week`: weeks from Sunday to Saturday; `isoWeek` and `isoYear` number the weeks from Monday to
  Sunday by their Thursdays.
* `iso_eq_iff`: year and number of the ISO week determine the week.
* `isoWeek_early`, `isoWeek_late`: a week whose Thursday is near the start or the end of a year.
* `date_inj`: year, month and day of the month determine the day. `isoWeek_succ_iff`: on which day the number of
  the ISO week changes.
* `dayNumber_date`, `dayNumber_of_date`: a date there is and the day it names.
-/

namespace Ebftpd
namespace Lib
namespace Calendar

def isLeap (y : Int) : Bool := y % 4 == 0 && (y % 100 != 0 || y % 400 == 0)

def yearLength (y : Int) : Int := if isLeap y then 366 else 365

/-- The last day before the year. -/
def newYear (y : Int) : Int := 365 * (y - 1) + (y - 1) / 4 - (y - 1) / 100 + (y - 1) / 400

theorem isLeap_iff (y : Int) : isLeap y = true ↔ y % 4 = 0 ∧ (y % 100 ≠ 0 ∨ y % 400 = 0) := by
  simp [isLeap]

theorem newYear_succ (y : Int) : newYear (y + 1) = newYear y + yearLength y := by
  unfold newYear yearLength
  split
  · rename_i h
    rw [isLeap_iff] at h
    omega
  · rename_i h
    rw [isLeap_iff] at h
    omega

theorem yearLength_bounds (y : Int) : 365 ≤ yearLength y ∧ yearLength y ≤ 366 := by
  unfold yearLength
  split <;> omega

theorem newYear_mono {y z : Int} (h : y ≤ z) : newYear y ≤ newYear z := by
  unfold newYear
  omega

/-- The year of a day: what the mean length of a year gives is at most one year off. -/
def yearOf (n : Int) : Int :=
  let y := 400 * (n - 1) / 146097 + 1
  if n ≤ newYear y then y - 1 else if newYear (y + 1) < n then y + 1 else y

theorem yearOf_bounds (n : Int) : newYear (yearOf n) < n ∧ n ≤ newYear (yearOf n + 1) := by
  have hnear : newYear (400 * (n - 1) / 146097) < n ∧ n ≤ newYear (400 * (n - 1) / 146097 + 3) := by
    unfold newYear
    omega
  unfold yearOf
  simp only []
  split
  · rename_i h
    rw [Int.add_sub_cancel]
    exact ⟨hnear.1, h⟩
  · split
    · rename_i h
      exact ⟨h, by rw [Int.add_assoc, Int.add_assoc]; exact hnear.2⟩
    · rename_i h h'
      exact ⟨Int.not_le.mp h, Int.not_lt.mp h'⟩

/-- The day of the year, from 1 on. -/
def ordinal (n : Int) : Int := n - newYear (yearOf n)

/-- Month, counted from `m`, and day of the month, given the lengths of the months that follow. -/
def monthDay (m : Int) : List Int → Int → Int × Int
  | [], o => (m, o)
  | len :: months, o => if o ≤ len then (m, o) else monthDay (m + 1) months (o - len)

def monthsFrom (y : Int) : List Int :=
  [31, if isLeap y then 29 else 28, 31, 30, 31, 30, 31, 31, 30, 31, 30]

def monthOf (n : Int) : Int := (monthDay 1 (monthsFrom (yearOf n)) (ordinal n)).1

def dayOf (n : Int) : Int := (monthDay 1 (monthsFrom (yearOf n)) (ordinal n)).2

/-- The week from Sunday to Saturday. -/
def week (n : Int) : Int := n / 7

/-- The Thursday of the week from Monday to Sunday. -/
def thursday (n : Int) : Int := n - (n - 1) % 7 + 3

def isoYear (n : Int) : Int := yearOf (thursday n)

/-- How many Thursdays the year has had. -/
def isoWeek (n : Int) : Int := (ordinal (thursday n) - 1) / 7 + 1

theorem thursday_mod (n : Int) : thursday n % 7 = 4 := by
  unfold thursday
  omega

/-- A week from Monday to Sunday is one from Sunday to Saturday a day earlier. -/
theorem thursday_succ_eq_iff (a b : Int) : thursday (a + 1) = thursday (b + 1) ↔ week a = week b := by
  unfold thursday week
  omega

theorem iso_eq_iff (a b : Int) :
    isoYear a = isoYear b ∧ isoWeek a = isoWeek b ↔ thursday a = thursday b := by
  constructor
  · rintro ⟨hyear, hweek⟩
    have ha := thursday_mod a
    have hb := thursday_mod b
    simp only [isoYear] at hyear
    simp only [isoWeek, ordinal, hyear] at hweek
    omega
  · intro h
    simp only [isoYear, isoWeek, h, and_self]

/-- The Thursday of the next day's week is of the next year: it is among the first days of it. -/
theorem isoWeek_early {n : Int} (h : yearOf n < isoYear (n + 1)) :
    isoYear (n + 1) = yearOf n + 1 ∧ isoWeek (n + 1) = 1 := by
  have hT : thursday (n + 1) ≤ n + 4 := by
    unfold thursday
    omega
  obtain ⟨-, hle⟩ := yearOf_bounds n
  obtain ⟨hlt', hle'⟩ := yearOf_bounds (thursday (n + 1))
  have hyear : isoYear (n + 1) = yearOf n + 1 := by
    by_contra hne
    have hmono := newYear_mono (show yearOf n + 1 + 1 ≤ yearOf (thursday (n + 1)) by
      unfold isoYear at h hne
      omega)
    have hlen := yearLength_bounds (yearOf n + 1)
    rw [newYear_succ (yearOf n + 1)] at hmono
    omega
  refine ⟨hyear, ?_⟩
  unfold isoYear at hyear
  simp only [isoWeek, ordinal]
  rw [hyear] at hlt' ⊢
  omega

/-- The Thursday of the next day's week is of the year before: it is among the last days of it. -/
theorem isoWeek_late {n : Int} (h : isoYear (n + 1) < yearOf n) :
    isoYear (n + 1) = yearOf n - 1 ∧ 52 ≤ isoWeek (n + 1) := by
  have hT : n - 2 ≤ thursday (n + 1) := by
    unfold thursday
    omega
  obtain ⟨hlt, -⟩ := yearOf_bounds n
  obtain ⟨hlt', hle'⟩ := yearOf_bounds (thursday (n + 1))
  have hprev : newYear (yearOf n) = newYear (yearOf n - 1) + yearLength (yearOf n - 1) := by
    rw [← newYear_succ, Int.sub_add_cancel]
  have hlen := yearLength_bounds (yearOf n - 1)
  have hyear : isoYear (n + 1) = yearOf n - 1 := by
    by_contra hne
    have hmono := newYear_mono (show yearOf (thursday (n + 1)) + 1 ≤ yearOf n - 1 by
      unfold isoYear at h hne
      omega)
    omega
  refine ⟨hyear, ?_⟩
  unfold isoYear at hyear
  simp only [isoWeek, ordinal]
  rw [hyear]
  omega

theorem monthDay_cons (m len : Int) (months : List Int) (o : Int) :
    monthDay m (len :: months) o = if o ≤ len then (m, o) else monthDay (m + 1) months (o - len) := rfl

theorem le_monthDay (months : List Int) : ∀ m o : Int, m ≤ (monthDay m months o).1 := by
  induction months with
  | nil => exact fun m o => Int.le_refl m
  | cons len months ih =>
    intro m o
    rw [monthDay_cons]
    split
    · exact Int.le_refl m
    · have := ih (m + 1) (o - len)
      omega

/-- Month and day of the month determine the day of the year. -/
theorem monthDay_inj (months : List Int) :
    ∀ {m o o' : Int}, monthDay m months o = monthDay m months o' → o = o' := by
  induction months with
  | nil => exact fun h => (Prod.mk.inj h).2
  | cons len months ih =>
    intro m o o' h
    have hle := le_monthDay months (m + 1)
    rw [monthDay_cons, monthDay_cons] at h
    split at h
    · split at h
      · exact (Prod.mk.inj h).2
      · have hlater := hle (o' - len)
        rw [← h] at hlater
        simp only at hlater
        omega
    · split at h
      · have hlater := hle (o - len)
        rw [h] at hlater
        simp only at hlater
        omega
      · have := ih h
        omega

/-- Year, month and day of the month determine the day. -/
theorem date_inj {a b : Int} (hyear : yearOf a = yearOf b) (hmonth : monthOf a = monthOf b) (hday : dayOf a = dayOf b) :
    a = b := by
  rw [monthOf, monthOf, hyear] at hmonth
  rw [dayOf, dayOf, hyear] at hday
  have hordinal := monthDay_inj _ (Prod.ext hmonth hday)
  rw [ordinal, ordinal, hyear] at hordinal
  omega

/-- The number of the ISO week changes from Sunday to Monday. -/
theorem isoWeek_succ_iff (n : Int) : isoWeek (n + 1) = isoWeek n ↔ n % 7 ≠ 0 := by
  by_cases hsunday : n % 7 = 0
  · have hT : thursday (n + 1) = thursday n + 7 := by
      unfold thursday
      omega
    have hne : isoWeek (n + 1) ≠ isoWeek n := by
      intro hweek
      obtain ⟨hlt, hle⟩ := yearOf_bounds (thursday n)
      obtain ⟨hlt', hle'⟩ := yearOf_bounds (thursday n + 7)
      rw [isoWeek, isoWeek, hT, ordinal, ordinal] at hweek
      have hlen := yearLength_bounds (yearOf (thursday n))
      rw [newYear_succ] at hle
      rcases Int.lt_trichotomy (yearOf (thursday n)) (yearOf (thursday n + 7)) with h | h | h
      · -- the later of the two Thursdays is among the first days of its year
        have hmono := newYear_mono (show yearOf (thursday n) + 1 ≤ yearOf (thursday n + 7) by omega)
        rw [newYear_succ] at hmono
        omega
      · rw [← h] at hweek
        omega
      · have hmono := newYear_mono (show yearOf (thursday n + 7) + 1 ≤ yearOf (thursday n) by omega)
        omega
    exact iff_of_false hne (not_not.mpr hsunday)
  · have hT : thursday (n + 1) = thursday n := by
      unfold thursday
      omega
    exact iff_of_true (by rw [isoWeek, isoWeek, hT]) hsunday

/-! ## Days from dates -/

/-- The lengths of all months. -/
def months (y : Int) : List Int := monthsFrom y ++ [31]

/-- The day that a date names. A day beyond the end of its month is one of a later month. -/
def dayNumber (y : Int) (m : Nat) (d : Int) : Int := newYear y + ((months y).take (m - 1)).sum + d

/-- There is such a date. -/
structure IsDate (y : Int) (m : Nat) (d : Int) : Prop where
  month : 1 ≤ m ∧ m ≤ 12
  day : 1 ≤ d ∧ d ≤ (months y).getD (m - 1) 0

instance (y : Int) (m : Nat) (d : Int) : Decidable (IsDate y m d) :=
  decidable_of_iff ((1 ≤ m ∧ m ≤ 12) ∧ 1 ≤ d ∧ d ≤ (months y).getD (m - 1) 0) ⟨fun h => ⟨h.1, h.2⟩, fun h => ⟨h.1, h.2⟩⟩

theorem monthsFrom_pos (y : Int) : ∀ len ∈ monthsFrom y, 0 < len := by
  unfold monthsFrom
  intro len hlen
  simp only [List.mem_cons, List.not_mem_nil, or_false] at hlen
  split at hlen <;> omega

theorem months_length (y : Int) : (months y).length = 12 := rfl

theorem months_sum (y : Int) : (months y).sum = yearLength y := by
  unfold months monthsFrom yearLength
  split <;> rfl

theorem yearOf_eq {y n : Int} (hlt : newYear y < n) (hle : n ≤ newYear (y + 1)) : yearOf n = y := by
  obtain ⟨hlt', hle'⟩ := yearOf_bounds n
  by_contra hne
  rcases Int.lt_or_gt_of_ne hne with h | h
  · have hmono := newYear_mono (show yearOf n + 1 ≤ y by omega)
    omega
  · have hmono := newYear_mono (show y + 1 ≤ yearOf n by omega)
    omega

/-- The months in front are passed. -/
theorem monthDay_take (months : List Int) (hpos : ∀ len ∈ months, 0 < len) {z m d : Int} {k : Nat}
    (hk : k ≤ months.length) (hd : 1 ≤ d ∧ d ≤ (months ++ [z]).getD k 0) :
    monthDay m months (((months ++ [z]).take k).sum + d) = (m + k, d) := by
  induction months generalizing m k with
  | nil =>
    obtain rfl : k = 0 := Nat.le_zero.mp hk
    simp [monthDay]
  | cons len months ih =>
    cases k with
    | zero =>
      have hle : d ≤ len := hd.2
      simp [monthDay_cons, hle]
    | succ k =>
      have hrest := ih (m := m + 1) (fun len hlen => hpos len (.tail _ hlen)) (Nat.le_of_succ_le_succ hk) hd
      have hnonneg : 0 ≤ ((months ++ [z]).take k).sum := by
        rw [List.take_append_of_le_length (Nat.le_of_succ_le_succ hk)]
        exact List.sum_nonneg fun len hlen => Int.le_of_lt (hpos len (.tail _ (List.mem_of_mem_take hlen)))
      have hsum : ((len :: months ++ [z]).take (k + 1)).sum + d - len = ((months ++ [z]).take k).sum + d := by
        rw [List.cons_append, List.take_succ_cons, List.sum_cons]
        omega
      have hlong : ¬ ((len :: months ++ [z]).take (k + 1)).sum + d ≤ len := by omega
      rw [monthDay_cons, if_neg hlong, hsum, hrest, Prod.mk.injEq]
      exact ⟨by omega, rfl⟩

/-- Where the day of a year falls. -/
theorem monthDay_date (months : List Int) {z m o : Int} (ho : 1 ≤ o) (hle : o ≤ (months ++ [z]).sum) :
    ∃ k ≤ months.length, (monthDay m months o).1 = m + k ∧
      ((months ++ [z]).take k).sum + (monthDay m months o).2 = o ∧
      1 ≤ (monthDay m months o).2 ∧ (monthDay m months o).2 ≤ (months ++ [z]).getD k 0 := by
  induction months generalizing m o with
  | nil => exact ⟨0, Nat.le_refl 0, by simp [monthDay], by simp [monthDay], ho, by simpa [monthDay] using hle⟩
  | cons len months ih =>
    rw [monthDay_cons]
    split
    · rename_i hin
      exact ⟨0, Nat.zero_le _, by simp, by simp, ho, hin⟩
    · rename_i hin
      rw [List.cons_append, List.sum_cons] at hle
      obtain ⟨k, hk, hmonth, hsum, hday, hday'⟩ := ih (m := m + 1) (o := o - len) (by omega) (by omega)
      refine ⟨k + 1, Nat.succ_le_succ hk, ?_, ?_, hday, hday'⟩
      · omega
      · rw [List.cons_append, List.take_succ_cons, List.sum_cons]
        omega

theorem take_months_le {y : Int} {m : Nat} {d : Int} (h : IsDate y m d) :
    0 ≤ ((months y).take (m - 1)).sum ∧ ((months y).take (m - 1)).sum + d ≤ yearLength y := by
  have hpos : ∀ len ∈ months y, 0 < len := by
    intro len hlen
    obtain hlen | hlast := List.mem_append.mp hlen
    · exact monthsFrom_pos y len hlen
    · rw [List.mem_singleton.mp hlast]
      decide
  have hm := h.month
  have hget : m - 1 < (months y).length := by
    rw [months_length]
    omega
  have hsplit : (months y).sum =
      ((months y).take (m - 1)).sum + ((months y).getD (m - 1) 0 + ((months y).drop m).sum) := by
    conv_lhs => rw [← List.take_append_drop (m - 1) (months y)]
    rw [List.sum_append, List.drop_eq_getElem_cons hget, List.sum_cons, List.getD_eq_getElem _ _ hget,
      Nat.sub_add_cancel hm.1]
  have hfront : 0 ≤ ((months y).take (m - 1)).sum :=
    List.sum_nonneg fun len hlen => Int.le_of_lt (hpos len (List.mem_of_mem_take hlen))
  have hback : 0 ≤ ((months y).drop m).sum :=
    List.sum_nonneg fun len hlen => Int.le_of_lt (hpos len (List.mem_of_mem_drop hlen))
  rw [months_sum] at hsplit
  have hday := h.day.2
  omega

/-- A date there is names a day with that date. -/
theorem dayNumber_date {y : Int} {m : Nat} {d : Int} (h : IsDate y m d) :
    yearOf (dayNumber y m d) = y ∧ monthOf (dayNumber y m d) = m ∧ dayOf (dayNumber y m d) = d := by
  obtain ⟨hfront, hback⟩ := take_months_le h
  have hday := h.day.1
  have hm := h.month
  have hyear : yearOf (dayNumber y m d) = y := by
    refine yearOf_eq ?_ ?_
    · rw [dayNumber]
      omega
    · rw [newYear_succ, dayNumber]
      omega
  have hordinal : ordinal (dayNumber y m d) = ((months y).take (m - 1)).sum + d := by
    rw [ordinal, hyear, dayNumber]
    omega
  have hmonthDay := monthDay_take (monthsFrom y) (monthsFrom_pos y) (z := 31) (m := 1) (k := m - 1)
    (by change m - 1 ≤ 11; omega) h.day
  rw [monthOf, dayOf, hyear, hordinal]
  unfold months
  rw [hmonthDay]
  exact ⟨rfl, by omega, rfl⟩

/-- Every day has a date, and is the one it names. -/
theorem dayNumber_of_date (n : Int) :
    IsDate (yearOf n) (monthOf n).toNat (dayOf n) ∧ dayNumber (yearOf n) (monthOf n).toNat (dayOf n) = n := by
  obtain ⟨hlt, hle⟩ := yearOf_bounds n
  rw [newYear_succ] at hle
  obtain ⟨k, hk, hmonth, hsum, hday, hday'⟩ := monthDay_date (monthsFrom (yearOf n)) (z := 31) (m := 1)
    (o := ordinal n) (by rw [ordinal]; omega)
    (by change ordinal n ≤ (months (yearOf n)).sum; rw [months_sum, ordinal]; omega)
  have hk : k ≤ 11 := hk
  have hmonthOf : (monthOf n).toNat = k + 1 := by
    rw [monthOf, hmonth]
    omega
  rw [hmonthOf]
  refine ⟨⟨⟨by omega, by omega⟩, hday, hday'⟩, ?_⟩
  rw [dayNumber, Nat.add_sub_cancel]
  change newYear (yearOf n) + ((monthsFrom (yearOf n) ++ [31]).take k).sum + dayOf n = n
  rw [Int.add_assoc, dayOf, hsum, ordinal]
  omega

end Calendar
end Lib
end Ebftpd
