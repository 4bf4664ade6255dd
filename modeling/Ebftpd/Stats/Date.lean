import Ebftpd.Db.Stats
import Ebftpd.Lib.Calendar

/-!
# Ebftpd.Stats.Date

The date under which a transfer is recorded (`src/stats/date.hpp`) and the documents that a
timeframe selects (`src/db/stats/serialization.cpp`). The key of a week is the calendar year of the
day and the ISO number of the week of the next day, whose week begins on a Monday as the week of
the day begins on a Sunday. Year and number part ways where the Thursday of the week, which decides
the number, is of another year than the day.

* `weekKey_iff`: for which two days the keys tell the weeks apart.
* `week_exact_iff`: and when a query selects the transfers of the current week.
-/

namespace Ebftpd
namespace Stats

open Lib.Calendar
open Db.Stats (Date TransferKey Direction)
open Util Acl

inductive Timeframe where
  | Day
  | Week
  | Month
  | Year
  | Alltime

/-- `stats::Date`, on the day `today`. -/
def date (today : Int) : Date where
  day := dayOf today
  week := isoWeek (today + 1)
  month := monthOf today
  year := yearOf today

/-- `Serialize` of a timeframe: what a document's date is asked to be. -/
def serialize (timeframe : Timeframe) (today : Date) (d : Date) : Bool :=
  match timeframe with
  | .Alltime => true
  | .Year => d.year == today.year
  | .Month => d.year == today.year && d.month == today.month
  | .Week => d.year == today.year && d.week == today.week
  | .Day => d.year == today.year && d.month == today.month && d.day == today.day

/-- The Thursday of the day's week, from Sunday to Saturday, is of another year. -/
def Strays (n : Int) : Prop := yearOf (week n * 7 + 4) ≠ yearOf n

/-- The number of the Thursday of the day's week among those of its year. -/
def thursdayNumber (n : Int) : Int := (ordinal (week n * 7 + 4) - 1) / 7 + 1

instance (n : Int) : Decidable (Strays n) := inferInstanceAs (Decidable (_ ≠ _))

/-- One of the days strays and the other does not, and they are of one week, or of one year and of
weeks with the same number. -/
def Confused (a b : Int) : Prop :=
  ¬ (Strays a ↔ Strays b) ∧
    (week a = week b ∨ yearOf a = yearOf b ∧ thursdayNumber a = thursdayNumber b)

theorem thursday_succ (n : Int) : thursday (n + 1) = week n * 7 + 4 := by
  unfold thursday week
  omega

theorem strays_iff (n : Int) : Strays n ↔ isoYear (n + 1) ≠ yearOf n := by
  rw [Strays, isoYear, thursday_succ]

theorem thursdayNumber_eq (n : Int) : thursdayNumber n = isoWeek (n + 1) := by
  rw [thursdayNumber, isoWeek, thursday_succ]

theorem week_eq_iff (a b : Int) :
    week a = week b ↔
      isoYear (a + 1) = isoYear (b + 1) ∧ isoWeek (a + 1) = isoWeek (b + 1) := by
  rw [iso_eq_iff, thursday_succ_eq_iff]

/-- Two days that stray in weeks of one number do so in one direction. -/
theorem strays_same {a b : Int} (ha : Strays a) (hb : Strays b)
    (hweek : isoWeek (a + 1) = isoWeek (b + 1)) :
    isoYear (a + 1) - yearOf a = isoYear (b + 1) - yearOf b := by
  rw [strays_iff] at ha hb
  rcases Int.lt_or_gt_of_ne ha with hlt | hgt
  · obtain ⟨hya, hwa⟩ := isoWeek_late hlt
    rcases Int.lt_or_gt_of_ne hb with hlt' | hgt'
    · obtain ⟨hyb, -⟩ := isoWeek_late hlt'
      omega
    · obtain ⟨-, hwb⟩ := isoWeek_early hgt'
      omega
  · obtain ⟨hya, hwa⟩ := isoWeek_early hgt
    rcases Int.lt_or_gt_of_ne hb with hlt' | hgt'
    · obtain ⟨-, hwb⟩ := isoWeek_late hlt'
      omega
    · obtain ⟨hyb, -⟩ := isoWeek_early hgt'
      omega

theorem serialize_week (today n : Int) :
    serialize .Week (date today) (date n) = true ↔
      yearOf n = yearOf today ∧ isoWeek (n + 1) = isoWeek (today + 1) := by
  simp [serialize, date]

/-- The keys of two days agree exactly if the days are of one week, unless they are confused. -/
theorem weekKey_iff (a b : Int) :
    (serialize .Week (date b) (date a) = true ↔ week a = week b) ↔ ¬ Confused a b := by
  rw [serialize_week, week_eq_iff, Confused, thursdayNumber_eq, thursdayNumber_eq, week_eq_iff]
  by_cases hweek : isoWeek (a + 1) = isoWeek (b + 1)
  · simp only [hweek, and_true]
    by_cases hboth : Strays a ↔ Strays b
    · -- the years are off alike
      have hyears : yearOf a = yearOf b ↔ isoYear (a + 1) = isoYear (b + 1) := by
        by_cases ha : Strays a
        · have hsame := strays_same ha (hboth.mp ha) hweek
          omega
        · have hb := mt hboth.mpr ha
          rw [strays_iff, not_not] at ha hb
          rw [ha, hb]
      simp only [hyears, hboth, not_true_eq_false, false_and, not_false_eq_true]
    · have hnot : ¬ (yearOf a = yearOf b ∧ isoYear (a + 1) = isoYear (b + 1)) := by
        rintro ⟨hy, hi⟩
        rw [strays_iff, strays_iff, hy, hi] at hboth
        exact hboth Iff.rfl
      simp only [hboth, not_false_eq_true, true_and]
      constructor
      · rintro hkeys (hi | hy)
        · exact hnot ⟨hkeys.mpr hi, hi⟩
        · exact hnot ⟨hy, hkeys.mp hy⟩
      · intro hneither
        rw [not_or] at hneither
        exact iff_of_false hneither.2 hneither.1
  · simp only [hweek, and_false, or_false, not_false_eq_true]

/-- What a document is asked to be by a query for a user, or for all. -/
structure Query where
  uid : Option UserID
  sec : Str
  /-- The sections of the configuration, which a query without a section is about. -/
  sections : List Str
  direction : Direction

/-- The documents that `RetrieveUsers` sums up. -/
def Query.selects (q : Query) (timeframe : Timeframe) (today : Date) (doc : TransferKey) : Bool :=
  doc.direction == q.direction && serialize timeframe today doc.date &&
    (if q.sec.isEmpty then q.sections.contains doc.sec else doc.sec == q.sec) &&
    q.uid.all (· == doc.uid)

/-- A transfer as it happened. -/
structure Transfer where
  day : Int
  uid : UserID
  direction : Direction
  sec : Str

/-- The document that records it. -/
def Transfer.document (t : Transfer) : TransferKey := ⟨t.uid, date t.day, t.direction, t.sec⟩

/-- The transfers of a query, of whatever time. -/
def Query.about (q : Query) (t : Transfer) : Bool := q.selects .Alltime t.document.date t.document

theorem selects_week (q : Query) (today : Int) (t : Transfer) :
    q.selects .Week (date today) t.document =
      (q.about t && serialize .Week (date today) (date t.day)) := by
  simp only [Query.selects, Query.about, serialize, Transfer.document, Bool.and_true]
  generalize (if q.sec.isEmpty then _ else _ : Bool) = inSection
  cases (t.direction == q.direction) <;> cases inSection <;> simp [Bool.and_comm]

/-- The keys of two days agree exactly if the days are of one week, unless they are confused; and
the query for the current week selects exactly the transfers of the current week, unless it is about
one that is confused with today. -/
theorem week_exact_iff (a b : Int) (q : Query) (today : Int) (transfers : List Transfer) :
    ((serialize .Week (date b) (date a) = true ↔ week a = week b) ↔ ¬ Confused a b) ∧
      (transfers.filter (fun t => q.selects .Week (date today) t.document) =
          transfers.filter (fun t => q.about t && week t.day == week today) ↔
        ∀ t ∈ transfers, q.about t = true → ¬ Confused t.day today) := by
  refine ⟨weekKey_iff a b, ?_⟩
  have hone : ∀ t : Transfer,
      q.selects .Week (date today) t.document = (q.about t && week t.day == week today) ↔
        (q.about t = true → ¬ Confused t.day today) := by
    intro t
    rw [selects_week, ← weekKey_iff, Bool.eq_iff_iff]
    cases q.about t <;> simp
  constructor
  · intro h t ht
    rw [← hone, Bool.eq_iff_iff]
    have := congrArg (t ∈ ·) h
    simpa [ht] using this
  · intro h
    exact List.filter_congr fun t ht => (hone t).mpr (h t ht)

/-- The last day of 2024 and the first of 2025, a Tuesday and a Wednesday, have different keys; the
30th of December and the 2nd of January of 2024 have the same. -/
theorem week_torn :
    (date 739251, date 739252) = (⟨31, 1, 12, 2024⟩, ⟨1, 1, 1, 2025⟩) ∧ week 739251 = week 739252 ∧
      serialize .Week (date 739252) (date 739251) = false ∧
      (date 739250, date 738887) = (⟨30, 1, 12, 2024⟩, ⟨2, 1, 1, 2024⟩) ∧
      serialize .Week (date 738887) (date 739250) = true ∧ week 739250 ≠ week 738887 := by
  decide

end Stats
end Ebftpd
