import Ebftpd.Stats.Date

/-!
# Ebftpd.Db.Xfertime

`XfertimeCorrection` (`src/db/stats/stats.cpp`), which estimates the transfer time of kilobytes that are taken back
from the transfers of the day they were made on. It selects the documents with `util::Time`, the date in UTC with
the ISO week of the day itself; `Update` writes them with `stats::Date`, the local date with the ISO week of the
next day. The user is not among what it selects by.

* `selects_iff`: a document that was written on a day is selected on the same day in UTC, no Sunday.
* `found_iff`, `own_iff`, `divisor_iff`: when a day's own documents are found, when no others count, and when no
  total of nothing is a divisor.
* `perUserPerDay_never`: the first never goes with the others.
-/

namespace Ebftpd
namespace Db
namespace Stats

open Util Lib Lib.Cells Lib.Calendar Acl

/-- The number of the day in UTC; the first of January 1970 is day 719163. -/
def utcDay (modTime : Int) : Int := modTime / 86400 + 719163

/-- `util::Time`. -/
def time (modTime : Int) : Date where
  day := dayOf (utcDay modTime)
  week := isoWeek (utcDay modTime)
  month := monthOf (utcDay modTime)
  year := yearOf (utcDay modTime)

/-- The `$match`. -/
def selects (modTime : Int) (direction : Direction) (k : TransferKey) : Bool :=
  let t := time modTime
  k.date.year == t.year && k.date.month == t.month && k.date.week == t.week && k.date.day == t.day &&
    k.direction == direction

/-- The sums of the one group, of the kilobytes and of the transfer time; no group without documents. -/
def totals (transfers : Transfers) (modTime : Int) (direction : Direction) : Option (Int × Int) :=
  let selected := transfers.filter fun e => selects modTime direction e.1
  if selected.isEmpty then none
  else some ((selected.map (·.2.kBytes)).sum, (selected.map (·.2.xfertime)).sum)

section Correction

-- `std::ceil(static_cast<double>(totalXfertime) / totalKBytes * kBytes)`
variable (ceil : (totalXfertime totalKBytes kBytes : Int) → Int)

/-- `XfertimeCorrection`; the user is only the name of the group. -/
def correction : XfertimeCorrection := fun transfers _ kBytes modTime direction =>
  match totals transfers modTime direction with
  | none => -1
  | some (totalKBytes, totalXfertime) => if totalXfertime > 0 then ceil totalXfertime totalKBytes kBytes else 0

end Correction

/-- What `Update` makes of the collection, on one day after the other. -/
inductive Written : Transfers → Prop
  | nil : Written []
  | update {transfers : Transfers} (h : Written transfers) (today : Int) (uid : UserID) (kBytes xfertime files : Int)
      (sec : Str) (direction : Direction) (decrement : Bool) :
      Written (update (Ebftpd.Stats.date today) uid kBytes xfertime files sec direction decrement transfers)

theorem Written.date {transfers : Transfers} (h : Written transfers) :
    ∀ e ∈ transfers, ∃ n, e.1.date = Ebftpd.Stats.date n := by
  induction h with
  | nil => simp
  | update h today uid kBytes xfertime files sec direction decrement ih =>
    exact forall_upsert (P := fun (k : TransferKey) _ => ∃ n, k.date = Ebftpd.Stats.date n) ⟨today, rfl⟩ (fun _ h => h) ih

/-! ## The documents of a day -/

section

variable (zone : Int → Int)

/-- The local day, by the offset of the time zone in seconds. -/
def localDay (modTime : Int) : Int := utcDay (modTime + zone modTime)

/-- The documents of a user's day. -/
def isOwn (uid : UserID) (modTime : Int) (direction : Direction) (k : TransferKey) : Bool :=
  k.uid == uid && k.direction == direction && decide (k.date = Ebftpd.Stats.date (localDay zone modTime))

/-- A document is selected on the day it was written on, in UTC, unless that is a Sunday. -/
theorem selects_iff (modTime : Int) (direction : Direction) {k : TransferKey} {n : Int}
    (hdate : k.date = Ebftpd.Stats.date n) :
    selects modTime direction k = true ↔ n = utcDay modTime ∧ n % 7 ≠ 0 ∧ k.direction = direction := by
  simp only [selects, hdate, Ebftpd.Stats.date, time, Bool.and_eq_true, beq_iff_eq]
  constructor
  · rintro ⟨⟨⟨⟨hyear, hmonth⟩, hweek⟩, hday⟩, hdirection⟩
    obtain rfl := date_inj hyear hmonth hday
    exact ⟨rfl, (isoWeek_succ_iff _).mp hweek, hdirection⟩
  · rintro ⟨rfl, hsunday, hdirection⟩
    exact ⟨⟨⟨⟨rfl, rfl⟩, (isoWeek_succ_iff _).mpr hsunday⟩, rfl⟩, hdirection⟩

/-- On a Sunday nothing is selected. -/
theorem totals_sunday {transfers : Transfers} (h : Written transfers) {modTime : Int}
    (hsunday : utcDay modTime % 7 = 0) (direction : Direction) : totals transfers modTime direction = none := by
  have hnone : (transfers.filter fun e => selects modTime direction e.1) = [] := by
    rw [List.filter_eq_nil_iff]
    intro e he hselects
    obtain ⟨n, hdate⟩ := h.date e he
    obtain ⟨rfl, hne, -⟩ := (selects_iff modTime direction hdate).mp hselects
    exact hne hsunday
  rw [totals, hnone]
  rfl

/-- One document of the day in UTC, on any other day of the week. -/
theorem totals_single {modTime : Int} (hsunday : utcDay modTime % 7 ≠ 0) (direction : Direction) (uid : UserID)
    (kBytes xfertime : Int) :
    totals (update (Ebftpd.Stats.date (utcDay modTime)) uid kBytes xfertime 1 [] direction false []) modTime direction =
      some (kBytes, xfertime) := by
  let k : TransferKey := ⟨uid, Ebftpd.Stats.date (utcDay modTime), direction, []⟩
  have hselects : selects modTime direction k = true := (selects_iff modTime direction rfl).mpr ⟨rfl, hsunday, rfl⟩
  have hupdate : update (Ebftpd.Stats.date (utcDay modTime)) uid kBytes xfertime 1 [] direction false [] =
      [(k, ⟨1, kBytes, xfertime⟩)] := rfl
  rw [totals, hupdate]
  simp [hselects]

/-- The amount depends on what was written for the user, the direction and the local day, all of which is found,
and no total of nothing is a divisor. -/
structure PerUserPerDay (ceil : Int → Int → Int → Int) (uid : UserID) (kBytes modTime : Int) (direction : Direction) :
    Prop where
  own : ∀ transfers transfers', Written transfers → Written transfers' →
    (transfers.filter fun e => isOwn zone uid modTime direction e.1) =
      (transfers'.filter fun e => isOwn zone uid modTime direction e.1) →
    correction ceil transfers uid kBytes modTime direction = correction ceil transfers' uid kBytes modTime direction
  found : ∀ k, isOwn zone uid modTime direction k = true → selects modTime direction k = true
  divisor : ∀ transfers, Written transfers → ∀ totalKBytes totalXfertime,
    totals transfers modTime direction = some (totalKBytes, totalXfertime) → totalXfertime > 0 → totalKBytes ≠ 0

theorem found_iff (uid : UserID) (modTime : Int) (direction : Direction) :
    (∀ k, isOwn zone uid modTime direction k = true → selects modTime direction k = true) ↔
      localDay zone modTime = utcDay modTime ∧ utcDay modTime % 7 ≠ 0 := by
  constructor
  · intro h
    have hown := h ⟨uid, Ebftpd.Stats.date (localDay zone modTime), direction, []⟩ (by simp [isOwn])
    obtain ⟨hday, hsunday, -⟩ := (selects_iff modTime direction rfl).mp hown
    exact ⟨hday, hday ▸ hsunday⟩
  · rintro ⟨hday, hsunday⟩ k hown
    simp only [isOwn, Bool.and_eq_true, beq_iff_eq, decide_eq_true_eq] at hown
    exact (selects_iff modTime direction hown.2).mpr ⟨hday, hday ▸ hsunday, hown.1.2⟩

theorem own_iff (ceil : Int → Int → Int → Int) (uid : UserID) (kBytes modTime : Int) (direction : Direction) :
    (∀ transfers transfers', Written transfers → Written transfers' →
      (transfers.filter fun e => isOwn zone uid modTime direction e.1) =
        (transfers'.filter fun e => isOwn zone uid modTime direction e.1) →
      correction ceil transfers uid kBytes modTime direction =
        correction ceil transfers' uid kBytes modTime direction) ↔ utcDay modTime % 7 = 0 := by
  constructor
  · intro h
    by_contra hsunday
    -- a document of another user on the day
    have hother := h [] _ .nil (.update .nil (utcDay modTime) (uid + 1) 0 0 1 [] direction false) (by
      rw [List.filter_nil, eq_comm, List.filter_eq_nil_iff]
      intro e he
      rw [show e = _ from List.mem_singleton.mp he]
      simp [isOwn])
    rw [correction, correction, totals_single hsunday] at hother
    cases hother
  · intro hsunday transfers transfers' h h' _
    rw [correction, correction, totals_sunday h hsunday, totals_sunday h' hsunday]

theorem divisor_iff (modTime : Int) (direction : Direction) :
    (∀ transfers, Written transfers → ∀ totalKBytes totalXfertime,
      totals transfers modTime direction = some (totalKBytes, totalXfertime) → totalXfertime > 0 →
        totalKBytes ≠ 0) ↔ utcDay modTime % 7 = 0 := by
  constructor
  · intro h
    by_contra hsunday
    -- a file of less than a kilobyte
    exact h _ (.update .nil (utcDay modTime) 0 0 1 1 [] direction false) 0 1
      (totals_single hsunday direction 0 0 1) Int.one_pos rfl
  · intro hsunday transfers h totalKBytes totalXfertime htotals
    rw [totals_sunday h hsunday] at htotals
    cases htotals

/-- A day's own documents are found only on days on which those of the other users are. -/
theorem perUserPerDay_never (ceil : Int → Int → Int → Int) (uid : UserID) (kBytes modTime : Int)
    (direction : Direction) : ¬ PerUserPerDay zone ceil uid kBytes modTime direction := by
  intro h
  have hsunday := (own_iff zone ceil uid kBytes modTime direction).mp h.own
  exact ((found_iff zone uid modTime direction).mp h.found).2 hsunday

end

/-- On Monday the sixth of January 2014 in UTC: what another user transferred makes a difference. -/
theorem correction_other_user :
    ¬ PerUserPerDay (fun _ => 0) (fun _ _ _ => 0) 1 100 1388966400 .Upload := by
  intro h
  have hother := h.own [] [(⟨2, Ebftpd.Stats.date 735239, .Upload, []⟩, ⟨1, 100, 0⟩)] .nil
    (.update .nil 735239 2 100 0 1 [] .Upload false) (by decide)
  revert hother
  decide

end Stats
end Db
end Ebftpd
