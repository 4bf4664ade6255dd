import Mathlib.Tactic.Common

/-!
# Ebftpd.Db.Serialization

How dates and times are stored (`src/db/serialization.cpp`). A time is local and without its zone:
`ptime` is a number of microseconds and a date a number of days, both from the first of January of
1970 on. What is stored is an instant, in milliseconds UTC.

The local time zone is a parameter: the offset from UTC, in seconds, at each second UTC. Writing
subtracts the offset of the moment of writing, reading adds the offset of the instant that was
stored.

* `dates_survive_iff`: for which dates and times reading gives back what was written.
-/

namespace Ebftpd
namespace Db
namespace Serialization

/-- The offset of the local time zone, at a second UTC. -/
abbrev Zone := Int → Int

variable (zone : Zone)

/-- `c_local_adjustor::utc_to_local`, of a whole second; it throws before 1970. -/
def utcToLocal (u : Int) : Option Int := if u < 0 then none else some ((u + zone u) * 1000000)

/-- `UTCOffset`, in seconds, at the second `now`. -/
def utcOffset (now : Int) : Option Int := (utcToLocal zone now).map (· / 1000000 - now)

/-- `ToDateT` of a time, at the second `now`; `to_tm` leaves out the fraction of a second. -/
def toDateT (now : Int) (t : Int) : Option Int :=
  (utcOffset zone now).map fun offset => (t - offset * 1000000) / 1000000 * 1000

/-- The midnight at which a date begins. -/
def midnight (d : Int) : Int := d * 86400 * 1000000

/-- `ToDateT` of a date. -/
def toDateTOfDate (now : Int) (d : Int) : Option Int := toDateT zone now (midnight d)

/-- A product with 1000 as a `long`; where it does not fit, its value is undefined. -/
def timesThousand (t : Int) : Option Int :=
  if -9223372036854775808 ≤ t * 1000 ∧ t * 1000 ≤ 9223372036854775807 then some (t * 1000) else none

/-- `ToDateT` of a `time_t`. -/
def toDateTOfTimeT (t : Int) : Option Int := timesThousand t

def toPosixTime (dt : Int) : Option Int := utcToLocal zone (dt / 1000)

def toGregDate (dt : Int) : Option Int := (toPosixTime zone dt).map (· / 86400000000)

/-- The local time of an instant, which is in microseconds UTC here. -/
def localTime (u : Int) : Int := u + zone (u / 1000000) * 1000000

/-- The instant `u` is the only one whose local time is `t`. -/
def ExistsOnce (t : Int) (u : Int) : Prop := localTime zone u = t ∧ ∀ u', localTime zone u' = t → u' = u

variable {zone}

theorem timesThousand_eq {t millis : Int} (h : timesThousand t = some millis) : millis = t * 1000 := by
  unfold timesThousand at h
  split at h
  · exact (Option.some.inj h).symm
  · cases h

theorem utcOffset_eq {now : Int} (hnow : 0 ≤ now) : utcOffset zone now = some (zone now) := by
  have h : ¬ now < 0 := Int.not_lt.mpr hnow
  simp only [utcOffset, utcToLocal, h, if_false, Option.map_some, Option.some.injEq]
  omega

/-- What is read, in terms of what was written: the second that was stored is shifted back by the
offset at that second. -/
theorem toPosixTime_toDateT {now : Int} (hnow : 0 ≤ now) (t : Int) :
    (toDateT zone now t).bind (toPosixTime zone) =
      utcToLocal zone (t / 1000000 - zone now) := by
  have hsec : (t - zone now * 1000000) / 1000000 = t / 1000000 - zone now := by omega
  rw [toDateT, utcOffset_eq hnow]
  simp only [Option.map_some, Option.bind_some, toPosixTime, hsec]
  rw [Int.mul_ediv_cancel _ (by decide)]

/-- Nothing is written before 1970. -/
theorem toDateT_of_neg {now : Int} (hnow : ¬ 0 ≤ now) (t : Int) : toDateT zone now t = none := by
  have h : now < 0 := Int.not_le.mp hnow
  simp only [toDateT, utcOffset, utcToLocal, h, if_true, Option.map_none]

/-- At the instant that is stored for the midnight of `d`, the offset is that of now, or ahead of it
by less than a day. -/
def DateKept (zone : Zone) (now d : Int) : Prop :=
  0 ≤ now ∧ 0 ≤ d * 86400 - zone now ∧ zone now ≤ zone (d * 86400 - zone now) ∧
    zone (d * 86400 - zone now) < zone now + 86400

/-- The time `t`, of the instant `u`, is in whole seconds and has the offset of now. -/
def TimeKept (zone : Zone) (now t u : Int) : Prop :=
  0 ≤ now ∧ 0 ≤ u ∧ t % 1000000 = 0 ∧ zone (u / 1000000) = zone now

instance (now d : Int) : Decidable (DateKept zone now d) := inferInstanceAs (Decidable (_ ∧ _))

instance (now t u : Int) : Decidable (TimeKept zone now t u) := inferInstanceAs (Decidable (_ ∧ _))

theorem date_survives_iff (now d : Int) :
    (toDateTOfDate zone now d).bind (toGregDate zone) = some d ↔ DateKept zone now d := by
  rw [DateKept]
  by_cases hnow : 0 ≤ now
  case neg => simp [toDateTOfDate, toDateT_of_neg hnow, hnow]
  have hread : (toDateTOfDate zone now d).bind (toGregDate zone) =
      (utcToLocal zone (d * 86400 - zone now)).map (· / 86400000000) := by
    have h : (toDateT zone now (midnight d)).bind (toPosixTime zone) =
        utcToLocal zone (midnight d / 1000000 - zone now) := toPosixTime_toDateT hnow (midnight d)
    rw [midnight, Int.mul_ediv_cancel _ (by decide), ← midnight] at h
    rw [← h, toDateTOfDate]
    cases toDateT zone now (midnight d) <;> rfl
  rw [hread]
  unfold utcToLocal
  split
  · simp only [Option.map_none, reduceCtorEq, false_iff]
    omega
  · simp only [Option.map_some, Option.some.injEq]
    omega

theorem time_survives_iff {now t u : Int} (honce : ExistsOnce zone t u) :
    (toDateT zone now t).bind (toPosixTime zone) = some t ↔ TimeKept zone now t u := by
  rw [TimeKept]
  by_cases hnow : 0 ≤ now
  case neg => simp [toDateT_of_neg hnow, hnow]
  obtain ⟨hu, hone⟩ := honce
  rw [toPosixTime_toDateT hnow]
  constructor
  · intro h
    unfold utcToLocal at h
    split at h
    · cases h
    · rename_i hpos
      simp only [Option.some.injEq] at h
      have hback : localTime zone ((t / 1000000 - zone now) * 1000000) = t := by
        rw [localTime, Int.mul_ediv_cancel _ (by decide)]
        omega
      have heq := hone _ hback
      have hsec : u / 1000000 = t / 1000000 - zone now := by omega
      rw [hsec]
      omega
  · rintro ⟨-, hpos, hwhole, hzone⟩
    rw [localTime] at hu
    have hsec : t / 1000000 - zone now = u / 1000000 := by omega
    rw [hsec, utcToLocal, if_neg (by omega), Option.some.injEq]
    omega

/-- A date is read back exactly if it is kept; and so is a time that exists exactly once. -/
theorem dates_survive_iff (zone : Zone) (now : Int) :
    (∀ d, (toDateTOfDate zone now d).bind (toGregDate zone) = some d ↔ DateKept zone now d) ∧
      ∀ t u, ExistsOnce zone t u →
        ((toDateT zone now t).bind (toPosixTime zone) = some t ↔ TimeKept zone now t u) :=
  ⟨date_survives_iff now, fun _ _ honce => time_survives_iff honce⟩

/-- Central European time in 2013: two hours ahead of UTC in summer, one in winter. -/
def centralEurope : Zone := fun u => if 1364691600 ≤ u ∧ u < 1382835600 then 7200 else 3600

/-- Outside of the hour that the clocks repeat in October, a time has one instant. -/
theorem existsOnce_centralEurope {t u : Int} (hu : localTime centralEurope u = t)
    (hfar : t < 1382839200000000 ∨ 1382842800000000 ≤ t) : ExistsOnce centralEurope t u := by
  refine ⟨hu, fun u' hu' => ?_⟩
  simp only [localTime, centralEurope] at hu hu'
  split at hu <;> split at hu' <;> omega

/-- Saved on the fourth of July of 2013: a date and a time of July. -/
theorem dates_survive_july :
    (toDateTOfDate centralEurope 1372896000 15890).bind (toGregDate centralEurope) = some 15890 ∧
      (toDateT centralEurope 1372896000 1372665600000000).bind (toPosixTime centralEurope) =
        some 1372665600000000 :=
  ⟨((dates_survive_iff centralEurope 1372896000).1 15890).mpr (by decide),
    ((dates_survive_iff centralEurope 1372896000).2 1372665600000000 1372658400000000
      (existsOnce_centralEurope (by decide) (by decide))).mpr (by decide)⟩

/-- Saved on that day, the 24th of December is read as the 23rd, and noon of it as eleven; and a time
of July loses its microseconds. Both times exist exactly once. -/
theorem dates_shifted :
    (toDateTOfDate centralEurope 1372896000 16063).bind (toGregDate centralEurope) = some 16062 ∧
      (ExistsOnce centralEurope 1387886400000000 1387882800000000 ∧
        (toDateT centralEurope 1372896000 1387886400000000).bind (toPosixTime centralEurope) =
          some 1387882800000000) ∧
      ExistsOnce centralEurope 1372665600000001 1372658400000001 ∧
      (toDateT centralEurope 1372896000 1372665600000001).bind (toPosixTime centralEurope) =
        some 1372665600000000 :=
  ⟨by decide, ⟨existsOnce_centralEurope (by decide) (by decide), by decide⟩,
    existsOnce_centralEurope (by decide) (by decide), by decide⟩

end Serialization
end Db
end Ebftpd
