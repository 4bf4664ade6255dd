import Ebftpd.Lib.Calendar
import Ebftpd.Util.Cast
import Mathlib.Tactic.Ring

/-!
# Ebftpd.Util.Time

`strptime`, `timegm`, `gmtime` and `strftime` of the C library, for the one format that the commands about
times of files use: `%Y%m%d%H%M%S`.

`strptime` reads each number to as many digits as may still make up a number in its range, spaces in front
passed over, and does not mind what follows. `timegm` takes a day beyond the end of the month, and a second
beyond the end of the minute, for one later on. `strftime` writes the year with as many digits as it has.

* `strptime_format`: what is written with four digits of the year is read back.
* `timegm_gmtime`, `gmtime_timegm`: the times and the proper dates are the same.
* `strftime_strptime_iff`: which texts come back.
-/

namespace Ebftpd
namespace Util
namespace Time

open Lib.Calendar

structure Tm where
  year : Int
  month : Nat
  day : Nat
  hour : Nat
  min : Nat
  sec : Nat

/-- The digits of a number that is to be at most `high`, and what is behind them. -/
def getDigits (high : Nat) : Nat → Nat → Str → Nat × Str
  | 0, val, s => (val, s)
  | _ + 1, val, [] => (val, [])
  | n + 1, val, c :: s =>
    if val * 10 ≤ high ∧ c.isDigit then getDigits high n (val * 10 + (c.toNat - '0'.toNat)) s else (val, c :: s)

/-- A number of at most `n` digits. -/
def getNumber (low high n : Nat) (s : Str) : Option (Nat × Str) :=
  let s := trimLeftCopy s
  if (s.head?.any Char.isDigit) = true then
    let (val, rest) := getDigits high n 0 s
    if low ≤ val ∧ val ≤ high then some (val, rest) else none
  else none

def strptime (s : Str) : Option Tm := do
  let (year, s) ← getNumber 0 9999 4 s
  let (month, s) ← getNumber 1 12 2 s
  let (day, s) ← getNumber 1 31 2 s
  let (hour, s) ← getNumber 0 23 2 s
  let (min, s) ← getNumber 0 59 2 s
  let (sec, _) ← getNumber 0 61 2 s
  return ⟨year, month, day, hour, min, sec⟩

/-- The first of January 1970. -/
def epoch : Int := 719163

def timegm (tm : Tm) : Int :=
  (dayNumber tm.year tm.month tm.day - epoch) * 86400 + tm.hour * 3600 + tm.min * 60 + tm.sec

def gmtime (t : Int) : Tm where
  year := yearOf (t / 86400 + epoch)
  month := (monthOf (t / 86400 + epoch)).toNat
  day := (dayOf (t / 86400 + epoch)).toNat
  hour := (t % 86400 / 3600).toNat
  min := (t % 3600 / 60).toNat
  sec := (t % 60).toNat

/-- A number with leading zeros. -/
def fixed : Nat → Nat → Str
  | 0, _ => []
  | n + 1, val => Nat.digitChar (val / 10 ^ n % 10) :: fixed n val

/-- What `strftime` writes where there is room for it. -/
def format (tm : Tm) : Str :=
  signedDecimal tm.year ++ fixed 2 tm.month ++ fixed 2 tm.day ++ fixed 2 tm.hour ++ fixed 2 tm.min ++
    fixed 2 tm.sec

/-- With the terminator it has to fit into the buffer, the contents of which are undefined otherwise. -/
def strftime (size : Nat) (tm : Tm) : Option Str :=
  if (format tm).length < size then some (format tm) else none

/-- A date and a time of day there are. -/
structure Proper (tm : Tm) : Prop where
  date : IsDate tm.year tm.month tm.day
  hour : tm.hour < 24
  min : tm.min < 60
  sec : tm.sec < 60

instance (tm : Tm) : Decidable (Proper tm) :=
  decidable_of_iff (IsDate tm.year tm.month tm.day ∧ tm.hour < 24 ∧ tm.min < 60 ∧ tm.sec < 60)
    ⟨fun h => ⟨h.1, h.2.1, h.2.2.1, h.2.2.2⟩, fun h => ⟨h.date, h.hour, h.min, h.sec⟩⟩

/-! ## Seconds and dates -/

theorem gmtime_timegm {tm : Tm} (h : Proper tm) : gmtime (timegm tm) = tm := by
  obtain ⟨year, month, day, hour, min, sec⟩ := tm
  obtain ⟨hdate, hhour, hmin, hsec⟩ := h
  dsimp only at hdate hhour hmin hsec
  obtain ⟨hyear, hmonth, hdayOf⟩ := dayNumber_date hdate
  have htime : timegm ⟨year, month, day, hour, min, sec⟩ =
      (dayNumber year month day - epoch) * 86400 + (hour * 3600 + min * 60 + sec : Int) := by
    dsimp only [timegm]
    omega
  have hday : timegm ⟨year, month, day, hour, min, sec⟩ / 86400 + epoch = dayNumber year month day := by
    rw [htime]
    omega
  rw [gmtime, hday, hyear, hmonth, hdayOf, htime]
  simp only [Tm.mk.injEq, Int.toNat_natCast, true_and]
  omega

theorem gmtime_proper (t : Int) : Proper (gmtime t) := by
  obtain ⟨hdate, -⟩ := dayNumber_of_date (t / 86400 + epoch)
  have hday := hdate.day.1
  have hcast : ((dayOf (t / 86400 + epoch)).toNat : Int) = dayOf (t / 86400 + epoch) := by omega
  refine ⟨?_, ?_, ?_, ?_⟩
  · simp only [gmtime, hcast]
    exact hdate
  · simp only [gmtime]
    omega
  · simp only [gmtime]
    omega
  · simp only [gmtime]
    omega

theorem timegm_gmtime (t : Int) : timegm (gmtime t) = t := by
  obtain ⟨hdate, hnumber⟩ := dayNumber_of_date (t / 86400 + epoch)
  have hday := hdate.day.1
  have hcast : ((dayOf (t / 86400 + epoch)).toNat : Int) = dayOf (t / 86400 + epoch) := by omega
  simp only [timegm, gmtime, hcast, hnumber]
  omega

/-! ## Digits -/

theorem digitChar_toNat : ∀ d < 10, (Nat.digitChar d).isDigit = true ∧ (Nat.digitChar d).toNat - '0'.toNat = d := by
  decide

theorem fixed_length (n val : Nat) : (fixed n val).length = n := by
  induction n with
  | zero => rfl
  | succ n ih => rw [fixed, List.length_cons, ih]

theorem fixed_concat (n val : Nat) : fixed (n + 1) val = fixed n (val / 10) ++ [Nat.digitChar (val % 10)] := by
  induction n with
  | zero => simp [fixed]
  | succ n ih =>
    rw [fixed, ih, fixed, List.cons_append, Nat.div_div_eq_div_mul, Nat.pow_succ']

/-- A number has as many digits as it needs. -/
theorem decimal_fixed {n val : Nat} (hlow : 10 ^ n ≤ val) (hhigh : val < 10 ^ (n + 1)) :
    decimal val = fixed (n + 1) val := by
  induction n generalizing val with
  | zero =>
    have hlt : val < 10 := hhigh
    rw [decimal, Nat.toDigits_eq_if (by decide), if_pos hlt]
    simp [fixed, Nat.mod_eq_of_lt hlt]
  | succ n ih =>
    have hten : 10 ^ (n + 1) = 10 * 10 ^ n := Nat.pow_succ'
    have hten' : 10 ^ (n + 1 + 1) = 10 * 10 ^ (n + 1) := Nat.pow_succ'
    have hpos : 0 < 10 ^ n := Nat.pow_pos (by decide)
    have hrest : decimal (val / 10) = fixed (n + 1) (val / 10) := ih (by omega) (by omega)
    rw [decimal] at hrest
    rw [decimal, Nat.toDigits_eq_if (by decide), if_neg (by omega), hrest, ← fixed_concat]

theorem fixed_cons {n : Nat} (hn : 0 < n) (val : Nat) :
    ∃ c s, fixed n val = c :: s ∧ c.isDigit = true := by
  obtain ⟨n, rfl⟩ := Nat.exists_eq_succ_of_ne_zero (Nat.ne_of_gt hn)
  exact ⟨_, _, rfl, (digitChar_toNat _ (Nat.mod_lt _ (by decide))).1⟩

/-- Digits in front are read, and reading goes on behind them. -/
theorem getDigits_fixed {high w n v val : Nat} (s : Str) (hhigh : v * 10 ^ w + val % 10 ^ w ≤ high) :
    getDigits high (w + n) v (fixed w val ++ s) = getDigits high n (v * 10 ^ w + val % 10 ^ w) s := by
  induction w generalizing v with
  | zero => simp [fixed, Nat.mod_one]
  | succ w ih =>
    have hdigit := digitChar_toNat (val / 10 ^ w % 10) (Nat.mod_lt _ (by decide))
    have hmod : val % 10 ^ (w + 1) = val % 10 ^ w + 10 ^ w * (val / 10 ^ w % 10) := Nat.mod_pow_succ
    have hvalue : v * 10 ^ (w + 1) + val % 10 ^ (w + 1) =
        (v * 10 + val / 10 ^ w % 10) * 10 ^ w + val % 10 ^ w := by
      rw [hmod, Nat.pow_succ]
      ring
    have hnext : v * 10 ≤ high := by
      have hle : v * 10 ≤ v * 10 * 10 ^ w := Nat.le_mul_of_pos_right _ (Nat.pow_pos (by decide))
      have hpow : v * 10 ^ (w + 1) = v * 10 * 10 ^ w := by
        rw [Nat.pow_succ]
        ring
      omega
    rw [hvalue] at hhigh ⊢
    rw [fixed, List.cons_append, Nat.add_right_comm, getDigits, if_pos ⟨hnext, hdigit.1⟩, hdigit.2]
    exact ih hhigh

theorem le_getDigits (high n val : Nat) (s : Str) : val ≤ (getDigits high n val s).1 := by
  induction n generalizing val s with
  | zero => exact Nat.le_refl val
  | succ n ih =>
    cases s with
    | nil => exact Nat.le_refl val
    | cons c s =>
      rw [getDigits]
      split
      · have hle := ih (val * 10 + (c.toNat - '0'.toNat)) s
        omega
      · exact Nat.le_refl val

theorem trimLeftCopy_fixed {n : Nat} (hn : 0 < n) (val : Nat) (s : Str) :
    trimLeftCopy (fixed n val ++ s) = fixed n val ++ s ∧
      (fixed n val ++ s).head?.any Char.isDigit = true := by
  obtain ⟨c, rest, hfixed, hc⟩ := fixed_cons hn val
  rw [hfixed]
  constructor
  · rw [List.cons_append, trimLeftCopy, List.dropWhile_cons_of_neg (by simp [isSpace_of_isDigit hc])]
  · simpa using hc

theorem getNumber_fixed {low high n val : Nat} (s : Str) (hn : 0 < n) (hval : val < 10 ^ n)
    (hlow : low ≤ val) (hhigh : val ≤ high) : getNumber low high n (fixed n val ++ s) = some (val, s) := by
  obtain ⟨htrim, hhead⟩ := trimLeftCopy_fixed hn val s
  have hread : getDigits high (n + 0) 0 (fixed n val ++ s) = (val, s) := by
    rw [getDigits_fixed s (by rw [Nat.zero_mul, Nat.zero_add, Nat.mod_eq_of_lt hval]; exact hhigh),
      Nat.zero_mul, Nat.zero_add, Nat.mod_eq_of_lt hval]
    rfl
  rw [Nat.add_zero] at hread
  simp only [getNumber, htrim, hhead, if_true, hread, hlow, hhigh, and_self]

/-! ## Texts -/

/-- Everything behind the year. -/
def formatRest (tm : Tm) : Str :=
  fixed 2 tm.month ++ (fixed 2 tm.day ++ (fixed 2 tm.hour ++ (fixed 2 tm.min ++ fixed 2 tm.sec)))

theorem format_eq (tm : Tm) : format tm = signedDecimal tm.year ++ formatRest tm := by
  simp only [format, formatRest, List.append_assoc]

theorem format_length (tm : Tm) : (format tm).length = (signedDecimal tm.year).length + 10 := by
  rw [format_eq, List.length_append]
  simp only [formatRest, List.length_append, fixed_length]

theorem signedDecimal_natCast (n : Nat) : signedDecimal n = decimal n := by
  rw [signedDecimal, if_neg (by omega), Int.natAbs_natCast]

/-- A day of a month has two digits. -/
theorem Proper.day_le {tm : Tm} (h : Proper tm) : 1 ≤ tm.day ∧ tm.day ≤ 31 := by
  have hday := h.date.day
  have hmax : (months tm.year).getD (tm.month - 1) 0 ≤ 31 := by
    have hle : ∀ len ∈ months tm.year, len ≤ 31 := by
      unfold months monthsFrom
      intro len hlen
      simp only [List.cons_append, List.nil_append, List.mem_cons, List.not_mem_nil, or_false] at hlen
      split at hlen <;> omega
    have hmonth := h.date.month
    have hget : tm.month - 1 < (months tm.year).length := by
      rw [months_length]
      omega
    rw [List.getD_eq_getElem _ _ hget]
    exact hle _ (List.getElem_mem hget)
  omega

/-- What is written with four digits of the year is read back. -/
theorem strptime_format {tm : Tm} (h : Proper tm) (hlow : 1000 ≤ tm.year) (hhigh : tm.year ≤ 9999) :
    strptime (format tm) = some tm := by
  have hday := h.day_le
  obtain ⟨year, month, day, hour, min, sec⟩ := tm
  obtain ⟨hdate, hhour, hmin, hsec⟩ := h
  obtain ⟨year, rfl⟩ := Int.eq_ofNat_of_zero_le (show 0 ≤ year by dsimp only at hlow; omega)
  have hmonth := hdate.month
  dsimp only at hlow hhigh hmonth hday hhour hmin hsec
  have hyear : signedDecimal year = fixed 4 year := by
    rw [signedDecimal_natCast]
    exact decimal_fixed (by omega) (by omega)
  rw [format_eq, hyear, formatRest, strptime, getNumber_fixed _ (by decide) (by omega) (by omega) (by omega)]
  simp only [Option.bind_eq_bind, Option.bind_some]
  rw [getNumber_fixed _ (by decide) (by omega) hmonth.1 hmonth.2, Option.bind_some,
    getNumber_fixed _ (by decide) (by omega) hday.1 hday.2, Option.bind_some,
    getNumber_fixed _ (by decide) (by omega) (by omega) (by omega), Option.bind_some,
    getNumber_fixed _ (by decide) (by omega) (by omega) (by omega), Option.bind_some,
    ← List.append_nil (fixed 2 sec), getNumber_fixed _ (by decide) (by omega) (by omega) (by omega)]
  rfl

/-- A date and time that are not proper stand for later ones. -/
theorem year_le_gmtime {tm : Tm} (hday : 1 ≤ tm.day) : tm.year ≤ (gmtime (timegm tm)).year := by
  obtain ⟨year, month, day, hour, min, sec⟩ := tm
  have hfront : 0 ≤ ((months year).take (month - 1)).sum := by
    refine List.sum_nonneg fun len hlen => ?_
    obtain hlen | hlast := List.mem_append.mp (List.mem_of_mem_take hlen)
    · exact Int.le_of_lt (monthsFrom_pos year len hlen)
    · rw [List.mem_singleton.mp hlast]
      decide
  have hlate : newYear year < timegm ⟨year, month, day, hour, min, sec⟩ / 86400 + epoch := by
    dsimp only [timegm, dayNumber] at hday ⊢
    omega
  by_contra hlt
  have hlt : yearOf (timegm ⟨year, month, day, hour, min, sec⟩ / 86400 + epoch) + 1 ≤ year := not_le.mp hlt
  obtain ⟨-, hle⟩ := yearOf_bounds (timegm ⟨year, month, day, hour, min, sec⟩ / 86400 + epoch)
  have hmono := newYear_mono hlt
  omega

theorem getNumber_inv {low high n val : Nat} {s rest : Str} (h : getNumber low high n s = some (val, rest)) :
    (low ≤ val ∧ val ≤ high) ∧ (getDigits high n 0 (trimLeftCopy s)).1 = val := by
  unfold getNumber at h
  dsimp only at h
  split at h
  · split at h
    · rename_i hrange
      cases h
      exact ⟨hrange, rfl⟩
    · cases h
  · cases h

theorem strptime_inv {s : Str} {tm : Tm} (h : strptime s = some tm) :
    1 ≤ tm.day ∧ tm.year ≤ 9999 ∧ tm.year = (getDigits 9999 4 0 (trimLeftCopy s)).1 := by
  simp only [strptime, Option.bind_eq_bind, Option.bind_eq_some_iff, Prod.exists] at h
  obtain ⟨year, s1, hyear, month, s2, -, day, s3, hday, hour, s4, -, min, s5, -, sec, s6, -, htm⟩ := h
  cases htm
  exact ⟨(getNumber_inv hday).1.1, Int.ofNat_le.mpr (getNumber_inv hyear).1.2,
    congrArg Nat.cast (getNumber_inv hyear).2.symm⟩

/-- Read back, a year of fewer digits is another one: the month goes with it. -/
theorem year_of_short {tm : Tm} {year : Nat} (h : Proper tm) (hyear : tm.year = year) (hshort : year < 1000) :
    year < (getDigits 9999 4 0 (trimLeftCopy (format tm))).1 := by
  have hmonth := h.date.month
  obtain ⟨w, hw, hfixed, hlt, hlong⟩ : ∃ w, w < 3 ∧ decimal year = fixed (w + 1) year ∧ year < 10 ^ (w + 1) ∧
      (w = 2 → 100 ≤ year) := by
    by_cases h1 : year < 10
    · refine ⟨0, by decide, ?_, h1, fun h => absurd h (by decide)⟩
      rw [decimal, Nat.toDigits_eq_if (by decide), if_pos h1]
      simp [fixed, Nat.mod_eq_of_lt h1]
    · by_cases h2 : year < 100
      · exact ⟨1, by decide, decimal_fixed (by omega) h2, h2, fun h => absurd h (by decide)⟩
      · exact ⟨2, by decide, decimal_fixed (by omega) hshort, hshort, fun _ => by omega⟩
  have htext : format tm = fixed (w + 1) year ++ (fixed 2 tm.month ++
      (fixed 2 tm.day ++ (fixed 2 tm.hour ++ (fixed 2 tm.min ++ fixed 2 tm.sec)))) := by
    rw [format_eq, hyear, signedDecimal_natCast, hfixed, formatRest]
  have hvalue : 0 * 10 ^ (w + 1) + year % 10 ^ (w + 1) = year := by
    rw [Nat.zero_mul, Nat.zero_add, Nat.mod_eq_of_lt hlt]
  have hread : getDigits 9999 4 0 (trimLeftCopy (format tm)) = getDigits 9999 (3 - w) year (fixed 2 tm.month ++
      (fixed 2 tm.day ++ (fixed 2 tm.hour ++ (fixed 2 tm.min ++ fixed 2 tm.sec)))) := by
    have hfour : 4 = (w + 1) + (3 - w) := by omega
    rw [htext, (trimLeftCopy_fixed (Nat.succ_pos w) year _).1, hfour, getDigits_fixed _ (by omega), hvalue]
  rw [hread]
  by_cases hthree : w = 2
  · have hdigit := digitChar_toNat (tm.month / 10 ^ 1 % 10) (Nat.mod_lt _ (by decide))
    have hlong := hlong hthree
    subst hthree
    rw [fixed, List.cons_append, getDigits, if_pos ⟨by omega, hdigit.1⟩]
    dsimp only [getDigits]
    omega
  · have hcount : 3 - w = 2 + (1 - w) := by omega
    have hmonth' : tm.month % 10 ^ 2 = tm.month := Nat.mod_eq_of_lt (by omega)
    have hyear' : year * 10 ^ 2 + tm.month ≤ 9999 := by
      have hlt : year < 10 ^ 2 := Nat.lt_of_lt_of_le hlt (Nat.pow_le_pow_right (by decide) (by omega))
      omega
    rw [hcount, getDigits_fixed _ (by rw [hmonth']; exact hyear'), hmonth']
    have hle := le_getDigits 9999 (1 - w) (year * 10 ^ 2 + tm.month)
      (fixed 2 tm.day ++ (fixed 2 tm.hour ++ (fixed 2 tm.min ++ fixed 2 tm.sec)))
    omega

theorem format_fits {tm : Tm} {year : Nat} (hyear : tm.year = year) : (format tm).length < 15 ↔ year ≤ 9999 := by
  have hdigits : (decimal year).length ≤ 4 ↔ year < 10 ^ 4 := Nat.length_toDigits_le_iff (by decide) (by decide)
  rw [format_length, hyear, signedDecimal_natCast]
  omega

/-- A text that `strptime` accepts is what `strftime` makes of its time if and only if it is fourteen digits of a
date and time that there are, of the year 1000 or later. -/
theorem strftime_strptime_iff {s : Str} {tm : Tm} (h : strptime s = some tm) :
    strftime 15 (gmtime (timegm tm)) = some s ↔ format tm = s ∧ Proper tm ∧ 1000 ≤ tm.year := by
  have hproper := gmtime_proper (timegm tm)
  constructor
  · intro hs
    unfold strftime at hs
    split at hs
    · rename_i hfits
      cases hs
      obtain ⟨hday, -, hread⟩ := strptime_inv h
      have hle : tm.year ≤ (gmtime (timegm tm)).year := year_le_gmtime hday
      have hnonneg : 0 ≤ tm.year := by omega
      obtain ⟨year, hyear⟩ := Int.eq_ofNat_of_zero_le (Int.le_trans hnonneg hle)
      have hhigh := (format_fits hyear).mp hfits
      have hlow : 1000 ≤ year := by
        by_contra hshort
        have hlt := year_of_short hproper hyear (not_le.mp hshort)
        omega
      have hsame := strptime_format hproper (by omega) (by omega)
      rw [h] at hsame
      have htm : tm = gmtime (timegm tm) := Option.some.inj hsame
      rw [← htm] at hproper hyear
      exact ⟨congrArg format htm, hproper, by omega⟩
    · cases hs
  · rintro ⟨rfl, htm, hlow⟩
    obtain ⟨year, hyear⟩ := Int.eq_ofNat_of_zero_le (show 0 ≤ tm.year by omega)
    have hhigh := (strptime_inv h).2.1
    rw [gmtime_timegm htm, strftime, if_pos ((format_fits hyear).mpr (by omega))]

end Time
end Util
end Ebftpd
