import Ebftpd.Util.String

/-!
# Ebftpd.Cfg.Util

`cfg::ParseSize` (`src/cfg/util.cpp`): a number of kilobytes from a text with an optional unit. The
sign is checked before the unit is multiplied in, and the multiplication is that of `long long`.

* `sizeExact_iff`: what comes back is the size written, as long as the product fits in 64 bits.
-/

namespace Ebftpd
namespace Cfg

open Util

/-- The unit letter behind a size, upper case, and the text before it; `K` when there is none. -/
def sizeUnit (s : Str) : Char × Str :=
  match s.getLast? with
  | some c => if isAlpha c then (c.toUpper, s.dropLast) else ('K', s)
  | none => ('K', s)

/-- `ParseSize`; `none` is `std::bad_cast`. -/
def parseSize (s : Str) : Option Int :=
  if s.isEmpty then none
  else
    let (unit, s) := sizeUnit s
    if s.isEmpty then none
    else
      match strToLLong s with
      | none => none
      | some kBytes =>
        if kBytes < 0 then none
        else if unit = 'M' then some (wrap64 (kBytes * 1024))
        else if unit = 'G' then some (wrap64 (kBytes * (1024 * 1024)))
        else if unit = 'K' then some kBytes
        else none

theorem parseSize_bounds {s : Str} {z : Int} (h : parseSize s = some z) :
    llongMin ≤ z ∧ z ≤ llongMax := by
  simp only [parseSize] at h
  split at h
  · cases h
  · split at h
    · cases h
    · split at h
      · cases h
      · rename_i hk
        split at h
        · cases h
        · split at h
          · cases h; exact wrap64_bounds _
          · split at h
            · cases h; exact wrap64_bounds _
            · split at h
              · cases h; exact strToLLong_bounds hk
              · cases h

/-! ## Sizes as unbounded integers -/

/-- The number a text writes, as `std::stoll` reads it, whatever its size. -/
def numberWritten (s : Str) : Option Int :=
  let (neg, ds) := stollSign (trimLeftCopy s)
  if ds.isEmpty || !ds.all Char.isDigit then none else some (stollValue neg ds)

def unitKBytes : Char → Option Int
  | 'K' => some 1
  | 'M' => some 1024
  | 'G' => some 1048576
  | _ => none

/-- The kilobytes a text writes. -/
def sizeWritten (s : Str) : Option Int :=
  (numberWritten (sizeUnit s).2).bind fun n => (unitKBytes (sizeUnit s).1).map (n * ·)

/-- What comes back is the size written, and a `long long` that is not negative. -/
def SizeExact (s : Str) : Prop :=
  ∀ z, parseSize s = some z → 0 ≤ z ∧ z ≤ llongMax ∧ sizeWritten s = some z

/-- A number and a unit that are accepted, each by itself, have a product of 64 bits. -/
def SizeFits (s : Str) : Prop :=
  ∀ n f, numberWritten (sizeUnit s).2 = some n → unitKBytes (sizeUnit s).1 = some f →
    0 ≤ n → n ≤ llongMax → n * f ≤ llongMax

theorem strToLLong_eq_some {s : Str} {z : Int} :
    strToLLong s = some z ↔ numberWritten s = some z ∧ llongMin ≤ z ∧ z ≤ llongMax := by
  simp only [strToLLong, numberWritten]
  split
  · simp
  · split
    · rename_i hb
      constructor
      · intro h
        cases h
        exact ⟨rfl, hb⟩
      · exact fun h => h.1
    · rename_i hb
      constructor
      · intro h
        cases h
      · rintro ⟨h, hz⟩
        cases h
        exact absurd hz hb

theorem unitKBytes_pos {c : Char} {f : Int} (h : unitKBytes c = some f) : 1 ≤ f := by
  unfold unitKBytes at h
  split at h <;> cases h <;> decide

theorem numberWritten_ne_nil {s : Str} {n : Int} (h : numberWritten s = some n) : s ≠ [] := by
  rintro rfl
  simp [numberWritten, trimLeftCopy, stollSign] at h

/-- The branches on the unit multiply by what the unit stands for. -/
theorem unit_product {unit : Char} {k z : Int} (hk : llongMin ≤ k ∧ k ≤ llongMax) :
    (if unit = 'M' then some (wrap64 (k * 1024))
      else if unit = 'G' then some (wrap64 (k * (1024 * 1024)))
      else if unit = 'K' then some k else none) = some z ↔
      ∃ f, unitKBytes unit = some f ∧ z = wrap64 (k * f) := by
  by_cases hM : unit = 'M'
  · simp [hM, unitKBytes, eq_comm]
  · by_cases hG : unit = 'G'
    · simp [hG, unitKBytes, eq_comm]
    · by_cases hK : unit = 'K'
      · simp [hK, unitKBytes, wrap64_of_bounds hk, eq_comm]
      · have hnone : unitKBytes unit = none := by
          unfold unitKBytes
          split <;> first | contradiction | rfl
        simp [hM, hG, hK, hnone]

/-- Accepted: the number is, it is not negative, and the product is taken modulo `2^64`. -/
theorem parseSize_eq_some {s : Str} {z : Int} :
    parseSize s = some z ↔ ∃ n f, numberWritten (sizeUnit s).2 = some n ∧
      unitKBytes (sizeUnit s).1 = some f ∧ 0 ≤ n ∧ n ≤ llongMax ∧ z = wrap64 (n * f) := by
  have hmin : llongMin ≤ 0 := by decide
  constructor
  · intro h
    simp only [parseSize] at h
    split at h
    · cases h
    · split at h
      · cases h
      · split at h
        · cases h
        · rename_i k hk
          split at h
          · cases h
          · rename_i hneg
            obtain ⟨hnum, hlo, hhi⟩ := strToLLong_eq_some.mp hk
            obtain ⟨f, hf, hz⟩ := (unit_product ⟨hlo, hhi⟩).mp h
            exact ⟨k, f, hnum, hf, Int.not_lt.mp hneg, hhi, hz⟩
  · rintro ⟨n, f, hnum, hf, hlo, hhi, hz⟩
    have hne := numberWritten_ne_nil hnum
    have hs : s ≠ [] := by
      rintro rfl
      exact hne rfl
    have hlong := strToLLong_eq_some.mpr ⟨hnum, Int.le_trans hmin hlo, hhi⟩
    simp only [parseSize]
    rw [if_neg (by simpa using hs), if_neg (by simpa using hne), hlong]
    simp only
    rw [if_neg (Int.not_lt.mpr hlo)]
    exact (unit_product ⟨Int.le_trans hmin hlo, hhi⟩).mpr ⟨f, hf, hz⟩

/-- A size is exact if and only if its product fits. -/
theorem sizeExact_iff (s : Str) : SizeExact s ↔ SizeFits s := by
  have hmin : llongMin ≤ 0 := by decide
  constructor
  · intro h n f hn hf hlo hhi
    obtain ⟨-, hmax, hw⟩ := h _ (parseSize_eq_some.mpr ⟨n, f, hn, hf, hlo, hhi, rfl⟩)
    simp only [sizeWritten, hn, hf, Option.bind_some, Option.map_some, Option.some.injEq] at hw
    exact hw.symm ▸ hmax
  · intro h z hz
    obtain ⟨n, f, hn, hf, hlo, hhi, rfl⟩ := parseSize_eq_some.mp hz
    have hprod : 0 ≤ n * f := Int.mul_nonneg hlo (by have := unitKBytes_pos hf; omega)
    have hfit := h n f hn hf hlo hhi
    rw [wrap64_of_bounds ⟨Int.le_trans hmin hprod, hfit⟩]
    exact ⟨hprod, hfit, by simp [sizeWritten, hn, hf]⟩

/-- The number fits, and times its unit it is the least `long long`. -/
theorem size_negative : ¬ SizeExact "8796093022208G".toList := by
  intro h
  have := (h (-2 ^ 63) (by decide)).1
  exact absurd this (by decide)

end Cfg
end Ebftpd
