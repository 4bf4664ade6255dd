import Mathlib.Algebra.Field.ZMod
import Mathlib.Algebra.Polynomial.Div
import Mathlib.Data.ZMod.Basic
import Mathlib.Tactic.LinearCombination
import Mathlib.Tactic.Ring

/-!
# Ebftpd.Lib.Crc

Cyclic redundancy checks with remainders of `w` bits, the lowest bit first. The mathematical meaning of a
remainder is a polynomial over the field of two elements, in which the highest bit is the constant term
(`toPoly`); a shift of the remainder is a multiplication by `X`, modulo the generator.

* `toPoly_digest`: a digest is the remainder of a division by the generator.
* `digest_eq_shifts`: bytes are digested a word at a time.
* `shifts_byte`: a byte of a remainder can be shifted on its own, so that it can be looked up in a table.
* `digest_window`: a difference of no more than `w` bits next to each other is never lost.
-/

namespace Ebftpd
namespace Lib
namespace Crc

open Polynomial

variable {w : Nat}

/-- A bit goes out at the low end, and the generator comes in for it. -/
def shift (poly c : BitVec w) : BitVec w := if c.getLsbD 0 then (c >>> 1) ^^^ poly else c >>> 1

def shifts (poly : BitVec w) (n : Nat) (c : BitVec w) : BitVec w := (shift poly)^[n] c

def feed (poly c : BitVec w) (b : BitVec 8) : BitVec w := shifts poly 8 (c ^^^ b.setWidth w)

def digest (poly c : BitVec w) (bytes : List (BitVec 8)) : BitVec w := bytes.foldl (feed poly) c

/-- The word of some bytes, the first of them lowest. -/
def word : List (BitVec 8) → BitVec w
  | [] => 0#w
  | b :: bytes => b.setWidth w ^^^ (word bytes <<< 8)

/-! ## Shifts -/

section Shifts

variable {poly a b c : BitVec w} {m n : Nat}

theorem shifts_add : shifts poly (m + n) c = shifts poly m (shifts poly n c) :=
  Function.iterate_add_apply _ _ _ _

theorem shifts_succ : shifts poly (n + 1) c = shifts poly n (shift poly c) := rfl

theorem shift_xor : shift poly (a ^^^ b) = shift poly a ^^^ shift poly b := by
  unfold shift
  rw [BitVec.getLsbD_xor, BitVec.ushiftRight_xor_distrib]
  have hcancel : ∀ x y : BitVec w, x ^^^ poly ^^^ (y ^^^ poly) = x ^^^ y := by
    intro x y
    rw [BitVec.xor_assoc, ← BitVec.xor_assoc poly, BitVec.xor_comm poly, BitVec.xor_assoc y, BitVec.xor_self,
      BitVec.xor_zero]
  have hright : ∀ x y : BitVec w, x ^^^ (y ^^^ poly) = x ^^^ y ^^^ poly := fun x y => (BitVec.xor_assoc x y poly).symm
  have hleft : ∀ x y : BitVec w, x ^^^ poly ^^^ y = x ^^^ y ^^^ poly := by
    intro x y
    rw [BitVec.xor_assoc, BitVec.xor_comm poly, BitVec.xor_assoc]
  cases a.getLsbD 0 <;> cases b.getLsbD 0 <;> simp [hcancel, hright, hleft]

theorem shifts_xor : shifts poly n (a ^^^ b) = shifts poly n a ^^^ shifts poly n b := by
  induction n generalizing a b with
  | zero => rfl
  | succ n ih => rw [shifts_succ, shift_xor, ih, ← shifts_succ, ← shifts_succ]

theorem shifts_zero : shifts poly n 0#w = 0#w := by
  have h : shifts poly n (0#w ^^^ 0#w) = shifts poly n 0#w ^^^ shifts poly n 0#w := shifts_xor
  rw [BitVec.xor_self, BitVec.xor_self] at h
  exact h

/-- While the bits that go out are clear, nothing comes in. -/
theorem shifts_clear (h : ∀ i < n, c.getLsbD i = false) : shifts poly n c = c >>> n := by
  induction n generalizing c with
  | zero => simp [shifts]
  | succ n ih =>
    have hlow : shift poly c = c >>> 1 := by
      unfold shift
      rw [h 0 (by omega)]
      rfl
    rw [shifts_succ, hlow, ih, ← BitVec.shiftRight_add, Nat.add_comm]
    intro i hi
    rw [BitVec.getLsbD_ushiftRight]
    exact h (1 + i) (by omega)

/-- Shifting out what has been shifted in. -/
theorem shifts_shiftLeft (h : ∀ i, w - n ≤ i → c.getLsbD i = false) : shifts poly n (c <<< n) = c := by
  rw [shifts_clear]
  · apply BitVec.eq_of_getLsbD_eq
    intro i hi
    rw [BitVec.getLsbD_ushiftRight, BitVec.getLsbD_shiftLeft]
    by_cases hin : n + i < w
    · simp [hin]
    · have hclear := h i (by omega)
      simp [hin, hclear]
  · intro i hi
    rw [BitVec.getLsbD_shiftLeft]
    simp [hi]

end Shifts

/-! ## Bytes -/

section Bytes

variable {poly c d : BitVec w} {n : Nat} {bytes : List (BitVec 8)}

theorem digest_append (front back : List (BitVec 8)) :
    digest poly c (front ++ back) = digest poly (digest poly c front) back := List.foldl_append

theorem getLsbD_low (i : Nat) (hi : i < w) : (255#w).getLsbD i = decide (i < 8) := by
  have hmask : (255 : Nat) = 2 ^ 8 - 1 := rfl
  rw [BitVec.getLsbD_ofNat, hmask, Nat.testBit_two_pow_sub_one]
  simp [hi]

/-- A remainder is its lowest byte, and what is above it. -/
theorem low_xor_high (c : BitVec w) : (c &&& 255#w) ^^^ ((c >>> 8) <<< 8) = c := by
  apply BitVec.eq_of_getLsbD_eq
  intro i hi
  rw [BitVec.getLsbD_xor, BitVec.getLsbD_and, getLsbD_low i hi, BitVec.getLsbD_shiftLeft, BitVec.getLsbD_ushiftRight]
  by_cases hlow : i < 8
  · simp [hlow]
  · have hback : 8 + (i - 8) = i := by omega
    simp [hlow, hi, hback]

/-- The lowest byte can be shifted on its own. -/
theorem shifts_byte (n : Nat) (c : BitVec w) :
    shifts poly (n + 8) c = shifts poly (n + 8) (c &&& 255#w) ^^^ shifts poly n (c >>> 8) := by
  have hhigh : shifts poly 8 ((c >>> 8) <<< 8) = c >>> 8 := by
    refine shifts_shiftLeft fun i hi => ?_
    rw [BitVec.getLsbD_ushiftRight]
    exact BitVec.getLsbD_of_ge c (8 + i) (by omega)
  calc shifts poly (n + 8) c
      = shifts poly (n + 8) ((c &&& 255#w) ^^^ ((c >>> 8) <<< 8)) := by rw [low_xor_high]
    _ = shifts poly (n + 8) (c &&& 255#w) ^^^ shifts poly n (shifts poly 8 ((c >>> 8) <<< 8)) := by
        rw [shifts_xor, ← shifts_add]
    _ = shifts poly (n + 8) (c &&& 255#w) ^^^ shifts poly n (c >>> 8) := by rw [hhigh]

theorem word_clear (bytes : List (BitVec 8)) : ∀ i, 8 * bytes.length ≤ i → (word bytes : BitVec w).getLsbD i = false := by
  induction bytes with
  | nil =>
    intro i _
    exact BitVec.getLsbD_zero
  | cons b bytes ih =>
    intro i hi
    rw [List.length_cons] at hi
    have hb : b.getLsbD i = false := BitVec.getLsbD_of_ge b i (by omega)
    have hbytes := ih (i - 8) (by omega)
    rw [word, BitVec.getLsbD_xor, BitVec.getLsbD_setWidth, BitVec.getLsbD_shiftLeft, hb, hbytes]
    simp

/-- Bytes that fit in the remainder are digested at once. -/
theorem digest_eq_shifts (c : BitVec w) (bytes : List (BitVec 8)) (h : 8 * bytes.length ≤ w) :
    digest poly c bytes = shifts poly (8 * bytes.length) (c ^^^ word bytes) := by
  induction bytes generalizing c with
  | nil => simp [digest, word, shifts]
  | cons b bytes ih =>
    rw [List.length_cons] at h
    have hword : shifts poly 8 (word bytes <<< 8) = word bytes :=
      shifts_shiftLeft fun i hi => word_clear bytes i (by omega)
    have hlength : 8 * (b :: bytes).length = 8 * bytes.length + 8 := by
      rw [List.length_cons]
      omega
    calc digest poly c (b :: bytes)
        = shifts poly (8 * bytes.length) (shifts poly 8 (c ^^^ b.setWidth w) ^^^ word bytes) :=
          ih (feed poly c b) (by omega)
      _ = shifts poly (8 * bytes.length) (shifts poly 8 (c ^^^ b.setWidth w ^^^ word bytes <<< 8)) := by
          rw [shifts_xor (a := c ^^^ b.setWidth w), hword]
      _ = shifts poly (8 * (b :: bytes).length) (c ^^^ word (b :: bytes)) := by
          rw [hlength, shifts_add, word, BitVec.xor_assoc]

theorem shift_injective (h : poly.msb = true) : Function.Injective (shift poly) := by
  intro a b hab
  have hmsb : ∀ c : BitVec w, (shift poly c).msb = c.getLsbD 0 := by
    intro c
    have hclear : (c >>> 1).msb = false := by simp [BitVec.msb_ushiftRight]
    unfold shift
    cases hlow : c.getLsbD 0 <;> simp [BitVec.msb_xor, hclear, h]
  have hlow : a.getLsbD 0 = b.getLsbD 0 := by rw [← hmsb a, ← hmsb b, hab]
  have hhigh : a >>> 1 = b >>> 1 := by
    unfold shift at hab
    rw [hlow] at hab
    cases hb : b.getLsbD 0
    · simpa [hb] using hab
    · rw [hb] at hab
      simpa using congrArg (· ^^^ poly) hab
  apply BitVec.eq_of_getLsbD_eq
  intro i hi
  cases i with
  | zero => exact hlow
  | succ i =>
    have hbit := congrArg (fun c : BitVec w => c.getLsbD i) hhigh
    simp only [BitVec.getLsbD_ushiftRight] at hbit
    rw [Nat.add_comm]
    exact hbit

theorem shifts_injective (h : poly.msb = true) (n : Nat) : Function.Injective (shifts poly n) :=
  (shift_injective h).iterate n

/-- Bytes behind a difference do not take it away. -/
theorem digest_inj (h : poly.msb = true) : digest poly c bytes = digest poly d bytes ↔ c = d := by
  induction bytes generalizing c d with
  | nil => exact Iff.rfl
  | cons b bytes ih =>
    refine (ih (c := feed poly c b) (d := feed poly d b)).trans ⟨fun hfeed => ?_, fun heq => ?_⟩
    · exact (BitVec.xor_left_inj _).mp (shifts_injective h 8 hfeed)
    · rw [heq]

theorem word_inj {front back : List (BitVec 8)} (hlength : front.length = back.length) (hfit : 8 * front.length ≤ w)
    (h : (word front : BitVec w) = word back) : front = back := by
  induction front generalizing back with
  | nil => exact (List.eq_nil_of_length_eq_zero hlength.symm).symm
  | cons a front ih =>
    cases back with
    | nil => cases hlength
    | cons b back =>
      rw [List.length_cons] at hfit
      rw [List.length_cons, List.length_cons, Nat.add_right_cancel_iff] at hlength
      have hbit := fun i => congrArg (fun c : BitVec w => c.getLsbD i) h
      simp only [word, BitVec.getLsbD_xor, BitVec.getLsbD_setWidth, BitVec.getLsbD_shiftLeft] at hbit
      have hhead : a = b := by
        apply BitVec.eq_of_getLsbD_eq
        intro i hi
        have hiw : i < w := by omega
        simpa [hi, hiw] using hbit i
      have htail : front = back := by
        refine ih hlength (by omega) (BitVec.eq_of_getLsbD_eq fun i hi => ?_)
        by_cases hfar : 8 * front.length ≤ i
        · rw [word_clear front i hfar, word_clear back i (by omega)]
        · have hiw : 8 + i < w := by omega
          have hbyte : b.getLsbD (8 + i) = false := BitVec.getLsbD_of_ge b (8 + i) (by omega)
          simpa [hhead, hiw, hbyte] using hbit (8 + i)
      rw [hhead, htail]

/-- Different bytes that fit in the remainder leave different remainders. -/
theorem digest_short {front back : List (BitVec 8)} (h : poly.msb = true) (hlength : front.length = back.length)
    (hfit : 8 * front.length ≤ w) (hdigest : digest poly c front = digest poly c back) : front = back := by
  rw [digest_eq_shifts c front hfit, digest_eq_shifts c back (by omega), hlength] at hdigest
  have hxor := shifts_injective h _ hdigest
  exact word_inj hlength hfit ((BitVec.xor_right_inj c).mp hxor)

/-- Bytes that fit in the remainder are never made up for by those around them. -/
theorem digest_window {window other : List (BitVec 8)} (h : poly.msb = true) (hlength : window.length = other.length)
    (hfit : 8 * window.length ≤ w) (front back : List (BitVec 8))
    (hdigest : digest poly c (front ++ window ++ back) = digest poly c (front ++ other ++ back)) : window = other := by
  rw [digest_append, digest_append _ back, digest_inj h, digest_append, digest_append] at hdigest
  exact digest_short h hlength hfit hdigest

end Bytes

/-! ## Polynomials -/

section Polynomials

variable {poly c : BitVec w} {bytes : List (BitVec 8)}

def bit (b : Bool) : ZMod 2 := if b then 1 else 0

theorem bit_xor (a b : Bool) : bit (a ^^ b) = bit a + bit b := by
  cases a <;> cases b <;> decide

/-- The highest bit is the constant term. -/
noncomputable def toPoly (c : BitVec w) : (ZMod 2)[X] := ∑ i : Fin w, C (bit (c.getMsbD i)) * X ^ (i : ℕ)

noncomputable def generator (poly : BitVec w) : (ZMod 2)[X] := X ^ w + toPoly poly

/-- The bits as they are digested, from the highest power on. -/
noncomputable def message : List (BitVec 8) → (ZMod 2)[X]
  | [] => 0
  | b :: bytes => X ^ (8 * bytes.length) * toPoly b + message bytes

theorem degree_toPoly_lt (c : BitVec w) : (toPoly c).degree < w := degree_sum_fin_lt _

theorem coeff_toPoly (c : BitVec w) (i : ℕ) : (toPoly c).coeff i = bit (c.getMsbD i) := by
  unfold toPoly
  rw [finsetSum_coeff]
  simp only [coeff_C_mul_X_pow]
  by_cases hi : i < w
  · rw [Finset.sum_eq_single (⟨i, hi⟩ : Fin w)]
    · simp
    · intro j _ hj
      have hne : i ≠ j := fun h => hj (Fin.ext h.symm)
      simp [hne]
    · simp
  · rw [BitVec.getMsbD_of_ge c i (by omega)]
    refine Finset.sum_eq_zero fun j _ => ?_
    have hne : i ≠ j := by omega
    simp [hne]

theorem generator_monic (poly : BitVec w) : (generator poly).Monic := monic_X_pow_add (degree_toPoly_lt poly)

theorem degree_generator (poly : BitVec w) : (generator poly).degree = w := by
  have hlt : (toPoly poly).degree < (X ^ w : (ZMod 2)[X]).degree := by
    rw [degree_X_pow]
    exact degree_toPoly_lt poly
  rw [generator, degree_add_eq_left_of_degree_lt hlt, degree_X_pow]

theorem toPoly_xor (c d : BitVec w) : toPoly (c ^^^ d) = toPoly c + toPoly d := by
  ext i
  rw [coeff_add, coeff_toPoly, coeff_toPoly, coeff_toPoly, BitVec.getMsbD_xor, bit_xor]

theorem toPoly_modByMonic (poly c : BitVec w) : toPoly c %ₘ generator poly = toPoly c := by
  rw [modByMonic_eq_self_iff (generator_monic poly), degree_generator]
  exact degree_toPoly_lt c

theorem toPoly_injective : Function.Injective (toPoly (w := w)) := by
  intro c d h
  have hbit : ∀ a b : Bool, bit a = bit b → a = b := by decide
  apply BitVec.eq_of_getMsbD_eq
  intro i hi
  refine hbit _ _ ?_
  rw [← coeff_toPoly, ← coeff_toPoly, h]

theorem X_mul_toPoly (c : BitVec w) : X * toPoly c = C (bit (c.getLsbD 0)) * X ^ w + toPoly (c >>> 1) := by
  ext i
  cases i with
  | zero =>
    rw [coeff_X_mul_zero, coeff_add, coeff_toPoly, coeff_C_mul_X_pow]
    cases w with
    | zero => simp [bit]
    | succ w => simp [bit]
  | succ i =>
    rw [coeff_X_mul, coeff_add, coeff_toPoly, coeff_toPoly, coeff_C_mul_X_pow, BitVec.getMsbD_ushiftRight]
    by_cases hlast : i + 1 = w
    · have hend : w - 1 - i = 0 := by omega
      have hi : i < w := by omega
      simp [hlast, BitVec.getMsbD_eq_getLsbD, hi, hend, bit]
    · by_cases hi : i + 1 < w
      · simp [hlast, hi, bit]
      · rw [BitVec.getMsbD_of_ge c i (by omega)]
        simp [hlast, hi, bit]

/-- A shift is a multiplication by `X`. -/
theorem toPoly_shift (poly c : BitVec w) : toPoly (shift poly c) = X * toPoly c %ₘ generator poly := by
  have hdivision : toPoly (shift poly c) + generator poly * C (bit (c.getLsbD 0)) = X * toPoly c := by
    rw [X_mul_toPoly]
    unfold shift generator
    cases c.getLsbD 0 with
    | false => simp [bit]
    | true =>
      have htwice : toPoly poly + toPoly poly = 0 := by
        rw [← toPoly_xor, BitVec.xor_self]
        ext i
        rw [coeff_toPoly]
        simp [bit]
      simp only [bit, if_true, toPoly_xor, map_one, mul_one, one_mul]
      linear_combination htwice
  refine (div_modByMonic_unique _ _ (generator_monic poly) ⟨hdivision, ?_⟩).2.symm
  rw [degree_generator]
  exact degree_toPoly_lt _

/-- A remainder under a product and a sum. -/
theorem rem_under (poly : BitVec w) (a b m : (ZMod 2)[X]) :
    (a * (b %ₘ generator poly) + m) %ₘ generator poly = (a * b + m) %ₘ generator poly := by
  refine modByMonic_eq_of_dvd_sub (generator_monic poly) ?_
  have hfactor : a * (b %ₘ generator poly) + m - (a * b + m) = a * (b %ₘ generator poly - b) := by ring
  rw [hfactor]
  exact dvd_mul_of_dvd_right (dvd_modByMonic_sub b (generator poly)) a

theorem toPoly_shifts (poly : BitVec w) (n : ℕ) (c : BitVec w) :
    toPoly (shifts poly n c) = X ^ n * toPoly c %ₘ generator poly := by
  induction n generalizing c with
  | zero => simp [shifts, toPoly_modByMonic]
  | succ n ih =>
    have hunder := rem_under poly (X ^ n) (X * toPoly c) 0
    rw [add_zero, add_zero] at hunder
    rw [shifts_succ, ih, toPoly_shift, hunder, pow_succ, mul_assoc]

theorem toPoly_setWidth (hw : 8 ≤ w) (b : BitVec 8) : toPoly (b.setWidth w) = X ^ (w - 8) * toPoly b := by
  ext i
  rw [coeff_toPoly, coeff_X_pow_mul', BitVec.getMsbD_setWidth]
  by_cases hi : w - 8 ≤ i
  · have hfrom : i + 8 - w = i - (w - 8) := by omega
    rw [if_pos hi, coeff_toPoly, hfrom, decide_eq_true hi, Bool.true_and]
  · rw [if_neg hi]
    simp [hi, bit]

theorem toPoly_feed (hw : 8 ≤ w) (poly c : BitVec w) (b : BitVec 8) :
    toPoly (feed poly c b) = (X ^ 8 * toPoly c + X ^ w * toPoly b) %ₘ generator poly := by
  have hpow : (X : (ZMod 2)[X]) ^ 8 * X ^ (w - 8) = X ^ w := by
    rw [← pow_add, Nat.add_sub_cancel' hw]
  rw [feed, toPoly_shifts, toPoly_xor, toPoly_setWidth hw, mul_add, ← mul_assoc, hpow]

/-- A digest is the remainder of a division by the generator. -/
theorem toPoly_digest (hw : 8 ≤ w) (poly c : BitVec w) (bytes : List (BitVec 8)) :
    toPoly (digest poly c bytes) =
      (X ^ (8 * bytes.length) * toPoly c + X ^ w * message bytes) %ₘ generator poly := by
  induction bytes generalizing c with
  | nil => simp [digest, message, toPoly_modByMonic]
  | cons b bytes ih =>
    have hstep : digest poly c (b :: bytes) = digest poly (feed poly c b) bytes := rfl
    rw [hstep, ih, toPoly_feed hw, rem_under, message, List.length_cons]
    exact congrArg (· %ₘ generator poly) (by ring)

end Polynomials

end Crc
end Lib
end Ebftpd
