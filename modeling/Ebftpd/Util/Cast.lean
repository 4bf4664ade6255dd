import Ebftpd.Util.String

/-!
# Ebftpd.Util.Cast

`boost::lexical_cast` and `boost::numeric_cast` between texts and fixed-width integers, and the
decimal texts streams write.

* `lexicalCastInt16`: a sign of either kind, then digits up to the end, and the value in range.
* `lexicalCastUInt16`: the same, but a minus sign is taken modulo `2^16`, as `std::stoul` does.
* `octet_isSome_iff`, `lexicalCastUInt16_isSome_iff`: the texts they accept beyond plain decimals.
-/

namespace Ebftpd
namespace Util

/-- What `os << n` writes of a number. -/
def decimal (n : Nat) : Str := Nat.toDigits 10 n

def signedDecimal (z : Int) : Str := if z < 0 then '-' :: decimal z.natAbs else decimal z.natAbs

/-- A number without a sign, of at most the value. -/
def IsDecimal (max : Nat) (s : Str) : Prop := s ≠ [] ∧ s.all Char.isDigit = true ∧ digitsValue s ≤ max

instance (max : Nat) (s : Str) : Decidable (IsDecimal max s) :=
  inferInstanceAs (Decidable (s ≠ [] ∧ s.all Char.isDigit = true ∧ digitsValue s ≤ max))

/-- `lexical_cast<int16_t>`; `bad_lexical_cast` is `none`. -/
def lexicalCastInt16 (s : Str) : Option Int :=
  let (neg, ds) := stollSign s
  if ds.isEmpty || !ds.all Char.isDigit then none
  else if -2 ^ 15 ≤ stollValue neg ds ∧ stollValue neg ds < 2 ^ 15 then some (stollValue neg ds)
  else none

/-- `lexical_cast<uint16_t>`. -/
def lexicalCastUInt16 (s : Str) : Option Nat :=
  let (neg, ds) := stollSign s
  if ds.isEmpty || !ds.all Char.isDigit then none
  else if digitsValue ds < 65536 then
    some (if neg then (65536 - digitsValue ds) % 65536 else digitsValue ds)
  else none

/-- `numeric_cast<uint8_t>`; `bad_numeric_cast` is `none`. -/
def numericCastUInt8 (z : Int) : Option UInt8 :=
  if 0 ≤ z ∧ z < 256 then some (UInt8.ofNat z.toNat) else none

/-- `numeric_cast<uint8_t>(lexical_cast<int16_t>(s))`. -/
def octet (s : Str) : Option UInt8 := (lexicalCastInt16 s).bind numericCastUInt8

/-! ## Decimal texts -/

theorem digitsValue_eq (ds : Str) : digitsValue ds = Nat.ofDigitChars 10 ds 0 := by
  rw [Nat.ofDigitChars_eq_foldl]
  rfl

@[simp]
theorem digitsValue_decimal (n : Nat) : digitsValue (decimal n) = n := by
  rw [digitsValue_eq, decimal, Nat.ofDigitChars_ten_toDigits]

theorem isDecimal_decimal {n max : Nat} (h : n ≤ max) : IsDecimal max (decimal n) := by
  refine ⟨Nat.toDigits_ne_nil, ?_, ?_⟩
  · rw [List.all_eq_true]
    intro c hc
    exact Nat.isDigit_of_mem_toDigits (by decide) (by decide) hc
  · rw [digitsValue_decimal]
    exact h

/-! ## What the casts accept -/

theorem stollSign_of_digits {s : Str} (h : s.all Char.isDigit = true) : stollSign s = (false, s) := by
  unfold stollSign
  split
  · exact absurd (List.all_eq_true.1 h '-' (by simp)) (by decide)
  · exact absurd (List.all_eq_true.1 h '+' (by simp)) (by decide)
  · rfl

theorem stollSign_eq {s : Str} {neg : Bool} {ds : Str} (h : stollSign s = (neg, ds)) :
    neg = true ∧ s = '-' :: ds ∨ neg = false ∧ (s = '+' :: ds ∨ s = ds) := by
  unfold stollSign at h
  split at h <;> cases h
  · exact .inl ⟨rfl, rfl⟩
  · exact .inr ⟨rfl, .inl rfl⟩
  · exact .inr ⟨rfl, .inr rfl⟩

/-- A number of at most the value behind a sign, a minus sign only before zero. -/
def IsSigned (max : Nat) (s : Str) : Prop :=
  (∃ ds, s = '+' :: ds ∧ IsDecimal max ds) ∨ ∃ ds, s = '-' :: ds ∧ IsDecimal 0 ds

theorem IsSigned.not_isDecimal {max max' : Nat} {s : Str} (h : IsSigned max s) : ¬IsDecimal max' s := by
  rintro ⟨-, hdigits, -⟩
  rcases h with ⟨ds, rfl, -⟩ | ⟨ds, rfl, -⟩
  · exact absurd (List.all_eq_true.1 hdigits '+' (by simp)) (by decide)
  · exact absurd (List.all_eq_true.1 hdigits '-' (by simp)) (by decide)

theorem lexicalCastInt16_eq_some {s ds : Str} {neg : Bool} (h : stollSign s = (neg, ds)) {z : Int} :
    lexicalCastInt16 s = some z ↔
      (ds ≠ [] ∧ ds.all Char.isDigit = true) ∧ stollValue neg ds = z ∧ -2 ^ 15 ≤ z ∧ z < 2 ^ 15 := by
  simp only [lexicalCastInt16, h]
  split
  · rename_i hbad
    constructor
    · intro hz
      cases hz
    · rintro ⟨⟨hne, hdigits⟩, -⟩
      cases ds with
      | nil => exact absurd rfl hne
      | cons c ds => simp [hdigits] at hbad
  · rename_i hgood
    have hds : ds ≠ [] ∧ ds.all Char.isDigit = true := by
      cases ds with
      | nil => simp at hgood
      | cons c ds => simpa using hgood
    split
    · rename_i hr
      constructor
      · intro hz
        cases hz
        exact ⟨hds, rfl, hr⟩
      · rintro ⟨-, rfl, -⟩
        rfl
    · rename_i hr
      constructor
      · intro hz
        cases hz
      · rintro ⟨-, rfl, hz⟩
        exact absurd hz hr

theorem numericCastUInt8_eq_some {z : Int} {b : UInt8} :
    numericCastUInt8 z = some b ↔ z = b.toNat := by
  have hb : b.toNat < 256 := b.toNat_lt
  unfold numericCastUInt8
  split
  · rw [Option.some.injEq, ← UInt8.toNat_inj, UInt8.toNat_ofNat', Nat.mod_eq_of_lt (by omega)]
    omega
  · constructor
    · intro hz
      cases hz
    · omega

theorem octet_eq_some {s ds : Str} {neg : Bool} (h : stollSign s = (neg, ds)) {b : UInt8} :
    octet s = some b ↔
      (ds ≠ [] ∧ ds.all Char.isDigit = true) ∧ stollValue neg ds = (b.toNat : Int) := by
  have hb : b.toNat < 256 := b.toNat_lt
  simp only [octet, Option.bind_eq_some_iff, lexicalCastInt16_eq_some h, numericCastUInt8_eq_some]
  constructor
  · rintro ⟨z, ⟨hds, hz, -⟩, rfl⟩
    exact ⟨hds, hz⟩
  · rintro ⟨hds, hz⟩
    exact ⟨_, ⟨hds, hz, by omega, by omega⟩, rfl⟩

theorem octet_of_isDecimal {s : Str} (h : IsDecimal 255 s) {b : UInt8} :
    octet s = some b ↔ digitsValue s = b.toNat := by
  rw [octet_eq_some (stollSign_of_digits h.2.1)]
  simp only [stollValue, Bool.false_eq_true, if_false, Int.ofNat_inj, h.1, h.2.1, ne_eq,
    not_false_eq_true, and_self, true_and]

theorem octet_decimal (b : UInt8) : octet (decimal b.toNat) = some b := by
  have hdec := isDecimal_decimal (Nat.le_of_lt_succ b.toNat_lt)
  rw [octet_of_isDecimal hdec, digitsValue_decimal]

/-- The texts of a byte: a decimal of at most 255, or such a number behind a sign. -/
theorem octet_isSome_iff {s : Str} : (octet s).isSome = true ↔ IsDecimal 255 s ∨ IsSigned 255 s := by
  rw [Option.isSome_iff_exists]
  constructor
  · rintro ⟨b, hb⟩
    have hlt : b.toNat < 256 := b.toNat_lt
    obtain ⟨⟨neg, ds⟩, hsign⟩ : ∃ p, stollSign s = p := ⟨_, rfl⟩
    obtain ⟨⟨hne, hdigits⟩, hval⟩ := (octet_eq_some hsign).1 hb
    rcases stollSign_eq hsign with ⟨rfl, hs⟩ | ⟨rfl, hs⟩
    · rw [stollValue, if_pos rfl] at hval
      exact .inr (.inr ⟨ds, hs, hne, hdigits, by omega⟩)
    · rw [stollValue, if_neg Bool.false_ne_true] at hval
      have hdec : IsDecimal 255 ds := ⟨hne, hdigits, by omega⟩
      rcases hs with hs | rfl
      · exact .inr (.inl ⟨ds, hs, hdec⟩)
      · exact .inl hdec
  · rintro (h | ⟨ds, rfl, h⟩ | ⟨ds, rfl, h⟩)
    · refine ⟨UInt8.ofNat (digitsValue s), (octet_of_isDecimal h).2 ?_⟩
      rw [UInt8.toNat_ofNat', Nat.mod_eq_of_lt (Nat.lt_succ_of_le h.2.2)]
    · refine ⟨UInt8.ofNat (digitsValue ds), (@octet_eq_some _ ds false rfl _).2 ⟨⟨h.1, h.2.1⟩, ?_⟩⟩
      rw [stollValue, if_neg Bool.false_ne_true, UInt8.toNat_ofNat',
        Nat.mod_eq_of_lt (Nat.lt_succ_of_le h.2.2)]
    · refine ⟨0, (octet_eq_some rfl).2 ⟨⟨h.1, h.2.1⟩, ?_⟩⟩
      have hzero : digitsValue ds = 0 := Nat.le_zero.1 h.2.2
      simp [stollValue, hzero]

theorem lexicalCastUInt16_isSome {s ds : Str} {neg : Bool} (h : stollSign s = (neg, ds)) :
    (lexicalCastUInt16 s).isSome = true ↔ IsDecimal 65535 ds := by
  simp only [lexicalCastUInt16, h, IsDecimal]
  cases ds with
  | nil => simp
  | cons c ds =>
    by_cases hd : (c :: ds).all Char.isDigit = true
    · rw [if_neg (by simp [hd])]
      split
      · rename_i hval
        exact iff_of_true rfl ⟨List.cons_ne_nil c ds, hd, by omega⟩
      · rename_i hval
        exact iff_of_false Bool.false_ne_true fun hdec => hval (Nat.lt_succ_of_le hdec.2.2)
    · rw [if_pos (by simp [hd])]
      simp [hd]

/-- The texts of a port: a decimal of at most 65535, or such a number behind a sign of either
kind. -/
theorem lexicalCastUInt16_isSome_iff {s : Str} :
    (lexicalCastUInt16 s).isSome = true ↔
      IsDecimal 65535 s ∨ ∃ ds, (s = '+' :: ds ∨ s = '-' :: ds) ∧ IsDecimal 65535 ds := by
  constructor
  · intro h
    obtain ⟨⟨neg, ds⟩, hsign⟩ : ∃ p, stollSign s = p := ⟨_, rfl⟩
    have hdec := (lexicalCastUInt16_isSome hsign).1 h
    rcases stollSign_eq hsign with ⟨-, hs⟩ | ⟨-, hs | rfl⟩
    · exact .inr ⟨ds, .inr hs, hdec⟩
    · exact .inr ⟨ds, .inl hs, hdec⟩
    · exact .inl hdec
  · rintro (h | ⟨ds, rfl | rfl, h⟩)
    · exact (lexicalCastUInt16_isSome (stollSign_of_digits h.2.1)).2 h
    · exact (@lexicalCastUInt16_isSome _ ds _ rfl).2 h
    · exact (@lexicalCastUInt16_isSome _ ds _ rfl).2 h

theorem lexicalCastUInt16_decimal {n : Nat} (h : n < 65536) :
    lexicalCastUInt16 (decimal n) = some n := by
  have hdec : IsDecimal 65535 (decimal n) := isDecimal_decimal (Nat.le_of_lt_succ h)
  have hne : (decimal n).isEmpty = false := by simpa using hdec.1
  simp only [lexicalCastUInt16, stollSign_of_digits hdec.2.1, hne, hdec.2.1, digitsValue_decimal, Bool.not_true,
    Bool.or_self, Bool.false_eq_true, if_false]
  rw [if_pos (by omega)]

end Util
end Ebftpd
