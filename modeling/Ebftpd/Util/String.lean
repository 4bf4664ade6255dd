import Mathlib.Algebra.Group.Int.Defs
import Mathlib.Data.List.Basic
import Mathlib.Data.List.TakeWhile
import Mathlib.Tactic.Common

/-!
# Ebftpd.Util.String

The string helpers of `util/util/string.cpp` that the rest of the model uses. A `std::string` is
the list of its bytes, a byte being the character of its code; classification and case mapping
are those of the "C" locale.
-/

namespace Ebftpd
namespace Util

abbrev Str := List Char

def isSpace (c : Char) : Bool :=
  c == ' ' || c == '\t' || c == '\n' || c == '\r' || c == '\x0b' || c == '\x0c'

def isAlpha (c : Char) : Bool := c.isAlpha

def toLowerCopy (s : Str) : Str := s.map Char.toLower

def toUpperCopy (s : Str) : Str := s.map Char.toUpper

def trimLeftCopy (s : Str) : Str := s.dropWhile isSpace

def trimRightCopy (s : Str) : Str := (s.reverse.dropWhile isSpace).reverse

def trimCopy (s : Str) : Str := trimLeftCopy (trimRightCopy s)

/-- The loop of `CompressWhitespace`: a run of white space becomes its first character. -/
def compressLoop : Bool → Str → Str
  | _, [] => []
  | space, c :: cs =>
    if space && isSpace c then compressLoop true cs else c :: compressLoop (isSpace c) cs

def compressWhitespaceCopy (str : Str) : Str :=
  let str := compressLoop false str
  let str := if str.head?.any isSpace then str.tail else str
  if str.getLast?.any isSpace then str.dropLast else str

def startsWith (s test : Str) : Bool := test.isPrefixOf s

/-- `c_str()`, read to its end. -/
def cStr (s : Str) : Str := s.takeWhile (· != '\x00')

theorem cStr_of_notMem {s : Str} (h : '\x00' ∉ s) : cStr s = s := by
  refine List.takeWhile_eq_self_iff.mpr fun c hc => bne_iff_ne.mpr ?_
  rintro rfl
  exact h hc

theorem head_ne {s : Str} {c : Char} (h : ∀ t, s = c :: t → False) : s.head? ≠ some c := by
  cases s with
  | nil => simp
  | cons d t =>
    intro hd
    exact h t (by simpa using hd)

/-- The loop of `boost::split`: `cur` is the token read so far, `prev` that the character before
was a delimiter. A run of delimiters ends one token when tokens are compressed; a delimiter at
either end of the text still leaves an empty token there. -/
def splitLoop (delim : Char → Bool) (tokenCompress : Bool) : Bool → Str → Str → List Str
  | _, cur, [] => [cur]
  | prev, cur, c :: cs =>
    if delim c then
      if tokenCompress && prev then splitLoop delim tokenCompress true cur cs
      else cur :: splitLoop delim tokenCompress true [] cs
    else splitLoop delim tokenCompress false (cur ++ [c]) cs

def split (s delims : Str) (tokenCompress : Bool) : List Str :=
  splitLoop (fun c => delims.contains c) tokenCompress false [] s

theorem splitLoop_cons (delim : Char → Bool) (tc prev : Bool) (cur : Str) (c : Char) (cs : Str) :
    splitLoop delim tc prev cur (c :: cs) =
      if delim c then
        if tc && prev then splitLoop delim tc true cur cs else cur :: splitLoop delim tc true [] cs
      else splitLoop delim tc false (cur ++ [c]) cs := rfl

theorem splitLoop_ne_nil (delim : Char → Bool) (tc prev : Bool) (cur s : Str) :
    splitLoop delim tc prev cur s ≠ [] := by
  induction s generalizing prev cur with
  | nil => exact List.cons_ne_nil _ _
  | cons c cs ih =>
    rw [splitLoop_cons]
    split
    · split
      · exact ih true cur
      · simp
    · exact ih false _

theorem split_ne_nil (s delims : Str) (tc : Bool) : split s delims tc ≠ [] :=
  splitLoop_ne_nil _ _ _ _ _

theorem splitLoop_eq_splitOn (delim : Char → Bool) (prev : Bool) (cur s : Str) :
    splitLoop delim false prev cur s = List.splitOnPPrepend delim s cur.reverse := by
  induction s generalizing prev cur with
  | nil => simp [splitLoop]
  | cons c cs ih =>
    rw [splitLoop_cons, Bool.false_and, if_neg Bool.false_ne_true]
    split
    · rename_i hc
      rw [List.splitOnPPrepend_cons_pos hc, List.reverse_reverse, ih]
      rfl
    · rename_i hc
      rw [List.splitOnPPrepend_cons_neg (by simpa using hc), ih, List.reverse_append]
      rfl

/-- With one delimiter and tokens not compressed. -/
theorem split_eq_splitOn (s : Str) (d : Char) : split s [d] false = s.splitOn d := by
  have hdelim : (fun c => [d].contains c) = (· == d) := by
    funext c
    rw [List.contains_cons, List.contains_nil, Bool.or_false]
  rw [split, splitLoop_eq_splitOn, hdelim, List.splitOn_eq_splitOnP]
  rfl

theorem not_mem_of_mem_split {s tok : Str} {d : Char} (h : tok ∈ split s [d] false) : d ∉ tok := by
  have hloop : ∀ (s : Str) (prev : Bool) (cur : Str), d ∉ cur →
      ∀ tok ∈ splitLoop (fun c => [d].contains c) false prev cur s, d ∉ tok := by
    intro s
    induction s with
    | nil =>
      intro prev cur hcur tok htok
      rw [List.mem_singleton.1 htok]
      exact hcur
    | cons c cs ih =>
      intro prev cur hcur tok htok
      rw [splitLoop_cons, Bool.false_and, if_neg Bool.false_ne_true] at htok
      split at htok
      · rcases List.mem_cons.1 htok with rfl | htok
        · exact hcur
        · exact ih true [] List.not_mem_nil tok htok
      · rename_i hc
        refine ih false (cur ++ [c]) ?_ tok htok
        simp only [List.mem_append, List.mem_singleton, not_or]
        exact ⟨hcur, fun hd => hc (by simp [hd])⟩
  exact hloop s false [] List.not_mem_nil tok h

/-! ## Numbers -/

def llongMin : Int := -2 ^ 63

def llongMax : Int := 2 ^ 63 - 1

/-- Two's complement 64-bit arithmetic: the signed value of `z` modulo `2^64`. -/
def wrap64 (z : Int) : Int := (z + 2 ^ 63) % 2 ^ 64 - 2 ^ 63

theorem wrap64_bounds (z : Int) : llongMin ≤ wrap64 z ∧ wrap64 z ≤ llongMax := by
  simp only [wrap64, llongMin, llongMax]; omega

theorem wrap64_of_bounds {z : Int} (h : llongMin ≤ z ∧ z ≤ llongMax) : wrap64 z = z := by
  simp only [wrap64, llongMin, llongMax] at *; omega

def digitsValue (ds : Str) : Nat := ds.foldl (fun n c => 10 * n + (c.toNat - '0'.toNat)) 0

/-- The sign `std::stoll` accepts in front of the digits: whether it negates, and what follows. -/
def stollSign : Str → Bool × Str
  | '-' :: r => (true, r)
  | '+' :: r => (false, r)
  | r => (false, r)

def stollValue (neg : Bool) (ds : Str) : Int :=
  if neg then -(digitsValue ds : Int) else (digitsValue ds : Int)

/-- `StrToLLong`: `std::stoll` skips white space, takes a sign and decimal digits; the whole
string must be used up and the value be in range, or `bad_cast` is thrown. -/
def strToLLong (s : Str) : Option Int :=
  let (neg, ds) := stollSign (trimLeftCopy s)
  if ds.isEmpty || !ds.all Char.isDigit then none
  else if llongMin ≤ stollValue neg ds ∧ stollValue neg ds ≤ llongMax then some (stollValue neg ds)
  else none

theorem strToLLong_bounds {s : Str} {z : Int} (h : strToLLong s = some z) :
    llongMin ≤ z ∧ z ≤ llongMax := by
  simp only [strToLLong] at h
  split at h
  · cases h
  · split at h
    · rename_i hb; cases h; exact hb
    · cases h

/-- `StrToInt`: the same for `std::stoi`, whose range is that of an `int`. -/
def strToInt (s : Str) : Option Int :=
  match strToLLong s with
  | some z => if -2 ^ 31 ≤ z ∧ z < 2 ^ 31 then some z else none
  | none => none

theorem isSpace_of_isDigit {c : Char} (hc : c.isDigit = true) : isSpace c = false := by
  cases hsp : isSpace c with
  | false => rfl
  | true =>
    simp only [isSpace, Bool.or_eq_true, beq_iff_eq] at hsp
    rcases hsp with ((((rfl | rfl) | rfl) | rfl) | rfl) | rfl <;> revert hc <;> decide

/-- Digits that make up an `int` are read as their value. -/
theorem strToInt_digits {s : Str} (hs : s ≠ []) (hdigits : s.all Char.isDigit = true)
    (hvalue : (digitsValue s : Int) < 2 ^ 31) : strToInt s = some (digitsValue s : Int) := by
  obtain ⟨c, cs, rfl⟩ := List.exists_cons_of_ne_nil hs
  have hc : c.isDigit = true := by
    rw [List.all_cons, Bool.and_eq_true] at hdigits
    exact hdigits.1
  have htrim : trimLeftCopy (c :: cs) = c :: cs := by simp [trimLeftCopy, isSpace_of_isDigit hc]
  have hsign : stollSign (c :: cs) = (false, c :: cs) := by
    unfold stollSign
    split
    · rename_i h
      cases h
      exact absurd hc (by decide)
    · rename_i h
      cases h
      exact absurd hc (by decide)
    · rfl
  have hrange : llongMin ≤ (digitsValue (c :: cs) : Int) ∧ (digitsValue (c :: cs) : Int) ≤ llongMax := by
    simp only [llongMin, llongMax]
    omega
  have hlong : strToLLong (c :: cs) = some (digitsValue (c :: cs) : Int) := by
    simp only [strToLLong, htrim, hsign, hdigits, List.isEmpty_cons, Bool.not_true, Bool.or_self,
      Bool.false_eq_true, if_false, stollValue, if_pos hrange]
  rw [strToInt, hlong]
  simp only
  rw [if_pos (by omega)]

end Util
end Ebftpd
