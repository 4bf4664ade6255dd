import Ebftpd.Lib.Wildcard
import Ebftpd.Util.String

/-!
# Ebftpd.Util.Fnmatch

`WildcardMatch` (`util/util/string.cpp`) is `fnmatch` of the C library on the C strings of its
arguments, with `FNM_CASEFOLD` or without flags: neither slash nor leading period is special, a
backslash takes the next character as itself. Characters are those of the "C" locale, where an
equivalence class and a collating symbol are one character each.
-/

namespace Ebftpd
namespace Util

open Lib.Wildcard

def fold (caseFold : Bool) (c : Char) : Char := if caseFold then c.toLower else c

/-! ## Bracket expressions -/

def isGraph (c : Char) : Bool := decide (33 ≤ c.toNat) && decide (c.toNat ≤ 126)

def charClasses : List (Str × (Char → Bool)) :=
  [("alpha".toList, Char.isAlpha), ("digit".toList, Char.isDigit),
    ("alnum".toList, Char.isAlphanum), ("upper".toList, Char.isUpper),
    ("lower".toList, Char.isLower), ("space".toList, isSpace),
    ("blank".toList, fun c => c == ' ' || c == '\t'), ("graph".toList, isGraph),
    ("print".toList, fun c => c == ' ' || isGraph c),
    ("punct".toList, fun c => isGraph c && !c.isAlphanum),
    ("cntrl".toList, fun c => decide (c.toNat < 32) || c.toNat == 127),
    ("xdigit".toList, fun c => c.isDigit || "abcdefABCDEF".toList.contains c)]

inductive Item where
  | char (c : Char)
  | range (lo hi : Char)
  | cls (accepts : Char → Bool)
  /-- A class without a meaning; nothing matches from here on. -/
  | bad

def Item.accepts (caseFold : Bool) : Item → Char → Bool
  | .char c, x => fold caseFold x == fold caseFold c
  | .range lo hi, x =>
    decide (fold caseFold lo ≤ fold caseFold x) && decide (fold caseFold x ≤ fold caseFold hi)
  | .cls accepts, x => accepts x
  | .bad, _ => false

/-- The first item that has the character decides. -/
def bracketAccepts (caseFold negated : Bool) : List Item → Char → Bool
  | [], _ => negated
  | .bad :: _, _ => false
  | item :: items, x =>
    if item.accepts caseFold x then !negated else bracketAccepts caseFold negated items x

/-- `[:name:]` or `[=c=]` in a bracket expression. -/
def classItem : Str → Option (Item × Str)
  | '[' :: ':' :: s =>
    let name := s.takeWhile Char.isLower
    match s.drop name.length with
    | ':' :: ']' :: rest =>
      match charClasses.lookup name with
      | some accepts => some (.cls accepts, rest)
      | none => some (.bad, rest)
    | _ => none
  | '[' :: '=' :: c :: '=' :: ']' :: rest => some (.char c, rest)
  | _ => none

/-- One character of a bracket expression, which may be the end of a range. -/
def element : Str → Option (Char × Str)
  | [] => none
  | ['\\'] => none
  | '\\' :: c :: rest => some (c, rest)
  | '[' :: '.' :: c :: '.' :: ']' :: rest => some (c, rest)
  | c :: rest => some (c, rest)

/-- A hyphen is itself before the closing bracket. -/
def rangeEnd : Str → Option (Char × Str)
  | '-' :: rest => if rest.head? == some ']' then none else element rest
  | _ => none

/-- The items up to the closing bracket, which is itself at the beginning. -/
def bracketItems : Nat → Bool → Str → Option (List Item × Str)
  | 0, _, _ => none
  | n + 1, first, s =>
    if !first && s.head? == some ']' then some ([], s.tail)
    else
      match classItem s with
      | some (item, rest) => (bracketItems n false rest).map fun r => (item :: r.1, r.2)
      | none =>
        match element s with
        | none => none
        | some (lo, rest) =>
          match rangeEnd rest with
          | some (hi, rest) => (bracketItems n false rest).map fun r => (.range lo hi :: r.1, r.2)
          | none => (bracketItems n false rest).map fun r => (.char lo :: r.1, r.2)

theorem element_length {s rest : Str} {c : Char} (h : element s = some (c, rest)) :
    rest.length < s.length := by
  unfold element at h
  split at h <;> cases h <;> simp only [List.length_cons] <;> omega

theorem rangeEnd_length {s rest : Str} {c : Char} (h : rangeEnd s = some (c, rest)) :
    rest.length < s.length := by
  unfold rangeEnd at h
  split at h
  · split at h
    · cases h
    · exact Nat.lt_succ_of_lt (element_length h)
  · cases h

theorem classItem_length {s rest : Str} {item : Item} (h : classItem s = some (item, rest)) :
    rest.length < s.length := by
  unfold classItem at h
  split at h
  · rename_i t
    dsimp only at h
    split at h
    · rename_i name rest' hdrop
      have hlen := congrArg List.length hdrop
      simp only [List.length_drop, List.length_cons] at hlen ⊢
      split at h <;> cases h <;> omega
    · cases h
  · cases h
    simp only [List.length_cons]
    omega
  · cases h

theorem bracketItems_nil (n : Nat) (first : Bool) : bracketItems n first [] = none := by
  cases n <;> simp [bracketItems, classItem, element]

/-- The length of the text is fuel enough. -/
theorem bracketItems_fuel (n m : Nat) (first : Bool) (s : Str) (hn : s.length ≤ n)
    (hm : s.length ≤ m) : bracketItems n first s = bracketItems m first s := by
  induction n generalizing m first s with
  | zero =>
    rw [List.length_eq_zero_iff.1 (Nat.le_zero.1 hn), bracketItems_nil, bracketItems_nil]
  | succ n ih =>
    cases m with
    | zero => rw [List.length_eq_zero_iff.1 (Nat.le_zero.1 hm), bracketItems_nil, bracketItems_nil]
    | succ m =>
      have hrest : ∀ rest : Str, rest.length < s.length →
          bracketItems n false rest = bracketItems m false rest := fun rest hlt =>
        ih m false rest (by omega) (by omega)
      simp only [bracketItems]
      split
      · rfl
      · split
        · rename_i hcls
          rw [hrest _ (classItem_length hcls)]
        · split
          · rfl
          · rename_i lo rest hel
            have hlt := element_length hel
            split
            · rename_i hend
              rw [hrest _ ((rangeEnd_length hend).trans hlt)]
            · rw [hrest _ hlt]

theorem bracketItems_length {n : Nat} {first : Bool} {s rest : Str} {items : List Item}
    (h : bracketItems n first s = some (items, rest)) : rest.length < s.length := by
  induction n generalizing first s rest items with
  | zero => cases h
  | succ n ih =>
    simp only [bracketItems] at h
    split at h
    · rename_i hclose
      cases h
      cases s with
      | nil => simp at hclose
      | cons c s => simp
    · split at h
      · rename_i hcls
        obtain ⟨⟨items', rest'⟩, hr, hrest⟩ := Option.map_eq_some_iff.1 h
        cases hrest
        exact (ih hr).trans (classItem_length hcls)
      · split at h
        · cases h
        · rename_i hel
          split at h
          · rename_i hend
            obtain ⟨⟨items', rest'⟩, hr, hrest⟩ := Option.map_eq_some_iff.1 h
            cases hrest
            exact (ih hr).trans ((rangeEnd_length hend).trans (element_length hel))
          · obtain ⟨⟨items', rest'⟩, hr, hrest⟩ := Option.map_eq_some_iff.1 h
            cases hrest
            exact (ih hr).trans (element_length hel)

/-- What follows an opening bracket: the token of the expression and the rest of the pattern. -/
def bracket (caseFold : Bool) (s : Str) : Option (Token Char × Str) :=
  let negated := s.head? == some '!' || s.head? == some '^'
  let body := if negated then s.tail else s
  (bracketItems body.length true body).map fun r =>
    (.one (bracketAccepts caseFold negated r.1), r.2)

theorem bracket_length {caseFold : Bool} {s rest : Str} {tok : Token Char}
    (h : bracket caseFold s = some (tok, rest)) : rest.length < s.length := by
  obtain ⟨⟨items, rest'⟩, hr, hrest⟩ := Option.map_eq_some_iff.1 h
  cases hrest
  have hlt := bracketItems_length hr
  split at hlt
  · rw [List.length_tail] at hlt
    exact Nat.lt_of_lt_of_le hlt (Nat.sub_le _ _)
  · exact hlt

/-! ## Patterns -/

def literal (caseFold : Bool) (c : Char) : Token Char :=
  .one fun x => fold caseFold x == fold caseFold c

def tokens (caseFold : Bool) : Nat → Str → Pattern Char
  | 0, _ => []
  | n + 1, s =>
    match s with
    | [] => []
    | '*' :: s => .many :: tokens caseFold n s
    | '?' :: s => .one (fun _ => true) :: tokens caseFold n s
    -- a backslash at the end escapes nothing, and no text matches it
    | ['\\'] => [.one fun _ => false]
    | '\\' :: c :: s => literal caseFold c :: tokens caseFold n s
    | '[' :: s =>
      match bracket caseFold s with
      | some (tok, rest) => tok :: tokens caseFold n rest
      -- without its closing bracket it is a character like any other
      | none => literal caseFold '[' :: tokens caseFold n s
    | c :: s => literal caseFold c :: tokens caseFold n s

theorem tokens_fuel (caseFold : Bool) (n : Nat) (s : Str) (hn : s.length ≤ n) :
    tokens caseFold n s = tokens caseFold s.length s := by
  have hmore : ∀ n m (s : Str), s.length ≤ n → s.length ≤ m →
      tokens caseFold n s = tokens caseFold m s := by
    intro n
    induction n with
    | zero =>
      intro m s hn _
      rw [List.length_eq_zero_iff.1 (Nat.le_zero.1 hn)]
      cases m <;> rfl
    | succ n ih =>
      intro m s hn hm
      cases m with
      | zero =>
        rw [List.length_eq_zero_iff.1 (Nat.le_zero.1 hm)]
        rfl
      | succ m =>
        simp only [tokens]
        have hrest : ∀ rest : Str, rest.length < s.length →
            tokens caseFold n rest = tokens caseFold m rest := fun rest hlt =>
          ih m rest (by omega) (by omega)
        split
        · rfl
        · rw [hrest _ (by simp)]
        · rw [hrest _ (by simp)]
        · rfl
        · rw [hrest _ (by simp only [List.length_cons]; omega)]
        · split
          · rename_i hb
            rw [hrest _ ((bracket_length hb).trans (by simp))]
          · rw [hrest _ (by simp)]
        · rw [hrest _ (by simp)]
  exact hmore n s.length s hn le_rfl

/-- The tokens of a mask. -/
def compile (mask : Str) (caseFold : Bool) : Pattern Char := tokens caseFold (cStr mask).length (cStr mask)

theorem ones_tokens_le (caseFold : Bool) (n : Nat) (s : Str) :
    ones (tokens caseFold n s) ≤ s.length := by
  induction n generalizing s with
  | zero => exact Nat.zero_le _
  | succ n ih =>
    simp only [tokens]
    split
    · exact Nat.zero_le _
    · rename_i t
      have ht := ih t
      simp only [ones, List.length_cons]
      omega
    · exact Nat.succ_le_succ (ih _)
    · exact Nat.le_refl _
    · rename_i t
      have ht := ih t
      simp only [literal, ones, List.length_cons]
      omega
    · split
      · rename_i tok rest hb
        have hlt := bracket_length hb
        have hr := ih rest
        cases tok <;> simp only [ones, List.length_cons] <;> omega
      · exact Nat.succ_le_succ (ih _)
    · exact Nat.succ_le_succ (ih _)

/-- A mask without brackets in which the letter does not occur. -/
def leaves (spare : Char) (mask : Str) : Bool :=
  (cStr mask).all fun c => c != '[' && c.toLower != spare.toLower

theorem spare_tokens (letter : Char → Prop) {spare : Char} (n : Nat) {s : Str}
    (h : ∀ c ∈ s, c ≠ '[' ∧ c.toLower ≠ spare.toLower) : Spare letter spare (tokens true n s) := by
  have hliteral : ∀ c ∈ s, ∀ p, Spare letter spare p → Spare letter spare (literal true c :: p) := by
    intro c hc p hp
    refine .one (fun hsp => ?_) hp
    simp only [fold, if_true, beq_iff_eq] at hsp
    exact absurd hsp.symm (h c hc).2
  induction n generalizing s with
  | zero => exact .nil
  | succ n ih =>
    simp only [tokens]
    have hrest : ∀ t : Str, (∀ c ∈ t, c ∈ s) → Spare letter spare (tokens true n t) := fun t ht =>
      ih (fun c hc => h c (ht c hc)) fun c hc => hliteral c (ht c hc)
    split
    · exact .nil
    · exact .many (hrest _ fun c hc => by simp [hc])
    · exact .one (fun _ _ _ => rfl) (hrest _ fun c hc => by simp [hc])
    · exact .one (fun hsp => by cases hsp) .nil
    · exact hliteral _ (by simp) _ (hrest _ fun c hc => by simp [hc])
    · exact absurd rfl (h '[' (by simp)).1
    · exact hliteral _ (by simp) _ (hrest _ fun c hc => by simp [hc])

def fnmatch (mask text : Str) (caseFold : Bool) : Bool := isMatch (compile mask caseFold) (cStr text)

def wildcardMatch (mask str : Str) (iCase : Bool) : Bool := fnmatch mask str iCase

example : wildcardMatch "*@10.[0-9]?.*".toList "Root@10.4x.1".toList true = true := by decide
example : wildcardMatch "[!a-c[:digit:]]\\*[".toList "D*[".toList true = true := by decide
example : wildcardMatch "[]x]".toList "]".toList false = true := by decide
example : wildcardMatch "a\\".toList "a\\".toList false = false := by decide

end Util
end Ebftpd
