import Ebftpd.Acl.User
import Ebftpd.Util.Cast
import Ebftpd.Util.Error

/-!
# Ebftpd.Fs.Attribute

Owners as extended attributes of a file (`src/fs/owner.cpp`). An id is written with `snprintf` into
eleven bytes and read back into eleven bytes, which then get a terminator behind what was read, and
from there with `sscanf`. Other programs may have written anything into the attribute.

* `scanInt_signedDecimal`: what is written of an id is read as that id.
* `ownerAttributes_exact_iff`: which owners come back as they were set, and which contents are read
  within the buffer and to a value they determine.
-/

namespace Ebftpd
namespace Fs
namespace Attribute

open Util Acl

/-- What the C language does not define. -/
inductive Fault where
  -- a byte was written behind the end of a buffer
  | overrun
  -- a variable was read that nothing was stored in
  | uninitialised
  -- a number was read that its type cannot hold
  | overflow
  deriving DecidableEq

/-- `sizeof(buf)`. -/
def bufferSize : Nat := 11

/-! ## `sscanf(buf, "%i", &id)` -/

def isOctalDigit (c : Char) : Bool := c.isDigit && c != '8' && c != '9'

def isHexDigit (c : Char) : Bool := c.isDigit || "abcdefABCDEF".toList.contains c

def digitValue (c : Char) : Nat := if c.isDigit then c.toNat - '0'.toNat else c.toLower.toNat - 'a'.toNat + 10

/-- The number the text begins with; what follows its digits is not read. -/
def scanDigits (base : Nat) (accepts : Char → Bool) (s : Str) : Option Nat :=
  let ds := s.takeWhile accepts
  if ds.isEmpty then none else some (ds.foldl (fun n c => base * n + digitValue c) 0)

/-- The prefix tells the base. -/
def scanNat : Str → Option Nat
  | '0' :: 'x' :: s => scanDigits 16 isHexDigit s
  | '0' :: 'X' :: s => scanDigits 16 isHexDigit s
  | '0' :: s => scanDigits 8 isOctalDigit ('0' :: s)
  | s => scanDigits 10 Char.isDigit s

def scanInt (s : Str) : Option Int :=
  let (neg, s) := stollSign (trimLeftCopy s)
  (scanNat s).map fun (n : Nat) => if neg then -(n : Int) else (n : Int)

def IsInt32 (z : Int) : Prop := -2 ^ 31 ≤ z ∧ z < 2 ^ 31

instance (z : Int) : Decidable (IsInt32 z) := inferInstanceAs (Decidable (-2 ^ 31 ≤ z ∧ z < 2 ^ 31))

/-! ## The attributes of a file -/

inductive Name where
  | uid | gid
  deriving DecidableEq

structure Owner where
  uid : UserID
  gid : GroupID

def Owner.part (owner : Owner) : Name → Int
  | .uid => owner.uid
  | .gid => owner.gid

/-- The value of each attribute that is set. -/
abbrev Attributes := Name → Option Str

/-- `getxattr` with the buffer; `none` is an error, of which a value too long for it is one. -/
def getxattr (value : Option Str) : Option Str :=
  match value with
  | some content => if content.length ≤ bufferSize then some content else none
  | none => none

/-- C leaves open what `sscanf` does with a number `int32_t` cannot hold. -/
abbrev Oversize := Int → Except Fault Int

variable (oversize : Oversize)

def getAttribute (value : Option Str) : Except Fault Int :=
  match getxattr value with
  | none => .ok 0
  | some content =>
    -- `buf[len] = '\0'`
    if content.length < bufferSize then
      match scanInt (cStr content) with
      | some n => if IsInt32 n then .ok n else oversize n
      | none => .error .uninitialised
    else .error .overrun

/-- The bytes `SetAttribute` sets: as many as `snprintf` wanted to write, of the buffer that it ended
with a terminator. -/
def attributeText (id : Int) : Str :=
  let text := signedDecimal id
  (text.take (bufferSize - 1) ++ ['\x00']).take text.length

/-- `SetAttribute`, where `fails` says whether `setxattr` does. -/
def setAttribute (fails : Name → Option Errno) (attrs : Attributes) (name : Name) (id : Int) :
    Except Errno Unit × Attributes :=
  match fails name with
  | some e => (.error e, attrs)
  | none => (.ok (), fun n => if n = name then some (attributeText id) else attrs n)

def getOwner (attrs : Attributes) : Except Fault Owner :=
  match getAttribute oversize (attrs .uid), getAttribute oversize (attrs .gid) with
  | .ok uid, .ok gid => .ok ⟨uid, gid⟩
  | .error e, _ => .error e
  | .ok _, .error e => .error e

def setOwner (fails : Name → Option Errno) (attrs : Attributes) (owner : Owner) :
    Except Errno Unit × Attributes :=
  match if owner.uid ≠ -1 then setAttribute fails attrs .uid owner.uid else (.ok (), attrs) with
  | (.error e, attrs) => (.error e, attrs)
  | (.ok (), attrs) => if owner.gid ≠ -1 then setAttribute fails attrs .gid owner.gid else (.ok (), attrs)

/-! ## What they are for -/

/-- Each part that was set is read back, and a part that was -1 is as it was. -/
def RoundTrip (attrs attrs' : Attributes) (owner : Owner) : Prop :=
  ∀ name, getAttribute oversize (attrs' name) =
    if owner.part name = -1 then getAttribute oversize (attrs name) else .ok (owner.part name)

/-- The content is read without a fault, and to 0 if it is not a number. -/
def Determined (content : Str) : Prop :=
  ∃ v, getAttribute oversize (some content) = .ok v ∧ (scanInt (cStr content) = none → v = 0)

/-! ## An id written and read -/

theorem decimal_head {n : Nat} (h : 0 < n) : ∃ c ds, decimal n = c :: ds ∧ c ≠ '0' := by
  have hdigit : ∀ d < 10, 0 < d → Nat.digitChar d ≠ '0' := by decide
  induction n using Nat.strong_induction_on with
  | _ n ih =>
    rw [decimal, Nat.toDigits_eq_if (by decide)]
    by_cases hlt : n < 10
    · rw [if_pos hlt]
      exact ⟨n.digitChar, [], rfl, hdigit n hlt h⟩
    · obtain ⟨c, ds, hds, hc⟩ := ih (n / 10) (by omega) (by omega)
      rw [if_neg hlt]
      exact ⟨c, ds ++ [(n % 10).digitChar], by rw [← decimal, hds]; rfl, hc⟩

theorem decimal_digits (n : Nat) : ∀ c ∈ decimal n, c.isDigit = true :=
  List.all_eq_true.mp (isDecimal_decimal (le_refl n)).2.1

theorem scanDigits_decimal (n : Nat) : scanDigits 10 Char.isDigit (decimal n) = some n := by
  have hall : (decimal n).takeWhile Char.isDigit = decimal n :=
    List.takeWhile_eq_self_iff.mpr (decimal_digits n)
  have hvalue : (decimal n).foldl (fun n c => 10 * n + digitValue c) 0 = digitsValue (decimal n) := by
    refine List.foldl_ext _ _ _ fun m c hc => ?_
    rw [digitValue, if_pos (decimal_digits n c hc)]
  have hne : (decimal n).isEmpty = false := List.isEmpty_eq_false_iff.mpr (isDecimal_decimal (le_refl n)).1
  simp only [scanDigits, hall, hne, Bool.false_eq_true, if_false, hvalue, digitsValue_decimal]

theorem scanNat_decimal (n : Nat) : scanNat (decimal n) = some n := by
  rcases Nat.eq_zero_or_pos n with rfl | h
  · rfl
  · obtain ⟨c, ds, hds, hc⟩ := decimal_head h
    rw [← scanDigits_decimal n, hds, scanNat]
    · exact fun _ h => hc (List.cons.inj h).1
    · exact fun _ h => hc (List.cons.inj h).1
    · exact fun _ h => hc (List.cons.inj h).1

/-- A decimal text begins with neither a space nor a sign. -/
theorem decimal_start (n : Nat) :
    trimLeftCopy (decimal n) = decimal n ∧ stollSign (decimal n) = (false, decimal n) := by
  have hall := decimal_digits n
  obtain ⟨c, ds, hds⟩ := List.exists_cons_of_ne_nil (isDecimal_decimal (le_refl n)).1
  rw [hds] at hall ⊢
  have hspace := isSpace_of_isDigit (hall c (by simp))
  refine ⟨by simp [trimLeftCopy, hspace], stollSign_of_digits (List.all_eq_true.mpr hall)⟩

theorem scanInt_signedDecimal (z : Int) : scanInt (signedDecimal z) = some z := by
  obtain ⟨htrim, hsign⟩ := decimal_start z.natAbs
  unfold signedDecimal
  split
  · change (scanNat (decimal z.natAbs)).map (fun (n : Nat) => -(n : Int)) = some z
    rw [scanNat_decimal, Option.map_some]
    exact congrArg some (by omega)
  · rw [scanInt, htrim, hsign]
    change (scanNat (decimal z.natAbs)).map (fun (n : Nat) => (n : Int)) = some z
    rw [scanNat_decimal, Option.map_some]
    exact congrArg some (by omega)

theorem signedDecimal_text (z : Int) : cStr (signedDecimal z) = signedDecimal z := by
  refine cStr_of_notMem fun h => ?_
  have hno : '\x00' ∉ decimal z.natAbs := fun h => by cases decimal_digits _ _ h
  unfold signedDecimal at h
  split at h
  · rcases List.mem_cons.mp h with h | h
    · cases h
    · exact hno h
  · exact hno h

theorem signedDecimal_length_le {id : Int} {k : Nat} (hk : 0 < k) :
    (signedDecimal id).length ≤ k + 1 ↔ -10 ^ k < id ∧ id < 10 ^ (k + 1) := by
  have hpow : ∀ m : Nat, ((10 ^ m : Nat) : Int) = 10 ^ m ∧ 0 < 10 ^ m := fun m =>
    ⟨by push_cast; rfl, Nat.pow_pos (by decide)⟩
  have hk₀ := hpow k
  have hk₁ := hpow (k + 1)
  unfold signedDecimal
  split
  · rw [List.length_cons, Nat.add_le_add_iff_right, decimal, Nat.length_toDigits_le_iff (by decide) hk]
    omega
  · rw [decimal, Nat.length_toDigits_le_iff (by decide) (Nat.succ_pos k)]
    omega

/-- Eleven characters have only the ids of ten digits and a sign. -/
theorem signedDecimal_length {id : Int} (h : IsInt32 id) :
    (signedDecimal id).length < bufferSize ↔ -10 ^ 9 < id := by
  obtain ⟨hlo, hhi⟩ := h
  rw [bufferSize, Nat.lt_succ_iff, signedDecimal_length_le (k := 9) (by decide)]
  omega

theorem attributeText_of_short {id : Int} (h : (signedDecimal id).length < bufferSize) :
    attributeText id = signedDecimal id := by
  have hfits : (signedDecimal id).take (bufferSize - 1) = signedDecimal id :=
    List.take_of_length_le (Nat.le_sub_one_of_lt h)
  rw [attributeText, hfits, List.take_left]

theorem getAttribute_attributeText {id : Int} (h : IsInt32 id) :
    getAttribute oversize (some (attributeText id)) = .ok id ↔ -10 ^ 9 < id := by
  rw [← signedDecimal_length h]
  by_cases hshort : (signedDecimal id).length < bufferSize
  · simp only [hshort, attributeText_of_short hshort, getAttribute, getxattr, if_pos hshort.le,
      signedDecimal_text, scanInt_signedDecimal, if_pos h, if_true]
  · have hlong : (attributeText id).length = bufferSize := by
      have hlen : (signedDecimal id).length = bufferSize := by
        obtain ⟨hlo, hhi⟩ := h
        have hle := (@signedDecimal_length_le id 10 (by decide)).mpr (by omega)
        exact Nat.le_antisymm hle (Nat.le_of_not_lt hshort)
      simp [attributeText, hlen, bufferSize]
    simp only [hshort, iff_false, getAttribute, getxattr, hlong, le_refl, if_true, lt_irrefl, if_false]
    exact fun heq => by cases heq

/-! ## Which owners and contents -/

theorem setAttribute_ok {fails : Name → Option Errno} {attrs attrs' : Attributes} {name : Name} {id : Int}
    (h : setAttribute fails attrs name id = (.ok (), attrs')) :
    attrs' = fun n => if n = name then some (attributeText id) else attrs n := by
  unfold setAttribute at h
  split at h
  · cases h
  · cases h
    rfl

theorem setOwner_ok {fails : Name → Option Errno} {attrs attrs' : Attributes} {owner : Owner}
    (h : setOwner fails attrs owner = (.ok (), attrs')) (name : Name) :
    attrs' name = if owner.part name = -1 then attrs name else some (attributeText (owner.part name)) := by
  unfold setOwner at h
  split at h
  · cases h
  · rename_i attrs₁ huid
    -- the group is set behind the user
    have huid : ∀ n, attrs₁ n = if n = .uid ∧ owner.uid ≠ -1 then some (attributeText owner.uid) else attrs n := by
      intro n
      split at huid
      · rename_i hset
        rw [setAttribute_ok huid]
        simp [hset]
      · rename_i hkeep
        cases huid
        simp [hkeep]
    have hgid : ∀ n, attrs' n = if n = .gid ∧ owner.gid ≠ -1 then some (attributeText owner.gid) else attrs₁ n := by
      intro n
      split at h
      · rename_i hset
        rw [setAttribute_ok h]
        simp [hset]
      · rename_i hkeep
        cases h
        simp [hkeep]
    cases name with
    | uid => by_cases hkeep : owner.uid = -1 <;> simp [hgid, huid, Owner.part, hkeep]
    | gid => by_cases hkeep : owner.gid = -1 <;> simp [hgid, huid, Owner.part, hkeep]

theorem roundTrip_iff {attrs attrs' : Attributes} {owner : Owner} {fails : Name → Option Errno}
    (hids : ∀ name, IsInt32 (owner.part name)) (hset : setOwner fails attrs owner = (.ok (), attrs')) :
    RoundTrip oversize attrs attrs' owner ↔ ∀ name, owner.part name = -1 ∨ -10 ^ 9 < owner.part name := by
  refine forall_congr' fun name => ?_
  rw [setOwner_ok hset]
  by_cases hkeep : owner.part name = -1
  · simp [hkeep]
  · rw [if_neg hkeep, if_neg hkeep, getAttribute_attributeText oversize (hids name), or_iff_right hkeep]

theorem determined_iff {content : Str} (h : content.length ≤ bufferSize) :
    Determined oversize content ↔ content.length < bufferSize ∧
      ∃ n, scanInt (cStr content) = some n ∧ (IsInt32 n ∨ ∃ v, oversize n = .ok v) := by
  simp only [Determined, getAttribute, getxattr, if_pos h]
  by_cases hroom : content.length < bufferSize
  · cases hscan : scanInt (cStr content) with
    | none => simp [hroom]
    | some n =>
      by_cases hn : IsInt32 n
      · simp [hroom, hn]
      · simp [hroom, hn]
  · simp [hroom]

/-- What was set comes back exactly for the ids that have less than eleven characters, and a content
is read safely and to a value it determines exactly if it leaves room for the terminator and begins
with a number. -/
theorem ownerAttributes_exact_iff (oversize : Oversize) {fails : Name → Option Errno}
    {attrs attrs' : Attributes} {owner : Owner} (hids : ∀ name, IsInt32 (owner.part name))
    (hset : setOwner fails attrs owner = (.ok (), attrs')) {content : Str}
    (hread : content.length ≤ bufferSize) :
    (RoundTrip oversize attrs attrs' owner ↔ ∀ name, owner.part name = -1 ∨ -10 ^ 9 < owner.part name) ∧
      (Determined oversize content ↔ content.length < bufferSize ∧
        ∃ n, scanInt (cStr content) = some n ∧ (IsInt32 n ∨ ∃ v, oversize n = .ok v)) :=
  ⟨roundTrip_iff oversize hids hset, determined_iff oversize hread⟩

/-- What `GetOwner` returns then. -/
theorem getOwner_of_roundTrip {attrs attrs' : Attributes} {owner before : Owner}
    (h : RoundTrip oversize attrs attrs' owner) (hbefore : getOwner oversize attrs = .ok before) :
    getOwner oversize attrs' = .ok ⟨if owner.uid = -1 then before.uid else owner.uid,
      if owner.gid = -1 then before.gid else owner.gid⟩ := by
  have hparts : ∀ name, getAttribute oversize (attrs name) = .ok (before.part name) := by
    unfold getOwner at hbefore
    split at hbefore
    · rename_i huid hgid
      cases hbefore
      intro name
      cases name with
      | uid => exact huid
      | gid => exact hgid
    · cases hbefore
    · cases hbefore
  have hafter : ∀ name, getAttribute oversize (attrs' name) =
      .ok (if owner.part name = -1 then before.part name else owner.part name) := by
    intro name
    rw [h name, hparts name]
    split <;> rfl
  rw [getOwner, hafter .uid, hafter .gid]
  rfl

def exampleOwner : Owner := ⟨100, -1⟩

def exampleAttributes : Attributes
  | .uid => some (attributeText 100)
  | .gid => none

theorem ownerAttributes_hundred :
    (RoundTrip (fun _ => .error .overflow) (fun _ => none) exampleAttributes exampleOwner ↔
        ∀ name, exampleOwner.part name = -1 ∨ -10 ^ 9 < exampleOwner.part name) ∧
      (Determined (fun _ => .error .overflow) "0x1f".toList ↔ "0x1f".toList.length < bufferSize ∧
        ∃ n, scanInt (cStr "0x1f".toList) = some n ∧
          (IsInt32 n ∨ ∃ v, (fun _ => .error .overflow : Oversize) n = .ok v)) := by
  refine @ownerAttributes_exact_iff (fun _ => .error .overflow) (fun _ => none)
    (fun _ => none) _ _ ?_ ?_ _ (by decide)
  · intro name
    cases name <;> decide
  · refine Prod.ext rfl (funext fun name => ?_)
    cases name <;> rfl

/-- Eleven digits leave no room for the terminator, and for a text that is no number nothing is stored;
an id of eleven characters fills the buffer as well. -/
theorem getAttribute_faults :
    ¬ Determined (fun _ => .error .overflow) "12345678901".toList ∧
      ¬ Determined (fun _ => .error .overflow) "root".toList ∧
      getAttribute (fun _ => .error .overflow) (some (attributeText (-2000000000))) = .error .overrun := by
  refine ⟨?_, ?_, by decide⟩
  · rintro ⟨v, h, -⟩
    have hfault : getAttribute (fun _ => .error .overflow) (some "12345678901".toList) =
        .error .overrun := by decide
    rw [hfault] at h
    cases h
  · rintro ⟨v, h, -⟩
    have hfault : getAttribute (fun _ => .error .overflow) (some "root".toList) =
        .error .uninitialised := by decide
    rw [hfault] at h
    cases h

end Attribute
end Fs
end Ebftpd
