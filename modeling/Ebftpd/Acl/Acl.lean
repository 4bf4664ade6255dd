import Ebftpd.Util.String

/-!
# Ebftpd.Acl.Acl

Access control lists (`src/acl/acl.cpp`, `src/acl/permission.cpp`).

An ACL is a list of permissions read from left to right; the first one that says anything about a
user decides. `verdict` is that reading, stated over the text of the ACL. The `ACL` object of the
code keeps the first result it ever computed (`finalResult`) and returns it from then on, whoever
it is asked about.

* `evaluate_fresh`: the first call agrees with `verdict`.
* `evaluate_again`: asking twice about one user changes nothing.
* `evaluateAll_eq_iff`: a sequence of calls agrees with `verdict` exactly when all its users have
  the same verdict.
-/

namespace Ebftpd
namespace Acl

open Util

structure ACLInfo where
  username : Str
  groupname : Str
  flags : Str

/-- The three kinds of `Permission`, each with its `negate`. -/
inductive Permission where
  | flag (flags : Str) (negate : Bool)
  | user (username : Str) (negate : Bool)
  | group (groupname : Str) (negate : Bool)

/-- `Permission::Evaluate`; `none` is `boost::indeterminate`. -/
def Permission.evaluate : Permission → ACLInfo → Option Bool
  | .flag flags negate, info =>
    if flags.contains '*' then some !negate
    else if info.flags.any flags.contains then some !negate
    else none
  | .user username negate, info => if info.username = username then some !negate else none
  | .group groupname negate, info => if info.groupname = groupname then some !negate else none

structure ACL where
  perms : List Permission
  finalResult : Option Bool

/-- The loop of `ACL::Evaluate`. -/
def evaluatePerms : List Permission → ACLInfo → Option Bool
  | [], _ => none
  | p :: perms, info =>
    match p.evaluate info with
    | some result => some result
    | none => evaluatePerms perms info

/-- `ACL::Evaluate`: the result, and the object with its `finalResult` set. -/
def ACL.evaluate (acl : ACL) (info : ACLInfo) : Bool × ACL :=
  match acl.finalResult with
  | some result => (result, acl)
  | none =>
    let result := (evaluatePerms acl.perms info).getD false
    (result, { acl with finalResult := some result })

/-- The permission `ACL::FromStringArg` makes of the text behind the negation. -/
def Permission.ofText (text : Str) (negate : Bool) : Permission :=
  if text.head? = some '-' then .user (text.drop 1) negate
  else if text.head? = some '=' then .group (text.drop 1) negate
  else .flag text negate

/-- `ACL::FromStringArg`; a character behind the end of the string compares unequal to all. -/
def fromStringArg (arg : Str) : Permission :=
  if arg.head? = some '!' then .ofText (arg.drop 1) true else .ofText arg false

def ACL.fromString (str : Str) : ACL :=
  { perms := (split str " ".toList true).map fromStringArg, finalResult := none }

/-- Calls of `Evaluate` on one object, one after another. -/
def ACL.evaluateAll : ACL → List ACLInfo → List Bool × ACL
  | acl, [] => ([], acl)
  | acl, info :: infos =>
    let (result, acl) := acl.evaluate info
    let (results, acl) := acl.evaluateAll infos
    (result :: results, acl)

/-! ## What an ACL means -/

/-- Whether a permission, its negation left aside, speaks about the user. -/
def concerns (perm : Str) (info : ACLInfo) : Bool :=
  match perm with
  | '-' :: username => decide (info.username = username)
  | '=' :: groupname => decide (info.groupname = groupname)
  | flags => flags.contains '*' || info.flags.any flags.contains

/-- What one word of an ACL says about a user: yes, no (behind `!`), or nothing. -/
def wordVerdict (word : Str) (info : ACLInfo) : Option Bool :=
  match word with
  | '!' :: perm => if concerns perm info then some false else none
  | perm => if concerns perm info then some true else none

/-- The first word of the ACL that says anything decides; silence is refusal. -/
def verdict (acl : Str) (info : ACLInfo) : Bool :=
  ((split acl " ".toList true).findSome? (wordVerdict · info)).getD false

theorem ofText_evaluate (text : Str) (negate : Bool) (info : ACLInfo) :
    (Permission.ofText text negate).evaluate info = if concerns text info then some !negate else none := by
  unfold concerns
  split
  · simp [Permission.ofText, Permission.evaluate]
  · simp [Permission.ofText, Permission.evaluate]
  · rename_i huser hgroup
    have h1 := head_ne huser
    have h2 := head_ne hgroup
    by_cases hstar : '*' ∈ text
    · simp [Permission.ofText, Permission.evaluate, h1, h2, hstar]
    · simp [Permission.ofText, Permission.evaluate, h1, h2, hstar]

theorem fromStringArg_evaluate (word : Str) (info : ACLInfo) :
    (fromStringArg word).evaluate info = wordVerdict word info := by
  unfold wordVerdict
  split
  · simp [fromStringArg, ofText_evaluate]
  · rename_i hne
    simp [fromStringArg, head_ne hne, ofText_evaluate]

theorem evaluatePerms_map (words : List Str) (info : ACLInfo) :
    evaluatePerms (words.map fromStringArg) info = words.findSome? (wordVerdict · info) := by
  induction words with
  | nil => rfl
  | cons w words ih =>
    simp only [List.map_cons, evaluatePerms, fromStringArg_evaluate, List.findSome?_cons, ih]
    cases wordVerdict w info <;> rfl

/-! ## What the object answers -/

/-- `acl` was built from `str`, and what it remembers is `r`. -/
structure ACL.Remembers (acl : ACL) (str : Str) (r : Bool) : Prop where
  perms : acl.perms = (ACL.fromString str).perms
  finalResult : acl.finalResult = some r

theorem evaluate_fresh (str : Str) (info : ACLInfo) :
    ((ACL.fromString str).evaluate info).1 = verdict str info ∧
      ((ACL.fromString str).evaluate info).2.Remembers str (verdict str info) := by
  have h : (evaluatePerms (ACL.fromString str).perms info).getD false = verdict str info := by
    simp [ACL.fromString, evaluatePerms_map, verdict]
  refine ⟨h, rfl, ?_⟩
  exact congrArg some h

theorem evaluate_remembers {acl : ACL} {str : Str} {r : Bool} (h : acl.Remembers str r) (info : ACLInfo) :
    acl.evaluate info = (r, acl) := by
  simp [ACL.evaluate, h.finalResult]

/-- Whatever the object remembers, a second question about the same user gets the same answer and
leaves the object as it is: for one user the state of the object may be left out. -/
theorem evaluate_again (acl : ACL) (info : ACLInfo) :
    (acl.evaluate info).2.evaluate info = acl.evaluate info := by
  unfold ACL.evaluate
  cases h : acl.finalResult with
  | none => rfl
  | some r => simp [h]

theorem evaluateAll_remembers {acl : ACL} {str : Str} {r : Bool} (h : acl.Remembers str r)
    (infos : List ACLInfo) : acl.evaluateAll infos = (infos.map fun _ => r, acl) := by
  induction infos with
  | nil => rfl
  | cons info infos ih => simp [ACL.evaluateAll, evaluate_remembers h, ih]

/-- Every call after the first returns what the first returned. -/
theorem evaluateAll_cons (str : Str) (info : ACLInfo) (infos : List ACLInfo) :
    ((ACL.fromString str).evaluateAll (info :: infos)).1 =
      verdict str info :: infos.map fun _ => verdict str info := by
  obtain ⟨h1, h2⟩ := evaluate_fresh str info
  simp only [ACL.evaluateAll, evaluateAll_remembers h2, h1]

/-- The calls on one object all return the verdict of their own user exactly when no two of the
users have different verdicts. -/
theorem evaluateAll_eq_iff (str : Str) (infos : List ACLInfo) :
    ((ACL.fromString str).evaluateAll infos).1 = infos.map (verdict str) ↔
      ∀ i ∈ infos, ∀ j ∈ infos, verdict str i = verdict str j := by
  cases infos with
  | nil => simp [ACL.evaluateAll]
  | cons info infos =>
    rw [evaluateAll_cons, List.map_cons, List.cons.injEq, List.map_inj_left]
    constructor
    · rintro ⟨-, h⟩
      have hall : ∀ i ∈ info :: infos, verdict str i = verdict str info := by
        intro i hi
        rcases List.mem_cons.mp hi with rfl | hi
        · rfl
        · exact (h i hi).symm
      intro i hi j hj
      rw [hall i hi, hall j hj]
    · intro h
      exact ⟨rfl, fun i hi => h info (by simp) i (by simp [hi])⟩

/-- `SITE RANKS ... -alice` asked about alice and then about bob: bob passes the filter. -/
theorem evaluateAll_second_user :
    let alice : ACLInfo := ⟨"alice".toList, "staff".toList, "1".toList⟩
    let bob : ACLInfo := ⟨"bob".toList, "staff".toList, "3".toList⟩
    ((ACL.fromString "-alice".toList).evaluateAll [alice, bob]).1 = [true, true] ∧
      [alice, bob].map (verdict "-alice".toList) = [true, false] := by
  decide

end Acl
end Ebftpd
