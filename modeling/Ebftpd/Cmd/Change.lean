import Ebftpd.Acl.Flags

/-!
# Ebftpd.Cmd.Change

`SITE CHANGE <user> flags <flags>` (`CHANGECommand::CheckFlags` in `src/cmd/site/change.cpp`): the
check of the argument, and the function it returns, which is called for each user named.

* `checkFlags_ok_iff`: the arguments that pass.
* `changeFlags_siteop`: nobody but a master changes a siteop.
* `protected_iff`: a `=` is the only change that gets at the flags no argument may name. The default
  user is the template afterwards if he was, or if the change says so.
-/

namespace Ebftpd
namespace Cmd
namespace Change

open Util Acl

/-- What `CheckFlags` throws; `substr` throws for an argument that is empty. -/
inductive CheckError where
  | syntaxError
  | outOfRange
  | notOkay (text : String)

inductive Action where
  | add | del | set
  deriving DecidableEq

def Action.ofChar : Char → Option Action
  | '+' => some .add
  | '-' => some .del
  | '=' => some .set
  | _ => none

/-- `CheckFlags`, up to the function it returns. -/
def checkFlags : Str → Except CheckError (Action × Str)
  | [] => .error .outOfRange
  | action :: arg =>
    let flags := toUpperCopy arg
    if flags.isEmpty then .error .syntaxError
    else if !validFlags flags then
      .error (.notOkay "One or more invalid flags. See SITE FLAGS for a list.")
    else if flags.contains Flag.Deleted.char then
      .error (.notOkay "Flag 6 (deleted) cannot be changed with SITE CHANGE.")
    else if flags.contains Flag.Gadmin.char then
      .error (.notOkay "Flag 2 (gadmin) cannot be changed with SITE CHANGE.")
    else
      match Action.ofChar action with
      | some action => .ok (action, flags)
      | none => .error .syntaxError

/-- The template flag is not deleted from the default user. -/
def keepTemplate (user : User) : User := if user.id = 1 then user.addFlag .Template else user

def Action.apply (user : User) (flags : Str) : Action → User
  | .add => user.addFlags flags
  | .del => keepTemplate (user.delFlags flags)
  | .set => keepTemplate (user.setFlags flags)

/-- The function that is returned, or the part of a reply that it sends. -/
def setFlags (isMaster : Bool) (user : User) (action : Action) (flags : Str) : Except String User :=
  if user.hasFlag .Siteop && !isMaster then .error "Only masters can change flags of other siteops."
  else .ok (action.apply user flags)

/-- The target after the command. -/
def changeFlags (isMaster : Bool) (arg : Str) (user : User) : User :=
  match checkFlags arg with
  | .error _ => user
  | .ok (action, flags) =>
    match setFlags isMaster user action flags with
    | .error _ => user
    | .ok user' => user'

def Action.char : Action → Char
  | .add => '+'
  | .del => '-'
  | .set => '='

theorem Action.ofChar_eq_some {ch : Char} {action : Action} :
    Action.ofChar ch = some action ↔ ch = action.char := by
  constructor
  · intro h
    unfold Action.ofChar at h
    split at h
    · cases h
      rfl
    · cases h
      rfl
    · cases h
      rfl
    · cases h
  · rintro rfl
    cases action <;> rfl

/-- Flags that pass the check: some, all valid, and neither of the two that are kept out. -/
structure Allowed (flags : Str) : Prop where
  ne_nil : flags ≠ []
  valid : validFlags flags = true
  deleted : Flag.Deleted.char ∉ flags
  gadmin : Flag.Gadmin.char ∉ flags

theorem checkFlags_ok_iff (arg : Str) (action : Action) (flags : Str) :
    checkFlags arg = .ok (action, flags) ↔
      ∃ ch rest, arg = ch :: rest ∧ Action.ofChar ch = some action ∧ flags = toUpperCopy rest ∧
        Allowed flags := by
  cases arg with
  | nil => simp [checkFlags]
  | cons ch rest =>
    simp only [checkFlags, List.isEmpty_iff]
    constructor
    · intro h
      split at h
      · cases h
      split at h
      · cases h
      split at h
      · cases h
      split at h
      · cases h
      rename_i hne hvalid hdeleted hgadmin
      split at h
      · rename_i action' haction
        cases h
        exact ⟨ch, rest, rfl, haction, rfl, hne, by simpa using hvalid, by simpa using hdeleted,
          by simpa using hgadmin⟩
      · cases h
    · rintro ⟨ch', rest', harg, haction, rfl, hallowed⟩
      cases harg
      have hvalid : ¬ (!validFlags (toUpperCopy rest)) = true := by simp [hallowed.valid]
      have hdeleted : ¬ (toUpperCopy rest).contains Flag.Deleted.char = true := by
        simpa using hallowed.deleted
      have hgadmin : ¬ (toUpperCopy rest).contains Flag.Gadmin.char = true := by
        simpa using hallowed.gadmin
      simp only [if_neg hallowed.ne_nil, if_neg hvalid, if_neg hdeleted, if_neg hgadmin, haction]

theorem hasFlag_keepTemplate {user : User} {f : Flag} (hf : f ≠ .Template) :
    (keepTemplate user).hasFlag f = user.hasFlag f := by
  have hchar : f.char ≠ Flag.Template.char := by
    cases f with
    | Template => exact absurd rfl hf
    | _ => decide
  unfold keepTemplate
  split
  · rw [Bool.eq_iff_iff, User.addFlag, User.hasFlag_addFlags, List.mem_singleton]
    exact or_iff_left hchar
  · rfl

theorem keepTemplate_template {user : User} (hid : user.id = 1) :
    (keepTemplate user).hasFlag .Template = true := by
  rw [keepTemplate, if_pos hid, User.addFlag, User.hasFlag_addFlags]
  exact .inr (List.mem_singleton.mpr rfl)

/-- Nobody but a master changes a siteop. -/
theorem changeFlags_siteop {user : User} (arg : Str) (hsiteop : user.hasFlag .Siteop = true) :
    changeFlags false arg user = user := by
  unfold changeFlags
  split
  · rfl
  · simp [setFlags, hsiteop]

/-- A change that the check lets through, and the guard of the siteops. -/
theorem changeFlags_apply {isMaster : Bool} {arg flags : Str} {user : User} {action : Action}
    (hcheck : checkFlags arg = .ok (action, flags)) (hguard : user.hasFlag .Siteop = true → isMaster = true) :
    changeFlags isMaster arg user = action.apply user flags := by
  have hpasses : ¬ (user.hasFlag .Siteop && !isMaster) = true := by
    intro hrefused
    simp only [Bool.and_eq_true, Bool.not_eq_true'] at hrefused
    exact absurd (hguard hrefused.1) (by simp [hrefused.2])
  rw [changeFlags, hcheck]
  simp only [setFlags, if_neg hpasses]

/-- The target is as before, or such a change was made to it. -/
theorem changeFlags_cases (isMaster : Bool) (arg : Str) (user : User) :
    changeFlags isMaster arg user = user ∨
      ∃ action flags, checkFlags arg = .ok (action, flags) ∧
        (user.hasFlag .Siteop = true → isMaster = true) ∧
        changeFlags isMaster arg user = action.apply user flags := by
  by_cases hguard : user.hasFlag .Siteop = true → isMaster = true
  · cases hcheck : checkFlags arg with
    | error e => exact .inl (by rw [changeFlags, hcheck])
    | ok change => exact .inr ⟨change.1, change.2, rfl, hguard, changeFlags_apply hcheck hguard⟩
  · rw [Classical.not_imp, Bool.not_eq_true] at hguard
    obtain ⟨hsiteop, rfl⟩ := hguard
    exact .inl (changeFlags_siteop arg hsiteop)

/-- The default user comes out of every `-` and `=` that is made to him as the template. -/
theorem apply_template {user : User} {action : Action} (flags : Str) (hid : user.id = 1)
    (haction : action ≠ .add ∨ user.hasFlag .Template = true) :
    (action.apply user flags).hasFlag .Template = true := by
  cases action with
  | add =>
    rw [Action.apply, User.hasFlag_addFlags]
    exact .inl (haction.resolve_left fun h => h rfl)
  | del => exact keepTemplate_template hid
  | set => exact keepTemplate_template hid

theorem hasFlag_apply_set {user : User} {flags : Str} {f : Flag} (hf : f.char ∉ flags)
    (htemplate : f ≠ .Template) : (Action.set.apply user flags).hasFlag f = false := by
  rw [Action.apply, hasFlag_keepTemplate htemplate, Bool.eq_false_iff, ne_eq, User.hasFlag_setFlags]
  exact hf

/-- A flag that is neither named nor the template flag stays, unless `=` takes it away. -/
theorem hasFlag_apply {user : User} {action : Action} {flags : Str} {f : Flag} (hf : f.char ∉ flags)
    (htemplate : f ≠ .Template) (hset : action = .set → user.hasFlag f = false) :
    (action.apply user flags).hasFlag f = user.hasFlag f := by
  cases action with
  | add =>
    rw [Action.apply, Bool.eq_iff_iff, User.hasFlag_addFlags]
    exact or_iff_left hf
  | del => rw [Action.apply, hasFlag_keepTemplate htemplate, User.hasFlag_delFlags_of_notMem _ hf]
  | set => rw [hasFlag_apply_set hf htemplate, hset rfl]

/-- What the command is to leave alone. -/
structure Protected (isMaster : Bool) (user user' : User) : Prop where
  deleted : user'.hasFlag .Deleted = user.hasFlag .Deleted
  gadmin : user'.hasFlag .Gadmin = user.hasFlag .Gadmin
  siteop : user.hasFlag .Siteop = true → isMaster = false → ∀ f, user'.hasFlag f = user.hasFlag f
  template : user.id = 1 → user.hasFlag .Template = true → user'.hasFlag .Template = true

theorem Protected.refl (isMaster : Bool) (user : User) : Protected isMaster user user :=
  ⟨rfl, rfl, fun _ _ _ => rfl, fun _ h => h⟩

/-- An accepted `=` on a user who holds one of the two flags it cannot name. -/
structure Overwrites (isMaster : Bool) (arg : Str) (user : User) : Prop where
  arg : ∃ rest, arg = '=' :: rest ∧ Allowed (toUpperCopy rest)
  guard : user.hasFlag .Siteop = true → isMaster = true
  holds : user.hasFlag .Deleted = true ∨ user.hasFlag .Gadmin = true

theorem overwrites_effect {isMaster : Bool} {arg : Str} {user : User} (h : Overwrites isMaster arg user) :
    (changeFlags isMaster arg user).hasFlag .Deleted = false ∧
      (changeFlags isMaster arg user).hasFlag .Gadmin = false := by
  obtain ⟨rest, rfl, hallowed⟩ := h.arg
  have hcheck : checkFlags ('=' :: rest) = .ok (.set, toUpperCopy rest) :=
    (checkFlags_ok_iff _ _ _).mpr ⟨_, rest, rfl, rfl, rfl, hallowed⟩
  rw [changeFlags_apply hcheck h.guard]
  exact ⟨hasFlag_apply_set hallowed.deleted (by decide), hasFlag_apply_set hallowed.gadmin (by decide)⟩

theorem protected_of_not_overwrites {isMaster : Bool} {arg : Str} {user : User}
    (h : ¬ Overwrites isMaster arg user) : Protected isMaster user (changeFlags isMaster arg user) := by
  rcases changeFlags_cases isMaster arg user with hsame | ⟨action, flags, hcheck, hguard, hchange⟩
  · rw [hsame]
    exact Protected.refl _ _
  rw [hchange]
  obtain ⟨ch, rest, rfl, haction, rfl, hallowed⟩ := (checkFlags_ok_iff _ _ _).mp hcheck
  -- what `=` takes away was not there
  have hset : action = .set → user.hasFlag .Deleted = false ∧ user.hasFlag .Gadmin = false := by
    rintro rfl
    have hnone : ¬ (user.hasFlag .Deleted = true ∨ user.hasFlag .Gadmin = true) := by
      intro hholds
      exact h ⟨⟨rest, by rw [Action.ofChar_eq_some.mp haction]; rfl, hallowed⟩, hguard, hholds⟩
    simpa only [not_or, Bool.not_eq_true] using hnone
  exact {
    deleted := hasFlag_apply hallowed.deleted (by decide) fun h => (hset h).1
    gadmin := hasFlag_apply hallowed.gadmin (by decide) fun h => (hset h).2
    siteop := fun hs hm => absurd (hguard hs) (by simp [hm])
    template := fun hid htemplate => apply_template _ hid (.inr htemplate) }

/-- A change that gives the default user the template flag: any `-` or `=`, or a `+` that names it. -/
structure Restores (isMaster : Bool) (arg : Str) (user : User) : Prop where
  arg : ∃ action rest, arg = Action.char action :: rest ∧ Allowed (toUpperCopy rest) ∧
    (action = .add → Flag.Template.char ∈ toUpperCopy rest)
  guard : user.hasFlag .Siteop = true → isMaster = true

theorem template_iff (isMaster : Bool) (arg : Str) {user : User} (hid : user.id = 1) :
    (changeFlags isMaster arg user).hasFlag .Template = true ↔
      user.hasFlag .Template = true ∨ Restores isMaster arg user := by
  constructor
  · intro h
    rcases changeFlags_cases isMaster arg user with hsame | ⟨action, flags, hcheck, hguard, hchange⟩
    · exact .inl (hsame ▸ h)
    · obtain ⟨ch, rest, rfl, haction, rfl, hallowed⟩ := (checkFlags_ok_iff _ _ _).mp hcheck
      obtain rfl := Action.ofChar_eq_some.mp haction
      by_cases hhas : user.hasFlag .Template = true
      · exact .inl hhas
      · refine .inr ⟨⟨action, rest, rfl, hallowed, ?_⟩, hguard⟩
        rintro rfl
        rw [hchange, Action.apply, User.hasFlag_addFlags] at h
        exact h.resolve_left hhas
  · rintro (hhas | hrestores)
    · rcases changeFlags_cases isMaster arg user with hsame | ⟨action, flags, -, -, hchange⟩
      · rwa [hsame]
      · rw [hchange]
        exact apply_template _ hid (.inr hhas)
    · obtain ⟨action, rest, rfl, hallowed, hnames⟩ := hrestores.arg
      have hcheck : checkFlags (action.char :: rest) = .ok (action, toUpperCopy rest) :=
        (checkFlags_ok_iff _ _ _).mpr ⟨_, rest, rfl, Action.ofChar_eq_some.mpr rfl, rfl, hallowed⟩
      rw [changeFlags_apply hcheck hrestores.guard]
      by_cases hadd : action = .add
      · subst hadd
        exact (User.hasFlag_addFlags _ _ _).mpr (.inr (hnames rfl))
      · exact apply_template _ hid (.inl hadd)

/-- `SITE CHANGE` leaves alone what it is to leave alone, except where a `=` passes and the target is
deleted or a group admin. -/
theorem protected_iff (isMaster : Bool) (arg : Str) (user : User) :
    (Protected isMaster user (changeFlags isMaster arg user) ↔ ¬ Overwrites isMaster arg user) ∧
      (user.id = 1 → ((changeFlags isMaster arg user).hasFlag .Template = true ↔
        user.hasFlag .Template = true ∨ Restores isMaster arg user)) := by
  refine ⟨⟨?_, protected_of_not_overwrites⟩, template_iff isMaster arg⟩
  intro hprotected hover
  obtain ⟨hdeleted, hgadmin⟩ := overwrites_effect hover
  rcases hover.holds with hholds | hholds
  · rw [← hprotected.deleted, hdeleted] at hholds
    cases hholds
  · rw [← hprotected.gadmin, hgadmin] at hholds
    cases hholds

/-- `SITE CHANGE default flags -3`: the template flag stays. -/
theorem change_default :
    let default : User := { id := 1, name := "default".toList, flags := "3".toList }
    default.id = 1 ∧ Restores false "-3".toList default ∧
      (changeFlags false "-3".toList default).hasFlag .Template = true := by
  intro default
  have hrestores : Restores false "-3".toList default :=
    ⟨⟨.del, "3".toList, rfl, ⟨by decide, by decide, by decide, by decide⟩, fun h => by cases h⟩,
      fun h => absurd h (by decide)⟩
  exact ⟨rfl, hrestores, ((protected_iff false "-3".toList default).2 rfl).mpr (.inr hrestores)⟩

/-- `SITE CHANGE bob flags =5` on a deleted bob, who is not deleted any more. -/
theorem change_undeletes :
    let bob : User := { id := 7, name := "bob".toList, flags := "6".toList }
    bob.hasFlag .Deleted = true ∧ (changeFlags false "=5".toList bob).hasFlag .Deleted = false ∧
      ¬ Protected false bob (changeFlags false "=5".toList bob) := by
  intro bob
  have hafter : (changeFlags false "=5".toList bob).hasFlag .Deleted = false := by decide
  refine ⟨by decide, hafter, fun hprotected => ?_⟩
  have hsame := hprotected.deleted
  rw [hafter] at hsame
  exact absurd hsame (by decide)

end Change
end Cmd
end Ebftpd
