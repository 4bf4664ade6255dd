import Ebftpd.Cmd.Nuking

/-!
# Ebftpd.Cmd.NukeOwners

`TakeCredits` of `SITE NUKE` (`src/cmd/site/nuking.cpp`) where owners of files have no user record. The loop over
the owners of an empty nuke looks whether a user was loaded before it uses him; that of `TakeCreditsNotEmpty`
looks only behind the use. The command does not get behind the use of an absent user, and the credits that were
taken before it stay taken.

* `takeNotEmpty_cases`: the loop ends behind the last owner, or at the first who is not loaded.
* `useCredits_absent`: what is taken when it does not complete.
* `survives_iff`: when it completes, and charges the owners who exist.
-/

namespace Ebftpd
namespace Cmd
namespace Nuking

open Util Lib Lib.Cells Acl Db

/-- How `TakeCredits` ends: behind the last nukee, or at the use of a user who was not loaded. -/
inductive Ending where
  | done (users : Users) (nukees : Nukees)
  | absent (uid : UserID) (users : Users)

/-- A nukee who was dealt with before the rest of them. -/
def Ending.cons (kv : UserID × Nukee) : Ending → Ending
  | .done users nukees => .done users (kv :: nukees)
  | .absent uid users => .absent uid users

def Ending.isDone : Ending → Bool
  | .done .. => true
  | .absent .. => false

section

variable (cfg : Cfg.Config) (gidToName : GroupID → Str) (path : Str) (multiplier : Int) (isPercent : Bool)

/-- `TakeCreditsNotEmpty`: either way of charging uses the user. -/
def takeNotEmpty : Users → Nukees → Ending
  | users, [] => .done users []
  | users, (uid, n) :: rest =>
    match users.loadUID uid with
    | none => .absent uid users
    | some user =>
      let credits := chargeNotEmpty cfg gidToName path multiplier isPercent (some user) n
      (takeNotEmpty (decrSectionCreditsForce users uid (creditsSection cfg path) credits) rest).cons
        (uid, { n with credits := credits })

/-- `TakeCredits`, with every use of a user. -/
def useCredits (users : Users) (calls : NukeCalls) : Ending :=
  if multiplier ≠ 0 ∧ !isEmptyNuke cfg calls then
    takeNotEmpty cfg gidToName path multiplier isPercent users (calculateNukees calls.entries)
  else
    let r := takeCredits cfg gidToName path multiplier isPercent users calls
    .done r.1 r.2

/-- The command completes, and takes from every owner who exists what he is charged for the files of his own. -/
def Survives (users : Users) (calls : NukeCalls) : Prop :=
  ∃ users' nukees, useCredits cfg gidToName path multiplier isPercent users calls = .done users' nukees ∧
    ∀ uid user, users.loadUID uid = some user →
      let n := inDirectory calls.entries uid
      let credits := chargeOf cfg gidToName path multiplier isPercent calls (some user) n
      if uid ∈ keys (charged cfg multiplier calls) then
        nukees.lookup uid = some { n with credits := credits } ∧
          users'.loadUID uid = some { user with
            credits := (decrCredits true user.credits (creditsSection cfg path) credits true).2 }
      else users'.loadUID uid = some user

end

section Spec

variable {cfg : Cfg.Config} {gidToName : GroupID → Str} {path : Str} {multiplier : Int} {isPercent : Bool}

theorem loadUID_decr (users : Users) (uid : UserID) (sec : Str) (kBytes : Int) (u : UserID) :
    ((decrSectionCreditsForce users uid sec kBytes).loadUID u).isSome = (users.loadUID u).isSome := by
  rw [decrSectionCreditsForce, Users.loadUID_written, Option.isSome_map]

/-- The loop does what it does without a look at the users, up to the first who is not there. -/
theorem takeNotEmpty_cases (nukees : Nukees) :
    ∀ users : Users,
      let charge := chargeNotEmpty cfg gidToName path multiplier isPercent
      let sec := creditsSection cfg path
      ((∀ uid ∈ keys nukees, (users.loadUID uid).isSome = true) ∧
        takeNotEmpty cfg gidToName path multiplier isPercent users nukees =
          .done (takeLoop charge sec users nukees).1 (takeLoop charge sec users nukees).2) ∨
      ∃ before uid n rest, nukees = before ++ (uid, n) :: rest ∧ users.loadUID uid = none ∧
        (∀ u ∈ keys before, (users.loadUID u).isSome = true) ∧
        takeNotEmpty cfg gidToName path multiplier isPercent users nukees =
          .absent uid (takeLoop charge sec users before).1 := by
  induction nukees with
  | nil => exact fun users => .inl ⟨by simp [keys], rfl⟩
  | cons kv nukees ih =>
    obtain ⟨uid, n⟩ := kv
    intro users charge sec
    rw [takeNotEmpty]
    cases hload : users.loadUID uid with
    | none => exact .inr ⟨[], uid, n, nukees, rfl, hload, by simp [keys], rfl⟩
    | some user =>
      have hsome : ∀ names : Nukees, (∀ u ∈ keys names, (users.loadUID u).isSome = true) →
          ∀ u ∈ keys ((uid, n) :: names), (users.loadUID u).isSome = true := by
        intro names hnames u hu
        rcases List.mem_cons.mp hu with rfl | hu
        · rw [hload]
          rfl
        · exact hnames u hu
      have hloop : ∀ names : Nukees, takeLoop charge sec users ((uid, n) :: names) =
          ((takeLoop charge sec (decrSectionCreditsForce users uid sec (charge (some user) n)) names).1,
            (uid, { n with credits := charge (some user) n }) ::
              (takeLoop charge sec (decrSectionCreditsForce users uid sec (charge (some user) n)) names).2) := by
        intro names
        rw [takeLoop, hload]
      rcases ih (decrSectionCreditsForce users uid sec (charge (some user) n)) with
        ⟨hall, hdone⟩ | ⟨before, u, m, rest, rfl, hnone, hbefore, habsent⟩
      · simp only [loadUID_decr] at hall
        refine .inl ⟨hsome nukees hall, ?_⟩
        rw [hloop]
        exact congrArg (Ending.cons _) hdone
      · simp only [loadUID_decr] at hbefore
        rw [← Option.isNone_iff_eq_none, ← Option.not_isSome, loadUID_decr, Option.not_isSome,
          Option.isNone_iff_eq_none] at hnone
        refine .inr ⟨(uid, n) :: before, u, m, rest, rfl, hnone, hsome before hbefore, ?_⟩
        rw [hloop]
        exact congrArg (Ending.cons _) habsent

/-- When no absent user is used, `TakeCredits` does what it does without a look at the users. -/
theorem useCredits_done {users : Users} {calls : NukeCalls}
    (h : multiplier = 0 ∨ isEmptyNuke cfg calls = true ∨
      ∀ e ∈ counted calls.entries, (users.loadUID e.owner).isSome = true) :
    useCredits cfg gidToName path multiplier isPercent users calls =
      .done (takeCredits cfg gidToName path multiplier isPercent users calls).1
        (takeCredits cfg gidToName path multiplier isPercent users calls).2 := by
  unfold useCredits
  split
  · rename_i hfull
    obtain ⟨hmul, hfull⟩ := hfull
    rw [Bool.not_eq_true'] at hfull
    have hall := (h.resolve_left hmul).resolve_left (by rw [hfull]; simp)
    rcases takeNotEmpty_cases (calculateNukees calls.entries) users with
      ⟨-, hdone⟩ | ⟨before, uid, n, rest, hsplit, hnone, -⟩
    · rw [hdone, takeCredits, if_neg hmul, if_neg (by rw [hfull]; simp)]
    · -- the one who is not loaded owns a file
      have huid : uid ∈ keys (calculateNukees calls.entries) := by
        rw [hsplit]
        simp [keys]
      obtain ⟨e, he, rfl⟩ := mem_keys_calculateNukees.mp huid
      have hsome := hall e he
      rw [hnone] at hsome
      cases hsome
  · rfl

/-- What is taken at the use of an absent user: the charges of those who come before him. -/
theorem useCredits_absent {users users' : Users} {calls : NukeCalls} {uid : UserID}
    (h : useCredits cfg gidToName path multiplier isPercent users calls = .absent uid users') :
    users.loadUID uid = none ∧ ∀ u, users'.loadUID u =
      (users.loadUID u).map
        (changed (takenFrom (chargeNotEmpty cfg gidToName path multiplier isPercent) (creditsSection cfg path))
          ((calculateNukees calls.entries).filter (·.1 < uid))) := by
  unfold useCredits at h
  split at h
  · rcases takeNotEmpty_cases (calculateNukees calls.entries) users with
      ⟨-, hdone⟩ | ⟨before, u, n, rest, hsplit, hnone, -, habsent⟩
    · rw [hdone] at h
      cases h
    · rw [habsent] at h
      obtain ⟨rfl, rfl⟩ := Ending.absent.inj h
      have hsorted := calculateNukees_sorted calls.entries
      have hdistinct := hsorted.distinct
      rw [Sorted, hsplit, keys, List.map_append, List.map_cons, List.pairwise_append, List.pairwise_cons] at hsorted
      rw [Distinct, hsplit, keys, List.map_append] at hdistinct
      obtain ⟨-, ⟨hrest, -⟩, hbefore⟩ := hsorted
      have hfilter : (calculateNukees calls.entries).filter (·.1 < u) = before := by
        rw [hsplit, List.filter_append, List.filter_cons, List.filter_eq_self.mpr, List.filter_eq_nil_iff.mpr]
        · simp
        · intro kv hkv
          have hlt := hrest kv.1 (List.mem_map_of_mem hkv)
          simpa using hlt.le
        · intro kv hkv
          simpa using hbefore kv.1 (List.mem_map_of_mem hkv) u List.mem_cons_self
      rw [hfilter]
      exact ⟨hnone, (takeLoop_spec _ _ before users (List.Nodup.of_append_left hdistinct)).2⟩
  · cases h

/-- `TakeCredits` survives missing owners when it takes nothing, in an empty nuke, and when there are none. -/
theorem survives_iff (users : Users) (calls : NukeCalls) :
    Survives cfg gidToName path multiplier isPercent users calls ↔
      multiplier = 0 ∨ isEmptyNuke cfg calls = true ∨
        ∀ e ∈ counted calls.entries, (users.loadUID e.owner).isSome = true := by
  constructor
  · rintro ⟨users', nukees, hdone, -⟩
    by_cases hmul : multiplier = 0
    · exact .inl hmul
    · cases hfull : isEmptyNuke cfg calls with
      | true => exact .inr (.inl rfl)
      | false =>
        rw [useCredits, if_pos ⟨hmul, by rw [hfull]; rfl⟩] at hdone
        rcases takeNotEmpty_cases (calculateNukees calls.entries) users with
          ⟨hall, -⟩ | ⟨before, uid, n, rest, -, -, -, habsent⟩
        · exact .inr (.inr fun e he => hall e.owner (mem_keys_calculateNukees.mpr ⟨e, he, rfl⟩))
        · rw [habsent] at hdone
          cases hdone
  · intro h
    obtain ⟨hnukees, husers⟩ := @takeCredits_spec cfg gidToName path multiplier isPercent users calls
    refine ⟨_, _, useCredits_done h, fun uid user hload => ?_⟩
    rw [hnukees, husers, hload]
    have hid := Users.loadUID_id hload
    split
    · rename_i huid
      obtain ⟨kv, hkv, rfl⟩ := List.mem_map.mp huid
      have hlookup := lookup_of_mem (charged_distinct calls) hkv
      have hown := mem_charged hkv
      rw [hown] at hlookup
      refine ⟨(recorded_lookup users calls kv.1).trans ?_, ?_⟩
      · rw [hlookup, hload]
        rfl
      · rw [Option.map_some, changed, hid, hlookup]
        rfl
    · rename_i huid
      rw [Option.map_some, changed_of_not_mem (hid ▸ huid)]

/-- The second of two owners was purged. -/
theorem nuke_purged_owner :
    ¬ Survives (exampleSite false) (fun _ => []) "/mp3/x".toList 3 false exampleOwners (exampleNuke [1, 5]) := by
  rintro ⟨users', nukees, hdone, -⟩
  have hnot : (useCredits (exampleSite false) (fun _ => []) "/mp3/x".toList 3 false exampleOwners
      (exampleNuke [1, 5])).isDone = false := by decide
  rw [hdone] at hnot
  cases hnot

end Spec

end Nuking
end Cmd
end Ebftpd
