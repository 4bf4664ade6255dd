import Ebftpd.Acl.Misc
import Ebftpd.Cfg.Util
import Ebftpd.Db.Credits

/-!
# Ebftpd.Cmd.Give

`SITE GIVE` (`src/cmd/site/commands.cpp`). A user who may only `giveown` pays from his own credits:
an unforced decrement of his section, then an increment of the recipient's. The database holds the
credits of every user; its commands succeed, and the task of the increment runs to its end.

The amount comes from `ParseSize` and may be negative there, when the unit multiplied the number
over the end of `long long`. A negative amount is taken from the giver by adding to his balance.

* `give_done`: everything the command can do to the balances.
* `give_conserves_iff`: it conserves credits exactly when no such amount goes through.
-/

namespace Ebftpd
namespace Cmd

open Util Lib Lib.Cells Acl Acl.Path Db

abbrev Docs := UserID → Credits

def Docs.set (docs : Docs) (uid : UserID) (credits : Credits) : Docs :=
  fun u => if u = uid then credits else docs u

@[simp] theorem Docs.set_self (docs : Docs) (uid : UserID) (credits : Credits) :
    docs.set uid credits uid = credits := by
  simp [Docs.set]

theorem Docs.set_of_ne {docs : Docs} {uid u : UserID} (h : u ≠ uid) (credits : Credits) :
    docs.set uid credits u = docs u := by
  simp [Docs.set, h]

inductive GiveReply where
  | syntaxError
  | noSection (sec : Str)
  | noSeparateCredits (sec : Str)
  | noUser (name : Str)
  | leech
  | notEnough
  | given (taken : Bool) (credits : Int) (name sec : Str)
  deriving DecidableEq

variable (env : Env) (load : Str → Option User)

def giveSection (sec : Str) : Except GiveReply Str :=
  match env.cfg.sections.find? (·.name = sec) with
  | none => .error (.noSection sec)
  | some it => if !it.separateCredits then .error (.noSeparateCredits sec) else .ok sec

def giveUser (sec name credits : Str) : Except GiveReply (Str × User × Int) :=
  match load name with
  | none => .error (.noUser name)
  | some user =>
    match Cfg.parseSize credits with
    | none => .error .syntaxError
    | some credits => .ok (sec, user, credits)

/-- The arguments of `SITE GIVE [-s <section>] <user> <credits>`: the section, the recipient and
the amount. Fewer than two arguments do not pass `CheckArgs`. -/
def giveArgs : List Str → Except GiveReply (Str × User × Int)
  | _ :: arg1 :: arg2 :: rest =>
    if toLowerCopy arg1 = "-s".toList then
      match rest with
      | arg3 :: arg4 :: _ =>
        match giveSection env (toUpperCopy arg2) with
        | .error reply => .error reply
        | .ok sec => giveUser load sec arg3 arg4
      | _ => .error .syntaxError
    else giveUser load [] arg1 arg2
  | _ => .error .syntaxError

/-- Whether the giver pays himself. -/
def own : Bool := allowSiteCmd env "giveown".toList && !allowSiteCmd env "give".toList

/-- Whether the giver's ratio on a section makes his credits worthless. -/
def hasLeech (sec : Str) : Bool :=
  env.user.sectionRatio sec == 0 || (env.user.sectionRatio sec == -1 && env.user.defaultRatio == 0)

/-- `GIVECommand::Execute`. -/
def give (docs : Docs) (args : List Str) : GiveReply × Docs :=
  match giveArgs env load args with
  | .error reply => (reply, docs)
  | .ok (sec, user, credits) =>
    if own env then
      if hasLeech env sec then (.leech, docs)
      else
        match decrCredits true (docs env.user.id) sec credits false with
        | (false, _) => (.notEnough, docs)
        | (true, doc) =>
          let docs := docs.set env.user.id doc
          (.given true credits user.name sec,
            docs.set user.id (incrCredits (docs user.id) sec credits))
    else
      (.given false credits user.name sec,
        docs.set user.id (incrCredits (docs user.id) sec credits))

/-- No balance changes, or `n` goes from the giver to the user named, on the section named. -/
def Conserves (docs : Docs) (args : List Str) (docs' : Docs) : Prop :=
  (∀ uid j, value (docs' uid) j = value (docs uid) j) ∨
  ∃ sec user credits n, giveArgs env load args = .ok (sec, user, credits) ∧ 0 ≤ n ∧
    ∀ uid j, value (docs' uid) j =
      value (docs uid) j - (if uid = env.user.id ∧ j = sec then n else 0) +
        (if uid = user.id ∧ j = sec then n else 0)

/-- A wrapped amount goes through: the number times its unit is negative as a `long long`, the
giver has the section and no less than that amount on it, and what is added to his balance does
not come back as his own increment. -/
def WrappedAmount (docs : Docs) (args : List Str) : Prop :=
  ∃ sec user credits, giveArgs env load args = .ok (sec, user, credits) ∧
    credits < 0 ∧ hasLeech env sec = false ∧ sec ∈ keys (docs env.user.id) ∧
    value (docs env.user.id) sec ≥ credits ∧ (user.id ≠ env.user.id ∨ credits = llongMin)

variable {env load}

theorem giveUser_bounds {sec' name text sec : Str} {user : User} {credits : Int}
    (h : giveUser load sec' name text = .ok (sec, user, credits)) :
    llongMin ≤ credits ∧ credits ≤ llongMax := by
  simp only [giveUser] at h
  split at h
  · cases h
  · split at h
    · cases h
    · rename_i hparse
      cases h
      exact Cfg.parseSize_bounds hparse

theorem giveArgs_bounds {args : List Str} {sec : Str} {user : User} {credits : Int}
    (h : giveArgs env load args = .ok (sec, user, credits)) :
    llongMin ≤ credits ∧ credits ≤ llongMax := by
  unfold giveArgs at h
  split at h
  · split at h
    · split at h
      · split at h
        · cases h
        · exact giveUser_bounds h
      · cases h
    · exact giveUser_bounds h
  · cases h

/-! ## What the command does to the balances -/

section Balances

variable {docs : Docs} (hdocs : ∀ uid, Distinct (docs uid))

include hdocs

/-- The giver's document after an unforced decrement that returned true. -/
theorem decr_taken {uid : UserID} {sec : Str} {credits : Int} {doc : Credits}
    (h : decrCredits true (docs uid) sec credits false = (true, doc)) :
    Distinct doc ∧ (∀ j, value doc j = value (docs uid) j + if j = sec then wrap64 (-credits) else 0) ∧
      (credits ≠ 0 → sec ∈ keys (docs uid) ∧ value (docs uid) sec ≥ credits) := by
  unfold decrCredits at h
  split at h
  · rename_i h0
    cases h
    refine ⟨hdocs uid, fun j => ?_, fun hne => absurd h0 hne⟩
    subst h0
    have : wrap64 0 = 0 := by decide
    simp [this]
  · simp only [Bool.not_true, Bool.false_eq_true, if_false] at h
    split at h
    · rename_i hcmd
      cases h
      have hfound := (decrCommand_isSome_iff (hdocs uid) sec false).mp ⟨_, hcmd⟩
      refine ⟨?_, addFirst_value decrQuery_query (hdocs uid) hcmd, fun _ => ?_⟩
      · rw [Distinct, addFirst_keys hcmd]
        exact hdocs uid
      · simpa using hfound
    · cases h

theorem decr_refused {uid : UserID} {sec : Str} {credits : Int} {doc : Credits}
    (h : decrCredits true (docs uid) sec credits false = (false, doc)) :
    ¬(sec ∈ keys (docs uid) ∧ value (docs uid) sec ≥ credits) := by
  unfold decrCredits at h
  split at h
  · cases h
  · simp only [Bool.not_true, Bool.false_eq_true, if_false] at h
    split at h
    · cases h
    · rename_i hcmd
      intro hfound
      obtain ⟨_, hsome⟩ := (decrCommand_isSome_iff (hdocs uid) sec false).mpr ⟨hfound.1, .inr hfound.2⟩
      rw [hcmd] at hsome
      cases hsome

/-- Everything the command of a giver who pays himself can do: nothing, or take the amount from
the giver's section and add it to the recipient's, the two as `long long`. -/
theorem give_done (hown : own env = true) (args : List Str) :
    ((give env load docs args).2 = docs ∧
      (∀ sec user credits, giveArgs env load args = .ok (sec, user, credits) →
        hasLeech env sec = true ∨
          ¬(sec ∈ keys (docs env.user.id) ∧ value (docs env.user.id) sec ≥ credits))) ∨
    ∃ sec user credits, giveArgs env load args = .ok (sec, user, credits) ∧
      hasLeech env sec = false ∧
      (credits ≠ 0 → sec ∈ keys (docs env.user.id) ∧ value (docs env.user.id) sec ≥ credits) ∧
      ∀ uid j, value ((give env load docs args).2 uid) j =
        value (docs uid) j + (if uid = env.user.id ∧ j = sec then wrap64 (-credits) else 0) +
          (if uid = user.id ∧ j = sec then credits else 0) := by
  unfold give
  cases hargs : giveArgs env load args with
  | error reply => exact .inl ⟨rfl, by rintro _ _ _ ⟨⟩⟩
  | ok r =>
    obtain ⟨sec, user, credits⟩ := r
    simp only [hown, if_true]
    cases hleech : hasLeech env sec with
    | true => exact .inl ⟨rfl, by rintro _ _ _ ⟨⟩; exact .inl hleech⟩
    | false =>
      simp only [Bool.false_eq_true, if_false]
      cases hdecr : decrCredits true (docs env.user.id) sec credits false with
      | mk ok doc =>
        cases ok with
        | false => exact .inl ⟨rfl, by rintro _ _ _ ⟨⟩; exact .inr (decr_refused hdocs hdecr)⟩
        | true =>
          obtain ⟨hdist, hvalue, hfound⟩ := decr_taken hdocs hdecr
          refine .inr ⟨sec, user, credits, rfl, hleech, hfound, fun uid j => ?_⟩
          have htaken : ∀ u, value ((docs.set env.user.id doc) u) j =
              value (docs u) j + if u = env.user.id ∧ j = sec then wrap64 (-credits) else 0 := by
            intro u
            by_cases hu : u = env.user.id
            · simp [hu, hvalue]
            · simp [Docs.set_of_ne hu, hu]
          have hdist' : Distinct ((docs.set env.user.id doc) user.id) := by
            simp only [Docs.set]
            split
            · exact hdist
            · exact hdocs _
          rw [← htaken]
          by_cases hu : uid = user.id
          · subst hu
            simpa using incrCredits_value _ sec credits j
          · simp [Docs.set_of_ne hu, hu]

end Balances

/-- The amount as the giver's change: the negation of a `long long`, except of the least one. -/
theorem wrap64_neg_cases {k : Int} (hk : llongMin ≤ k ∧ k ≤ llongMax) :
    k ≠ llongMin ∧ wrap64 (-k) = -k ∨ k = llongMin ∧ wrap64 (-k) = llongMin := by
  by_cases hmin : k = llongMin
  · subst hmin
    exact .inr ⟨rfl, by decide⟩
  · exact .inl ⟨hmin, wrap64_neg ⟨by omega, hk.2⟩⟩

/-- For a giver restricted to his own credits, `SITE GIVE` conserves credits exactly when no
wrapped amount goes through. -/
theorem give_conserves_iff (hown : own env = true) {docs : Docs} (hdocs : ∀ uid, Distinct (docs uid))
    (args : List Str) :
    Conserves env load docs args (give env load docs args).2 ↔ ¬ WrappedAmount env load docs args := by
  rcases @give_done env load docs hdocs hown args with
    ⟨hsame, hno⟩ | ⟨sec, user, credits, hargs, hleech, hfound, hvalue⟩
  · -- nothing was done
    rw [hsame]
    refine ⟨fun _ => ?_, fun _ => .inl fun _ _ => rfl⟩
    rintro ⟨sec, user, credits, hargs, _, hleech, hmem, hge, _⟩
    rcases hno sec user credits hargs with h | h
    · rw [hleech] at h; cases h
    · exact h ⟨hmem, hge⟩
  · have hbounds := giveArgs_bounds hargs
    rcases lt_or_ge credits 0 with hneg | hpos
    · obtain ⟨hmem, hge⟩ := hfound (by omega)
      constructor
      · -- what the giver's and the recipient's balances show
        rintro hcons ⟨sec', user', credits', hargs', -, -, -, -, hbad⟩
        rw [hargs] at hargs'
        cases hargs'
        have hgiver := hvalue env.user.id sec
        have hrecip := hvalue user.id sec
        simp only [and_true, if_true] at hgiver hrecip
        rcases hcons with hsame | ⟨sec', user', credits', n, hargs', hn, heq⟩
        · rw [hsame] at hgiver hrecip
          rcases wrap64_neg_cases hbounds with ⟨hmin, hw⟩ | ⟨hmin, hw⟩
          · have hne := hbad.resolve_right hmin
            rw [if_neg hne.symm, hw] at hgiver
            omega
          · rw [hw] at hgiver
            simp only [llongMin] at hmin hgiver
            split at hgiver <;> omega
        · rw [hargs] at hargs'
          cases hargs'
          have hg := heq env.user.id sec
          have hr := heq user.id sec
          simp only [and_true, if_true] at hg hr
          rcases wrap64_neg_cases hbounds with ⟨hmin, hw⟩ | ⟨hmin, hw⟩
          · have hne := hbad.resolve_right hmin
            rw [if_neg hne.symm] at hgiver hg
            omega
          · by_cases hu : user.id = env.user.id
            · rw [if_pos hu.symm] at hgiver hg
              simp only [llongMin] at *
              omega
            · rw [if_neg hu] at hrecip hr
              omega
      · intro hno
        -- given to himself: the two changes cancel
        have hself : user.id = env.user.id ∧ credits ≠ llongMin := by
          by_contra hc
          refine hno ⟨sec, user, credits, hargs, hneg, hleech, hmem, hge, ?_⟩
          by_cases hu : user.id = env.user.id
          · exact .inr (by by_contra hm; exact hc ⟨hu, hm⟩)
          · exact .inl hu
        left
        intro uid j
        have hw := wrap64_neg ⟨lt_of_le_of_ne hbounds.1 hself.2.symm, hbounds.2⟩
        rw [hvalue, hself.1, hw]
        split <;> omega
    · refine ⟨?_, fun _ => .inr ⟨sec, user, credits, credits, hargs, hpos, ?_⟩⟩
      · rintro - ⟨_, _, _, hargs', hlt, -⟩
        rw [hargs] at hargs'
        cases hargs'
        omega
      · intro uid j
        have hw := wrap64_neg (k := credits) ⟨by simp only [llongMin]; omega, hbounds.2⟩
        rw [hvalue, hw]
        split <;> omega

def exampleGiver : Env where
  cfg :=
    { sitepath := "/site".toList
      commandACLs := [("giveown".toList, ACL.fromString "*".toList)]
      tlsControl := ACL.fromString "!*".toList
      maxOnline := ⟨10, 0⟩
      wildcardMatch := fun _ _ => false }
  user := { id := 1, name := "alice".toList }
  gidToName := fun _ => []

def exampleBob : User := { id := 2, name := "bob".toList }

def exampleLoad (name : Str) : Option User := if name = "bob".toList then some exampleBob else none

def exampleDocs : Docs := fun uid => if uid = 1 then [([], 100)] else [([], 50)]

theorem exampleDocs_distinct (uid : UserID) : Distinct (exampleDocs uid) := by
  simp only [exampleDocs]
  split <;> simp [Distinct, keys]

/-- `SITE GIVE bob 30`. -/
theorem give_thirty :
    let args := ["GIVE".toList, "bob".toList, "30".toList]
    Conserves exampleGiver exampleLoad exampleDocs args
        (give exampleGiver exampleLoad exampleDocs args).2 ∧
      value ((give exampleGiver exampleLoad exampleDocs args).2 1) [] = 70 ∧
      value ((give exampleGiver exampleLoad exampleDocs args).2 2) [] = 80 := by
  intro args
  refine ⟨(give_conserves_iff (by decide) exampleDocs_distinct args).mpr ?_, by decide, by decide⟩
  rintro ⟨sec, user, credits, hargs, hneg, -⟩
  have : giveArgs exampleGiver exampleLoad args = .ok ([], exampleBob, 30) := by decide
  rw [this] at hargs
  cases hargs
  omega

/-- `SITE GIVE bob 18014398509481983M`: the amount is -1024, so user 1 ends up with 1124 kilobytes
and bob with -974. -/
theorem give_wrapped :
    let args := ["GIVE".toList, "bob".toList, "18014398509481983M".toList]
    own exampleGiver = true ∧
      value ((give exampleGiver exampleLoad exampleDocs args).2 1) [] = 1124 ∧
      value ((give exampleGiver exampleLoad exampleDocs args).2 2) [] = -974 ∧
      ¬ Conserves exampleGiver exampleLoad exampleDocs args
        (give exampleGiver exampleLoad exampleDocs args).2 := by
  intro args
  have hgiver : value ((give exampleGiver exampleLoad exampleDocs args).2 1) [] = 1124 := by decide
  have hbefore : value (exampleDocs 1) [] = 100 := by decide
  refine ⟨by decide, hgiver, by decide, ?_⟩
  rintro (hsame | ⟨sec, user, credits, n, hargs, hn, heq⟩)
  · have := hsame 1 []
    omega
  · have hparse : giveArgs exampleGiver exampleLoad args = .ok ([], exampleBob, -1024) := by
      decide +kernel
    rw [hparse] at hargs
    cases hargs
    have := heq 1 []
    have hne : (1 : UserID) ≠ exampleBob.id := by decide
    have hself : (1 : UserID) = exampleGiver.user.id := rfl
    rw [hgiver, hbefore, if_pos ⟨hself, rfl⟩, if_neg (fun h => hne h.1)] at this
    omega

end Cmd
end Ebftpd
