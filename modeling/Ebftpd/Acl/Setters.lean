import Ebftpd.Acl.Group
import Ebftpd.Acl.Membership
import Ebftpd.Lib.Transaction

/-!
# Ebftpd.Acl.Setters

The mutators of `acl::User` and `acl::Group` (`src/acl/user.cpp`, `src/acl/group.cpp`) with their
saves (`src/db/user/user.cpp`, `src/db/group/group.cpp`). Most of them are a `setter`: a
`Transaction` on each field that changes, the change, and the save of these fields.

The functions that change a group list save the three fields of `SaveGIDs` together. A call that has
nothing to do returns before it changes or saves anything.

* `userMutator_law_iff`, `groupMutator_law_iff`: when a mutator leaves the record as it was where its
  save throws, and else changes and saves the fields it names.
* `setters_law_iff`: both together.
-/

namespace Ebftpd
namespace Acl

open Util Lib Prog

/-- The fields of a user by the names they have in the collection. -/
inductive User.Field where
  | name | ipMasks | password | salt | flags | primaryGid | secondaryGids | gadminGids
  | weeklyAllotment | homeDir | startUpDir | idleTime | expires | numLogins | comment | tagline
  | maxDownSpeed | maxUpSpeed | maxSimDown | maxSimUp | loggedIn | lastLogin | ratio

def User.Field.copy (a b : User) : User.Field → User
  | .name => { b with name := a.name }
  | .ipMasks => { b with ipMasks := a.ipMasks }
  | .password => { b with password := a.password }
  | .salt => { b with salt := a.salt }
  | .flags => { b with flags := a.flags }
  | .primaryGid => { b with primaryGid := a.primaryGid }
  | .secondaryGids => { b with secondaryGids := a.secondaryGids }
  | .gadminGids => { b with gadminGids := a.gadminGids }
  | .weeklyAllotment => { b with weeklyAllotment := a.weeklyAllotment }
  | .homeDir => { b with homeDir := a.homeDir }
  | .startUpDir => { b with startUpDir := a.startUpDir }
  | .idleTime => { b with idleTime := a.idleTime }
  | .expires => { b with expires := a.expires }
  | .numLogins => { b with numLogins := a.numLogins }
  | .comment => { b with comment := a.comment }
  | .tagline => { b with tagline := a.tagline }
  | .maxDownSpeed => { b with maxDownSpeed := a.maxDownSpeed }
  | .maxUpSpeed => { b with maxUpSpeed := a.maxUpSpeed }
  | .maxSimDown => { b with maxSimDown := a.maxSimDown }
  | .maxSimUp => { b with maxSimUp := a.maxSimUp }
  | .loggedIn => { b with loggedIn := a.loggedIn }
  | .lastLogin => { b with lastLogin := a.lastLogin }
  | .ratio => { b with ratio := a.ratio }

instance : Record User.Field User where
  copy f a b := f.copy a b
  copy_self f a := by cases f <;> rfl

inductive Group.Field where
  | name | description | comment | slots | leechSlots | allotmentSlots | maxAllotmentSize | maxLogins

def Group.Field.copy (a b : Group) : Group.Field → Group
  | .name => { b with name := a.name }
  | .description => { b with description := a.description }
  | .comment => { b with comment := a.comment }
  | .slots => { b with slots := a.slots }
  | .leechSlots => { b with leechSlots := a.leechSlots }
  | .allotmentSlots => { b with allotmentSlots := a.allotmentSlots }
  | .maxAllotmentSize => { b with maxAllotmentSize := a.maxAllotmentSize }
  | .maxLogins => { b with maxLogins := a.maxLogins }

instance : Record Group.Field Group where
  copy f a b := f.copy a b
  copy_self f a := by cases f <;> rfl

/-! ## The mutators of a user -/

namespace UserSetters

variable (ipMatch : Str → Str → Bool) (hashPassword : Str → Str → Str)

def gidFields : List User.Field := [.primaryGid, .secondaryGids, .gadminGids]

/-- A field with a transaction of its own. -/
def setField (field : User.Field) (g : User → User) : Prog User := setter [field] [field] g

def rename (name : Str) : Prog User := renameWith .name fun user => { user with name := name }

def addIPMask (ipMask : Str) : Prog User :=
  cond (fun user => user.ipMasks.any (ipMatch · ipMask)) skip
    (setter [] [.ipMasks] fun user => (user.addIPMask ipMatch ipMask).getD user)

def delIPMask (ipMask : Str) : Prog User :=
  cond (fun user => user.ipMasks.contains ipMask)
    (setter [] [.ipMasks] fun user => { user with ipMasks := user.ipMasks.erase ipMask }) skip

/-- `DelIPMask` of an index, which is verified to be one. -/
def delIPMaskAt (index : Nat) : Prog User :=
  cond (fun user => decide (index < user.ipMasks.length))
    (setter [] [.ipMasks] (User.delIPMask · index)) fail

def clearIPMasks : Prog User := setter [] [.ipMasks] User.clearIPMasks

/-- The transaction is on the password, and not on the salt. -/
def setPassword (password rawSalt : Str) : Prog User :=
  setter [.password] [.password, .salt] (User.setPassword · hashPassword password rawSalt)

def setFlags (flags : Str) : Prog User := setField .flags (User.setFlags · flags)

def addFlags (flags : Str) : Prog User := setField .flags (User.addFlags · flags)

def addFlag (flag : Flag) : Prog User := addFlags [flag.char]

def delFlags (flags : Str) : Prog User := setField .flags (User.delFlags · flags)

def delFlag (flag : Flag) : Prog User := delFlags [flag.char]

def setPrimaryGID (gid : GroupID) : Prog User :=
  cond (fun user => user.primaryGid == gid) skip
    (setter [.primaryGid, .secondaryGids] gidFields (User.setPrimaryGID · gid))

def addGIDs (gids : List GroupID) : Prog User :=
  cond (fun _ => gids.isEmpty) skip (setter [.primaryGid, .secondaryGids] gidFields (User.addGIDs · gids))

def delGIDs (gids : List GroupID) : Prog User := setter gidFields gidFields (User.delGIDs · gids)

def setGIDs (gids : List GroupID) : Prog User := setter gidFields gidFields (User.setGIDs · gids)

def toggleGIDs (gids : List GroupID) : Prog User := setter gidFields gidFields (User.toggleGIDs · gids)

/-- `AddFlag` runs in the scope of the transaction on the set. -/
def addGadminGID (gid : GroupID) : Prog User :=
  setterThen [.gadminGids] [.gadminGids] (fun user =>
      { user with gadminGids := if user.hasGadminGID gid then user.gadminGids else user.gadminGids ++ [gid] })
    (cond (User.hasFlag · .Gadmin) skip (addFlag .Gadmin))

def delGadminGID (gid : GroupID) : Prog User :=
  setterThen [.gadminGids] [.gadminGids] (fun user =>
      { user with gadminGids := user.gadminGids.filter (· != gid) })
    (cond (fun user => user.gadminGids.isEmpty) (delFlag .Gadmin) skip)

def toggleGadminGID (gid : GroupID) : Prog User :=
  cond (User.hasGadminGID · gid) (delGadminGID gid) (addGadminGID gid)

def setSectionWeeklyAllotment (sec : Str) (allotment : Int) : Prog User :=
  setField .weeklyAllotment (User.setSectionWeeklyAllotment · sec allotment)

def setHomeDir (homeDir : Str) : Prog User := setField .homeDir fun user => { user with homeDir := homeDir }

def setStartUpDir (startUpDir : Str) : Prog User :=
  setField .startUpDir fun user => { user with startUpDir := startUpDir }

def setIdleTime (idleTime : Int) : Prog User :=
  setField .idleTime fun user => { user with idleTime := idleTime }

def setExpires (expires : Option Int) : Prog User :=
  setField .expires fun user => { user with expires := expires }

def setNumLogins (numLogins : Int) : Prog User :=
  setField .numLogins fun user => { user with numLogins := numLogins }

def setComment (comment : Str) : Prog User := setField .comment fun user => { user with comment := comment }

def setTagline (tagline : Str) : Prog User := setField .tagline (User.setTagline · tagline)

def setMaxDownSpeed (maxDownSpeed : Int) : Prog User :=
  setField .maxDownSpeed fun user => { user with maxDownSpeed := maxDownSpeed }

def setMaxUpSpeed (maxUpSpeed : Int) : Prog User :=
  setField .maxUpSpeed fun user => { user with maxUpSpeed := maxUpSpeed }

def setMaxSimDown (maxSimDown : Int) : Prog User :=
  setField .maxSimDown fun user => { user with maxSimDown := maxSimDown }

def setMaxSimUp (maxSimUp : Int) : Prog User :=
  setField .maxSimUp fun user => { user with maxSimUp := maxSimUp }

def setLoggedIn (now : Int) : Prog User :=
  setter [.loggedIn, .lastLogin] [.loggedIn, .lastLogin] (User.setLoggedIn · now)

def setSectionRatio (sec : Str) (ratio : Int) : Prog User :=
  setField .ratio (User.setSectionRatio · sec ratio)

end UserSetters

/-- The mutators; `AddFlag`, `DelFlag` and the `Default` forms are the others with a fixed argument. -/
inductive UserMutator where
  | rename (name : Str)
  | addIPMask (ipMask : Str)
  | delIPMask (ipMask : Str)
  | delIPMaskAt (index : Nat)
  | clearIPMasks
  | setPassword (password rawSalt : Str)
  | setFlags (flags : Str)
  | addFlags (flags : Str)
  | delFlags (flags : Str)
  | setPrimaryGID (gid : GroupID)
  | addGIDs (gids : List GroupID)
  | delGIDs (gids : List GroupID)
  | setGIDs (gids : List GroupID)
  | toggleGIDs (gids : List GroupID)
  | addGadminGID (gid : GroupID)
  | delGadminGID (gid : GroupID)
  | toggleGadminGID (gid : GroupID)
  | setSectionWeeklyAllotment (sec : Str) (allotment : Int)
  | setHomeDir (homeDir : Str)
  | setStartUpDir (startUpDir : Str)
  | setIdleTime (idleTime : Int)
  | setExpires (expires : Option Int)
  | setNumLogins (numLogins : Int)
  | setComment (comment : Str)
  | setTagline (tagline : Str)
  | setMaxDownSpeed (maxDownSpeed : Int)
  | setMaxUpSpeed (maxUpSpeed : Int)
  | setMaxSimDown (maxSimDown : Int)
  | setMaxSimUp (maxSimUp : Int)
  | setLoggedIn (now : Int)
  | setSectionRatio (sec : Str) (ratio : Int)

namespace UserMutator

variable (ipMatch : Str → Str → Bool) (hashPassword : Str → Str → Str)

def prog : UserMutator → Prog User
  | rename name => UserSetters.rename name
  | addIPMask ipMask => UserSetters.addIPMask ipMatch ipMask
  | delIPMask ipMask => UserSetters.delIPMask ipMask
  | delIPMaskAt index => UserSetters.delIPMaskAt index
  | clearIPMasks => UserSetters.clearIPMasks
  | setPassword password rawSalt => UserSetters.setPassword hashPassword password rawSalt
  | setFlags flags => UserSetters.setFlags flags
  | addFlags flags => UserSetters.addFlags flags
  | delFlags flags => UserSetters.delFlags flags
  | setPrimaryGID gid => UserSetters.setPrimaryGID gid
  | addGIDs gids => UserSetters.addGIDs gids
  | delGIDs gids => UserSetters.delGIDs gids
  | setGIDs gids => UserSetters.setGIDs gids
  | toggleGIDs gids => UserSetters.toggleGIDs gids
  | addGadminGID gid => UserSetters.addGadminGID gid
  | delGadminGID gid => UserSetters.delGadminGID gid
  | toggleGadminGID gid => UserSetters.toggleGadminGID gid
  | setSectionWeeklyAllotment sec allotment => UserSetters.setSectionWeeklyAllotment sec allotment
  | setHomeDir homeDir => UserSetters.setHomeDir homeDir
  | setStartUpDir startUpDir => UserSetters.setStartUpDir startUpDir
  | setIdleTime idleTime => UserSetters.setIdleTime idleTime
  | setExpires expires => UserSetters.setExpires expires
  | setNumLogins numLogins => UserSetters.setNumLogins numLogins
  | setComment comment => UserSetters.setComment comment
  | setTagline tagline => UserSetters.setTagline tagline
  | setMaxDownSpeed maxDownSpeed => UserSetters.setMaxDownSpeed maxDownSpeed
  | setMaxUpSpeed maxUpSpeed => UserSetters.setMaxUpSpeed maxUpSpeed
  | setMaxSimDown maxSimDown => UserSetters.setMaxSimDown maxSimDown
  | setMaxSimUp maxSimUp => UserSetters.setMaxSimUp maxSimUp
  | setLoggedIn now => UserSetters.setLoggedIn now
  | setSectionRatio sec ratio => UserSetters.setSectionRatio sec ratio

/-- The record that the caller asks for. -/
def given (user : User) : UserMutator → User
  | rename name => { user with name := name }
  | addIPMask ipMask => (user.addIPMask ipMatch ipMask).getD user
  | delIPMask ipMask => { user with ipMasks := user.ipMasks.erase ipMask }
  | delIPMaskAt index => user.delIPMask index
  | clearIPMasks => user.clearIPMasks
  | setPassword password rawSalt => user.setPassword hashPassword password rawSalt
  | setFlags flags => user.setFlags flags
  | addFlags flags => user.addFlags flags
  | delFlags flags => user.delFlags flags
  | setPrimaryGID gid => user.setPrimaryGID gid
  | addGIDs gids => user.addGIDs gids
  | delGIDs gids => user.delGIDs gids
  | setGIDs gids => user.setGIDs gids
  | toggleGIDs gids => user.toggleGIDs gids
  | addGadminGID gid => user.addGadminGID gid
  | delGadminGID gid => user.delGadminGID gid
  | toggleGadminGID gid => user.toggleGadminGID gid
  | setSectionWeeklyAllotment sec allotment => user.setSectionWeeklyAllotment sec allotment
  | setHomeDir homeDir => { user with homeDir := homeDir }
  | setStartUpDir startUpDir => { user with startUpDir := startUpDir }
  | setIdleTime idleTime => { user with idleTime := idleTime }
  | setExpires expires => { user with expires := expires }
  | setNumLogins numLogins => { user with numLogins := numLogins }
  | setComment comment => { user with comment := comment }
  | setTagline tagline => { user with tagline := tagline }
  | setMaxDownSpeed maxDownSpeed => { user with maxDownSpeed := maxDownSpeed }
  | setMaxUpSpeed maxUpSpeed => { user with maxUpSpeed := maxUpSpeed }
  | setMaxSimDown maxSimDown => { user with maxSimDown := maxSimDown }
  | setMaxSimUp maxSimUp => { user with maxSimUp := maxSimUp }
  | setLoggedIn now => { user with loggedIn := user.loggedIn + 1, lastLogin := some now }
  | setSectionRatio sec ratio => user.setSectionRatio sec ratio

/-- The fields that adding a gadmin group names: the flag only where it is new. -/
def addGadminFields (user : User) : List User.Field :=
  [.gadminGids] ++ if user.hasFlag .Gadmin then [] else [.flags]

/-- The fields that taking a gadmin group away names: the flag with the last of them. -/
def delGadminFields (user : User) (gid : GroupID) : List User.Field :=
  [.gadminGids] ++ if (user.gadminGids.filter (· != gid)).isEmpty then [.flags] else []

/-- The fields that a mutator names, none where there is nothing to do. -/
def fields (user : User) : UserMutator → List User.Field
  | rename _ => [.name]
  | addIPMask ipMask => if user.ipMasks.any (ipMatch · ipMask) then [] else [.ipMasks]
  | delIPMask ipMask => if user.ipMasks.contains ipMask then [.ipMasks] else []
  | delIPMaskAt _ => [.ipMasks]
  | clearIPMasks => [.ipMasks]
  | setPassword _ _ => [.password, .salt]
  | setFlags _ => [.flags]
  | addFlags _ => [.flags]
  | delFlags _ => [.flags]
  | setPrimaryGID gid => if user.primaryGid = gid then [] else UserSetters.gidFields
  | addGIDs gids => if gids.isEmpty then [] else UserSetters.gidFields
  | delGIDs _ => UserSetters.gidFields
  | setGIDs _ => UserSetters.gidFields
  | toggleGIDs _ => UserSetters.gidFields
  | addGadminGID _ => addGadminFields user
  | delGadminGID gid => delGadminFields user gid
  | toggleGadminGID gid => if user.hasGadminGID gid then delGadminFields user gid else addGadminFields user
  | setSectionWeeklyAllotment _ _ => [.weeklyAllotment]
  | setHomeDir _ => [.homeDir]
  | setStartUpDir _ => [.startUpDir]
  | setIdleTime _ => [.idleTime]
  | setExpires _ => [.expires]
  | setNumLogins _ => [.numLogins]
  | setComment _ => [.comment]
  | setTagline _ => [.tagline]
  | setMaxDownSpeed _ => [.maxDownSpeed]
  | setMaxUpSpeed _ => [.maxUpSpeed]
  | setMaxSimDown _ => [.maxSimDown]
  | setMaxSimUp _ => [.maxSimUp]
  | setLoggedIn _ => [.loggedIn, .lastLogin]
  | setSectionRatio _ _ => [.ratio]

/-- Where the save throws, a mutator that changes a field outside its transactions has nothing to
change there. -/
def Safe (user : User) (saves : List SaveOutcome) : UserMutator → Prop
  | rename name => nextSave saves = .throws → user.name = name
  | addIPMask ipMask => nextSave saves = .throws → user.ipMasks.any (ipMatch · ipMask) = true
  | delIPMask ipMask => nextSave saves = .throws → ipMask ∉ user.ipMasks
  | delIPMaskAt index => nextSave saves = .throws → user.ipMasks.length ≤ index
  | clearIPMasks => nextSave saves = .throws → user.ipMasks = []
  | setPassword _ rawSalt => nextSave saves = .throws → user.salt = Passwd.hexEncode rawSalt
  | _ => True

end UserMutator


open UserSetters UserMutator

theorem copy_gids (user : User) (primaryGid : GroupID) (secondaryGids gadminGids : List GroupID) :
    copyAll gidFields user
      { user with primaryGid := primaryGid, secondaryGids := secondaryGids, gadminGids := gadminGids } =
        user := rfl

theorem copy_groups (user : User) (primaryGid : GroupID) (secondaryGids : List GroupID) :
    copyAll [.primaryGid, .secondaryGids] user
      { user with primaryGid := primaryGid, secondaryGids := secondaryGids } = user := rfl

theorem copy_assignGIDs (user : User) (gids : List GroupID) :
    copyAll gidFields user (user.assignGIDs gids).cleanGadminGIDs = user := by
  cases gids with
  | nil => exact copy_gids user ..
  | cons gid gids => exact copy_gids user ..

theorem copy_delGIDs (user : User) (gids : List GroupID) :
    copyAll gidFields user (user.delGIDs gids) = user := by
  unfold User.delGIDs
  simp only
  split
  · exact copy_assignGIDs user _
  · exact copy_gids user ..

theorem copy_addGIDs (user : User) (gids : List GroupID) :
    copyAll [.primaryGid, .secondaryGids] user (user.addGIDs gids) = user := by
  cases gids with
  | nil => exact copyAll_self _ user
  | cons gid gids => exact copy_groups user ..

theorem copy_setPrimaryGID (user : User) (gid : GroupID) :
    copyAll [.primaryGid, .secondaryGids] user (user.setPrimaryGID gid) = user := by
  unfold User.setPrimaryGID
  split
  · exact copyAll_self _ user
  · exact copy_groups user ..

variable {ipMatch : Str → Str → Bool} {hashPassword : Str → Str → Str} {user db : User}
  {saves : List SaveOutcome}

theorem addIPMask_law_iff (ipMask : Str) :
    Law (UserSetters.addIPMask ipMatch ipMask) ((UserMutator.addIPMask ipMask).fields ipMatch user)
        ((user.addIPMask ipMatch ipMask).getD user) ⟨user, db⟩ saves ↔
      (nextSave saves = .throws → user.ipMasks.any (ipMatch · ipMask) = true) := by
  rw [UserSetters.addIPMask, cond_law_iff, UserMutator.fields]
  by_cases hany : user.ipMasks.any (ipMatch · ipMask) = true
  · rw [if_pos hany, if_pos hany, User.addIPMask, if_pos hany]
    exact iff_of_true (skip_law (i := ⟨user, db⟩)) fun _ => hany
  · let masks := user.ipMasks.filter (fun mask => !ipMatch ipMask mask) ++ [ipMask]
    have hadd : (user.addIPMask ipMatch ipMask).getD user = { user with ipMasks := masks } := by
      rw [User.addIPMask, if_neg hany]
      rfl
    rw [if_neg hany, if_neg hany]
    refine (setter_law_iff (i := ⟨user, db⟩) (by simp only [hadd]; rfl)).trans ?_
    refine imp_congr_right fun _ => iff_of_false (fun hsame => ?_) hany
    -- where the list stays the same the new mask is one of it, does not match itself, and is there twice
    have hmasks : masks = user.ipMasks := by
      have := congrArg User.ipMasks hsame
      rwa [copyAll_nil, hadd] at this
    have hself : ipMatch ipMask ipMask = false := by
      have hin : ipMask ∈ user.ipMasks := hmasks ▸ List.mem_append_right _ (List.mem_singleton.mpr rfl)
      exact Bool.eq_false_iff.mpr fun hmatch => hany (List.any_eq_true.mpr ⟨ipMask, hin, hmatch⟩)
    have hcount := congrArg (List.count ipMask) hmasks
    rw [List.count_append, List.count_filter (by simp [hself]), List.count_singleton_self] at hcount
    omega

theorem delIPMask_law_iff (ipMask : Str) :
    Law (UserSetters.delIPMask ipMask) ((UserMutator.delIPMask ipMask).fields ipMatch user)
        { user with ipMasks := user.ipMasks.erase ipMask } ⟨user, db⟩ saves ↔
      (nextSave saves = .throws → ipMask ∉ user.ipMasks) := by
  rw [UserSetters.delIPMask, cond_law_iff, UserMutator.fields]
  by_cases hmem : user.ipMasks.contains ipMask = true
  · have hin : ipMask ∈ user.ipMasks := List.contains_iff_mem.mp hmem
    rw [if_pos hmem, if_pos hmem]
    refine (setter_law_iff (i := ⟨user, db⟩) rfl).trans ?_
    refine imp_congr_right fun _ => iff_of_false (fun hsame => ?_) fun hnot => hnot hin
    have hlen := congrArg (fun u : User => u.ipMasks.length) hsame
    simp only [copyAll_nil, List.length_erase_of_mem hin] at hlen
    have := List.length_pos_of_mem hin
    omega
  · have hnot : ipMask ∉ user.ipMasks := fun h => hmem (List.contains_iff_mem.mpr h)
    rw [if_neg hmem, if_neg hmem, List.erase_of_not_mem hnot]
    exact iff_of_true (skip_law (i := ⟨user, db⟩)) fun _ => hnot

theorem delIPMaskAt_law_iff (index : Nat) :
    Law (UserSetters.delIPMaskAt index) [.ipMasks] (user.delIPMask index) ⟨user, db⟩ saves ↔
      (nextSave saves = .throws → user.ipMasks.length ≤ index) := by
  rw [UserSetters.delIPMaskAt, cond_law_iff]
  by_cases hlt : index < user.ipMasks.length
  · rw [if_pos (decide_eq_true hlt)]
    refine (setter_law_iff (i := ⟨user, db⟩) rfl).trans ?_
    refine imp_congr_right fun _ => iff_of_false (fun hsame => ?_) (by omega)
    have hlen := congrArg (fun u : User => u.ipMasks.length) hsame
    simp only [copyAll_nil, User.delIPMask, List.length_eraseIdx_of_lt hlt] at hlen
    omega
  · rw [if_neg (by simpa using hlt)]
    exact iff_of_true (fail_law _ _) fun _ => by omega

theorem clearIPMasks_law_iff :
    Law UserSetters.clearIPMasks [.ipMasks] user.clearIPMasks ⟨user, db⟩ saves ↔
      (nextSave saves = .throws → user.ipMasks = []) := by
  refine (setter_law_iff (i := ⟨user, db⟩) rfl).trans (imp_congr_right fun _ => ⟨fun hsame => ?_, fun h => ?_⟩)
  · exact (congrArg User.ipMasks hsame).symm
  · rw [copyAll_nil, User.clearIPMasks]
    show { user with ipMasks := [] } = user
    rw [← h]

theorem setPassword_law_iff (password rawSalt : Str) :
    Law (UserSetters.setPassword hashPassword password rawSalt) [.password, .salt]
        (user.setPassword hashPassword password rawSalt) ⟨user, db⟩ saves ↔
      (nextSave saves = .throws → user.salt = Passwd.hexEncode rawSalt) := by
  refine (setter_law_iff (i := ⟨user, db⟩) rfl).trans (imp_congr_right fun _ => ⟨fun hsame => ?_, fun h => ?_⟩)
  · exact (congrArg User.salt hsame).symm
  · show { user with salt := Passwd.hexEncode rawSalt } = user
    rw [← h]

theorem copy_gidFields {u u' : User} (h : copyAll [.primaryGid, .secondaryGids] u u' = u) :
    copyAll gidFields u u' = u := by
  have hfields : gidFields = [.primaryGid, .secondaryGids] ++ [.gadminGids] := rfl
  rw [hfields, copyAll_append, h, copyAll_self]

theorem setPrimaryGID_law (gid : GroupID) :
    Law (UserSetters.setPrimaryGID gid) ((UserMutator.setPrimaryGID gid).fields ipMatch user)
      (user.setPrimaryGID gid) ⟨user, db⟩ saves := by
  rw [UserSetters.setPrimaryGID, cond_law_iff, UserMutator.fields]
  by_cases hsame : user.primaryGid = gid
  · rw [if_pos (beq_iff_eq.mpr hsame), if_pos hsame, User.setPrimaryGID, if_pos hsame]
    exact skip_law (i := ⟨user, db⟩)
  · rw [if_neg (by simpa using hsame), if_neg hsame]
    exact (setter_law_iff (i := ⟨user, db⟩) (copy_gidFields (copy_setPrimaryGID user gid))).mpr
      fun _ => copy_setPrimaryGID user gid

theorem addGIDs_law (gids : List GroupID) :
    Law (UserSetters.addGIDs gids) ((UserMutator.addGIDs gids).fields ipMatch user) (user.addGIDs gids)
      ⟨user, db⟩ saves := by
  rw [UserSetters.addGIDs, cond_law_iff, UserMutator.fields]
  cases gids with
  | nil => exact skip_law (i := ⟨user, db⟩)
  | cons gid gids =>
    exact (setter_law_iff (i := ⟨user, db⟩) (copy_gidFields (copy_addGIDs user _))).mpr
      fun _ => copy_addGIDs user _

theorem addGadminGID_law (gid : GroupID) :
    Law (UserSetters.addGadminGID gid) (addGadminFields user) (user.addGadminGID gid) ⟨user, db⟩ saves := by
  by_cases hflag : user.hasFlag .Gadmin = true
  · have hadd : user.addGadminGID gid = { user with
        gadminGids := if user.hasGadminGID gid then user.gadminGids else user.gadminGids ++ [gid] } :=
      if_pos hflag
    rw [addGadminFields, if_pos hflag, hadd]
    refine setterThen_law (i := ⟨user, db⟩) rfl (fun db saves => ?_) (fun _ => rfl) rfl
    rw [cond_law_iff]
    exact (if_pos hflag).mpr (skip_law (i := ⟨_, db⟩))
  · have hadd : user.addGadminGID gid = { user with
        gadminGids := if user.hasGadminGID gid then user.gadminGids
          else user.gadminGids ++ [gid] }.addFlag .Gadmin := if_neg hflag
    rw [addGadminFields, if_neg hflag, hadd]
    refine setterThen_law (i := ⟨user, db⟩) rfl (fun db saves => ?_) (fun _ => rfl) rfl
    rw [cond_law_iff]
    exact (if_neg hflag).mpr (setter_law (i := ⟨_, db⟩) rfl)

theorem delGadminGID_law (gid : GroupID) :
    Law (UserSetters.delGadminGID gid) (delGadminFields user gid) (user.delGadminGID gid) ⟨user, db⟩ saves := by
  by_cases hempty : (user.gadminGids.filter (· != gid)).isEmpty = true
  · have hdel : user.delGadminGID gid =
        { user with gadminGids := user.gadminGids.filter (· != gid) }.delFlag .Gadmin := if_pos hempty
    rw [delGadminFields, if_pos hempty, hdel]
    refine setterThen_law (i := ⟨user, db⟩) rfl (fun db saves => ?_) (fun _ => rfl) rfl
    rw [cond_law_iff]
    exact (if_pos hempty).mpr (setter_law (i := ⟨_, db⟩) rfl)
  · have hdel : user.delGadminGID gid = { user with gadminGids := user.gadminGids.filter (· != gid) } :=
      if_neg hempty
    rw [delGadminFields, if_neg hempty, hdel]
    refine setterThen_law (i := ⟨user, db⟩) rfl (fun db saves => ?_) (fun _ => rfl) rfl
    rw [cond_law_iff]
    exact (if_neg hempty).mpr (skip_law (i := ⟨_, db⟩))

theorem toggleGadminGID_law (gid : GroupID) :
    Law (UserSetters.toggleGadminGID gid)
      (if user.hasGadminGID gid then delGadminFields user gid else addGadminFields user)
      (user.toggleGadminGID gid) ⟨user, db⟩ saves := by
  rw [UserSetters.toggleGadminGID, cond_law_iff, User.toggleGadminGID]
  by_cases hgid : user.hasGadminGID gid = true
  · rw [if_pos hgid, if_pos hgid, if_pos hgid]
    exact delGadminGID_law gid
  · rw [if_neg hgid, if_neg hgid, if_neg hgid]
    exact addGadminGID_law gid

/-- A mutator of a user keeps the law exactly where its save does not throw, or all that it changes is
guarded. -/
theorem userMutator_law_iff (m : UserMutator) :
    Law (m.prog ipMatch hashPassword) (m.fields ipMatch user) (m.given ipMatch hashPassword user)
      ⟨user, db⟩ saves ↔ m.Safe ipMatch user saves := by
  cases m with
  | rename name =>
    refine (renameWith_law_iff (i := ⟨user, db⟩) rfl).trans (imp_congr_right fun _ => ⟨fun h => ?_, fun h => ?_⟩)
    · exact (congrArg User.name h).symm
    · show { user with name := name } = user
      rw [← h]
  | addIPMask ipMask => exact addIPMask_law_iff ipMask
  | delIPMask ipMask => exact delIPMask_law_iff ipMask
  | delIPMaskAt index => exact delIPMaskAt_law_iff index
  | clearIPMasks => exact clearIPMasks_law_iff
  | setPassword password rawSalt => exact setPassword_law_iff password rawSalt
  | setPrimaryGID gid => exact iff_of_true (setPrimaryGID_law gid) trivial
  | addGIDs gids => exact iff_of_true (addGIDs_law gids) trivial
  | delGIDs gids => exact iff_of_true (setter_law (i := ⟨user, db⟩) (copy_delGIDs user gids)) trivial
  | setGIDs gids => exact iff_of_true (setter_law (i := ⟨user, db⟩) (copy_assignGIDs user gids)) trivial
  | toggleGIDs gids => exact iff_of_true (setter_law (i := ⟨user, db⟩) (copy_assignGIDs user _)) trivial
  | addGadminGID gid => exact iff_of_true (addGadminGID_law gid) trivial
  | delGadminGID gid => exact iff_of_true (delGadminGID_law gid) trivial
  | toggleGadminGID gid => exact iff_of_true (toggleGadminGID_law gid) trivial
  | _ => exact iff_of_true (setter_law (i := ⟨user, db⟩) rfl) trivial

/-! ## The mutators of a group -/

namespace GroupSetters

def setField (field : Group.Field) (g : Group → Group) : Prog Group := setter [field] [field] g

def rename (name : Str) : Prog Group := renameWith .name fun group => { group with name := name }

def setDescription (description : Str) : Prog Group :=
  setField .description fun group => { group with description := description }

/-- The transaction is on the description, and so is the change. -/
def setComment (comment : Str) : Prog Group :=
  setter [.description] [.comment] fun group => { group with description := comment }

def setSlots (slots : Int) : Prog Group := setField .slots fun group => { group with slots := slots }

def setLeechSlots (leechSlots : Int) : Prog Group :=
  setField .leechSlots fun group => { group with leechSlots := leechSlots }

def setAllotmentSlots (allotmentSlots : Int) : Prog Group :=
  setField .allotmentSlots fun group => { group with allotmentSlots := allotmentSlots }

def setMaxAllotmentSize (maxAllotmentSize : Int) : Prog Group :=
  setField .maxAllotmentSize fun group => { group with maxAllotmentSize := maxAllotmentSize }

def setMaxLogins (maxLogins : Int) : Prog Group :=
  setField .maxLogins fun group => { group with maxLogins := maxLogins }

end GroupSetters

inductive GroupMutator where
  | rename (name : Str)
  | setDescription (description : Str)
  | setComment (comment : Str)
  | setSlots (slots : Int)
  | setLeechSlots (leechSlots : Int)
  | setAllotmentSlots (allotmentSlots : Int)
  | setMaxAllotmentSize (maxAllotmentSize : Int)
  | setMaxLogins (maxLogins : Int)

namespace GroupMutator

def prog : GroupMutator → Prog Group
  | rename name => GroupSetters.rename name
  | setDescription description => GroupSetters.setDescription description
  | setComment comment => GroupSetters.setComment comment
  | setSlots slots => GroupSetters.setSlots slots
  | setLeechSlots leechSlots => GroupSetters.setLeechSlots leechSlots
  | setAllotmentSlots allotmentSlots => GroupSetters.setAllotmentSlots allotmentSlots
  | setMaxAllotmentSize maxAllotmentSize => GroupSetters.setMaxAllotmentSize maxAllotmentSize
  | setMaxLogins maxLogins => GroupSetters.setMaxLogins maxLogins

/-- The record that the caller asks for. -/
def given (group : Group) : GroupMutator → Group
  | rename name => { group with name := name }
  | setDescription description => { group with description := description }
  | setComment comment => { group with comment := comment }
  | setSlots slots => { group with slots := slots }
  | setLeechSlots leechSlots => { group with leechSlots := leechSlots }
  | setAllotmentSlots allotmentSlots => { group with allotmentSlots := allotmentSlots }
  | setMaxAllotmentSize maxAllotmentSize => { group with maxAllotmentSize := maxAllotmentSize }
  | setMaxLogins maxLogins => { group with maxLogins := maxLogins }

/-- The field that a mutator names. -/
def field : GroupMutator → Group.Field
  | rename _ => .name
  | setDescription _ => .description
  | setComment _ => .comment
  | setSlots _ => .slots
  | setLeechSlots _ => .leechSlots
  | setAllotmentSlots _ => .allotmentSlots
  | setMaxAllotmentSize _ => .maxAllotmentSize
  | setMaxLogins _ => .maxLogins

/-- The name is the same where the save throws; the comment, set where no save fails, is the comment
and the description already. -/
def Safe (group : Group) (saves : List SaveOutcome) : GroupMutator → Prop
  | rename name => nextSave saves = .throws → group.name = name
  | setComment comment =>
    (∀ s ∈ saves, s = SaveOutcome.okay) → group.comment = comment ∧ group.description = comment
  | _ => True

end GroupMutator

theorem setComment_law_iff {group db : Group} (comment : Str) :
    Law (GroupSetters.setComment comment) [Group.Field.comment] { group with comment := comment } ⟨group, db⟩
        saves ↔
      ((∀ s ∈ saves, s = SaveOutcome.okay) → group.comment = comment ∧ group.description = comment) := by
  refine (setter_law_iff' (i := ⟨group, db⟩)).trans ((and_iff_right fun _ => rfl).trans ?_)
  refine imp_congr_right fun _ => ⟨fun h => ?_, fun h => ?_⟩
  · have hmem := congrArg Image.mem h.1
    exact ⟨congrArg Group.comment hmem, (congrArg Group.description hmem).symm⟩
  · obtain ⟨hcomment, hdescription⟩ := h
    have hgiven : ({ group with description := comment } : Group) = { group with comment := comment } := by
      cases group
      simp only at hcomment hdescription
      rw [hcomment, hdescription]
    exact ⟨by rw [hgiven], rfl⟩

theorem groupMutator_law_iff {group db : Group} (m : GroupMutator) :
    Law m.prog [m.field] (m.given group) ⟨group, db⟩ saves ↔ m.Safe group saves := by
  cases m with
  | rename name =>
    refine (renameWith_law_iff (i := ⟨group, db⟩) rfl).trans (imp_congr_right fun _ => ⟨fun h => ?_, fun h => ?_⟩)
    · exact (congrArg Group.name h).symm
    · show { group with name := name } = group
      rw [← h]
  | setComment comment => exact setComment_law_iff comment
  | _ => exact iff_of_true (setter_law (i := ⟨group, db⟩) rfl) trivial

/-- Every mutator keeps the law, but for those that change a field outside their transactions, where
the save throws, and the one that changes another field than it names. -/
theorem setters_law_iff (ipMatch : Str → Str → Bool) (hashPassword : Str → Str → Str)
    (saves : List SaveOutcome) :
    (∀ (m : UserMutator) (user db : User),
      Law (m.prog ipMatch hashPassword) (m.fields ipMatch user) (m.given ipMatch hashPassword user)
        ⟨user, db⟩ saves ↔ m.Safe ipMatch user saves) ∧
    ∀ (m : GroupMutator) (group db : Group),
      Law m.prog [m.field] (m.given group) ⟨group, db⟩ saves ↔ m.Safe group saves :=
  ⟨fun m _ _ => userMutator_law_iff m, fun m _ _ => groupMutator_law_iff m⟩

/-- Alice is renamed and the save throws: she has the new name. A group's comment is set, and its
description changes. -/
theorem setters_unguarded :
    let alice : User := { id := 7, name := "alice".toList }
    let staff : Group := { id := 3, name := "staff".toList }
    ((UserSetters.rename "bob".toList ⟨alice, alice⟩ [.throws]).image.mem.name = "bob".toList ∧
      ¬ Law (UserSetters.rename "bob".toList) [User.Field.name] { alice with name := "bob".toList }
        ⟨alice, alice⟩ [.throws]) ∧
    ((GroupSetters.setComment "hi".toList ⟨staff, staff⟩ []).image.mem.description = "hi".toList ∧
      ¬ Law (GroupSetters.setComment "hi".toList) [Group.Field.comment] { staff with comment := "hi".toList }
        ⟨staff, staff⟩ []) := by
  refine ⟨⟨rfl, fun h => ?_⟩, rfl, fun h => ?_⟩
  · exact absurd (congrArg User.name (h.atomic rfl)) (by decide)
  · have himage := (h.framed (by simp) rfl).1
    exact absurd (congrArg (fun i => i.mem.comment) himage) (by decide)

end Acl
end Ebftpd
