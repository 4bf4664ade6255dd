import Ebftpd.Acl.Acl
import Ebftpd.Util.Passwd
import Mathlib.Data.List.Sort

/-!
# Ebftpd.Acl.User

A user's record (`src/acl/userdata.hpp`) and the questions `acl::User` answers from it. Dates are
day numbers, times are microseconds; an unordered map is the list of its entries.
-/

namespace Ebftpd
namespace Acl

open Util

abbrev UserID := Int

abbrev GroupID := Int

inductive Flag where
  | Siteop | Gadmin | Template | Exempt | Color | Deleted | Useredit | Anonymous
  | Nuke | Unnuke | Undupe | Kick | Kill | Take | Give | Users | Idler
  | Custom1 | Custom2 | Custom3 | Custom4 | Custom5
  deriving DecidableEq

def Flag.char : Flag → Char
  | .Siteop => '1' | .Gadmin => '2' | .Template => '3' | .Exempt => '4'
  | .Color => '5' | .Deleted => '6' | .Useredit => '7' | .Anonymous => '8'
  | .Nuke => 'A' | .Unnuke => 'B' | .Undupe => 'C' | .Kick => 'D'
  | .Kill => 'E' | .Take => 'F' | .Give => 'G' | .Users => 'H'
  | .Idler => 'I' | .Custom1 => 'J' | .Custom2 => 'K' | .Custom3 => 'L'
  | .Custom4 => 'M' | .Custom5 => 'N'

/-- `UserData`, with the defaults of its constructor. -/
structure User where
  id : UserID := -1
  name : Str := []
  ipMasks : List Str := []
  password : Str := []
  salt : Str := []
  flags : Str := []
  primaryGid : GroupID := -1
  secondaryGids : List GroupID := []
  gadminGids : List GroupID := []
  creator : UserID := -1
  created : Int := 0
  weeklyAllotment : List (Str × Int) := []
  homeDir : Str := "/".toList
  startUpDir : Str := "/".toList
  idleTime : Int := -1
  expires : Option Int := none
  numLogins : Int := 1
  comment : Str := []
  tagline : Str := []
  maxDownSpeed : Int := 0
  maxUpSpeed : Int := 0
  maxSimDown : Int := -1
  maxSimUp : Int := -1
  loggedIn : Int := 0
  lastLogin : Option Int := none
  ratio : List (Str × Int) := [([], 3)]
  credits : List (Str × Int) := []
  deriving DecidableEq

namespace User

def hasFlag (user : User) (flag : Flag) : Bool := user.flags.contains flag.char

/-- `PrimaryGroup`; the group name comes from the group cache. -/
def primaryGroup (user : User) (gidToName : GroupID → Str) : Str := gidToName user.primaryGid

def aclInfo (user : User) (gidToName : GroupID → Str) : ACLInfo :=
  { username := user.name, groupname := user.primaryGroup gidToName, flags := user.flags }

/-- `SetLoggedIn`, at the time `now`. -/
def setLoggedIn (user : User) (now : Int) : User :=
  { user with loggedIn := user.loggedIn + 1, lastLogin := some now }

def setTagline (user : User) (tagline : Str) : User := { user with tagline := tagline }

/-- `Expired`, on the local day `today`. -/
def expired (user : User) (today : Int) : Bool :=
  match user.expires with
  | none => false
  | some expires => decide (today ≥ expires)

def sectionRatio (user : User) (sec : Str) : Int := (user.ratio.lookup sec).getD (-1)

/-- `DefaultRatio` is the ratio of the section without a name. -/
def defaultRatio (user : User) : Int := user.sectionRatio []

def sectionCredits (user : User) (sec : Str) : Int := (user.credits.lookup sec).getD 0

def sectionWeeklyAllotment (user : User) (sec : Str) : Int := (user.weeklyAllotment.lookup sec).getD 0

def hasGadminGID (user : User) (gid : GroupID) : Bool := user.gadminGids.contains gid

/-- `m[key] = value` of an unordered map. -/
def assign (m : List (Str × Int)) (key : Str) (value : Int) : List (Str × Int) :=
  if m.any (fun kv => kv.1 == key) then m.map fun kv => if kv.1 == key then (key, value) else kv
  else m ++ [(key, value)]

def setSectionRatio (user : User) (sec : Str) (ratio : Int) : User :=
  { user with ratio := assign user.ratio sec ratio }

def setSectionWeeklyAllotment (user : User) (sec : Str) (allotment : Int) : User :=
  { user with weeklyAllotment := assign user.weeklyAllotment sec allotment }

/-- `AddFlags`: those that are not there yet, and all of them sorted. -/
def addFlags (user : User) (flags : Str) : User :=
  let all := flags.foldl (fun fs ch => if fs.contains ch then fs else fs ++ [ch]) user.flags
  { user with flags := all.insertionSort fun a b => a ≤ b }

/-- `DelFlags`: the first occurrence of each. -/
def delFlags (user : User) (flags : Str) : User :=
  { user with flags := flags.foldl (fun fs ch => fs.erase ch) user.flags }

def addFlag (user : User) (flag : Flag) : User := user.addFlags [flag.char]

def delFlag (user : User) (flag : Flag) : User := user.delFlags [flag.char]

/-- `SetPrimaryGID`: the old primary group becomes the first of the secondary ones. -/
def setPrimaryGID (user : User) (gid : GroupID) : User :=
  if user.primaryGid = gid then user
  else
    let secondaryGids :=
      if user.primaryGid ≠ -1 then user.primaryGid :: user.secondaryGids else user.secondaryGids
    { user with primaryGid := gid, secondaryGids := secondaryGids.erase gid }

/-- `SetPasswordNoSave`, with the hash and the salt that was generated. -/
def setPassword (user : User) (hashPassword : Str → Str → Str) (password rawSalt : Str) : User :=
  { user with
    password := Passwd.hexEncode (hashPassword password rawSalt)
    salt := Passwd.hexEncode rawSalt }

/-- The record `FromTemplate` inserts, before it has an id. -/
def fromTemplate (templateUser : User) (hashPassword : Str → Str → Str) (name password rawSalt : Str)
    (creator : UserID) : User :=
  ({ templateUser with id := -1, name := name, creator := creator }.setPassword hashPassword password
    rawSalt).delFlag .Template

/-- `AddIPMask`: refused when a mask matches the new one, which in turn replaces those it matches.
`ipMatch` is `WildcardMatch(mask, text, true)`. -/
def addIPMask (user : User) (ipMatch : Str → Str → Bool) (ipMask : Str) : Option User :=
  if user.ipMasks.any (ipMatch · ipMask) then none
  else some { user with ipMasks := user.ipMasks.filter (fun mask => !ipMatch ipMask mask) ++ [ipMask] }

/-- `DelIPMask` of an index. -/
def delIPMask (user : User) (index : Nat) : User := { user with ipMasks := user.ipMasks.eraseIdx index }

def clearIPMasks (user : User) : User := { user with ipMasks := [] }

end User

end Acl
end Ebftpd
