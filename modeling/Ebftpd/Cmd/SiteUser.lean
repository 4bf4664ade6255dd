import Ebftpd.Acl.Misc
import Ebftpd.Cfg.Util
import Ebftpd.Db.Caches

/-!
# Ebftpd.Cmd.SiteUser

The `SITE` commands on users that a group admin may have a keyword of his own for: `ADDUSER`
(`src/cmd/site/adduser.cpp`), `GADDUSER`, `ADDIP`, `DELIP`, `CHPASS`, `DELUSER`, `READD`, `USER`
(`src/cmd/site/commands.cpp`) and `CHANGE` (`src/cmd/site/change.cpp`). Each repeats the permission
check by hand. The check asks the caches for the group of a name, and the command then loads the
record from the database.

* `execute`: the commands behind the keyword of the factory.
* `Touches`, `save_touches`: a save writes one record.
-/

namespace Ebftpd
namespace Cmd
namespace SiteUser

open Util Lib Acl Acl.Path Db

/-- The client's user, his thread's configuration, the caches, and what else a command reads. -/
structure Site where
  cfg : Cfg.Config
  user : User
  users : UserCache
  groups : GroupCache
  bannedUsers : List Str
  totalUsers : Int
  maximumRatio : Int
  masters : List Str
  -- `SecurePass` and `SecureIP`: the strength that is missing
  securePass : Str → Option Str
  secureIP : Str → Option Str
  ipMatch : Str → Str → Bool
  hashPassword : Str → Str → Str
  rawSalt : Str
  -- the logins `KickUser` ends
  kicked : UserID → Nat
  -- the error of `GetTemplate("user")`
  templateError : Option Str
  -- the settings of `CHANGE` other than the two a group admin may change
  otherSetting : Str → List Str → Except Str (User → UserField)

namespace Site

variable (site : Site)

def env : Env := ⟨site.cfg, site.user, site.groups.gidToName⟩

def allow (keyword : Str) : Bool := allowSiteCmd site.env keyword

def nameToPrimaryGID (name : Str) : GroupID := site.users.uidToPrimaryGID (site.users.nameToUID name)

/-- `ADDIP`, `DELIP` and `USER`: the keyword, or its own form and the client's name, or its gadmin
form and a group of his. -/
def permitted (keyword name : Str) : Bool :=
  site.allow keyword ||
    (name == site.user.name && site.allow (keyword ++ "own".toList)) ||
    (site.user.hasGadminGID (site.nameToPrimaryGID name) && site.allow (keyword ++ "gadmin".toList))

/-- Whether the client has only the gadmin form of a keyword. -/
def gadmin (keyword : Str) : Bool :=
  !site.allow keyword && site.allow (keyword ++ "gadmin".toList)

/-- `CHPASS`, `DELUSER` and `READD`: with only the gadmin form, a group of his. -/
def denied (keyword name : Str) : Bool :=
  site.gadmin keyword && !site.user.hasGadminGID (site.nameToPrimaryGID name)

end Site

inductive Reply where
  | okay (text : Str)
  | notOkay (text : Str)
  | permissionError
  | syntaxError
  | verifyFailed
  deriving DecidableEq

def Reply.refused : Reply → Bool
  | .notOkay _ => true
  | .permissionError => true
  | .syntaxError => true
  | _ => false

/-- A final reply behind a part of it that was sent before. -/
def Reply.after (os : Str) : Reply → Reply
  | .okay text => .okay (os ++ "\n".toList ++ text)
  | reply => reply

/-- What a command replied, left in the database and showed. -/
structure Done where
  reply : Reply
  db : Database
  shown : List User := []

/-- A save over a `NoErrorConnection`. -/
def save (db : Database) (uid : UserID) (field : UserField) : Database :=
  (db.saveUser uid field).getD db

def noUser (name : Str) : Reply := .notOkay ("User ".toList ++ name ++ " doesn't exist.".toList)

/-! ## Masks -/

/-- The loop of `ADDIP`; what was removed for an earlier address is reported again for a later one. -/
def addIPLoop (site : Site) : List Str → List Str → User → Database → Str × Database
  | [], _, _, db => ([], db)
  | ip :: ips, deleted, user, db =>
    if !ip.contains '@' then
      let (os, db) := addIPLoop site ips deleted user db
      ("\nIP ".toList ++ ip ++ " not added. Must be in format ident@address.".toList ++ os, db)
    else
      match site.secureIP ip with
      | some strength =>
        let (os, db) := addIPLoop site ips deleted user db
        ("\nIP ".toList ++ ip ++ " not added: Must contain ".toList ++ strength ++ ".".toList ++ os, db)
      | none =>
        match user.addIPMask site.ipMatch ip with
        | none =>
          let (os, db) := addIPLoop site ips deleted user db
          ("\nIP ".toList ++ ip ++ " not added: Wider matching mask already exists.".toList ++ os, db)
        | some user' =>
          let deleted := deleted ++ user.ipMasks.filter (site.ipMatch ip)
          let (os, db) := addIPLoop site ips deleted user' (save db user.id (.ipMasks user'.ipMasks))
          ("\nIP ".toList ++ ip ++ " added successfully.".toList ++
            deleted.flatMap (fun del => "\nAuto-removed unncessary IP ".toList ++ del ++ "!".toList) ++
            os, db)

/-- `ADDIPCommand::Execute`; `ADDUSER` executes it under its own name. -/
def addIP (site : Site) (arg0 name : Str) (ips : List Str) (db : Database) : Done :=
  if arg0 = "ADDIP".toList ∧ site.permitted "addip".toList name = false then ⟨.permissionError, db, []⟩
  else
    match db.users.byName name with
    | none => ⟨noUser name, db, []⟩
    | some user =>
      let (os, db) := addIPLoop site ips [] user db
      ⟨.okay ("Adding IPs to ".toList ++ user.name ++ ":".toList ++ os ++ "\nCommand finished.".toList),
        db, []⟩

/-- `boost::lexical_cast<int>`. -/
def lexicalCast (s : Str) : Option Int :=
  let (neg, ds) := stollSign s
  if ds.isEmpty || !ds.all Char.isDigit then none
  else if -2 ^ 31 ≤ stollValue neg ds ∧ stollValue neg ds < 2 ^ 31 then some (stollValue neg ds)
  else none

/-- The arguments of `DELIP` up to a `*`, which means all masks. -/
def delIPIndexes (user : User) : List Str → Except Reply (Option (List Nat))
  | [] => .ok (some [])
  | arg :: args =>
    if arg = "*".toList then .ok none
    else
      let index : Except Reply Nat :=
        match lexicalCast arg with
        | some index =>
          if index < 0 ∨ index > (user.ipMasks.length : Int) - 1 then
            .error (.notOkay "IP mask index out of range.".toList)
          else .ok index.toNat
        | none =>
          match user.ipMasks.findIdx? (· = arg) with
          | some index => .ok index
          | none => .error (.notOkay ("No IP mask matching ".toList ++ arg ++ " exists for ".toList ++
              user.name ++ ".".toList))
      match index, delIPIndexes user args with
      | .error reply, _ => .error reply
      | .ok _, .error reply => .error reply
      | .ok _, .ok none => .ok none
      | .ok index, .ok (some indexes) => .ok (some (index :: indexes))

/-- The loop of `DELIP` over the sorted indexes; `none` when `verify` fails on a repeated one. -/
def delIPLoop : List Nat → User → Database → Option Str × Database
  | [], _, db => (some [], db)
  | index :: indexes, user, db =>
    match user.ipMasks[index]? with
    | none => (none, db)
    | some mask =>
      let user' := user.delIPMask index
      let (os, db) := delIPLoop indexes user' (save db user.id (.ipMasks user'.ipMasks))
      (os.map fun os => "\nIP ".toList ++ mask ++ " deleted successfully.".toList ++ os, db)

/-- `DELIPCommand::Execute`. -/
def delIP (site : Site) (name : Str) (args : List Str) (db : Database) : Done :=
  if site.permitted "delip".toList name = false then ⟨.permissionError, db, []⟩
  else
    match db.users.byName name with
    | none => ⟨noUser name, db, []⟩
    | some user =>
      match delIPIndexes user args with
      | .error reply => ⟨reply, db, []⟩
      | .ok none =>
        ⟨.okay ("Deleting IPs from ".toList ++ user.name ++
            user.ipMasks.flatMap (fun mask =>
              "\nIP ".toList ++ mask ++ " deleted successfully.".toList) ++
            "\nCommand finished.".toList),
          save db user.id (.ipMasks user.clearIPMasks.ipMasks), []⟩
      | .ok (some indexes) =>
        match delIPLoop (indexes.insertionSort fun a b => a ≥ b) user db with
        | (some os, db) =>
          ⟨.okay ("Deleting IPs from ".toList ++ user.name ++ os ++ "\nCommand finished.".toList), db, []⟩
        | (none, db) => ⟨.verifyFailed, db, []⟩

/-! ## Passwords and flags -/

/-- `CHPASSCommand::Execute`. -/
def chPass (site : Site) (name password : Str) (db : Database) : Done :=
  if site.denied "chpass".toList name then ⟨.permissionError, db, []⟩
  else
    match site.securePass password with
    | some strength =>
      ⟨.notOkay ("Password not strong enough. Must meet the following minimum criteria:\n".toList ++
        strength ++ ".".toList), db, []⟩
    | none =>
      match db.users.byName name with
      | none => ⟨noUser name, db, []⟩
      | some user =>
        let user' := user.setPassword site.hashPassword password site.rawSalt
        ⟨.okay "Password changed.".toList, save db user.id (.password user'.password user'.salt), []⟩

/-- `DELUSERCommand::Execute`. -/
def delUser (site : Site) (name : Str) (db : Database) : Done :=
  if site.denied "deluser".toList name then ⟨.permissionError, db, []⟩
  else
    match db.users.byName name with
    | none => ⟨noUser name, db, []⟩
    | some user =>
      if user.hasFlag .Siteop && !site.masters.contains site.user.name then
        ⟨.notOkay "Only masters can delete other siteops.".toList, db, []⟩
      else if user.name = "default".toList ∨ user.id = 0 ∨ user.id = 1 then
        ⟨.notOkay "That user is required by the server so cannot be deleted.".toList, db, []⟩
      else if user.hasFlag .Deleted then
        ⟨.notOkay ("User ".toList ++ user.name ++ " is already deleted.".toList), db, []⟩
      else
        let kicked := site.kicked user.id
        ⟨.okay ("User ".toList ++ name ++ " has been deleted.".toList ++
            (if kicked ≠ 0 then " (".toList ++ (toString kicked).toList ++ " login(s) kicked)".toList
              else [])),
          save db user.id (.flags (user.addFlag .Deleted).flags), []⟩

/-- `NumSlotsUsed`: the members that are not deleted. -/
def numSlotsUsed (db : Database) (gid : GroupID) : Nat :=
  db.users.rows.countP fun user => user.primaryGid == gid && !user.flags.contains '6'

def slotsExceeded (groupName : Str) : Reply :=
  .notOkay ("Maximum number of slots exceeded for group ".toList ++ groupName ++ ".".toList)

/-- `READDCommand::Execute`. -/
def readd (site : Site) (name : Str) (db : Database) : Done :=
  if site.denied "readd".toList name then ⟨.permissionError, db, []⟩
  else
    match db.users.byName name with
    | none => ⟨noUser name, db, []⟩
    | some user =>
      if !user.hasFlag .Deleted then
        ⟨.notOkay ("User ".toList ++ name ++ " is not deleted.".toList), db, []⟩
      else
        let readded : Done :=
          ⟨.okay ("User ".toList ++ name ++ " has been readded.".toList),
            save db user.id (.flags (user.delFlag .Deleted).flags), []⟩
        if site.gadmin "readd".toList then
          match db.groups.byId user.primaryGid with
          | none =>
            ⟨.notOkay ("Unable to load group ".toList ++ user.primaryGroup site.groups.gidToName ++
              ".".toList), db, []⟩
          | some group =>
            if (numSlotsUsed db group.id : Int) ≥ group.slots then ⟨slotsExceeded group.name, db, []⟩
            else readded
        else readded

/-! ## New users -/

/-- `Validate` of a user name: `\w+`. -/
def validUsername (name : Str) : Bool := !name.isEmpty && name.all fun c => c.isAlphanum || c == '_'

/-- The id a new user gets: one above the largest, as an `int`. -/
def nextUID (db : Database) : UserID :=
  match (db.users.rows.map User.id).max? with
  | some m => (m + 1 + 2 ^ 31) % 2 ^ 32 - 2 ^ 31
  | none => 0

/-- The group to add to: `Load` and, for a group admin, its slots. -/
def addUserGroup (groupName : Str) (gadmin : Bool) (db : Database) : Except Reply (Option Group) :=
  if groupName.isEmpty then .ok none
  else
    match db.groups.byName groupName with
    | none => .error (.notOkay ("Group ".toList ++ groupName ++ " doesn't exist.".toList))
    | some group =>
      if gadmin && decide ((numSlotsUsed db group.id : Int) ≥ group.slots) then
        .error (slotsExceeded groupName)
      else .ok (some group)

/-- The name, the password and the template. -/
def addUserChecks (site : Site) (name password : Str) (db : Database) : Except Reply User :=
  if !validUsername name then .error (.notOkay "Username contains invalid characters".toList)
  else
    match site.securePass password with
    | some strength =>
      .error (.notOkay
        ("Password not strong enough. Must meed the following minimum criteria:\n".toList ++ strength ++
          ".".toList))
    | none =>
      match db.users.byName "default".toList with
      | none => .error (.notOkay "Unable to load default user template.".toList)
      | some templateUser =>
        if site.bannedUsers.contains name then
          .error (.notOkay ("User ".toList ++ name ++ " is banned.".toList))
        else if site.totalUsers ≠ -1 ∧ (db.users.rows.length : Int) ≥ site.totalUsers then
          .error (.notOkay ("Maximum users added limit of ".toList ++ (toString site.totalUsers).toList ++
            " has been reached.".toList))
        else .ok templateUser

/-- What `ADDUSER` writes behind the new record: its group, then its masks. -/
def addUserWrites (site : Site) (group : Option Group) (user : User) (ips : List Str) (db : Database) :
    Done :=
  let (os, db) : Str × Database :=
    match group with
    | some group =>
      let user' := user.setPrimaryGID group.id
      ("Added user ".toList ++ user.name ++ " to group ".toList ++ group.name ++ ".".toList,
        save db user.id (.gids user'.primaryGid user'.secondaryGids user'.gadminGids))
    | none => ("Added user ".toList ++ user.name ++ ".".toList, db)
  if ips.isEmpty then ⟨.okay os, db, []⟩
  else
    let done := addIP site "ADDUSER".toList user.name ips db
    { done with reply := done.reply.after os }

/-- `ADDUSERCommand::Execute` once the group is known, without a template of its own. -/
def addUserTo (site : Site) (groupName : Str) (gadmin : Bool) (name password : Str) (ips : List Str)
    (db : Database) : Done :=
  match addUserGroup groupName gadmin db with
  | .error reply => ⟨reply, db, []⟩
  | .ok group =>
    match addUserChecks site name password db with
    | .error reply => ⟨reply, db, []⟩
    | .ok templateUser =>
      let user := { templateUser.fromTemplate site.hashPassword name password site.rawSalt site.user.id
        with id := nextUID db }
      match db.createUser user with
      | none => ⟨.notOkay ("User ".toList ++ name ++ " already exists.".toList), db, []⟩
      | some db => addUserWrites site group user ips db

/-- `ADDUSERCommand::Execute`: a client with only the gadmin form adds to his primary group. -/
def addUser (site : Site) (name password : Str) (ips : List Str) (db : Database) : Done :=
  if site.gadmin "adduser".toList then
    let groupName := site.user.primaryGroup site.groups.gidToName
    if groupName = "unknown".toList then ⟨.permissionError, db, []⟩
    else addUserTo site groupName true name password ips db
  else addUserTo site [] false name password ips db

/-- `GADDUSERCommand::Execute`; the arguments behind the group are joined and split again. -/
def gAddUser (site : Site) (groupName : Str) (args : List Str) (db : Database) : Done :=
  if site.gadmin "gadduser".toList && !site.user.hasGadminGID (site.groups.nameToGID groupName) then
    ⟨.permissionError, db, []⟩
  else
    match split ([' '].intercalate args) " ".toList false with
    | name :: password :: ips => addUserTo site groupName (site.gadmin "gadduser".toList) name password
        ips db
    | _ => ⟨.syntaxError, db, []⟩

/-- The user `USER` is about: the one named, or the client's. -/
def userArg (site : Site) : List Str → Str
  | [name] => name
  | _ => site.user.name

/-- `USERCommand::Execute`. -/
def userInfo (site : Site) (args : List Str) (db : Database) : Done :=
  let userName := userArg site args
  if site.permitted "user".toList userName = false then ⟨.permissionError, db, []⟩
  else
    match site.templateError with
    | some message => ⟨.notOkay message, db, []⟩
    | none =>
      match db.users.byName userName with
      | none => ⟨noUser userName, db, []⟩
      | some user => ⟨.okay user.name, db, [user]⟩

/-! ## Settings -/

structure SettingDef where
  name : Str
  maximumArgs : Option Nat
  aclKeyword : Str

def settings : List SettingDef :=
  [⟨"ratio".toList, some 1, "change|changegadmin".toList⟩,
    ⟨"sratio".toList, some 2, "change".toList⟩,
    ⟨"wkly_allotment".toList, some 2, "change|changegadmin".toList⟩,
    ⟨"homedir".toList, some 1, "changehomedir".toList⟩,
    ⟨"startupdir".toList, some 1, "changestartupdir".toList⟩,
    ⟨"flags".toList, some 1, "changeflags".toList⟩,
    ⟨"idle_time".toList, some 1, "change".toList⟩,
    ⟨"expires".toList, some 1, "change".toList⟩,
    ⟨"num_logins".toList, some 1, "change".toList⟩,
    ⟨"tagline".toList, none, "change".toList⟩,
    ⟨"comment".toList, none, "change".toList⟩,
    ⟨"max_up_speed".toList, some 1, "change".toList⟩,
    ⟨"max_down_speed".toList, some 1, "change".toList⟩,
    ⟨"max_sim_up".toList, some 1, "change".toList⟩,
    ⟨"max_sim_down".toList, some 1, "change".toList⟩]

/-- What `Check` returns: whether the client acts as a group admin, how the value reads, and the
function that sets it, or says why it does not. -/
structure Change where
  gadmin : Bool
  display : Str
  set : Database → User → Except Str UserField

def numLeeches (db : Database) (gid : GroupID) : Nat :=
  db.users.rows.countP fun user => user.primaryGid == gid && user.ratio.contains ([], 0)

def numAllotments (db : Database) (gid : GroupID) : Nat :=
  db.users.rows.countP fun user =>
    user.primaryGid == gid && user.weeklyAllotment.any fun kv => kv.1.isEmpty && decide (kv.2 > 0)

/-- `TotalAllotmentSize`; a group without any allotment gives no document to sum over. -/
def totalAllotmentSize (db : Database) (gid : GroupID) : Int :=
  let values := (db.users.rows.filter fun user => user.primaryGid == gid).flatMap fun user =>
    (user.weeklyAllotment.filter fun kv => kv.1.isEmpty).map Prod.snd
  if values.isEmpty then -1 else values.foldl (· + ·) 0

def noGroupProfile (site : Site) (user : User) : Str :=
  "Unable to load group profile for ".toList ++ user.primaryGroup site.groups.gidToName ++ ".".toList

def strToInt (s : Str) : Option Int :=
  match strToLLong s with
  | some value => if -2 ^ 31 ≤ value ∧ value < 2 ^ 31 then some value else none
  | none => none

/-- `SetDefaultRatio`, for a group admin within the leech slots of the user's group. -/
def setRatio (site : Site) (gadmin : Bool) (ratio : Int) (db : Database) (user : User) :
    Except Str UserField :=
  let field := UserField.ratio (user.setSectionRatio [] ratio).ratio
  if gadmin ∧ ratio = 0 then
    match db.groups.byId user.primaryGid with
    | none => .error (noGroupProfile site user)
    | some group =>
      if (numLeeches db group.id : Int) ≥ group.leechSlots then
        .error ("Maximum number of leech slots exceeded for group ".toList ++ group.name ++ ".".toList)
      else .ok field
  else .ok field

def checkRatio (site : Site) (value : Str) (db : Database) : Except Reply Change :=
  let gadmin := site.gadmin "change".toList
  match strToInt value with
  | none => .error .syntaxError
  | some ratio =>
    if ratio < -1 then .error .syntaxError
    else if ratio > site.maximumRatio then
      .error (.notOkay ("Ratio must be no larger than ".toList ++ (toString site.maximumRatio).toList ++
        ".".toList))
    else
      let display := fun ratio : Int =>
        if ratio = 0 then "Unlimited".toList else "1:".toList ++ (toString ratio).toList
      if ratio = -1 then
        match db.users.byName "default".toList with
        | none => .error (.notOkay "Unable to load default user template.".toList)
        | some user =>
          .ok ⟨gadmin, display user.defaultRatio, setRatio site gadmin user.defaultRatio⟩
      else if gadmin ∧ ratio > 0 then
        .error (.notOkay "Gadmin can only set ratio 0 (unlimited) or -1 (default).".toList)
      else .ok ⟨gadmin, display ratio, setRatio site gadmin ratio⟩

/-- `SetSectionWeeklyAllotment`, for a group admin within the allotments of the user's group. -/
def setWeeklyAllotment (site : Site) (gadmin : Bool) (sec : Str) (allotment : Int) (db : Database)
    (user : User) : Except Str UserField :=
  let field := UserField.weeklyAllotment (user.setSectionWeeklyAllotment sec allotment).weeklyAllotment
  if gadmin ∧ allotment > 0 then
    match db.groups.byId user.primaryGid with
    | none => .error (noGroupProfile site user)
    | some group =>
      let current := user.sectionWeeklyAllotment []
      if current = 0 ∧ (numAllotments db group.id : Int) ≥ group.allotmentSlots then
        .error ("Maximum number of allotment slots exceeded for group ".toList ++ group.name ++
          ".".toList)
      else if wrap64 (totalAllotmentSize db group.id - current + allotment) > group.maxAllotmentSize then
        .error ("Maximum allotment size exceeded for group ".toList ++ group.name ++ ".".toList)
      else .ok field
  else .ok field

/-- The section of an allotment, when there is one more argument. -/
def allotmentSection : List Str → Str
  | [sec] => toUpperCopy sec
  | _ => []

def checkWeeklyAllotment (site : Site) (value : Str) (values : List Str) : Except Reply Change :=
  let gadmin := site.gadmin "change".toList
  let sec := allotmentSection values
  if !sec.isEmpty && !site.cfg.sections.any (fun s => s.name == sec) then
    .error (.notOkay ("Section ".toList ++ sec ++ " doesn't exist.".toList))
  else
    match Cfg.parseSize value with
    | none => .error .syntaxError
    | some allotment =>
      let size :=
        if allotment = 0 then "Disabled".toList else (toString allotment).toList ++ "KB".toList
      .ok ⟨gadmin, if sec.isEmpty then size else sec ++ "(".toList ++ size ++ ")".toList,
        setWeeklyAllotment site gadmin sec allotment⟩

/-- `CHANGECommand::Check`. -/
def checkChange (site : Site) (setting value : Str) (values : List Str) (db : Database) :
    Except Reply Change :=
  let setting := toLowerCopy setting
  match settings.find? fun d => d.name == setting with
  | none => .error .syntaxError
  | some d =>
    if !site.allow d.aclKeyword then .error .permissionError
    else if d.maximumArgs.any fun n => n < 1 + values.length then .error .syntaxError
    else if setting = "ratio".toList then checkRatio site value db
    else if setting = "wkly_allotment".toList then checkWeeklyAllotment site value values
    else
      match site.otherSetting setting (value :: values) with
      | .ok set => .ok ⟨false, [], fun _ user => .ok (set user)⟩
      | .error text => .error (.notOkay text)

/-- `GetUsers`: names, and groups behind a `=`. -/
def getUsers (site : Site) (multiStr : Str) (db : Database) : List User :=
  let toks := split multiStr " ".toList true
  if toks.contains "*".toList then db.users.rows
  else
    let names := toks.filterMap fun
      | '=' :: _ => none
      | '-' :: tok => some tok
      | tok => some tok
    let gids := (toks.filterMap fun
      | '=' :: tok => some (site.groups.nameToGID tok)
      | _ => none).filter fun gid => gid ≠ -1
    db.users.rows.filter fun user =>
      names.contains user.name || gids.contains user.primaryGid ||
        user.secondaryGids.any fun gid => gids.contains gid

/-- The loop of `CHANGE`: how many were changed, and what stopped it. -/
def changeLoop (set : Database → User → Except Str UserField) :
    List UserID → Database → Nat × Str × Database
  | [], db => (0, [], db)
  | uid :: uids, db =>
    match db.users.byId uid with
    | none => changeLoop set uids db
    | some user =>
      match set db user with
      | .error text => (0, text, db)
      | .ok field =>
        let (changed, text, db) := changeLoop set uids (save db uid field)
        (changed + 1, text, db)

/-- `CHANGECommand::Execute`. -/
def change (site : Site) (multiStr setting value : Str) (values : List Str) (db : Database) : Done :=
  match checkChange site setting value values db with
  | .error reply => ⟨reply, db, []⟩
  | .ok c =>
    let uids := (getUsers site multiStr db).map User.id
    if uids.isEmpty then ⟨.notOkay "No user's exist matching that criteria.".toList, db, []⟩
    else if c.gadmin && uids.any fun uid =>
        !site.user.hasGadminGID (site.users.uidToPrimaryGID uid) then
      ⟨.permissionError, db, []⟩
    else
      let (changed, part, db) := changeLoop c.set uids db
      let text :=
        if changed = 0 then "No users changed.".toList
        else "Setting ".toList ++ toLowerCopy setting ++ " changed for ".toList ++
          (if changed = 1 then site.users.uidToName (uids.headD (-1))
            else (toString changed).toList ++ " users".toList) ++ ": ".toList ++ c.display
      ⟨.okay (part ++ text), db, []⟩

/-! ## The commands -/

inductive Command where
  | ADDUSER | GADDUSER | ADDIP | DELIP | CHPASS | DELUSER | READD | CHANGE | USER
  deriving DecidableEq

/-- The keyword of a command in the factory. -/
def Command.aclKeyword : Command → Str
  | .ADDUSER => "adduser|addusergadmin".toList
  | .GADDUSER => "gadduser|gaddusergadmin".toList
  | .ADDIP => "addip|addipown|addipgadmin".toList
  | .DELIP => "delip|delipown|delipgadmin".toList
  | .CHPASS => "chpass|chpassgadmin".toList
  | .DELUSER => "deluser|delusergadmin".toList
  | .READD => "readd|readdgadmin".toList
  | .CHANGE => "change|changeflags|changegadmin|changehomedir|changestartupdir".toList
  | .USER => "user|userown|usergadmin".toList

/-- The arguments behind the command; a number of them the factory does not admit is a syntax error. -/
def dispatch (site : Site) (db : Database) : Command → List Str → Done
  | .ADDUSER, name :: password :: ips => addUser site name password ips db
  | .GADDUSER, groupName :: name :: password :: ips => gAddUser site groupName (name :: password :: ips) db
  | .ADDIP, name :: ip :: ips => addIP site "ADDIP".toList name (ip :: ips) db
  | .DELIP, name :: ip :: ips => delIP site name (ip :: ips) db
  | .CHPASS, [name, password] => chPass site name password db
  | .DELUSER, [name] => delUser site name db
  | .READD, [name] => readd site name db
  | .CHANGE, multiStr :: setting :: value :: values => change site multiStr setting value values db
  | .USER, [] => userInfo site [] db
  | .USER, [name] => userInfo site [name] db
  | _, _ => ⟨.syntaxError, db, []⟩

/-- `SITECommand::Execute` of one of the commands. -/
def execute (site : Site) (cmd : Command) (args : List Str) (db : Database) : Done :=
  if site.allow cmd.aclKeyword then dispatch site db cmd args else ⟨.permissionError, db, []⟩

/-! ## What a save writes -/

/-- Only the records of `uids` change, and these keep their name and primary group. -/
structure Touches (uids : List UserID) (db db' : Database) : Prop where
  others : ∀ uid, uid ∉ uids → db'.users.byId uid = db.users.byId uid
  kept : ∀ uid, (db'.users.byId uid).map (fun u => (u.primaryGid, u.name)) =
    (db.users.byId uid).map fun u => (u.primaryGid, u.name)

namespace Touches

variable {uids : List UserID} {db db' db'' : Database}

theorem refl (uids : List UserID) (db : Database) : Touches uids db db where
  others := fun _ _ => rfl
  kept := fun _ => rfl

theorem mono {uids' : List UserID} (hsub : uids ⊆ uids') (h : Touches uids db db') :
    Touches uids' db db' where
  others := fun uid huid => h.others uid fun hmem => huid (hsub hmem)
  kept := h.kept

theorem trans (h : Touches uids db db') (h' : Touches uids db' db'') : Touches uids db db'' where
  others := fun uid huid => (h'.others uid huid).trans (h.others uid huid)
  kept := fun uid => (h'.kept uid).trans (h.kept uid)

/-- The record before, of a record there is now, and the other way round. -/
theorem before (h : Touches uids db db') {uid : UserID} {u' : User} (hu' : db'.users.byId uid = some u') :
    ∃ u, db.users.byId uid = some u ∧ u'.primaryGid = u.primaryGid ∧ u'.name = u.name := by
  have hkept := h.kept uid
  rw [hu', Option.map_some] at hkept
  obtain ⟨u, hu, hpair⟩ := Option.map_eq_some_iff.mp hkept.symm
  rw [Prod.mk.injEq] at hpair
  exact ⟨u, hu, hpair.1.symm, hpair.2.symm⟩

theorem after (h : Touches uids db db') {uid : UserID} {u : User} (hu : db.users.byId uid = some u) :
    ∃ u', db'.users.byId uid = some u' ∧ u'.primaryGid = u.primaryGid ∧ u'.name = u.name := by
  have hkept := h.kept uid
  rw [hu, Option.map_some] at hkept
  obtain ⟨u', hu', hpair⟩ := Option.map_eq_some_iff.mp hkept
  rw [Prod.mk.injEq] at hpair
  exact ⟨u', hu', hpair.1, hpair.2⟩

end Touches

/-- The fields that are neither the name nor the groups. -/
def keepsGroup : UserField → Bool
  | .name _ => false
  | .gids .. => false
  | _ => true

theorem set_keeps {field : UserField} (h : keepsGroup field = true) (user : User) :
    (field.set user).primaryGid = user.primaryGid ∧ (field.set user).name = user.name := by
  cases field with
  | name value => cases h
  | gids primaryGid secondaryGids gadminGids => cases h
  | ipMasks masks => exact ⟨rfl, rfl⟩
  | flags value => exact ⟨rfl, rfl⟩
  | password value salt => exact ⟨rfl, rfl⟩
  | ratio value => exact ⟨rfl, rfl⟩
  | weeklyAllotment value => exact ⟨rfl, rfl⟩

/-- `SaveField` writes the record of its user, if there is one. -/
theorem saveUser_users {db db' : Database} {uid : UserID} {field : UserField}
    (h : db.saveUser uid field = some db') : db.users.update uid field.set = some db'.users := by
  unfold Database.saveUser at h
  split at h
  · rename_i users hupdate
    cases h
    exact hupdate
  · cases h

theorem save_frame (db : Database) {uid other : UserID} (field : UserField) (h : other ≠ uid) :
    (save db uid field).users.byId other = db.users.byId other := by
  unfold save
  cases hsave : db.saveUser uid field with
  | none => rfl
  | some db' => exact Table.byId_update_ne (saveUser_users hsave) h

def keepsName : UserField → Bool
  | .name _ => false
  | _ => true

theorem keepsGroup_name {field : UserField} (h : keepsGroup field = true) : keepsName field = true := by
  cases field with
  | name value => cases h
  | gids primaryGid secondaryGids gadminGids => rfl
  | ipMasks masks => rfl
  | flags value => rfl
  | password value salt => rfl
  | ratio value => rfl
  | weeklyAllotment value => rfl

theorem set_name {field : UserField} (h : keepsName field = true) (user : User) :
    (field.set user).name = user.name := by
  cases field with
  | name value => cases h
  | gids primaryGid secondaryGids gadminGids => rfl
  | ipMasks masks => rfl
  | flags value => rfl
  | password value salt => rfl
  | ratio value => rfl
  | weeklyAllotment value => rfl

theorem set_id (field : UserField) (user : User) : (field.set user).id = user.id := by
  cases field with
  | name value => rfl
  | gids primaryGid secondaryGids gadminGids => rfl
  | ipMasks masks => rfl
  | flags value => rfl
  | password value salt => rfl
  | ratio value => rfl
  | weeklyAllotment value => rfl

/-- A save of anything but a name succeeds. -/
theorem save_rows (db : Database) (uid : UserID) {field : UserField} (h : keepsName field = true) :
    (save db uid field).users.rows =
      db.users.rows.map fun user => if user.id = uid then field.set user else user := by
  obtain ⟨users, hupdate, hrows⟩ := Table.update_of_name db.users uid (f := field.set) (set_name h)
  have hsave : (save db uid field).users = users := by
    unfold save Database.saveUser
    split
    · rename_i users' hupdate'
      rw [hupdate] at hupdate'
      cases hupdate'
      rfl
    · rename_i hnone
      rw [hupdate] at hnone
      cases hnone
  rw [hsave, hrows]
  apply List.map_congr_left
  intro user _
  simp only [Table.changed, set_id, and_self]

theorem save_byId (db : Database) (uid : UserID) {field : UserField} (h : keepsName field = true) :
    (save db uid field).users.byId uid = (db.users.byId uid).map field.set := by
  unfold Table.byId
  rw [save_rows db uid h, List.find?_map]
  have hid : (fun user : User => decide (user.id = uid)) ∘
      (fun user => if user.id = uid then field.set user else user) =
        fun user => decide (user.id = uid) := by
    funext user
    simp only [Function.comp_apply]
    split
    · rename_i huid
      rw [set_id]
    · rfl
  rw [hid]
  cases hfind : db.users.rows.find? fun user => decide (user.id = uid) with
  | none => rfl
  | some user =>
    have huid : user.id = uid := by simpa using List.find?_some hfind
    simp [huid]

theorem save_groups (db : Database) (uid : UserID) (field : UserField) :
    (save db uid field).groups = db.groups := by
  unfold save Database.saveUser
  split
  · rfl
  · rfl

theorem save_touches (db : Database) (uid : UserID) {field : UserField} (h : keepsGroup field = true) :
    Touches [uid] db (save db uid field) where
  others := fun other hother => save_frame db field (by simpa using hother)
  kept := by
    intro other
    by_cases hother : other = uid
    · rw [hother, save_byId db uid (keepsGroup_name h), Option.map_map]
      congr 1
      funext user
      exact Prod.ext (set_keeps h user).1 (set_keeps h user).2
    · rw [save_frame db field hother]

theorem createUser_users {db db' : Database} {user : User} (h : db.createUser user = some db') :
    db.users.insert user = some db'.users := by
  unfold Database.createUser at h
  split at h
  · split at h
    · rename_i users hins
      cases h
      exact hins
    · cases h
  · cases h

theorem setPrimaryGID_primaryGid (user : User) (gid : GroupID) :
    (user.setPrimaryGID gid).primaryGid = gid := by
  unfold User.setPrimaryGID
  split
  · rename_i h
    exact h
  · rfl

theorem addIPLoop_touches (site : Site) (ips deleted : List Str) (user : User) (db : Database) :
    Touches [user.id] db (addIPLoop site ips deleted user db).2 := by
  induction ips generalizing deleted user db with
  | nil => exact Touches.refl _ _
  | cons ip ips ih =>
    unfold addIPLoop
    split
    · exact ih deleted user db
    · split
      · exact ih deleted user db
      · split
        · exact ih deleted user db
        · rename_i user' hadd
          have hid : user'.id = user.id := by
            unfold User.addIPMask at hadd
            split at hadd
            · cases hadd
            · cases hadd
              rfl
          have hrest := ih (deleted ++ user.ipMasks.filter (site.ipMatch ip)) user'
            (save db user.id (.ipMasks user'.ipMasks))
          rw [hid] at hrest
          exact (save_touches db user.id rfl).trans hrest

theorem delIPLoop_touches (indexes : List Nat) (user : User) (db : Database) :
    Touches [user.id] db (delIPLoop indexes user db).2 := by
  induction indexes generalizing user db with
  | nil => exact Touches.refl _ _
  | cons index indexes ih =>
    unfold delIPLoop
    split
    · exact Touches.refl _ _
    · exact (save_touches db user.id rfl).trans
        (ih (user.delIPMask index) (save db user.id (.ipMasks (user.delIPMask index).ipMasks)))

end SiteUser
end Cmd
end Ebftpd
