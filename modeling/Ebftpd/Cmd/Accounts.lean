import Ebftpd.Acl.Membership
import Ebftpd.Cmd.ChangeText
import Ebftpd.Lib.Rows

/-!
# Ebftpd.Cmd.Accounts

The `SITE` commands that administrate the accounts, over one database: those of `SiteUser`, and
`TADDUSER`, `RENUSER`, `PURGE`, `PASSWD`, `TAGLINE`, `SETPGRP`, `CHGRP`, `CHGADMIN`, `GRPADD`,
`GRPDEL`, `GRPREN` (`src/cmd/site/commands.cpp`) and `GRPCHANGE` (`src/cmd/site/grpchange.cpp`).

* `execute`: a command behind the permission check and the argument count of the factory.
* `putUser_cases`, `putGroup_cases`: a save replaces the record, or is refused for its name.
-/

namespace Ebftpd
namespace Cmd
namespace Accounts

open Util Lib Acl Db SiteUser
open ChangeText (Exit Request Setting)

/-- The client, and what the settings of `CHANGE` read beside. -/
structure Client where
  site : Site
  pathFromUser : Str → Except Exn Str
  fromSimpleString : Str → Option Int

def Client.isMaster (c : Client) : Bool := c.site.masters.contains c.site.user.name

/-- How a command ended, and the database it left. -/
structure Outcome where
  exit : Exit
  db : Database

def Outcome.ofDone (d : Done) : Outcome := ⟨.reply d.reply, d.db⟩

def okay (text : Str) (db : Database) : Outcome := ⟨.reply (.okay text), db⟩

def notOkay (text : Str) (db : Database) : Outcome := ⟨.reply (.notOkay text), db⟩

/-- Nothing but an okay reply, or a `verify` that failed on the way. -/
def refused : Exit → Bool
  | .reply reply => reply.refused
  | _ => true

/-! ## Writes -/

/-- `SetField` of a user record; refused when another record has the new name. -/
def writeUser (db : Database) (uid : UserID) (f : User → User) : Option Database :=
  match h : db.users.update uid f with
  | some users => some { db with users := users, uids := Table.update_ids h ▸ db.uids }
  | none => none

def writeGroup (db : Database) (gid : GroupID) (f : Group → Group) : Option Database :=
  match h : db.groups.update gid f with
  | some groups => some { db with groups := groups, gids := Table.update_ids h ▸ db.gids }
  | none => none

/-- A save over a `NoErrorConnection`. -/
def putUser (db : Database) (user : User) : Database :=
  (writeUser db user.id fun _ => user).getD db

def putGroup (db : Database) (group : Group) : Database :=
  (writeGroup db group.id fun _ => group).getD db

theorem writeUser_users {db db' : Database} {uid : UserID} {f : User → User}
    (h : writeUser db uid f = some db') : db.users.update uid f = some db'.users ∧ db'.groups = db.groups := by
  unfold writeUser at h
  split at h
  · rename_i users hupdate
    cases h
    exact ⟨hupdate, rfl⟩
  · cases h

theorem writeGroup_groups {db db' : Database} {gid : GroupID} {f : Group → Group}
    (h : writeGroup db gid f = some db') :
    db.groups.update gid f = some db'.groups ∧ db'.users = db.users := by
  unfold writeGroup at h
  split at h
  · rename_i groups hupdate
    cases h
    exact ⟨hupdate, rfl⟩
  · cases h

theorem putUser_cases (db : Database) (user : User) :
    putUser db user = db ∨ writeUser db user.id (fun _ => user) = some (putUser db user) := by
  unfold putUser
  cases h : writeUser db user.id fun _ => user with
  | none => exact .inl rfl
  | some db' => exact .inr rfl

theorem putGroup_cases (db : Database) (group : Group) :
    putGroup db group = db ∨ writeGroup db group.id (fun _ => group) = some (putGroup db group) := by
  unfold putGroup
  cases h : writeGroup db group.id fun _ => group with
  | none => exact .inl rfl
  | some db' => exact .inr rfl

/-- A save of a field is the write of the record with this field. -/
theorem writeUser_const {db : Database} {uid : UserID} {f : User → User} {user : User}
    (h : db.users.byId uid = some user) : writeUser db uid f = writeUser db uid fun _ => f user := by
  have hrows := Table.update_const (f := f) h
  cases hf : writeUser db uid f with
  | none =>
    unfold writeUser at hf ⊢
    split at hf
    · cases hf
    · rename_i hnone
      split
      · rename_i hsome
        rw [← hrows, hnone] at hsome
        cases hsome
      · rfl
  | some db' =>
    unfold writeUser at hf ⊢
    split at hf
    · rename_i users hupdate
      cases hf
      split
      · rename_i users' hupdate'
        rw [← hrows, hupdate] at hupdate'
        cases hupdate'
        rfl
      · rename_i hnone
        rw [← hrows, hupdate] at hnone
        cases hnone
    · cases hf

theorem save_eq_putUser {db : Database} {user : User} (h : db.users.byId user.id = some user)
    (field : UserField) : save db user.id field = putUser db (field.set user) := by
  have hwrite : db.saveUser user.id field = writeUser db user.id field.set := rfl
  rw [save, hwrite, writeUser_const h, putUser, set_id]

/-- Where the name stays, the record is the one that is loaded next. -/
theorem putUser_byId {db : Database} {user user' : User} (h : db.users.byId user.id = some user)
    (hid : user'.id = user.id) (hname : user'.name = user.name) :
    (putUser db user').users.byId user'.id = some user' := by
  rw [← hid] at h
  obtain ⟨users, hupdate⟩ := Table.update_const_of_name h hname
  unfold putUser writeUser
  split
  · rename_i users' hupdate'
    exact Table.byId_update_self hupdate' h rfl
  · rename_i hnone
    rw [hupdate] at hnone
    cases hnone

/-- `validationPatterns` has one pattern for the names of users and groups. -/
def validGroupname (name : Str) : Bool := validUsername name

/-! ## Users -/

/-- `CHPASSCommand::Execute` behind the check for group admins, which `PASSWD` does not come by. -/
def setPassword (site : Site) (name password : Str) (db : Database) : Done :=
  match site.securePass password with
  | some strength =>
    ⟨.notOkay ("Password not strong enough. Must meet the following minimum criteria:\n".toList ++
      strength ++ ".".toList), db, []⟩
  | none =>
    match db.users.byName name with
    | none => ⟨noUser name, db, []⟩
    | some user =>
      let user' := user.setPassword site.hashPassword password site.rawSalt
      ⟨.okay "Password changed.".toList, save db user.id (.password user'.password user'.salt), []⟩

/-- `PASSWDCommand::Execute`: a line for `CHPASS`, split again. -/
def passwd (c : Client) (password : Str) (db : Database) : Outcome :=
  match split (c.site.user.name ++ " ".toList ++ password) " ".toList false with
  | name :: password :: _ => .ofDone (setPassword c.site name password db)
  | _ => ⟨.beyond 2, db⟩

/-- `TAGLINECommand::Execute`. -/
def tagline (c : Client) (argStr : Str) (db : Database) : Outcome :=
  if !ChangeText.validTagline argStr then notOkay "Tagline contains invalid characters".toList db
  else
    okay ("New Tagline: ".toList ++ argStr)
      ((writeUser db c.site.user.id fun user => user.setTagline argStr).getD db)

/-- `RENUSERCommand::Execute`. -/
def renUser (c : Client) (name newName : Str) (db : Database) : Outcome :=
  if !validUsername newName then notOkay "Username contains invalid characters".toList db
  else
    match db.users.byName name with
    | none => ⟨.reply (noUser name), db⟩
    | some user =>
      if user.hasFlag .Siteop && !c.isMaster then
        notOkay "Only masters can rename other siteops.".toList db
      else if user.name = "default".toList then notOkay "Cannot rename default template user.".toList db
      else
        match db.saveUser user.id (.name newName) with
        | none => notOkay ("User ".toList ++ newName ++ " already exists.".toList) db
        | some db => okay ("User ".toList ++ name ++ " renamed to ".toList ++ newName ++ ".".toList) db

/-- `PurgeAll`: the deleted users of the moment, one by one. -/
def purgeAll (db : Database) : Outcome :=
  let users := db.users.rows.filter (User.hasFlag · .Deleted)
  if users.isEmpty then notOkay "No deleted users to purge.".toList db
  else
    okay
      (if users.length = 1 then "User * has been purged.".toList
        else "Purged ".toList ++ (toString users.length).toList ++ " users.".toList)
      (users.foldl (fun db user => db.purgeUser user.id) db)

/-- `PURGECommand::Execute`. -/
def purge (name : Str) (db : Database) : Outcome :=
  if name = "*".toList then purgeAll db
  else
    match db.users.byName name with
    | none => ⟨.reply (noUser name), db⟩
    | some user =>
      if !user.hasFlag .Deleted then notOkay ("User ".toList ++ name ++ " is not deleted.".toList) db
      else okay ("User ".toList ++ name ++ " has been purged.".toList) (db.purgeUser user.id)

/-- `ADDUSERCommand::Execute` with a template, which needs no default user and no group. -/
def addUserFrom (site : Site) (templateUser : User) (name password : Str) (ips : List Str)
    (db : Database) : Done :=
  if !validUsername name then ⟨.notOkay "Username contains invalid characters".toList, db, []⟩
  else
    match site.securePass password with
    | some strength =>
      ⟨.notOkay
        ("Password not strong enough. Must meed the following minimum criteria:\n".toList ++ strength ++
          ".".toList), db, []⟩
    | none =>
      if site.bannedUsers.contains name then
        ⟨.notOkay ("User ".toList ++ name ++ " is banned.".toList), db, []⟩
      else if site.totalUsers ≠ -1 ∧ (db.users.rows.length : Int) ≥ site.totalUsers then
        ⟨.notOkay ("Maximum users added limit of ".toList ++ (toString site.totalUsers).toList ++
          " has been reached.".toList), db, []⟩
      else
        let user := { templateUser.fromTemplate site.hashPassword name password site.rawSalt site.user.id
          with id := nextUID db }
        match db.createUser user with
        | none => ⟨.notOkay ("User ".toList ++ name ++ " already exists.".toList), db, []⟩
        | some db =>
          let os := "Added user ".toList ++ name ++ " based on template ".toList ++ templateUser.name ++
            ".".toList
          if ips.isEmpty then ⟨.okay os, db, []⟩
          else
            let done := addIP site "ADDUSER".toList name ips db
            { done with reply := done.reply.after os }

/-- `TADDUSERCommand::Execute`; the arguments behind the template are joined and split again. -/
def tAddUser (c : Client) (templateName : Str) (args : List Str) (db : Database) : Outcome :=
  match db.users.byName templateName with
  | none => notOkay ("Template user ".toList ++ templateName ++ " doesn't exist.".toList) db
  | some templateUser =>
    if !templateUser.hasFlag .Template then
      notOkay (templateUser.name ++ " is not a template user.".toList) db
    else
      match split ([' '].intercalate args) " ".toList false with
      | name :: password :: ips => .ofDone (addUserFrom c.site templateUser name password ips db)
      | _ => ⟨.beyond 2, db⟩

/-! ## The groups of a user -/

/-- `SETPGRPCommand::Execute`. -/
def setPGrp (c : Client) (name groupName : Str) (db : Database) : Outcome :=
  match db.users.byName name with
  | none => ⟨.reply (noUser name), db⟩
  | some user =>
    let gid := c.site.groups.nameToGID groupName
    if gid < 0 then notOkay ("Group ".toList ++ groupName ++ " doesn't exist.".toList) db
    else if groupName = "default".toList then
      notOkay "The default template group cannot have members.".toList db
    else if user.primaryGid = gid then
      notOkay ("Group ".toList ++ groupName ++ " is already primary for ".toList ++ name ++ ".".toList) db
    else
      okay
        ((if user.primaryGid ≠ -1 then
            "Moved old primary group ".toList ++ c.site.groups.gidToName user.primaryGid ++
              " to secondary.\n".toList
          else []) ++
          "Set primary group for ".toList ++ name ++ " to: ".toList ++ groupName)
        (putUser db (user.setPrimaryGID gid))

/-- The loop of `CHGRP` over the names. -/
def chGrpGIDs (c : Client) : List Str → Except Str (List GroupID)
  | [] => .ok []
  | name :: names =>
    if name = "default".toList then .error "The default template group cannot have members.".toList
    else if c.site.groups.nameToGID name = -1 then
      .error ("Group ".toList ++ name ++ " doesn't exist.".toList)
    else (chGrpGIDs c names).map (c.site.groups.nameToGID name :: ·)

/-- The operation that the argument behind the user stands for, and the names it is for. -/
def chGrpOp : List Str → (List GroupID → GroupOp) × List Str
  | [] => (.toggleGIDs, [])
  | arg :: names =>
    if arg = "-".toList then (.delGIDs, names)
    else if arg = "=".toList then (.setGIDs, names)
    else if arg = "+".toList then (.addGIDs, names)
    else (.toggleGIDs, arg :: names)

/-- `GroupString`. -/
def groupString (site : Site) (user : User) : Str :=
  (if user.hasGadminGID user.primaryGid then "+".toList else []) ++
    user.primaryGroup site.groups.gidToName ++
    user.secondaryGids.flatMap fun gid =>
      " ".toList ++ (if user.hasGadminGID gid then "+".toList else []) ++ site.groups.gidToName gid

/-- `CHGRPCommand::Execute`. -/
def chGrp (c : Client) (name : Str) (args : List Str) (db : Database) : Outcome :=
  match db.users.byName name with
  | none => ⟨.reply (noUser name), db⟩
  | some user =>
    let (op, names) := chGrpOp args
    if names.isEmpty then ⟨.reply .syntaxError, db⟩
    else
      match chGrpGIDs c names with
      | .error text => notOkay text db
      | .ok gids =>
        let user' := (op gids).onUser user
        okay
          (if user'.primaryGid = -1 then "User ".toList ++ user'.name ++ " now has no groups.".toList
            else "User ".toList ++ user'.name ++ " now has groups: ".toList ++ groupString c.site user')
          (putUser db user')

/-- `CHGADMINCommand::Execute`. -/
def chGadmin (c : Client) (name groupName : Str) (db : Database) : Outcome :=
  let gid := c.site.groups.nameToGID groupName
  if gid = -1 then notOkay ("Group ".toList ++ groupName ++ " doesn't exist.".toList) db
  else
    match db.users.byName name with
    | none => ⟨.reply (noUser name), db⟩
    | some user =>
      if !user.hasGID gid then
        notOkay ("User ".toList ++ name ++ " is not a member of ".toList ++ groupName ++ ".".toList) db
      else
        okay
          ("Gadmin flag ".toList ++
            (if user.hasGadminGID gid then "removed from".toList else "added to".toList) ++ " ".toList ++
            name ++ " for ".toList ++ groupName ++ ".".toList)
          (putUser db (user.toggleGadminGID gid))

/-! ## Settings of users -/

/-- The loop of `CHANGE`, for every setting. -/
def changeLoop (set : Database → User → Except Str User) : List UserID → Database → Nat × Str × Database
  | [], db => (0, [], db)
  | uid :: uids, db =>
    match db.users.byId uid with
    | none => changeLoop set uids db
    | some user =>
      match set db user with
      | .error text => (0, text, db)
      | .ok user' =>
        let (changed, text, db) := changeLoop set uids (putUser db user')
        (changed + 1, text, db)

def Client.request (c : Client) (argStr : Str) (args : List Str) (db : Database) : Request where
  site := c.site
  isMaster := c.isMaster
  db := db
  pathFromUser := c.pathFromUser
  fromSimpleString := c.fromSimpleString
  argStr := argStr
  args := "CHANGE".toList :: args

/-- `CHANGECommand::Execute`. -/
def change (c : Client) (argStr multiStr setting : Str) (values : List Str) (db : Database) : Outcome :=
  match ChangeText.check (c.request argStr (multiStr :: setting :: values) db) with
  | .error exit => ⟨exit, db⟩
  | .ok s =>
    let uids := (getUsers c.site multiStr db).map User.id
    if uids.isEmpty then notOkay "No user's exist matching that criteria.".toList db
    else if gadminSetting setting && c.site.gadmin "change".toList && uids.any fun uid =>
        !c.site.user.hasGadminGID (c.site.users.uidToPrimaryGID uid) then
      ⟨.reply .permissionError, db⟩
    else
      let (changed, part, db) := changeLoop s.set uids db
      okay
        (part ++
          if changed = 0 then "No users changed.".toList
          else "Setting ".toList ++ toLowerCopy setting ++ " changed for ".toList ++
            (if changed = 1 then c.site.users.uidToName (uids.headD (-1))
              else (toString changed).toList ++ " users".toList) ++ ": ".toList ++ s.display)
        db
where
  /-- The two checks that ask whether the client is but a group admin. -/
  gadminSetting (setting : Str) : Bool :=
    toLowerCopy setting == "ratio".toList || toLowerCopy setting == "wkly_allotment".toList

/-! ## Groups -/

/-- The id a new group gets from `InsertAutoIncrement`: one above the largest, as an `int`. -/
def nextGID (db : Database) : GroupID :=
  match (db.groups.rows.map Group.id).max? with
  | some m => (m + 1 + 2 ^ 31) % 2 ^ 32 - 2 ^ 31
  | none => 0

def noGroup (name : Str) (db : Database) : Outcome :=
  notOkay ("Group ".toList ++ name ++ " doesn't exist.".toList) db

/-- `GRPADDCommand::Execute`; what is behind the name is the description. -/
def grpAdd (name : Str) (args : List Str) (argStr : Str) (db : Database) : Outcome :=
  let argStr := trimCopy (argStr.drop name.length)
  if !validGroupname name then notOkay "Groupname contains invalid characters".toList db
  else if !args.isEmpty && !ChangeText.validTagline argStr then
    notOkay "Description contains invalid characters".toList db
  else
    match db.groups.byName "default".toList with
    | none => notOkay "Unable to load default group template.".toList db
    | some templateGroup =>
      let group := { templateGroup with name := name, id := nextGID db }
      match db.createGroup group with
      | none => notOkay ("Group ".toList ++ name ++ " alread exists.".toList) db
      | some db =>
        okay ("Group ".toList ++ name ++ " successfully added.".toList)
          (if args.isEmpty then db else putGroup db { group with description := argStr })

/-- `NumMembers`. -/
def numMembers (db : Database) (gid : GroupID) : Nat :=
  db.users.rows.countP fun user => user.primaryGid == gid || user.secondaryGids.contains gid

/-- `GRPDELCommand::Execute`. -/
def grpDel (name : Str) (db : Database) : Outcome :=
  match db.groups.byName name with
  | none => noGroup name db
  | some group =>
    if group.name = "default".toList ∨ group.id = 1 ∨ group.id = 0 then
      notOkay "That group is required by the server so cannot be deleted.".toList db
    else if numMembers db group.id > 0 then notOkay "Unable to delete group with members.".toList db
    else okay ("Group ".toList ++ name ++ " deleted.".toList) (db.purgeGroup group.id)

/-- `GRPRENCommand::Execute`, which validates the old name. -/
def grpRen (name newName : Str) (db : Database) : Outcome :=
  if !validGroupname name then notOkay "Groupname contains invalid characters".toList db
  else
    match db.groups.byName name with
    | none => noGroup name db
    | some group =>
      if group.name = "default".toList then notOkay "Cannot rename default template group.".toList db
      else
        match db.saveGroupName group.id newName with
        | none => notOkay ("Group ".toList ++ newName ++ " already exists.".toList) db
        | some db => okay ("Group ".toList ++ name ++ " renamed to: ".toList ++ newName) db

/-- What a check of `GRPCHANGE` returns. -/
structure GroupSetting where
  display : Str
  set : Group → Group

/-- A number from `low` on; `names` are the numbers that read as a word. -/
def checkLimit (parse : Str → Option Int) (low : Int) (names : List (Int × String))
    (set : Int → Group → Group) (value : Str) : Except Exit GroupSetting :=
  match parse value with
  | none => .error (.reply .syntaxError)
  | some n =>
    if n < low then .error (.reply .syntaxError)
    else .ok ⟨((names.lookup n).map String.toList).getD (toString n).toList, set n⟩

def checkSlots : Str → Except Exit GroupSetting :=
  checkLimit Util.strToInt (-1) [(-1, "Unlimited")] fun n group => { group with slots := n }

def checkLeechSlots : Str → Except Exit GroupSetting :=
  checkLimit Util.strToInt (-2) [(-1, "Unlimited"), (-2, "Disabled")] fun n group =>
    { group with leechSlots := n }

def checkAllotSlots : Str → Except Exit GroupSetting :=
  checkLimit Util.strToInt (-2) [(-1, "Unlimited"), (-2, "Disabled")] fun n group =>
    { group with allotmentSlots := n }

def checkMaxAllotSize : Str → Except Exit GroupSetting :=
  checkLimit strToLLong 0 [(-1, "Unlimited")] fun n group => { group with maxAllotmentSize := n }

def checkMaxLogins : Str → Except Exit GroupSetting :=
  checkLimit Util.strToInt (-1) [(-1, "Unlimited")] fun n group => { group with maxLogins := n }

def checkDescription (text : Str) : Except Exit GroupSetting :=
  if !ChangeText.validTagline text then
    .error (.reply (.notOkay "Description contains invalid characters.".toList))
  else .ok ⟨text, fun group => { group with description := text }⟩

/-- `SetComment` assigns the description for the time of the save, and saves the comment. -/
def checkComment (text : Str) : Except Exit GroupSetting := .ok ⟨text, fun group => group⟩

/-- The text behind the setting, as `CHANGE` cuts it. -/
def cutText (argStr groupNames setting : Str) : Except Exit Str :=
  let start := groupNames.length + setting.length + 2
  if argStr.length < start then .error .outOfRange else .ok (argStr.drop start)

/-- `GRPCHANGECommand::Check`. -/
def checkGroup (c : Client) (argStr groupNames setting value : Str) (values : List Str) :
    Except Exit GroupSetting :=
  let setting := toLowerCopy setting
  let limits : List (String × (Str → Except Exit GroupSetting)) :=
    [("slots", checkSlots), ("leech_slots", checkLeechSlots), ("allot_slots", checkAllotSlots),
      ("max_allot_size", checkMaxAllotSize), ("max_logins", checkMaxLogins)]
  let texts : List (String × (Str → Except Exit GroupSetting)) :=
    [("description", checkDescription), ("comment", checkComment)]
  match limits.find? fun entry => entry.1.toList == setting with
  | some entry =>
    if !c.site.allow "grpchange".toList then .error (.reply .permissionError)
    else if !values.isEmpty then .error (.reply .syntaxError)
    else entry.2 value
  | none =>
    match texts.find? fun entry => entry.1.toList == setting with
    | some entry =>
      if !c.site.allow "grpchange".toList then .error (.reply .permissionError)
      else (cutText argStr groupNames setting).bind entry.2
    | none => .error (.reply .syntaxError)

/-- `GetGIDs`: all groups, or those with one of the names. -/
def getGIDs (multiStr : Str) (db : Database) : List GroupID :=
  let toks := split multiStr " ".toList true
  let groups :=
    if toks.contains "*".toList then db.groups.rows
    else
      let names := toks.map fun
        | '=' :: tok => tok
        | tok => tok
      db.groups.rows.filter fun group => names.contains group.name
  groups.map Group.id

/-- The loop of `GRPCHANGE`. -/
def grpChangeLoop (set : Group → Group) : List GroupID → Database → Database
  | [], db => db
  | gid :: gids, db =>
    match db.groups.byId gid with
    | none => grpChangeLoop set gids db
    | some group => grpChangeLoop set gids (putGroup db (set group))

/-- `GRPCHANGECommand::Execute`. -/
def grpChange (c : Client) (argStr groupNames setting value : Str) (values : List Str) (db : Database) :
    Outcome :=
  match checkGroup c argStr groupNames setting value values with
  | .error exit => ⟨exit, db⟩
  | .ok s =>
    match getGIDs groupNames db with
    | [] => notOkay "No group's exist matching that criteria.".toList db
    | gid :: gids =>
      okay
        ("Setting ".toList ++ toLowerCopy setting ++ " changed for ".toList ++
          (if gids.isEmpty then c.site.groups.gidToName gid
            else (toString (gids.length + 1)).toList ++ " groups".toList) ++ ": ".toList ++ s.display)
        (grpChangeLoop s.set (gid :: gids) db)

/-! ## The commands -/

inductive Command where
  | ADDUSER | GADDUSER | TADDUSER | ADDIP | DELIP | CHPASS | PASSWD | TAGLINE | DELUSER | READD | PURGE
  | RENUSER | CHANGE | USER | SETPGRP | CHGRP | CHGADMIN | GRPADD | GRPDEL | GRPREN | GRPCHANGE
  deriving DecidableEq

/-- The keyword of a command in the factory. -/
def Command.aclKeyword : Command → Str
  | .ADDUSER => SiteUser.Command.ADDUSER.aclKeyword
  | .GADDUSER => SiteUser.Command.GADDUSER.aclKeyword
  | .TADDUSER => "tadduser".toList
  | .ADDIP => SiteUser.Command.ADDIP.aclKeyword
  | .DELIP => SiteUser.Command.DELIP.aclKeyword
  | .CHPASS => SiteUser.Command.CHPASS.aclKeyword
  | .PASSWD => "passwd".toList
  | .TAGLINE => "tagline".toList
  | .DELUSER => SiteUser.Command.DELUSER.aclKeyword
  | .READD => SiteUser.Command.READD.aclKeyword
  | .PURGE => "purge".toList
  | .RENUSER => "renuser".toList
  | .CHANGE => SiteUser.Command.CHANGE.aclKeyword
  | .USER => SiteUser.Command.USER.aclKeyword
  | .SETPGRP => "setpgrp".toList
  | .CHGRP => "chgrp".toList
  | .CHGADMIN => "chgadmin".toList
  | .GRPADD => "grpadd".toList
  | .GRPDEL => "grpdel".toList
  | .GRPREN => "grpren".toList
  | .GRPCHANGE => "grpchange".toList

/-- A line of a client: the command, the text behind it and the arguments in this text. -/
structure Line where
  cmd : Command
  argStr : Str
  args : List Str

/-- The arguments behind the command; a number of them the factory does not admit is a syntax error. -/
def dispatch (c : Client) (db : Database) (argStr : Str) : Command → List Str → Outcome
  | .ADDUSER, name :: password :: ips => .ofDone (addUser c.site name password ips db)
  | .GADDUSER, groupName :: name :: password :: ips =>
    .ofDone (gAddUser c.site groupName (name :: password :: ips) db)
  | .TADDUSER, templateName :: name :: password :: ips =>
    tAddUser c templateName (name :: password :: ips) db
  | .ADDIP, name :: ip :: ips => .ofDone (addIP c.site "ADDIP".toList name (ip :: ips) db)
  | .DELIP, name :: ip :: ips => .ofDone (delIP c.site name (ip :: ips) db)
  | .CHPASS, [name, password] => .ofDone (chPass c.site name password db)
  | .PASSWD, [password] => passwd c password db
  | .TAGLINE, _ :: _ => tagline c argStr db
  | .DELUSER, [name] => .ofDone (delUser c.site name db)
  | .READD, [name] => .ofDone (readd c.site name db)
  | .PURGE, [name] => purge name db
  | .RENUSER, [name, newName] => renUser c name newName db
  | .CHANGE, multiStr :: setting :: value :: values =>
    change c argStr multiStr setting (value :: values) db
  | .USER, [] => .ofDone (userInfo c.site [] db)
  | .USER, [name] => .ofDone (userInfo c.site [name] db)
  | .SETPGRP, [name, groupName] => setPGrp c name groupName db
  | .CHGRP, name :: arg :: args => chGrp c name (arg :: args) db
  | .CHGADMIN, [name, groupName] => chGadmin c name groupName db
  | .GRPADD, name :: args => grpAdd name args argStr db
  | .GRPDEL, [name] => grpDel name db
  | .GRPREN, [name, newName] => grpRen name newName db
  | .GRPCHANGE, groupNames :: setting :: value :: values =>
    grpChange c argStr groupNames setting value values db
  | _, _ => ⟨.reply .syntaxError, db⟩

/-- `SITECommand::Execute` of one of the commands. -/
def execute (c : Client) (line : Line) (db : Database) : Outcome :=
  if c.site.allow line.cmd.aclKeyword then dispatch c db line.argStr line.cmd line.args
  else ⟨.reply .permissionError, db⟩

/-- One command after another, of any clients. -/
def step (db : Database) (i : Client × Line) : Option Database := some (execute i.1 i.2 db).db

end Accounts
end Cmd
end Ebftpd
