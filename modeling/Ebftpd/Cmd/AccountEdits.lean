import Ebftpd.Cmd.Accounts

/-!
# Ebftpd.Cmd.AccountEdits

What the commands of `Accounts` can do to the database. An `Edit` is the replacement of one record, a
new record or the purge of one, with what the command has asked before; a command is some number of
them.

* `UserEdit`: what becomes of a user's record.
* `Edit`, `Edits`: one write, and the writes of one command.
* `addIP_edits` to `grpRen_edits`: the commands that are not about settings.
-/

namespace Ebftpd
namespace Cmd
namespace Accounts

open Util Lib Acl Db SiteUser

/-! ## Bounds -/

/-- The bounds that the settings of `CHANGE` are checked against. -/
structure WithinUser (user : User) : Prop where
  default : ([] : Str) ∈ user.ratio.map Prod.fst
  ratio : ∀ kv ∈ user.ratio, 0 ≤ kv.2
  idleTime : -1 ≤ user.idleTime
  numLogins : -1 ≤ user.numLogins
  maxSimDown : -1 ≤ user.maxSimDown
  maxSimUp : -1 ≤ user.maxSimUp
  tagline : user.tagline = [] ∨ ChangeText.validTagline user.tagline = true

/-- The bounds that the settings of `GRPCHANGE` are checked against. -/
structure WithinGroup (group : Group) : Prop where
  slots : -1 ≤ group.slots
  leechSlots : -2 ≤ group.leechSlots
  allotmentSlots : -2 ≤ group.allotmentSlots
  maxAllotmentSize : 0 ≤ group.maxAllotmentSize
  maxLogins : -1 ≤ group.maxLogins
  description : group.description = [] ∨ ChangeText.validTagline group.description = true

/-! ## Edits -/

/-- What a command starts from: the database, whether the client is a master, the flags the command may
give and the gids that the caches answer. -/
structure Scope where
  start : Database
  master : Prop
  grants : Flag → Prop
  cached : GroupID → Prop

/-- The gids a command can come by. -/
def Scope.known (s : Scope) (gid : GroupID) : Prop :=
  gid ∈ s.start.groups.rows.map Group.id ∨ gid ≠ -1 ∧ s.cached gid

/-- Neither the name, nor a group, nor a flag. -/
structure Plain (s : Scope) (user user' : User) : Prop where
  id : user'.id = user.id
  name : user'.name = user.name
  primaryGid : user'.primaryGid = user.primaryGid
  secondaryGids : user'.secondaryGids = user.secondaryGids
  gadminGids : user'.gadminGids = user.gadminGids
  flags : user'.flags = user.flags
  within : (∀ u ∈ s.start.users.rows, WithinUser u) → WithinUser user → WithinUser user'

/-- What becomes of a user's record. -/
inductive UserEdit (s : Scope) (user : User) : User → Prop where
  | plain {user' : User} (h : Plain s user user') : UserEdit s user user'
  | rename (name : Str) (hvalid : validUsername name = true) (hname : user.name ≠ "default".toList)
      (hmaster : user.hasFlag .Siteop = true → s.master) : UserEdit s user { user with name := name }
  | delete (h0 : user.id ≠ 0) (h1 : user.id ≠ 1) (hmaster : user.hasFlag .Siteop = true → s.master) :
      UserEdit s user (user.addFlag .Deleted)
  | readd : UserEdit s user (user.delFlag .Deleted)
  | flags (action : Change.Action) (flags : Str) (hallowed : Change.Allowed flags)
      (hgrants : action ≠ .del → ∀ f : Flag, f.char ∈ flags → s.grants f)
      (hmaster : user.hasFlag .Siteop = true → s.master) : UserEdit s user (action.apply user flags)
  | groups (op : GroupOp) {user' : User} (hop : op.step user = some user')
      (hgids : ∀ gid ∈ op.gids, s.known gid) : UserEdit s user user'

/-- The record that `FromTemplate` makes. -/
def FromTemplate (db : Database) (templateUser user : User) : Prop :=
  ∃ (hashPassword : Str → Str → Str) (name password rawSalt : Str) (creator : UserID),
    validUsername name = true ∧
    user = { templateUser.fromTemplate hashPassword name password rawSalt creator with id := nextUID db }

/-- A user that others are made after. -/
def IsTemplate (user : User) : Prop := user.name = "default".toList ∨ user.hasFlag .Template = true

inductive Edit (s : Scope) (db : Database) : Database → Prop where
  | user {user user' : User} {db' : Database} (huser : db.users.byId user.id = some user)
      (h : UserEdit s user user') (hwrite : writeUser db user'.id (fun _ => user') = some db') : Edit s db db'
  | createUser {templateUser user : User} {db' : Database} (htemplate : templateUser ∈ db.users.rows)
      (his : IsTemplate templateUser) (hfrom : FromTemplate db templateUser user)
      (hcreate : db.createUser user = some db') : Edit s db db'
  | purgeUser {user : User} (huser : db.users.byId user.id = some user)
      (hdeleted : user.hasFlag .Deleted = true) : Edit s db (db.purgeUser user.id)
  | group {group group' : Group} {db' : Database} (hgroup : db.groups.byId group.id = some group)
      (hid : group'.id = group.id) (hname : group'.name = group.name)
      (hwithin : WithinGroup group → WithinGroup group')
      (hwrite : writeGroup db group'.id (fun _ => group') = some db') : Edit s db db'
  | createGroup {templateGroup : Group} {db' : Database} (name : Str)
      (htemplate : templateGroup ∈ db.groups.rows) (hvalid : validGroupname name = true)
      (hcreate : db.createGroup { templateGroup with name := name, id := nextGID db } = some db') :
      Edit s db db'
  | renameGroup {group : Group} {db' : Database} (name : Str) (hgroup : db.groups.byId group.id = some group)
      (hname : group.name ≠ "default".toList) (hwrite : db.saveGroupName group.id name = some db') :
      Edit s db db'

/-- The writes of one command, one after another. -/
inductive Edits (s : Scope) : Database → Database → Prop where
  | refl {db : Database} : Edits s db db
  | cons {db db1 db' : Database} : Edit s db db1 → Edits s db1 db' → Edits s db db'

namespace Edits

variable {s : Scope} {db db1 db' : Database}

theorem single (h : Edit s db db') : Edits s db db' := .cons h .refl

theorem trans (h : Edits s db db1) (h' : Edits s db1 db') : Edits s db db' := by
  induction h with
  | refl => exact h'
  | cons hedit _ ih => exact .cons hedit (ih h')

/-- What one write preserves, a command preserves. -/
theorem preserves {P : Database → Prop} (hstep : ∀ db db', Edit s db db' → P db → P db')
    (h : Edits s db db') (hP : P db) : P db' := by
  induction h with
  | refl => exact hP
  | cons hedit _ ih => exact ih (hstep _ _ hedit hP)

end Edits

/-! ## What every edit keeps -/

/-- The settings that have bounds. -/
structure SameSettings (user user' : User) : Prop where
  ratio : user'.ratio = user.ratio
  idleTime : user'.idleTime = user.idleTime
  numLogins : user'.numLogins = user.numLogins
  maxSimDown : user'.maxSimDown = user.maxSimDown
  maxSimUp : user'.maxSimUp = user.maxSimUp
  tagline : user'.tagline = user.tagline

theorem WithinUser.same {user user' : User} (hwithin : WithinUser user) (h : SameSettings user user') :
    WithinUser user' where
  default := h.ratio ▸ hwithin.default
  ratio := h.ratio ▸ hwithin.ratio
  idleTime := h.idleTime ▸ hwithin.idleTime
  numLogins := h.numLogins ▸ hwithin.numLogins
  maxSimDown := h.maxSimDown ▸ hwithin.maxSimDown
  maxSimUp := h.maxSimUp ▸ hwithin.maxSimUp
  tagline := h.tagline ▸ hwithin.tagline

/-- The groups of a user are three lists and a flag. -/
theorem onUser_rest (user : User) (op : GroupOp) :
    (op.onUser user).id = user.id ∧ (op.onUser user).name = user.name ∧
      SameSettings user (op.onUser user) := by
  have hassign : ∀ (u : User) (gids : List GroupID), (u.assignGIDs gids).id = u.id ∧
      (u.assignGIDs gids).name = u.name ∧ SameSettings u (u.assignGIDs gids) := by
    intro u gids
    cases gids with
    | nil => exact ⟨rfl, rfl, rfl, rfl, rfl, rfl, rfl, rfl⟩
    | cons gid gids => exact ⟨rfl, rfl, rfl, rfl, rfl, rfl, rfl, rfl⟩
  have hclean : ∀ u : User, u.id = user.id ∧ u.name = user.name ∧ SameSettings user u →
      u.cleanGadminGIDs.id = user.id ∧ u.cleanGadminGIDs.name = user.name ∧
        SameSettings user u.cleanGadminGIDs := by
    intro u h
    exact ⟨h.1, h.2.1, h.2.2.ratio, h.2.2.idleTime, h.2.2.numLogins, h.2.2.maxSimDown, h.2.2.maxSimUp,
      h.2.2.tagline⟩
  cases op with
  | setPrimaryGID gid =>
    simp only [GroupOp.onUser, User.setPrimaryGID]
    split
    · exact ⟨rfl, rfl, rfl, rfl, rfl, rfl, rfl, rfl⟩
    · exact ⟨rfl, rfl, rfl, rfl, rfl, rfl, rfl, rfl⟩
  | addGIDs gids =>
    cases gids with
    | nil => exact ⟨rfl, rfl, rfl, rfl, rfl, rfl, rfl, rfl⟩
    | cons gid gids => exact ⟨rfl, rfl, rfl, rfl, rfl, rfl, rfl, rfl⟩
  | delGIDs gids =>
    refine hclean _ ?_
    split
    · exact hassign user _
    · exact ⟨rfl, rfl, rfl, rfl, rfl, rfl, rfl, rfl⟩
  | setGIDs gids => exact hclean _ (hassign user gids)
  | toggleGIDs gids => exact hclean _ (hassign user _)
  | toggleGadminGID gid =>
    simp only [GroupOp.onUser, User.toggleGadminGID, User.delGadminGID, User.addGadminGID]
    split
    · split
      · exact ⟨rfl, rfl, rfl, rfl, rfl, rfl, rfl, rfl⟩
      · exact ⟨rfl, rfl, rfl, rfl, rfl, rfl, rfl, rfl⟩
    · split
      · exact ⟨rfl, rfl, rfl, rfl, rfl, rfl, rfl, rfl⟩
      · exact ⟨rfl, rfl, rfl, rfl, rfl, rfl, rfl, rfl⟩

/-- `CHANGE flags` writes the flags. -/
theorem apply_eq (user : User) (action : Change.Action) (flags : Str) :
    ∃ flags', action.apply user flags = { user with flags := flags' } := by
  cases action with
  | add => exact ⟨_, rfl⟩
  | del =>
    simp only [Change.Action.apply, Change.keepTemplate]
    split
    · exact ⟨_, rfl⟩
    · exact ⟨_, rfl⟩
  | set =>
    simp only [Change.Action.apply, Change.keepTemplate]
    split
    · exact ⟨_, rfl⟩
    · exact ⟨_, rfl⟩

namespace UserEdit

variable {s : Scope} {user user' : User}

theorem id (h : UserEdit s user user') : user'.id = user.id := by
  cases h with
  | plain h => exact h.id
  | rename name hvalid hname hmaster => rfl
  | delete h0 h1 hmaster => rfl
  | readd => rfl
  | flags action flags hallowed hgrants hmaster =>
    obtain ⟨flags', heq⟩ := apply_eq user action flags
    rw [heq]
  | groups op hop hgids =>
    obtain ⟨rfl, -⟩ := step_inv hop
    exact (onUser_rest user op).1

theorem within (h : UserEdit s user user') (hstart : ∀ u ∈ s.start.users.rows, WithinUser u)
    (hwithin : WithinUser user) : WithinUser user' := by
  cases h with
  | plain h => exact h.within hstart hwithin
  | rename name hvalid hname hmaster => exact hwithin.same ⟨rfl, rfl, rfl, rfl, rfl, rfl⟩
  | delete h0 h1 hmaster => exact hwithin.same ⟨rfl, rfl, rfl, rfl, rfl, rfl⟩
  | readd => exact hwithin.same ⟨rfl, rfl, rfl, rfl, rfl, rfl⟩
  | flags action flags hallowed hgrants hmaster =>
    obtain ⟨flags', heq⟩ := apply_eq user action flags
    rw [heq]
    exact hwithin.same ⟨rfl, rfl, rfl, rfl, rfl, rfl⟩
  | groups op hop hgids =>
    obtain ⟨rfl, -⟩ := step_inv hop
    exact hwithin.same (onUser_rest user op).2.2

/-- A record gets another name from `RENUSER` only, and it is a valid one. -/
theorem name (h : UserEdit s user user') :
    user'.name = user.name ∨ validUsername user'.name = true ∧ user.name ≠ "default".toList := by
  cases h with
  | plain h => exact .inl h.name
  | rename name hvalid hname hmaster => exact .inr ⟨hvalid, hname⟩
  | delete h0 h1 hmaster => exact .inl rfl
  | readd => exact .inl rfl
  | flags action flags hallowed hgrants hmaster =>
    obtain ⟨flags', heq⟩ := apply_eq user action flags
    rw [heq]
    exact .inl rfl
  | groups op hop hgids =>
    obtain ⟨rfl, -⟩ := step_inv hop
    exact .inl (onUser_rest user op).2.1

end UserEdit

/-! ## The saves -/

section Saves

variable {s : Scope} {db : Database} {user user' : User}

theorem putUser_edits (huser : db.users.byId user.id = some user) (h : UserEdit s user user') :
    Edits s db (putUser db user') := by
  rcases putUser_cases db user' with hsame | hwrite
  · rw [hsame]
    exact .refl
  · exact .single (.user huser h hwrite)

theorem save_edits {field : UserField} (huser : db.users.byId user.id = some user)
    (h : UserEdit s user (field.set user)) : Edits s db (save db user.id field) := by
  rw [save_eq_putUser huser]
  exact putUser_edits huser h

/-- A field is set in the record there is, if there is one. -/
theorem writeUser_edits {uid : UserID} {f : User → User}
    (h : ∀ user, db.users.byId uid = some user → UserEdit s user (f user)) :
    Edits s db ((writeUser db uid f).getD db) := by
  cases huser : db.users.byId uid with
  | none =>
    have hsame : writeUser db uid f = some db := by
      unfold writeUser
      split
      · rename_i users hupdate
        rw [Table.update_of_byId_none huser] at hupdate
        cases hupdate
        rfl
      · rename_i hnone
        rw [Table.update_of_byId_none huser] at hnone
        cases hnone
    rw [hsame]
    exact .refl
  | some user =>
    have hid := Table.byId_id huser
    subst hid
    have hedit := h user huser
    have hput := putUser_edits huser hedit
    rwa [putUser, hedit.id, ← writeUser_const huser] at hput

theorem byName_byId {name : Str} (h : db.users.byName name = some user) :
    db.users.byId user.id = some user := (Table.byName_eq_some.mp h).1

theorem plain_ipMasks (s : Scope) (user : User) (masks : List Str) :
    UserEdit s user ((UserField.ipMasks masks).set user) :=
  .plain ⟨rfl, rfl, rfl, rfl, rfl, rfl, fun _ h => h.same ⟨rfl, rfl, rfl, rfl, rfl, rfl⟩⟩

theorem plain_password (s : Scope) (user : User) (password salt : Str) :
    UserEdit s user ((UserField.password password salt).set user) :=
  .plain ⟨rfl, rfl, rfl, rfl, rfl, rfl, fun _ h => h.same ⟨rfl, rfl, rfl, rfl, rfl, rfl⟩⟩

end Saves

/-! ## Masks, passwords and flags -/

section Commands

variable {s : Scope} {site : Site} {db : Database}

theorem addIPLoop_edits (ips deleted : List Str) {user : User}
    (huser : db.users.byId user.id = some user) :
    Edits s db (addIPLoop site ips deleted user db).2 := by
  induction ips generalizing deleted user db with
  | nil => exact .refl
  | cons ip ips ih =>
    unfold addIPLoop
    split
    · exact ih deleted huser
    · split
      · exact ih deleted huser
      · split
        · exact ih deleted huser
        · rename_i user' hadd
          obtain ⟨masks, rfl⟩ : ∃ masks, user' = (UserField.ipMasks masks).set user := by
            unfold User.addIPMask at hadd
            split at hadd
            · cases hadd
            · cases hadd
              exact ⟨_, rfl⟩
          have hstored : (save db user.id (.ipMasks masks)).users.byId user.id =
              some ((UserField.ipMasks masks).set user) := by
            rw [save_eq_putUser huser]
            exact putUser_byId huser rfl rfl
          exact (save_edits huser (plain_ipMasks s user masks)).trans (ih _ hstored)

theorem addIP_edits (arg0 name : Str) (ips : List Str) : Edits s db (addIP site arg0 name ips db).db := by
  unfold addIP
  split
  · exact .refl
  · split
    · exact .refl
    · rename_i user hname
      exact addIPLoop_edits ips [] (byName_byId hname)

theorem delIPLoop_edits (indexes : List Nat) {user : User} (huser : db.users.byId user.id = some user) :
    Edits s db (delIPLoop indexes user db).2 := by
  induction indexes generalizing user db with
  | nil => exact .refl
  | cons index indexes ih =>
    unfold delIPLoop
    split
    · exact .refl
    · have hstored : (save db user.id (.ipMasks (user.delIPMask index).ipMasks)).users.byId user.id =
          some (user.delIPMask index) := by
        rw [save_eq_putUser huser]
        exact putUser_byId huser rfl rfl
      exact (save_edits huser (plain_ipMasks s user _)).trans (ih hstored)

theorem delIP_edits (name : Str) (args : List Str) : Edits s db (delIP site name args db).db := by
  unfold delIP
  split
  · exact .refl
  · split
    · exact .refl
    · rename_i user hname
      split
      · exact .refl
      · exact save_edits (byName_byId hname) (plain_ipMasks s user _)
      · rename_i indexes hindexes
        have hloop := delIPLoop_edits (s := s) (indexes.insertionSort fun a b => a ≥ b) (byName_byId hname)
        split
        · rename_i os db' heq
          rw [heq] at hloop
          exact hloop
        · rename_i db' heq
          rw [heq] at hloop
          exact hloop

theorem setPassword_edits (name password : Str) : Edits s db (setPassword site name password db).db := by
  unfold setPassword
  split
  · exact .refl
  · split
    · exact .refl
    · rename_i user hname
      exact save_edits (byName_byId hname) (plain_password s user _ _)

theorem chPass_eq (site : Site) (name password : Str) (db : Database) :
    chPass site name password db =
      if site.denied "chpass".toList name then ⟨.permissionError, db, []⟩
      else setPassword site name password db := rfl

theorem chPass_edits (name password : Str) : Edits s db (chPass site name password db).db := by
  rw [chPass_eq]
  split
  · exact .refl
  · exact setPassword_edits name password

theorem delUser_edits (name : Str) (hmaster : site.masters.contains site.user.name = true → s.master) :
    Edits s db (delUser site name db).db := by
  unfold delUser
  split
  · exact .refl
  · split
    · exact .refl
    · rename_i user hname
      split
      · exact .refl
      · rename_i hsiteop
        split
        · exact .refl
        · rename_i hrequired
          rw [not_or, not_or] at hrequired
          split
          · exact .refl
          · refine save_edits (byName_byId hname) (.delete hrequired.2.1 hrequired.2.2 fun h => hmaster ?_)
            simpa [h] using hsiteop

theorem readd_edits (name : Str) : Edits s db (readd site name db).db := by
  unfold readd
  split
  · exact .refl
  · split
    · exact .refl
    · rename_i user hname
      have hreadd : Edits s db (save db user.id (.flags (user.delFlag .Deleted).flags)) :=
        save_edits (byName_byId hname) .readd
      split
      · exact .refl
      · split
        · split
          · exact .refl
          · split
            · exact .refl
            · exact hreadd
        · exact hreadd

theorem passwd_edits (c : Client) (password : Str) : Edits s db (passwd c password db).db := by
  unfold passwd
  split
  · exact setPassword_edits _ _
  · exact .refl

theorem tagline_edits (c : Client) (argStr : Str) : Edits s db (tagline c argStr db).db := by
  unfold tagline
  split
  · exact .refl
  · rename_i hvalid
    rw [Bool.not_eq_true', Bool.not_eq_false] at hvalid
    refine writeUser_edits fun user _ => .plain ⟨rfl, rfl, rfl, rfl, rfl, rfl, fun _ h => ?_⟩
    exact ⟨h.default, h.ratio, h.idleTime, h.numLogins, h.maxSimDown, h.maxSimUp, .inr hvalid⟩

/-! ## New users -/

theorem createUser_byId {db db' : Database} {user : User} (h : db.createUser user = some db') :
    db'.users.byId user.id = some user := by
  rw [Table.byId_insert (createUser_users h), if_pos rfl]

theorem createUser_groups {db db' : Database} {user : User} (h : db.createUser user = some db') :
    db'.groups = db.groups := by
  unfold Database.createUser at h
  split at h
  · split at h
    · cases h
      rfl
    · cases h
  · cases h

theorem addUserChecks_ok {name password : Str} {templateUser : User}
    (h : addUserChecks site name password db = .ok templateUser) :
    validUsername name = true ∧ templateUser ∈ db.users.rows ∧ IsTemplate templateUser := by
  unfold addUserChecks at h
  split at h
  · cases h
  · rename_i hvalid
    rw [Bool.not_eq_true', Bool.not_eq_false] at hvalid
    split at h
    · cases h
    · split at h
      · cases h
      · rename_i user hdefault
        split at h
        · cases h
        · split at h
          · cases h
          · cases h
            obtain ⟨hmem, hname⟩ := Table.byName_mem hdefault
            exact ⟨hvalid, hmem, .inl hname⟩

theorem addUserWrites_edits {group : Option Group} {user : User} (ips : List Str)
    (huser : db.users.byId user.id = some user) (hgroup : ∀ g, group = some g → s.known g.id) :
    Edits s db (addUserWrites site group user ips db).db := by
  have hfirst : ∀ g, group = some g →
      Edits s db (save db user.id (.gids (user.setPrimaryGID g.id).primaryGid
        (user.setPrimaryGID g.id).secondaryGids (user.setPrimaryGID g.id).gadminGids)) := by
    intro g hg
    have hset : (UserField.gids (user.setPrimaryGID g.id).primaryGid (user.setPrimaryGID g.id).secondaryGids
        (user.setPrimaryGID g.id).gadminGids).set user = user.setPrimaryGID g.id := by
      unfold User.setPrimaryGID
      split
      · rfl
      · rfl
    refine save_edits huser ?_
    rw [hset]
    exact .groups (.setPrimaryGID g.id) rfl fun gid hgid => by
      rw [List.mem_singleton.mp hgid]
      exact hgroup g hg
  unfold addUserWrites
  cases group with
  | none =>
    simp only
    split
    · exact .refl
    · exact addIP_edits _ _ ips
  | some g =>
    simp only
    split
    · exact hfirst g rfl
    · exact (hfirst g rfl).trans (addIP_edits _ _ ips)

theorem addUserTo_edits (groupName : Str) (gadmin : Bool) (name password : Str) (ips : List Str)
    (hstart : s.start = db) : Edits s db (addUserTo site groupName gadmin name password ips db).db := by
  unfold addUserTo
  split
  · exact .refl
  · rename_i group hgroup
    split
    · exact .refl
    · rename_i templateUser hchecks
      obtain ⟨hvalid, hmem, his⟩ := addUserChecks_ok hchecks
      simp only
      split
      · exact .refl
      · rename_i db' hcreate
        refine .cons (.createUser hmem his ⟨_, _, _, _, _, hvalid, rfl⟩ hcreate) ?_
        refine addUserWrites_edits ips (createUser_byId hcreate) fun g hg => .inl ?_
        rw [hg] at hgroup
        unfold addUserGroup at hgroup
        split at hgroup
        · cases hgroup
        · split at hgroup
          · cases hgroup
          · rename_i g' hname
            split at hgroup
            · cases hgroup
            · cases hgroup
              rw [hstart]
              exact List.mem_map_of_mem (Table.byName_mem hname).1

theorem addUser_edits (name password : Str) (ips : List Str) (hstart : s.start = db) :
    Edits s db (addUser site name password ips db).db := by
  unfold addUser
  split
  · simp only
    split
    · exact .refl
    · exact addUserTo_edits _ _ _ _ _ hstart
  · exact addUserTo_edits _ _ _ _ _ hstart

theorem gAddUser_edits (groupName : Str) (args : List Str) (hstart : s.start = db) :
    Edits s db (gAddUser site groupName args db).db := by
  unfold gAddUser
  split
  · exact .refl
  · split
    · exact addUserTo_edits _ _ _ _ _ hstart
    · exact .refl

theorem addUserFrom_edits {templateUser : User} (name password : Str) (ips : List Str)
    (hmem : templateUser ∈ db.users.rows) (his : IsTemplate templateUser) :
    Edits s db (addUserFrom site templateUser name password ips db).db := by
  unfold addUserFrom
  split
  · exact .refl
  · rename_i hvalid
    rw [Bool.not_eq_true', Bool.not_eq_false] at hvalid
    split
    · exact .refl
    · split
      · exact .refl
      · split
        · exact .refl
        · simp only
          split
          · exact .refl
          · rename_i db' hcreate
            refine .cons (.createUser hmem his ⟨_, _, _, _, _, hvalid, rfl⟩ hcreate) ?_
            split
            · exact .refl
            · exact addIP_edits _ _ ips

theorem tAddUser_edits (c : Client) (templateName : Str) (args : List Str) :
    Edits s db (tAddUser c templateName args db).db := by
  unfold tAddUser
  split
  · exact .refl
  · rename_i templateUser hname
    split
    · exact .refl
    · rename_i hflag
      rw [Bool.not_eq_true', Bool.not_eq_false] at hflag
      split
      · exact addUserFrom_edits _ _ _ (Table.byName_mem hname).1 (.inr hflag)
      · exact .refl

theorem userInfo_edits (args : List Str) : Edits s db (userInfo site args db).db := by
  unfold userInfo
  simp only
  split
  · exact .refl
  · split
    · exact .refl
    · split
      · exact .refl
      · exact .refl

/-! ## Renamed and purged users -/

theorem renUser_edits (c : Client) (name newName : Str) (hmaster : c.isMaster = true → s.master) :
    Edits s db (renUser c name newName db).db := by
  unfold renUser
  split
  · exact .refl
  · rename_i hvalid
    rw [Bool.not_eq_true', Bool.not_eq_false] at hvalid
    split
    · exact .refl
    · rename_i user hname
      split
      · exact .refl
      · rename_i hsiteop
        split
        · exact .refl
        · rename_i hdefault
          split
          · exact .refl
          · rename_i db' hsave
            have hbyId := byName_byId hname
            have hif : user.hasFlag .Siteop = true → s.master := fun h => hmaster (by simpa [h] using hsiteop)
            refine .single (.user hbyId (.rename newName hvalid hdefault hif) ?_)
            exact (writeUser_const hbyId).symm.trans hsave

theorem purgeUsers_edits (users : List User) :
    ∀ {db : Database}, (∀ user ∈ users, user.hasFlag .Deleted = true) → (users.map User.id).Nodup →
      (∀ user ∈ users, db.users.byId user.id = some user) →
      Edits s db (users.foldl (fun db user => db.purgeUser user.id) db) := by
  induction users with
  | nil => exact fun _ _ _ => .refl
  | cons user users ih =>
    intro db hdeleted hnodup hbyId
    rw [List.map_cons, List.nodup_cons] at hnodup
    refine .cons (.purgeUser (hbyId user (by simp)) (hdeleted user (by simp))) ?_
    refine ih (fun u hu => hdeleted u (List.mem_cons_of_mem _ hu)) hnodup.2 fun u hu => ?_
    have hne : u.id ≠ user.id := fun heq => hnodup.1 (heq ▸ List.mem_map_of_mem hu)
    have hrest : (db.purgeUser user.id).users.byId u.id = db.users.byId u.id := by
      rw [show (db.purgeUser user.id).users = db.users.remove user.id from rfl, Table.byId_remove, if_neg hne]
    rw [hrest]
    exact hbyId u (List.mem_cons_of_mem _ hu)

theorem purge_edits (name : Str) : Edits s db (purge name db).db := by
  unfold purge
  split
  · unfold purgeAll
    simp only
    split
    · exact .refl
    · refine purgeUsers_edits _ ?_ ?_ ?_
      · exact fun user huser => (List.mem_filter.mp huser).2
      · exact db.users.ids.sublist (List.Sublist.map _ List.filter_sublist)
      · exact fun user huser => Table.byId_of_mem (List.mem_filter.mp huser).1
  · split
    · exact .refl
    · rename_i user hname
      split
      · exact .refl
      · rename_i hdeleted
        rw [Bool.not_eq_true', Bool.not_eq_false] at hdeleted
        exact .single (.purgeUser (byName_byId hname) hdeleted)

/-! ## The groups of a user -/

/-- The gids that the caches of the client answer. -/
def Client.cached (c : Client) (gid : GroupID) : Prop := ∃ name, c.site.groups.nameToGID name = gid

theorem setPGrp_edits (c : Client) (name groupName : Str) (hcached : s.cached = c.cached) :
    Edits s db (setPGrp c name groupName db).db := by
  unfold setPGrp
  split
  · exact .refl
  · rename_i user hname
    simp only
    split
    · exact .refl
    · rename_i hgid
      split
      · exact .refl
      · split
        · exact .refl
        · refine putUser_edits (byName_byId hname)
            (.groups (.setPrimaryGID (c.site.groups.nameToGID groupName)) rfl fun gid hmem => .inr ?_)
          rw [List.mem_singleton.mp hmem, hcached]
          exact ⟨fun h => hgid (by rw [h]; decide), groupName, rfl⟩

theorem chGrpGIDs_known {c : Client} {names : List Str} {gids : List GroupID}
    (h : chGrpGIDs c names = .ok gids) : ∀ gid ∈ gids, gid ≠ -1 ∧ c.cached gid := by
  induction names generalizing gids with
  | nil =>
    cases h
    intro gid hgid
    cases hgid
  | cons name names ih =>
    unfold chGrpGIDs at h
    split at h
    · cases h
    · split at h
      · cases h
      · rename_i hne
        cases hrest : chGrpGIDs c names with
        | error text =>
          rw [hrest] at h
          cases h
        | ok rest =>
          rw [hrest] at h
          cases h
          intro gid hgid
          rcases List.mem_cons.mp hgid with rfl | hmem
          · exact ⟨hne, name, rfl⟩
          · exact ih hrest gid hmem

/-- `CHGRP` does one of the four list operations. -/
theorem chGrpOp_step (args : List Str) (gids : List GroupID) (user : User) :
    ((chGrpOp args).1 gids).step user = some (((chGrpOp args).1 gids).onUser user) ∧
      ((chGrpOp args).1 gids).gids = gids := by
  cases args with
  | nil => exact ⟨rfl, rfl⟩
  | cons arg names =>
    simp only [chGrpOp]
    split_ifs
    · exact ⟨rfl, rfl⟩
    · exact ⟨rfl, rfl⟩
    · exact ⟨rfl, rfl⟩
    · exact ⟨rfl, rfl⟩

theorem chGrp_edits (c : Client) (name : Str) (args : List Str) (hcached : s.cached = c.cached) :
    Edits s db (chGrp c name args db).db := by
  unfold chGrp
  split
  · exact .refl
  · rename_i user hname
    simp only
    split
    · exact .refl
    · split
      · exact .refl
      · rename_i gids hgids
        obtain ⟨hstep, hop⟩ := chGrpOp_step args gids user
        refine putUser_edits (byName_byId hname) (.groups _ hstep fun gid hmem => .inr ?_)
        rw [hop] at hmem
        rw [hcached]
        exact chGrpGIDs_known hgids gid hmem

theorem chGadmin_edits (c : Client) (name groupName : Str) (hcached : s.cached = c.cached) :
    Edits s db (chGadmin c name groupName db).db := by
  unfold chGadmin
  simp only
  split
  · exact .refl
  · rename_i hne
    split
    · exact .refl
    · rename_i user hname
      split
      · exact .refl
      · rename_i hgid
        rw [Bool.not_eq_true', Bool.not_eq_false] at hgid
        refine putUser_edits (byName_byId hname)
          (.groups (.toggleGadminGID (c.site.groups.nameToGID groupName)) (if_pos hgid) fun gid hmem => .inr ?_)
        rw [List.mem_singleton.mp hmem, hcached]
        exact ⟨hne, groupName, rfl⟩

/-! ## Groups -/

theorem byName_group {db : Database} {group : Group} {name : Str} (h : db.groups.byName name = some group) :
    db.groups.byId group.id = some group := (Table.byName_eq_some.mp h).1

theorem createGroup_groups {db db' : Database} {group : Group} (h : db.createGroup group = some db') :
    db.groups.insert group = some db'.groups ∧ db'.users = db.users := by
  unfold Database.createGroup at h
  split at h
  · split at h
    · rename_i groups hins
      cases h
      exact ⟨hins, rfl⟩
    · cases h
  · cases h

theorem saveGroupName_groups {db db' : Database} {gid : GroupID} {name : Str}
    (h : db.saveGroupName gid name = some db') :
    db.groups.update gid (fun group => { group with name := name }) = some db'.groups ∧
      db'.users = db.users := by
  unfold Database.saveGroupName at h
  split at h
  · rename_i groups hupdate
    cases h
    exact ⟨hupdate, rfl⟩
  · cases h

theorem putGroup_edits {group group' : Group} (hgroup : db.groups.byId group.id = some group)
    (hid : group'.id = group.id) (hname : group'.name = group.name)
    (hwithin : WithinGroup group → WithinGroup group') : Edits s db (putGroup db group') := by
  rcases putGroup_cases db group' with hsame | hwrite
  · rw [hsame]
    exact .refl
  · exact .single (.group hgroup hid hname hwithin hwrite)

theorem grpAdd_edits (name : Str) (args : List Str) (argStr : Str) :
    Edits s db (grpAdd name args argStr db).db := by
  unfold grpAdd
  simp only
  split
  · exact .refl
  · rename_i hvalid
    rw [Bool.not_eq_true', Bool.not_eq_false] at hvalid
    split
    · exact .refl
    · rename_i htext
      split
      · exact .refl
      · rename_i templateGroup hdefault
        split
        · exact .refl
        · rename_i db' hcreate
          refine .cons (.createGroup name (Table.byName_mem hdefault).1 hvalid hcreate) ?_
          split
          · exact .refl
          · rename_i hargs
            let created : Group := { templateGroup with name := name, id := nextGID db }
            have hcreated : db'.groups.byId created.id = some created := by
              rw [Table.byId_insert (createGroup_groups hcreate).1, if_pos rfl]
            refine putGroup_edits hcreated rfl rfl fun h => ?_
            refine ⟨h.slots, h.leechSlots, h.allotmentSlots, h.maxAllotmentSize, h.maxLogins, .inr ?_⟩
            simpa [hargs] using htext

theorem grpRen_edits (name newName : Str) : Edits s db (grpRen name newName db).db := by
  unfold grpRen
  split
  · exact .refl
  · split
    · exact .refl
    · rename_i group hname
      split
      · exact .refl
      · rename_i hdefault
        split
        · exact .refl
        · rename_i db' hsave
          exact .single (.renameGroup newName (byName_group hname) hdefault hsave)

end Commands

end Accounts
end Cmd
end Ebftpd
