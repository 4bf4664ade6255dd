import Ebftpd.Cmd.SiteUser

/-!
# Ebftpd.Cmd.Gadmin

What a group admin's commands touch. Each command that is not refused has passed its permission
check and acted on the users it names; the check and the caches it asks then decide whether these
are in his groups.

* `addIP_acts` to `userInfo_acts`, `change_acts`, `addUserTo_added`: what each command does to whom.
* `execute_confined_iff`: with caches that answer as the database does, a command of a group admin
  that is not refused stays inside his groups, unless it is `ADDUSER`. That one takes his primary
  group and never asks whether he is an admin of it.
-/

namespace Ebftpd
namespace Cmd
namespace SiteUser

open Util Lib Acl Acl.Path Db

/-! ## What a command does to whom -/

/-- The command acted on the user of that name and on no other. -/
def ActsOn (name : Str) (db : Database) (d : Done) : Prop :=
  ∃ user, db.users.byName name = some user ∧ Touches [user.id] db d.db ∧ ∀ u ∈ d.shown, u = user

section Acts

variable {site : Site} {name : Str} {db : Database}

/-- A command that passes its check and finds its user acts on him. -/
theorem acts_of_checked {c : Prop} [Decidable c] {d : Done} {f : User → Done}
    (hd : d = if c then ⟨.permissionError, db, []⟩ else
      match db.users.byName name with
      | none => ⟨noUser name, db, []⟩
      | some user => f user)
    (hf : ∀ user, Touches [user.id] db (f user).db ∧ ∀ u ∈ (f user).shown, u = user)
    (h : d.reply.refused = false) : ¬c ∧ ActsOn name db d := by
  by_cases hc : c
  · rw [hd, if_pos hc] at h
    cases h
  · rw [if_neg hc] at hd
    cases huser : db.users.byName name with
    | none =>
      rw [hd, huser] at h
      cases h
    | some user =>
      rw [huser] at hd
      rw [hd]
      exact ⟨hc, user, huser, hf user⟩

theorem addIP_acts {arg0 : Str} {ips : List Str}
    (h : (addIP site arg0 name ips db).reply.refused = false) :
    (arg0 = "ADDIP".toList → site.permitted "addip".toList name = true) ∧
      ActsOn name db (addIP site arg0 name ips db) := by
  obtain ⟨hperm, hacts⟩ := acts_of_checked rfl
    (fun user => ⟨addIPLoop_touches site ips [] user db, by simp⟩) h
  exact ⟨fun harg => by simpa [harg] using hperm, hacts⟩

theorem addIP_shown (site : Site) (arg0 name : Str) (ips : List Str) (db : Database) :
    (addIP site arg0 name ips db).shown = [] := by
  unfold addIP
  split
  · rfl
  · cases db.users.byName name with
    | none => rfl
    | some user => rfl

theorem delIP_acts {args : List Str} (h : (delIP site name args db).reply.refused = false) :
    site.permitted "delip".toList name = true ∧ ActsOn name db (delIP site name args db) := by
  refine (acts_of_checked rfl (fun user => ⟨?_, ?_⟩) h).imp (fun hperm => by simpa using hperm) id
  · split
    · exact Touches.refl _ _
    · exact save_touches db user.id rfl
    · rename_i indexes hindexes
      have hloop := delIPLoop_touches (indexes.insertionSort fun a b => a ≥ b) user db
      split
      · rename_i hres
        rw [hres] at hloop
        exact hloop
      · rename_i hres
        rw [hres] at hloop
        exact hloop
  · split
    · simp
    · simp
    · split
      · simp
      · simp

theorem chPass_acts {password : Str} (h : (chPass site name password db).reply.refused = false) :
    site.denied "chpass".toList name = false ∧ ActsOn name db (chPass site name password db) := by
  unfold chPass at h ⊢
  split
  · rename_i hperm
    rw [if_pos hperm] at h
    cases h
  · rename_i hperm
    rw [if_neg hperm] at h
    refine ⟨by simpa using hperm, ?_⟩
    cases hpass : site.securePass password with
    | some strength =>
      rw [hpass] at h
      cases h
    | none =>
      rw [hpass] at h
      cases huser : db.users.byName name with
      | none =>
        simp only [huser] at h
        cases h
      | some user => exact ⟨user, huser, save_touches db user.id rfl, by simp⟩

theorem delUser_acts (h : (delUser site name db).reply.refused = false) :
    site.denied "deluser".toList name = false ∧ ActsOn name db (delUser site name db) := by
  refine (acts_of_checked rfl (fun user => ⟨?_, ?_⟩) h).imp (fun hperm => by simpa using hperm) id
  · split
    · exact Touches.refl _ _
    · split
      · exact Touches.refl _ _
      · split
        · exact Touches.refl _ _
        · exact save_touches db user.id rfl
  · split
    · simp
    · split
      · simp
      · split
        · simp
        · simp

theorem readd_acts (h : (readd site name db).reply.refused = false) :
    site.denied "readd".toList name = false ∧ ActsOn name db (readd site name db) := by
  refine (acts_of_checked rfl (fun user => ⟨?_, ?_⟩) h).imp (fun hperm => by simpa using hperm) id
  · have hsave : Touches [user.id] db (save db user.id (.flags (user.delFlag .Deleted).flags)) :=
      save_touches db user.id rfl
    split
    · exact Touches.refl _ _
    · split
      · split
        · exact Touches.refl _ _
        · split
          · exact Touches.refl _ _
          · exact hsave
      · exact hsave
  · split
    · simp
    · split
      · split
        · simp
        · split
          · simp
          · simp
      · simp

theorem userInfo_acts {args : List Str} (h : (userInfo site args db).reply.refused = false) :
    site.permitted "user".toList (userArg site args) = true ∧
      ActsOn (userArg site args) db (userInfo site args db) := by
  unfold userInfo at h ⊢
  simp only at h ⊢
  split
  · rename_i hperm
    rw [if_pos hperm] at h
    cases h
  · rename_i hperm
    rw [if_neg hperm] at h
    refine ⟨by simpa using hperm, ?_⟩
    cases htempl : site.templateError with
    | some message =>
      rw [htempl] at h
      cases h
    | none =>
      rw [htempl] at h
      cases huser : db.users.byName (userArg site args) with
      | none =>
        simp only [huser] at h
        cases h
      | some user => exact ⟨user, huser, Touches.refl _ _, by simp⟩

end Acts

/-! ## A new user -/

theorem addUserGroup_some {groupName : Str} {gadmin : Bool} {db : Database} {group : Option Group}
    (hname : groupName ≠ []) (h : addUserGroup groupName gadmin db = .ok group) :
    ∃ g, group = some g ∧ db.groups.byName groupName = some g := by
  unfold addUserGroup at h
  rw [if_neg (by simpa using hname)] at h
  split at h
  · cases h
  · rename_i g hgroup
    split at h
    · cases h
    · cases h
      exact ⟨g, rfl, hgroup⟩

/-- The new user, and no other: his group is the one that was loaded. -/
structure Added (group : Group) (db : Database) (d : Done) : Prop where
  created : ∃ uid u, db.users.byId uid = none ∧ d.db.users.byId uid = some u ∧
    u.primaryGid = group.id ∧ ∀ other, other ≠ uid → d.db.users.byId other = db.users.byId other
  shown : d.shown = []

theorem addUserGroup_error {groupName : Str} {gadmin : Bool} {db : Database} {reply : Reply}
    (h : addUserGroup groupName gadmin db = .error reply) : reply.refused = true := by
  unfold addUserGroup at h
  split at h
  · cases h
  · split at h
    · cases h
      rfl
    · split at h
      · cases h
        rfl
      · cases h

theorem addUserChecks_error {site : Site} {name password : Str} {db : Database} {reply : Reply}
    (h : addUserChecks site name password db = .error reply) : reply.refused = true := by
  unfold addUserChecks at h
  split at h
  · cases h
    rfl
  · split at h
    · cases h
      rfl
    · split at h
      · cases h
        rfl
      · split at h
        · cases h
          rfl
        · split at h
          · cases h
            rfl
          · cases h

theorem after_refused (os : Str) (reply : Reply) : (reply.after os).refused = reply.refused := by
  cases reply with
  | okay text => rfl
  | notOkay text => rfl
  | permissionError => rfl
  | syntaxError => rfl
  | verifyFailed => rfl

/-- The record of a user who was just inserted, when `ADDUSER` has written all. -/
theorem addUserWrites_user {site : Site} {group : Group} {user : User} {ips : List Str} {db : Database}
    (huser : db.users.byId user.id = some user)
    (h : (addUserWrites site (some group) user ips db).reply.refused = false) :
    (∃ u, (addUserWrites site (some group) user ips db).db.users.byId user.id = some u ∧
      u.primaryGid = group.id) ∧
    (∀ other, other ≠ user.id →
      (addUserWrites site (some group) user ips db).db.users.byId other = db.users.byId other) ∧
    (addUserWrites site (some group) user ips db).shown = [] := by
  unfold addUserWrites at h ⊢
  simp only [setPrimaryGID_primaryGid] at h ⊢
  generalize hfield : UserField.gids group.id (user.setPrimaryGID group.id).secondaryGids
    (user.setPrimaryGID group.id).gadminGids = field at h ⊢
  have hset : (field.set user).primaryGid = group.id ∧ (field.set user).name = user.name := by
    subst hfield
    exact ⟨rfl, rfl⟩
  have hsaved : (save db user.id field).users.byId user.id = some (field.set user) := by
    rw [save_byId db user.id (by subst hfield; rfl), huser]
    rfl
  split
  · exact ⟨⟨_, hsaved, hset.1⟩, fun other hother => save_frame db field hother, rfl⟩
  · rename_i hips
    rw [if_neg hips, after_refused] at h
    obtain ⟨-, found, hfound, htouches, -⟩ := addIP_acts h
    -- the user `ADDIP` finds by name is the new one
    have hsame : found.id = user.id := by
      obtain ⟨hid, hname⟩ := Table.byName_eq_some.mp hfound
      exact Table.byId_name_inj hid hsaved (hname.trans hset.2.symm)
    rw [hsame] at htouches
    refine ⟨?_, ?_, ?_⟩
    · obtain ⟨u, hu, hgid, -⟩ := htouches.after hsaved
      exact ⟨u, hu, hgid.trans hset.1⟩
    · intro other hother
      exact (htouches.others other (by simpa using hother)).trans (save_frame db field hother)
    · exact addIP_shown site "ADDUSER".toList user.name ips (save db user.id field)

theorem addUserTo_added {site : Site} {groupName name password : Str} {gadmin : Bool} {ips : List Str}
    {db : Database} (hname : groupName ≠ [])
    (h : (addUserTo site groupName gadmin name password ips db).reply.refused = false) :
    ∃ group, db.groups.byName groupName = some group ∧
      Added group db (addUserTo site groupName gadmin name password ips db) := by
  unfold addUserTo at h ⊢
  cases hgroup : addUserGroup groupName gadmin db with
  | error reply =>
    simp only [hgroup, addUserGroup_error hgroup] at h
    cases h
  | ok group =>
    obtain ⟨g, rfl, hg⟩ := addUserGroup_some hname hgroup
    refine ⟨g, hg, ?_⟩
    simp only [hgroup] at h ⊢
    cases hchecks : addUserChecks site name password db with
    | error reply =>
      simp only [hchecks, addUserChecks_error hchecks] at h
      cases h
    | ok templateUser =>
      simp only [hchecks] at h ⊢
      generalize hu : { templateUser.fromTemplate site.hashPassword name password site.rawSalt
        site.user.id with id := nextUID db } = user at h ⊢
      cases hcreate : db.createUser user with
      | none =>
        simp only [hcreate] at h
        cases h
      | some db' =>
        simp only [hcreate] at h ⊢
        have hins := createUser_users hcreate
        have huser : db'.users.byId user.id = some user := by rw [Table.byId_insert hins, if_pos rfl]
        obtain ⟨⟨u, hu', hgid⟩, hothers, hshown⟩ := addUserWrites_user huser h
        refine ⟨⟨user.id, u, ?_, hu', hgid, ?_⟩, hshown⟩
        · exact Table.byId_eq_none.mpr (Table.insert_eq_some hins).1
        · intro other hother
          rw [hothers other hother, Table.byId_insert hins, if_neg hother]

/-! ## Settings -/

theorem setRatio_keepsGroup {site : Site} {gadmin : Bool} {ratio : Int} {db : Database} {user : User}
    {field : UserField} (h : setRatio site gadmin ratio db user = .ok field) :
    keepsGroup field = true := by
  unfold setRatio at h
  simp only at h
  split at h
  · split at h
    · cases h
    · split at h
      · cases h
      · cases h
        rfl
  · cases h
    rfl

theorem setWeeklyAllotment_keepsGroup {site : Site} {gadmin : Bool} {sec : Str} {allotment : Int}
    {db : Database} {user : User} {field : UserField}
    (h : setWeeklyAllotment site gadmin sec allotment db user = .ok field) :
    keepsGroup field = true := by
  unfold setWeeklyAllotment at h
  simp only at h
  split at h
  · split at h
    · cases h
    · split at h
      · cases h
      · split at h
        · cases h
        · cases h
          rfl
  · cases h
    rfl

/-- A change that knows whether it is a group admin's, and leaves names and groups alone. -/
def Change.Proper (site : Site) (c : Change) : Prop :=
  c.gadmin = site.gadmin "change".toList ∧
    ∀ db user field, c.set db user = .ok field → keepsGroup field = true

theorem checkRatio_proper {site : Site} {value : Str} {db : Database} {c : Change}
    (h : checkRatio site value db = .ok c) : c.Proper site := by
  unfold checkRatio at h
  simp only at h
  split at h
  · cases h
  · split at h
    · cases h
    · split at h
      · cases h
      · split at h
        · split at h
          · cases h
          · cases h
            exact ⟨rfl, fun _ _ _ => setRatio_keepsGroup⟩
        · split at h
          · cases h
          · cases h
            exact ⟨rfl, fun _ _ _ => setRatio_keepsGroup⟩

theorem checkWeeklyAllotment_proper {site : Site} {value : Str} {values : List Str} {c : Change}
    (h : checkWeeklyAllotment site value values = .ok c) : c.Proper site := by
  unfold checkWeeklyAllotment at h
  simp only at h
  split at h
  · cases h
  · split at h
    · cases h
    · cases h
      exact ⟨rfl, fun _ _ _ => setWeeklyAllotment_keepsGroup⟩

theorem checkRatio_error {site : Site} {value : Str} {db : Database} {reply : Reply}
    (h : checkRatio site value db = .error reply) : reply.refused = true := by
  unfold checkRatio at h
  simp only at h
  split at h
  · cases h
    rfl
  · split at h
    · cases h
      rfl
    · split at h
      · cases h
        rfl
      · split at h
        · split at h
          · cases h
            rfl
          · cases h
        · split at h
          · cases h
            rfl
          · cases h

theorem checkWeeklyAllotment_error {site : Site} {value : Str} {values : List Str} {reply : Reply}
    (h : checkWeeklyAllotment site value values = .error reply) : reply.refused = true := by
  unfold checkWeeklyAllotment at h
  simp only at h
  split at h
  · cases h
    rfl
  · split at h
    · cases h
      rfl
    · cases h

theorem checkChange_error {site : Site} {setting value : Str} {values : List Str} {db : Database}
    {reply : Reply} (h : checkChange site setting value values db = .error reply) :
    reply.refused = true := by
  unfold checkChange at h
  simp only at h
  split at h
  · cases h
    rfl
  · split at h
    · cases h
      rfl
    · split at h
      · cases h
        rfl
      · split at h
        · exact checkRatio_error h
        · split at h
          · exact checkWeeklyAllotment_error h
          · split at h
            · cases h
            · cases h
              rfl

/-- The settings a group admin may change. -/
def gadminSetting (setting : Str) : Bool :=
  toLowerCopy setting == "ratio".toList || toLowerCopy setting == "wkly_allotment".toList

theorem checkChange_proper {site : Site} {setting value : Str} {values : List Str} {db : Database}
    {c : Change} (hsetting : gadminSetting setting = true)
    (h : checkChange site setting value values db = .ok c) : c.Proper site := by
  unfold checkChange at h
  simp only at h
  split at h
  · cases h
  · split at h
    · cases h
    · split at h
      · cases h
      · split at h
        · exact checkRatio_proper h
        · rename_i hratio
          split at h
          · exact checkWeeklyAllotment_proper h
          · rename_i hallotment
            simp only [gadminSetting, Bool.or_eq_true, beq_iff_eq] at hsetting
            exact absurd hsetting (not_or.mpr ⟨hratio, hallotment⟩)

theorem changeLoop_touches {set : Database → User → Except Str UserField}
    (hset : ∀ db user field, set db user = .ok field → keepsGroup field = true) (uids : List UserID)
    (db : Database) : Touches uids db (changeLoop set uids db).2.2 := by
  induction uids generalizing db with
  | nil => exact Touches.refl _ _
  | cons uid uids ih =>
    unfold changeLoop
    split
    · exact (ih db).mono (List.subset_cons_self uid uids)
    · rename_i user _
      split
      · exact Touches.refl _ _
      · rename_i field hfield
        have hsave := save_touches db uid (hset db user field hfield)
        exact (hsave.mono (by simp)).trans
          ((ih (save db uid field)).mono (List.subset_cons_self uid uids))

theorem getUsers_mem {site : Site} {multiStr : Str} {db : Database} {user : User}
    (h : user ∈ getUsers site multiStr db) : user ∈ db.users.rows := by
  unfold getUsers at h
  simp only at h
  split at h
  · exact h
  · exact List.mem_of_mem_filter h

/-- `CHANGE` has asked the cache about every user it changes. -/
theorem change_acts {site : Site} {multiStr setting value : Str} {values : List Str} {db : Database}
    (hgadmin : site.gadmin "change".toList = true) (hsetting : gadminSetting setting = true)
    (h : (change site multiStr setting value values db).reply.refused = false) :
    (∀ user ∈ getUsers site multiStr db,
      site.user.hasGadminGID (site.users.uidToPrimaryGID user.id) = true) ∧
    Touches ((getUsers site multiStr db).map User.id) db
      (change site multiStr setting value values db).db ∧
    (change site multiStr setting value values db).shown = [] := by
  unfold change at h ⊢
  cases hcheck : checkChange site setting value values db with
  | error reply =>
    simp only [hcheck, checkChange_error hcheck] at h
    cases h
  | ok c =>
    obtain ⟨hc, hset⟩ := checkChange_proper hsetting hcheck
    simp only [hcheck] at h ⊢
    split
    · rename_i hempty
      rw [if_pos hempty] at h
      cases h
    · rename_i hempty
      rw [if_neg hempty] at h
      split
      · rename_i hany
        rw [if_pos hany] at h
        cases h
      · rename_i hany
        refine ⟨?_, changeLoop_touches hset _ db, rfl⟩
        intro user huser
        rw [hc, hgadmin, Bool.true_and, Bool.not_eq_true, List.any_eq_false] at hany
        simpa using hany user.id (List.mem_map_of_mem huser)

/-! ## The boundary -/

/-- The keyword whose gadmin form a group admin has. -/
def Command.keyword : Command → Str
  | .ADDUSER => "adduser".toList
  | .GADDUSER => "gadduser".toList
  | .ADDIP => "addip".toList
  | .DELIP => "delip".toList
  | .CHPASS => "chpass".toList
  | .DELUSER => "deluser".toList
  | .READD => "readd".toList
  | .CHANGE => "change".toList
  | .USER => "user".toList

/-- The commands with a form for the client's own record. -/
def Command.hasOwn : Command → Bool
  | .ADDIP => true
  | .DELIP => true
  | .USER => true
  | _ => false

/-- A user of one of the client's gadmin groups, or the client's own where an `own` keyword says so. -/
def inside (site : Site) (cmd : Command) (user : User) : Prop :=
  site.user.hasGadminGID user.primaryGid = true ∨
    (cmd.hasOwn = true ∧ site.allow (cmd.keyword ++ "own".toList) = true ∧ user.name = site.user.name)

/-- Every record that changed was and is of a user inside, and so is every user shown. -/
structure Confined (site : Site) (cmd : Command) (db : Database) (d : Done) : Prop where
  before : ∀ uid u, db.users.byId uid = some u → d.db.users.byId uid ≠ some u → inside site cmd u
  after : ∀ uid u, d.db.users.byId uid = some u → db.users.byId uid ≠ some u → inside site cmd u
  shown : ∀ u ∈ d.shown, inside site cmd u

/-- `CHANGE` is about the two settings a group admin may change. -/
def concerned : Command → List Str → Bool
  | .CHANGE, _ :: setting :: _ => gadminSetting setting
  | _, _ => true

/-- The caches answer what the command asks them as the database would, and the groups that
`ADDUSER` and `GADDUSER` are about have a name. -/
def upToDate (site : Site) (db : Database) : Command → List Str → Prop
  | .ADDUSER, _ =>
    site.user.primaryGroup site.groups.gidToName ≠ [] ∧
      ∀ group, db.groups.byName (site.user.primaryGroup site.groups.gidToName) = some group →
        group.id = site.user.primaryGid
  | .GADDUSER, groupName :: _ =>
    groupName ≠ [] ∧
      ∀ group, db.groups.byName groupName = some group → site.groups.nameToGID groupName = group.id
  | .CHANGE, multiStr :: _ =>
    ∀ user ∈ getUsers site multiStr db, site.users.uidToPrimaryGID user.id = user.primaryGid
  | .USER, args =>
    ∀ user, db.users.byName (userArg site args) = some user →
      site.nameToPrimaryGID (userArg site args) = user.primaryGid
  | _, name :: _ =>
    ∀ user, db.users.byName name = some user → site.nameToPrimaryGID name = user.primaryGid
  | _, [] => True

theorem inside_congr {site : Site} {cmd : Command} {u u' : User} (hgid : u'.primaryGid = u.primaryGid)
    (hname : u'.name = u.name) (h : inside site cmd u) : inside site cmd u' := by
  unfold inside at h ⊢
  rw [hgid, hname]
  exact h

theorem confined_of_touches {site : Site} {cmd : Command} {db : Database} {d : Done}
    {uids : List UserID} (htouches : Touches uids db d.db)
    (hinside : ∀ uid ∈ uids, ∀ u, db.users.byId uid = some u → inside site cmd u)
    (hshown : ∀ u ∈ d.shown, inside site cmd u) : Confined site cmd db d where
  before := by
    intro uid u hu hchanged
    by_cases huid : uid ∈ uids
    · exact hinside uid huid u hu
    · rw [htouches.others uid huid] at hchanged
      exact absurd hu hchanged
  after := by
    intro uid u' hu' hchanged
    by_cases huid : uid ∈ uids
    · obtain ⟨u, hu, hgid, hname⟩ := htouches.before hu'
      exact inside_congr hgid hname (hinside uid huid u hu)
    · rw [htouches.others uid huid] at hu'
      exact absurd hu' hchanged
  shown := hshown

theorem confined_of_actsOn {site : Site} {cmd : Command} {name : Str} {db : Database} {d : Done}
    (h : ActsOn name db d)
    (hinside : ∀ user, db.users.byName name = some user → inside site cmd user) :
    Confined site cmd db d := by
  obtain ⟨user, huser, htouches, hshown⟩ := h
  refine confined_of_touches htouches ?_ ?_
  · intro uid huid u hu
    rw [List.mem_singleton] at huid
    rw [huid, (Table.byName_eq_some.mp huser).1] at hu
    cases hu
    exact hinside user huser
  · intro u hu
    rw [hshown u hu]
    exact hinside user huser

/-- The check of `ADDIP`, `DELIP` and `USER`, for a client with only the gadmin form. -/
theorem inside_of_permitted {site : Site} {cmd : Command} {name : Str} {db : Database}
    (hown : cmd.hasOwn = true) (hgadmin : site.gadmin cmd.keyword = true)
    (hperm : site.permitted cmd.keyword name = true)
    (hcache : ∀ user, db.users.byName name = some user →
      site.nameToPrimaryGID name = user.primaryGid) :
    ∀ user, db.users.byName name = some user → inside site cmd user := by
  intro user huser
  have hname := (Table.byName_eq_some.mp huser).2
  simp only [Site.gadmin, Bool.and_eq_true, Bool.not_eq_true'] at hgadmin
  simp only [Site.permitted, hgadmin.1, Bool.false_or, Bool.or_eq_true, Bool.and_eq_true,
    beq_iff_eq] at hperm
  rcases hperm with ⟨hself, hallow⟩ | ⟨hgid, -⟩
  · exact .inr ⟨hown, hallow, hname.trans hself⟩
  · rw [hcache user huser] at hgid
    exact .inl hgid

/-- The check of `CHPASS`, `DELUSER` and `READD`. -/
theorem inside_of_not_denied {site : Site} {cmd : Command} {name : Str} {db : Database}
    (hgadmin : site.gadmin cmd.keyword = true) (hperm : site.denied cmd.keyword name = false)
    (hcache : ∀ user, db.users.byName name = some user →
      site.nameToPrimaryGID name = user.primaryGid) :
    ∀ user, db.users.byName name = some user → inside site cmd user := by
  intro user huser
  simp only [Site.denied, hgadmin, Bool.true_and, Bool.not_eq_false'] at hperm
  rw [hcache user huser] at hperm
  exact .inl hperm

/-- A new user is inside exactly when the group he was added to is. -/
theorem confined_added {site : Site} {cmd : Command} {db : Database} {d : Done} {group : Group}
    (hown : cmd.hasOwn = false) (h : Added group db d) :
    Confined site cmd db d ↔ site.user.hasGadminGID group.id = true := by
  obtain ⟨⟨uid, user, hnew, huser, hgid, hothers⟩, hshown⟩ := h
  constructor
  · intro hconf
    have hin := hconf.after uid user huser (by rw [hnew]; simp)
    rcases hin with hgadmin | ⟨hown', -⟩
    · rwa [hgid] at hgadmin
    · rw [hown] at hown'
      cases hown'
  · intro hgadmin
    refine ⟨?_, ?_, ?_⟩
    · intro uid' u hu hchanged
      by_cases huid : uid' = uid
      · rw [huid, hnew] at hu
        cases hu
      · rw [hothers uid' huid] at hchanged
        exact absurd hu hchanged
    · intro uid' u hu hchanged
      by_cases huid : uid' = uid
      · rw [huid, huser] at hu
        cases hu
        rw [← hgid] at hgadmin
        exact .inl hgadmin
      · rw [hothers uid' huid] at hu
        exact absurd hu hchanged
    · rw [hshown]
      simp

theorem dispatch_confined_iff {site : Site} {cmd : Command} {args : List Str} {db : Database}
    (hgadmin : site.gadmin cmd.keyword = true) (hset : concerned cmd args = true)
    (hcache : upToDate site db cmd args)
    (hdone : (dispatch site db cmd args).reply.refused = false) :
    Confined site cmd db (dispatch site db cmd args) ↔
      (cmd = .ADDUSER → site.user.hasGadminGID site.user.primaryGid = true) := by
  unfold dispatch at hdone ⊢
  split at hdone
  · rename_i name password ips
    have hkey : site.gadmin "adduser".toList = true := hgadmin
    simp only [addUser, hkey, if_true, forall_const] at hdone ⊢
    split at hdone
    · cases hdone
    · rename_i hknown
      obtain ⟨group, hgroup, hadded⟩ := addUserTo_added hcache.1 hdone
      rw [if_neg hknown, confined_added rfl hadded, hcache.2 group hgroup]
  · rename_i groupName name password ips
    simp only [reduceCtorEq, false_implies, iff_true]
    have hkey : site.gadmin "gadduser".toList = true := hgadmin
    simp only [gAddUser, hkey, Bool.true_and] at hdone ⊢
    split at hdone
    · cases hdone
    · rename_i hgid
      rw [if_neg hgid]
      split at hdone
      · rename_i name' password' ips' hsplit
        obtain ⟨group, hgroup, hadded⟩ := addUserTo_added hcache.1 hdone
        refine (confined_added rfl hadded).mpr ?_
        rw [← hcache.2 group hgroup]
        simpa using hgid
      · cases hdone
  · rename_i name ip ips
    obtain ⟨hperm, hacts⟩ := addIP_acts hdone
    simp only [reduceCtorEq, false_implies, iff_true]
    exact confined_of_actsOn hacts (inside_of_permitted rfl hgadmin (hperm rfl) hcache)
  · rename_i name ip ips
    obtain ⟨hperm, hacts⟩ := delIP_acts hdone
    simp only [reduceCtorEq, false_implies, iff_true]
    exact confined_of_actsOn hacts (inside_of_permitted rfl hgadmin hperm hcache)
  · rename_i name password
    obtain ⟨hperm, hacts⟩ := chPass_acts hdone
    simp only [reduceCtorEq, false_implies, iff_true]
    exact confined_of_actsOn hacts (inside_of_not_denied hgadmin hperm hcache)
  · rename_i name
    obtain ⟨hperm, hacts⟩ := delUser_acts hdone
    simp only [reduceCtorEq, false_implies, iff_true]
    exact confined_of_actsOn hacts (inside_of_not_denied hgadmin hperm hcache)
  · rename_i name
    obtain ⟨hperm, hacts⟩ := readd_acts hdone
    simp only [reduceCtorEq, false_implies, iff_true]
    exact confined_of_actsOn hacts (inside_of_not_denied hgadmin hperm hcache)
  · rename_i multiStr setting value values
    obtain ⟨hperm, htouches, hshown⟩ := change_acts hgadmin hset hdone
    simp only [reduceCtorEq, false_implies, iff_true]
    refine confined_of_touches htouches ?_ (by simp [hshown])
    intro uid huid u hu
    obtain ⟨user, huser, rfl⟩ := List.mem_map.mp huid
    have hsame : db.users.byId user.id = some user :=
      Table.byId_eq_some.mpr ⟨getUsers_mem huser, rfl⟩
    rw [hsame] at hu
    cases hu
    have hgid := hperm u huser
    rw [hcache u huser] at hgid
    exact .inl hgid
  · obtain ⟨hperm, hacts⟩ := userInfo_acts hdone
    simp only [reduceCtorEq, false_implies, iff_true]
    exact confined_of_actsOn hacts (inside_of_permitted rfl hgadmin hperm hcache)
  · obtain ⟨hperm, hacts⟩ := userInfo_acts hdone
    simp only [reduceCtorEq, false_implies, iff_true]
    exact confined_of_actsOn hacts (inside_of_permitted rfl hgadmin hperm hcache)
  · cases hdone

/-- A client with only the gadmin form of a command's keyword and caches that answer as the database:
a command that is not refused creates, changes and shows only users inside, except an `ADDUSER` of
one who is no admin of his own primary group. -/
theorem execute_confined_iff (site : Site) (cmd : Command) (args : List Str) (db : Database)
    (hgadmin : site.gadmin cmd.keyword = true) (hset : concerned cmd args = true)
    (hcache : upToDate site db cmd args)
    (hdone : (execute site cmd args db).reply.refused = false) :
    Confined site cmd db (execute site cmd args db) ↔
      (cmd = .ADDUSER → site.user.hasGadminGID site.user.primaryGid = true) := by
  unfold execute at hdone ⊢
  split at hdone
  · rename_i hallow
    rw [if_pos hallow]
    exact dispatch_confined_iff hgadmin hset hcache hdone
  · cases hdone

/-- Carol of the group staff is a group admin of leech. -/
def exampleCarol : User :=
  { id := 2, name := "carol".toList, primaryGid := 0, secondaryGids := [3], gadminGids := [3] }

def exampleUsers : Database where
  users :=
    { rows :=
        [{ id := 1, name := "default".toList, flags := "3".toList }, exampleCarol,
          { id := 5, name := "dave".toList, primaryGid := 3 }]
      ids := by decide
      names := by decide }
  groups :=
    { rows := [{ id := 0, name := "staff".toList, slots := 9 }, { id := 3, name := "leech".toList }]
      ids := by decide
      names := by decide }
  uids := by decide
  gids := by decide

def exampleSite : Site where
  cfg :=
    { sitepath := "/site".toList
      commandACLs := [("addusergadmin".toList, ACL.fromString "*".toList),
        ("delusergadmin".toList, ACL.fromString "*".toList)]
      tlsControl := ACL.fromString "!*".toList
      maxOnline := ⟨10, 0⟩
      wildcardMatch := fun _ _ => false }
  user := exampleCarol
  users := UserCache.populate exampleUsers.users
  groups := GroupCache.populate exampleUsers.groups
  bannedUsers := []
  totalUsers := -1
  maximumRatio := 10
  masters := []
  securePass := fun _ => none
  secureIP := fun _ => none
  ipMatch := fun mask text => mask == text
  hashPassword := fun password salt => password ++ salt
  rawSalt := "salt".toList
  kicked := fun _ => 0
  templateError := none
  otherSetting := fun _ _ => .error []

/-- Carol deletes dave, who is in leech. -/
theorem execute_confined_delUser :
    let d := execute exampleSite .DELUSER ["dave".toList] exampleUsers
    d.reply = .okay "User dave has been deleted.".toList ∧
      Confined exampleSite .DELUSER exampleUsers d := by
  intro d
  have hreply : d.reply = .okay "User dave has been deleted.".toList := by decide
  have hcache : upToDate exampleSite exampleUsers .DELUSER ["dave".toList] := by
    intro user huser
    have hgid : (exampleUsers.users.byName "dave".toList).map User.primaryGid = some 3 := by decide
    rw [huser] at hgid
    have hcached : exampleSite.nameToPrimaryGID "dave".toList = 3 := by decide
    rw [hcached]
    exact (Option.some.inj hgid).symm
  have hdone : d.reply.refused = false := by rw [hreply]; rfl
  exact ⟨hreply, (execute_confined_iff exampleSite .DELUSER ["dave".toList] exampleUsers (by decide)
    (by decide) hcache hdone).mpr (fun h => by cases h)⟩

/-- Carol adds a user. He gets into staff, which is her primary group, and she is no admin of it. -/
theorem addUser_outside :
    let d := execute exampleSite .ADDUSER ["erin".toList, "secret".toList] exampleUsers
    exampleSite.gadmin "adduser".toList = true ∧
      d.reply = .okay "Added user erin to group staff.".toList ∧
      ∃ u, d.db.users.byId 6 = some u ∧ exampleUsers.users.byId 6 = none ∧
        ¬ inside exampleSite .ADDUSER u := by
  intro d
  have hreply : d.reply = .okay "Added user erin to group staff.".toList := by decide
  have huser : (d.db.users.byId 6).map User.primaryGid = some 0 := by decide
  obtain ⟨u, hu, hgid⟩ := Option.map_eq_some_iff.mp huser
  refine ⟨by decide, hreply, u, hu, by decide, ?_⟩
  rintro (hgadmin | ⟨hown, -⟩)
  · rw [hgid] at hgadmin
    revert hgadmin
    decide
  · cases hown

end SiteUser
end Cmd
end Ebftpd
