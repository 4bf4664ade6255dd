import Ebftpd.Cmd.SiteUser
import Ebftpd.Lib.Parties
import Ebftpd.Lib.Run

/-!
# Ebftpd.Cmd.Slots

Group admins who add users at the same time. `ADDUSER`, `GADDUSER` and `READD` of a group admin count
the members of the group, compare with its slots, and write some queries later: `ADDUSER` loads the
template, counts all users, inserts the record and moves it into the group; `READD` takes the flag
off. Each query is a step of its session, and any number of sessions run at once.

A session that has passed its count and not yet written holds a slot the next count does not see.

* `pcStep_ok`: what one step does to the members of a group and the slots held.
* `slots_kept`: in every run in which a count that passes leaves room for the slots held by others,
  and the template has no group, no group ever has more members than slots.
-/

namespace Ebftpd
namespace Cmd
namespace Slots

open Util Lib Lib.Parties Acl Acl.Path Db SiteUser

/-- Before which query a session is. -/
inductive Pc where
  | idle
  | loadGroup (groupName name password : Str) (ips : List Str)
  | countAdd (group : Group) (name password : Str) (ips : List Str)
  | loadTemplate (group : Option Group) (name password : Str) (ips : List Str)
  | totalUsers (group : Option Group) (templateUser : User) (name password : Str) (ips : List Str)
  | create (group : Option Group) (templateUser : User) (name password : Str) (ips : List Str)
  | setPrimaryGID (group : Group) (user : User) (ips : List Str)
  | loadIPs (name : Str) (ips : List Str)
  | addIPs (user : User) (ips : List Str)
  | loadUser (name : Str)
  | loadUserGroup (user : User)
  | countReadd (group : Group) (user : User)
  | delFlag (group : Group) (user : User)

structure Session where
  site : Site
  pc : Pc

structure State where
  db : Database
  sessions : List Session

/-- The commands of a group admin. -/
inductive Start where
  | addUser (name password : Str) (ips : List Str)
  | gAddUser (groupName name password : Str) (ips : List Str)
  | readd (name : Str)

inductive Input where
  | start (i : Nat) (cmd : Start)
  -- `uid` is the id a step that inserts a user gives him
  | step (i : Nat) (uid : UserID)

/-- The permission check; `none` when the client is no group admin by the keyword. -/
def start (site : Site) : Start → Option Pc
  | .addUser name password ips =>
    if site.gadmin "adduser".toList then
      let groupName := site.user.primaryGroup site.groups.gidToName
      some (if groupName = "unknown".toList then .idle else .loadGroup groupName name password ips)
    else none
  | .gAddUser groupName name password ips =>
    if site.gadmin "gadduser".toList then
      some (if site.user.hasGadminGID (site.groups.nameToGID groupName) then
        .loadGroup groupName name password ips else .idle)
    else none
  | .readd name =>
    if site.gadmin "readd".toList then
      some (if site.user.hasGadminGID (site.nameToPrimaryGID name) then .loadUser name else .idle)
    else none

/-- What follows the group of a new user. -/
def behindGroup (name : Str) (ips : List Str) : Pc := if ips.isEmpty then .idle else .loadIPs name ips

/-- One query of a session, and what is computed from its answer. -/
def pcStep (site : Site) (db : Database) (uid : UserID) : Pc → Option (Database × Pc)
  | .idle => none
  | .loadGroup groupName name password ips =>
    if groupName.isEmpty then some (db, .loadTemplate none name password ips)
    else
      match db.groups.byName groupName with
      | none => some (db, .idle)
      | some group => some (db, .countAdd group name password ips)
  | .countAdd group name password ips =>
    if (numSlotsUsed db group.id : Int) ≥ group.slots then some (db, .idle)
    else if validUsername name && (site.securePass password).isNone then
      some (db, .loadTemplate (some group) name password ips)
    else some (db, .idle)
  | .loadTemplate group name password ips =>
    match db.users.byName "default".toList with
    | none => some (db, .idle)
    | some templateUser =>
      if site.bannedUsers.contains name then some (db, .idle)
      else some (db, .totalUsers group templateUser name password ips)
  | .totalUsers group templateUser name password ips =>
    if site.totalUsers ≠ -1 ∧ (db.users.rows.length : Int) ≥ site.totalUsers then some (db, .idle)
    else some (db, .create group templateUser name password ips)
  | .create group templateUser name password ips =>
    if (db.users.byName name).isSome then some (db, .idle)
    else
      let user := { templateUser.fromTemplate site.hashPassword name password site.rawSalt site.user.id
        with id := uid }
      match db.createUser user with
      -- another session took the id: `InsertAutoIncrement` tries the next
      | none => none
      | some db =>
        match group with
        | some group => some (db, .setPrimaryGID group user ips)
        | none => some (db, behindGroup name ips)
  | .setPrimaryGID group user ips =>
    let user' := user.setPrimaryGID group.id
    let db := if user.primaryGid = group.id then db
      else save db user.id (.gids user'.primaryGid user'.secondaryGids user'.gadminGids)
    some (db, behindGroup user.name ips)
  | .loadIPs name ips =>
    match db.users.byName name with
    | none => some (db, .idle)
    | some user => some (db, .addIPs user ips)
  | .addIPs user ips =>
    match ips with
    | [] => some (db, .idle)
    | ip :: ips =>
      if ip.contains '@' && (site.secureIP ip).isNone then
        match user.addIPMask site.ipMatch ip with
        | some user' => some (save db user.id (.ipMasks user'.ipMasks), .addIPs user' ips)
        | none => some (db, .addIPs user ips)
      else some (db, .addIPs user ips)
  | .loadUser name =>
    match db.users.byName name with
    | none => some (db, .idle)
    | some user => some (db, if user.hasFlag .Deleted then .loadUserGroup user else .idle)
  | .loadUserGroup user =>
    match db.groups.byId user.primaryGid with
    | none => some (db, .idle)
    | some group => some (db, .countReadd group user)
  | .countReadd group user =>
    if (numSlotsUsed db group.id : Int) ≥ group.slots then some (db, .idle)
    else some (db, .delFlag group user)
  | .delFlag _ user => some (save db user.id (.flags (user.delFlag .Deleted).flags), .idle)

def step (s : State) : Input → Option State
  | .start i cmd =>
    match s.sessions[i]? with
    | some ⟨site, .idle⟩ =>
      match start site cmd with
      | some pc => some { s with sessions := s.sessions.set i ⟨site, pc⟩ }
      | none => none
    | _ => none
  | .step i uid =>
    match s.sessions[i]? with
    | some ⟨site, pc⟩ =>
      match pcStep site s.db uid pc with
      | some (db, pc) => some ⟨db, s.sessions.set i ⟨site, pc⟩⟩
      | none => none
    | none => none

/-! ## Slots held -/

/-- The group in which a session that has passed its count is about to add a member. -/
def Pc.holds : Pc → Option GroupID
  | .loadTemplate (some group) .. => some group.id
  | .totalUsers (some group) .. => some group.id
  | .create (some group) .. => some group.id
  | .setPrimaryGID group .. => some group.id
  | .delFlag group _ => some group.id
  | _ => none

def Pc.heldIn (pc : Pc) (gid : GroupID) : Bool := pc.holds == some gid

def State.held (s : State) (gid : GroupID) : Nat := s.sessions.countP fun x => x.pc.heldIn gid

/-- The group a session is about to count. -/
def Pc.counts : Pc → Option Group
  | .countAdd group .. => some group
  | .countReadd group _ => some group
  | _ => none

/-- The condition on a step: a count that passes leaves room for the slots held by other sessions,
and the template that is loaded has no primary group. -/
def leavesRoom (s : State) : Input → Bool
  | .start .. => true
  | .step i _ =>
    match s.sessions[i]? with
    | some ⟨_, .loadTemplate ..⟩ =>
      match s.db.users.byName "default".toList with
      | some templateUser => templateUser.primaryGid == -1
      | none => true
    | some ⟨_, pc⟩ =>
      match pc.counts with
      | some group => decide (numSlotsUsed s.db group.id < group.slots →
          (numSlotsUsed s.db group.id + s.held group.id : Int) < group.slots)
      | none => true
    | none => true

/-! ## Members -/

/-- A member that `NumSlotsUsed` counts. -/
def isMember (gid : GroupID) (user : User) : Bool :=
  user.primaryGid == gid && !user.flags.contains '6'

/-- One record of distinct ids is changed: at most one more of a kind. -/
theorem countP_change_le {rows : List User} (hids : (rows.map User.id).Nodup) (uid : UserID)
    (f : User → User) (p : User → Bool) :
    (rows.map fun user => if user.id = uid then f user else user).countP p ≤
      rows.countP p + (if (rows.find? fun user => user.id = uid).any (fun user => p (f user)) then 1
        else 0) := by
  induction rows with
  | nil => simp
  | cons user rows ih =>
    rw [List.map_cons, List.nodup_cons] at hids
    by_cases huid : user.id = uid
    · have hrest : (rows.map fun user => if user.id = uid then f user else user) = rows := by
        have hsame : ∀ x ∈ rows, (if x.id = uid then f x else x) = x := by
          intro x hx
          rw [if_neg]
          intro hxid
          exact hids.1 (by rw [huid, ← hxid]; exact List.mem_map_of_mem hx)
        rw [List.map_congr_left hsame, List.map_id']
      rw [List.map_cons, hrest, List.countP_cons, List.countP_cons, if_pos huid,
        List.find?_cons_of_pos (by simpa using huid), Option.any_some]
      omega
    · have := ih hids.2
      rw [List.map_cons, List.countP_cons, List.countP_cons, if_neg huid,
        List.find?_cons_of_neg (by simpa using huid)]
      omega

/-- A save adds at most one member, and only to the group that the record is in then. -/
theorem numSlotsUsed_save_le (db : Database) (uid : UserID) (field : UserField)
    (h : keepsName field = true) (gid : GroupID)
    {b : Bool} (hb : ∀ user, db.users.byId uid = some user → isMember gid (field.set user) = true →
      b = true) :
    numSlotsUsed (save db uid field) gid ≤ numSlotsUsed db gid + (if b then 1 else 0) := by
  have hle := countP_change_le db.users.ids uid field.set (isMember gid)
  have hcount : numSlotsUsed (save db uid field) gid =
      (db.users.rows.map fun user => if user.id = uid then field.set user else user).countP
        (isMember gid) := by
    unfold numSlotsUsed
    rw [save_rows db uid h]
    rfl
  have hany : (if (db.users.rows.find? fun user => user.id = uid).any
      (fun user => isMember gid (field.set user)) then 1 else 0) ≤ (if b then 1 else 0) := by
    cases hfind : db.users.rows.find? fun user => user.id = uid with
    | none => simp
    | some user =>
      rw [Option.any_some]
      by_cases hmember : isMember gid (field.set user) = true
      · rw [hb user hfind hmember, hmember]
      · rw [if_neg hmember]
        exact Nat.zero_le _
  rw [hcount]
  exact le_trans hle (Nat.add_le_add_left hany _)

/-- A new record without a group is nobody's member. -/
theorem numSlotsUsed_create {db db' : Database} {user : User} (h : db.createUser user = some db')
    {gid : GroupID} (hgid : user.primaryGid ≠ gid) : numSlotsUsed db' gid = numSlotsUsed db gid := by
  unfold numSlotsUsed
  rw [(Table.insert_eq_some (createUser_users h)).2.2, List.countP_append, List.countP_singleton]
  simp [hgid]

/-! ## What the sessions know -/

def gidOf (db : Database) (uid : UserID) : Option GroupID := (db.users.byId uid).map User.primaryGid

/-- The group is in the database. -/
def Known (db : Database) (group : Group) : Prop := db.groups.byId group.id = some group

/-- What a session has read still holds: groups do not change, a new user is in no group until his
own session moves him, and a user of a group stays in it. -/
def PcOk (db : Database) : Pc → Prop
  | .countAdd group .. => Known db group
  | .loadTemplate group .. => ∀ g, group = some g → Known db g
  | .totalUsers group templateUser .. =>
    templateUser.primaryGid = -1 ∧ ∀ g, group = some g → Known db g
  | .create group templateUser .. => templateUser.primaryGid = -1 ∧ ∀ g, group = some g → Known db g
  | .setPrimaryGID group user _ =>
    Known db group ∧ user.primaryGid = -1 ∧ gidOf db user.id = some (-1)
  | .loadUserGroup user => user.primaryGid ≠ -1 → gidOf db user.id = some user.primaryGid
  | .countReadd group user =>
    Known db group ∧ group.id = user.primaryGid ∧ gidOf db user.id = some user.primaryGid
  | .delFlag group user =>
    Known db group ∧ group.id = user.primaryGid ∧ gidOf db user.id = some user.primaryGid
  | _ => True

theorem Known.ne {db : Database} {group : Group} (h : Known db group) : group.id ≠ -1 := by
  have hnonneg := db.gids group.id (List.mem_map_of_mem (Table.byId_mem h))
  intro hid
  rw [hid] at hnonneg
  exact absurd hnonneg (by decide)

/-- The user a session has created and is about to move. -/
def Pc.newUid : Pc → Option UserID
  | .setPrimaryGID _ user _ => some user.id
  | _ => none

/-- A write that leaves the groups, the users that are in one and the session's own new user. -/
theorem pcOk_frame {db db' : Database} (hgroups : db'.groups = db.groups) {pc : Pc}
    (hgids : ∀ uid gid, gidOf db uid = some gid → (pc.newUid = some uid ∨ gid ≠ -1) →
      gidOf db' uid = some gid) (h : PcOk db pc) : PcOk db' pc := by
  have hknown : ∀ {group : Group}, Known db group → Known db' group := by
    intro group hg
    unfold Known at hg ⊢
    rw [hgroups]
    exact hg
  cases pc with
  | countAdd group name password ips => exact hknown h
  | loadTemplate group name password ips => exact fun g hg => hknown (h g hg)
  | totalUsers group templateUser name password ips => exact ⟨h.1, fun g hg => hknown (h.2 g hg)⟩
  | create group templateUser name password ips => exact ⟨h.1, fun g hg => hknown (h.2 g hg)⟩
  | setPrimaryGID group user ips => exact ⟨hknown h.1, h.2.1, hgids _ _ h.2.2 (.inl rfl)⟩
  | loadUserGroup user => exact fun hne => hgids _ _ (h hne) (.inr hne)
  | countReadd group user => exact ⟨hknown h.1, h.2.1, hgids _ _ h.2.2 (.inr (h.2.1 ▸ h.1.ne))⟩
  | delFlag group user => exact ⟨hknown h.1, h.2.1, hgids _ _ h.2.2 (.inr (h.2.1 ▸ h.1.ne))⟩
  | idle => trivial
  | loadGroup groupName name password ips => trivial
  | loadIPs name ips => trivial
  | addIPs user ips => trivial
  | loadUser name => trivial

theorem gidOf_save {db : Database} (uid other : UserID) {field : UserField}
    (h : keepsGroup field = true) : gidOf (save db uid field) other = gidOf db other := by
  have hkept := (save_touches db uid h).kept other
  have hfst := congrArg (Option.map Prod.fst) hkept
  rw [Option.map_map, Option.map_map] at hfst
  exact hfst

theorem gidOf_create {db db' : Database} {user : User} (h : db.createUser user = some db')
    {uid : UserID} {gid : GroupID} (hgid : gidOf db uid = some gid) : gidOf db' uid = some gid := by
  obtain ⟨u, hu, -⟩ := Option.map_eq_some_iff.mp hgid
  have hins := createUser_users h
  have hne : uid ≠ user.id := by
    rintro rfl
    have hnone := Table.byId_eq_none.mpr (Table.insert_eq_some hins).1
    rw [hu] at hnone
    cases hnone
  unfold gidOf at hgid ⊢
  rw [Table.byId_insert hins, if_neg hne]
  exact hgid

theorem createUser_groups {db db' : Database} {user : User} (h : db.createUser user = some db') :
    db'.groups = db.groups := by
  unfold Database.createUser at h
  split at h
  · split at h
    · cases h
      rfl
    · cases h
  · cases h

/-! ## One step of a session -/

/-- What a step of a session at `pc` does, for the other sessions and for the members of a group. -/
structure StepOk (db : Database) (pc : Pc) (db' : Database) (pc' : Pc) : Prop where
  groups : db'.groups = db.groups
  own : PcOk db' pc'
  others : ∀ other : Pc, (∀ uid, pc.newUid = some uid → other.newUid ≠ some uid) → PcOk db other →
    PcOk db' other
  fresh : ∀ uid, pc'.newUid = some uid → db.users.byId uid = none
  members : ∀ gid, gid ≠ -1 →
    numSlotsUsed db' gid + (if pc'.heldIn gid then 1 else 0) ≤
      numSlotsUsed db gid + (if pc.heldIn gid then 1 else 0) ∨
    (db' = db ∧ pc.heldIn gid = false ∧ ∃ group, pc.counts = some group ∧ group.id = gid ∧
      numSlotsUsed db gid < group.slots)

/-- A step that reads only, and gives up what slot it held or keeps it. -/
theorem stepOk_read {db : Database} {pc pc' : Pc} (hown : PcOk db pc')
    (hholds : pc'.holds = none ∨ pc'.holds = pc.holds) (hnew : pc'.newUid = none) :
    StepOk db pc db pc' where
  groups := rfl
  own := hown
  others := fun _ _ h => h
  fresh := by
    intro uid h
    rw [hnew] at h
    cases h
  members := by
    intro gid _
    refine .inl (Nat.add_le_add_left ?_ _)
    unfold Pc.heldIn
    rcases hholds with hnone | hsame
    · rw [hnone]
      simp
    · rw [hsame]

/-- A count that passes. -/
theorem stepOk_count {db : Database} {pc pc' : Pc} {group : Group} (hown : PcOk db pc')
    (hnew : pc'.newUid = none) (hpc : pc.holds = none) (hcounts : pc.counts = some group)
    (hholds : pc'.holds = some group.id) (hroom : (numSlotsUsed db group.id : Int) < group.slots) :
    StepOk db pc db pc' where
  groups := rfl
  own := hown
  others := fun _ _ h => h
  fresh := by
    intro uid h
    rw [hnew] at h
    cases h
  members := by
    intro gid _
    by_cases hgid : group.id = gid
    · refine .inr ⟨rfl, by simp [Pc.heldIn, hpc], group, hcounts, hgid, ?_⟩
      rw [← hgid]
      exact hroom
    · refine .inl (Nat.add_le_add_left ?_ _)
      simp [Pc.heldIn, hholds, hgid]

/-- A save of a field that is neither the name nor the groups, and that makes no member. -/
theorem stepOk_save {db : Database} {pc pc' : Pc} {uid : UserID} {field : UserField}
    (hkeeps : keepsGroup field = true) (hown : PcOk (save db uid field) pc')
    (hnew : pc'.newUid = none)
    (hmembers : ∀ gid, gid ≠ -1 → numSlotsUsed (save db uid field) gid +
        (if pc'.heldIn gid then 1 else 0) ≤
      numSlotsUsed db gid + (if pc.heldIn gid then 1 else 0)) :
    StepOk db pc (save db uid field) pc' where
  groups := save_groups db uid field
  own := hown
  others := by
    intro other _ hother
    refine pcOk_frame (save_groups db uid field) ?_ hother
    intro uid' gid hgid _
    rw [gidOf_save uid uid' hkeeps]
    exact hgid
  fresh := by
    intro uid' h
    rw [hnew] at h
    cases h
  members := fun gid hgid => .inl (hmembers gid hgid)

/-- A new user, in no group yet. -/
theorem stepOk_create {db db' : Database} {pc pc' : Pc} {user : User}
    (hcreate : db.createUser user = some db') (hgid : user.primaryGid = -1) (hown : PcOk db' pc')
    (hholds : pc'.holds = none ∨ pc'.holds = pc.holds)
    (hnew : ∀ uid, pc'.newUid = some uid → uid = user.id) : StepOk db pc db' pc' where
  groups := createUser_groups hcreate
  own := hown
  others := by
    intro other _ hother
    exact pcOk_frame (createUser_groups hcreate) (fun _ _ h _ => gidOf_create hcreate h) hother
  fresh := by
    intro uid h
    rw [hnew uid h]
    exact Table.byId_eq_none.mpr (Table.insert_eq_some (createUser_users hcreate)).1
  members := by
    intro gid hne
    rw [numSlotsUsed_create hcreate (by rw [hgid]; exact Ne.symm hne)]
    refine .inl (Nat.add_le_add_left ?_ _)
    unfold Pc.heldIn
    rcases hholds with hnone | hsame
    · rw [hnone]
      simp
    · rw [hsame]

theorem behindGroup_holds (name : Str) (ips : List Str) : (behindGroup name ips).holds = none := by
  unfold behindGroup
  split
  · rfl
  · rfl

theorem behindGroup_newUid (name : Str) (ips : List Str) : (behindGroup name ips).newUid = none := by
  unfold behindGroup
  split
  · rfl
  · rfl

theorem behindGroup_ok (db : Database) (name : Str) (ips : List Str) :
    PcOk db (behindGroup name ips) := by
  unfold behindGroup
  split
  · trivial
  · trivial

/-- The new user is moved into the group his session holds a slot of. -/
theorem stepOk_setPrimaryGID {db : Database} {group : Group} {user : User} {ips : List Str}
    (h : PcOk db (.setPrimaryGID group user ips)) (secondaryGids gadminGids : List GroupID) :
    StepOk db (.setPrimaryGID group user ips)
      (save db user.id (.gids group.id secondaryGids gadminGids)) (behindGroup user.name ips) where
  groups := save_groups _ _ _
  own := behindGroup_ok _ _ _
  others := by
    intro other hother hok
    refine pcOk_frame (save_groups _ _ _) ?_ hok
    intro uid gid hgid hwhy
    -- the record that is written is in no group, and it is no other session's new user
    have hne : uid ≠ user.id := by
      rintro rfl
      rw [h.2.2] at hgid
      cases hgid
      rcases hwhy with hnew | hne
      · exact hother user.id rfl hnew
      · exact hne rfl
    unfold gidOf at hgid ⊢
    rw [save_frame db _ hne]
    exact hgid
  fresh := by
    intro uid hnew
    rw [behindGroup_newUid] at hnew
    cases hnew
  members := by
    intro gid _
    have hle := numSlotsUsed_save_le db user.id (.gids group.id secondaryGids gadminGids) rfl gid
      (b := decide (group.id = gid)) (by
        intro u _ hmember
        simp only [isMember, UserField.set, Bool.and_eq_true, beq_iff_eq] at hmember
        exact decide_eq_true hmember.1)
    left
    unfold Pc.heldIn
    rw [behindGroup_holds]
    simpa [Pc.holds] using hle

theorem stepOk_delFlag {db : Database} {group : Group} {user : User}
    (h : PcOk db (.delFlag group user)) (flags : Str) :
    StepOk db (.delFlag group user) (save db user.id (.flags flags)) .idle := by
  refine stepOk_save rfl trivial rfl ?_
  intro gid _
  have hle := numSlotsUsed_save_le db user.id (.flags flags) rfl gid
    (b := decide (group.id = gid)) (by
      intro u hu hmember
      simp only [isMember, UserField.set, Bool.and_eq_true, beq_iff_eq] at hmember
      have hgid := h.2.2
      unfold gidOf at hgid
      rw [hu, Option.map_some, Option.some.injEq] at hgid
      rw [decide_eq_true_eq, h.2.1, ← hgid]
      exact hmember.1)
  simp only [Pc.heldIn, Pc.holds]
  simpa using hle

theorem stepOk_addIPs {db : Database} {user user' : User} {ips ips' : List Str} (masks : List Str) :
    StepOk db (.addIPs user ips) (save db user.id (.ipMasks masks)) (.addIPs user' ips') := by
  refine stepOk_save rfl trivial rfl ?_
  intro gid _
  have hsame : numSlotsUsed (save db user.id (.ipMasks masks)) gid = numSlotsUsed db gid := by
    unfold numSlotsUsed
    rw [save_rows db user.id rfl, List.countP_map]
    apply List.countP_congr
    intro u _
    simp only [Function.comp_apply]
    split
    · rfl
    · rfl
  rw [hsame]
  exact Nat.le_refl _

theorem pcStep_ok {site : Site} {db db' : Database} {uid : UserID} {pc pc' : Pc} (hok : PcOk db pc)
    (htemplate : ∀ group name password ips, pc = .loadTemplate group name password ips →
      ∀ t, db.users.byName "default".toList = some t → t.primaryGid = -1)
    (h : pcStep site db uid pc = some (db', pc')) : StepOk db pc db' pc' := by
  cases pc with
  | idle => cases h
  | loadGroup groupName name password ips =>
    simp only [pcStep] at h
    split at h
    · cases h
      exact stepOk_read (fun g hg => by cases hg) (.inl rfl) rfl
    · split at h
      · cases h
        exact stepOk_read trivial (.inl rfl) rfl
      · rename_i group hgroup
        cases h
        exact stepOk_read (Table.byName_eq_some.mp hgroup).1 (.inl rfl) rfl
  | countAdd group name password ips =>
    simp only [pcStep] at h
    split at h
    · cases h
      exact stepOk_read trivial (.inl rfl) rfl
    · rename_i hroom
      split at h
      · cases h
        refine stepOk_count ?_ rfl rfl rfl rfl (not_le.mp hroom)
        intro g hg
        cases hg
        exact hok
      · cases h
        exact stepOk_read trivial (.inl rfl) rfl
  | loadTemplate group name password ips =>
    simp only [pcStep] at h
    split at h
    · cases h
      exact stepOk_read trivial (.inl rfl) rfl
    · rename_i t ht
      split at h
      · cases h
        exact stepOk_read trivial (.inl rfl) rfl
      · cases h
        refine stepOk_read ⟨htemplate group name password ips rfl t ht, hok⟩ (.inr ?_) rfl
        cases group with
        | none => rfl
        | some group => rfl
  | totalUsers group templateUser name password ips =>
    simp only [pcStep] at h
    split at h
    · cases h
      exact stepOk_read trivial (.inl rfl) rfl
    · cases h
      refine stepOk_read hok (.inr ?_) rfl
      cases group with
      | none => rfl
      | some group => rfl
  | create group templateUser name password ips =>
    simp only [pcStep] at h
    split at h
    · cases h
      exact stepOk_read trivial (.inl rfl) rfl
    · split at h
      · cases h
      · rename_i db1 hcreate
        split at h
        · rename_i g
          cases h
          refine stepOk_create hcreate hok.1 ?_ (.inr rfl) ?_
          · refine ⟨?_, hok.1, ?_⟩
            · unfold Known
              rw [createUser_groups hcreate]
              exact hok.2 g rfl
            · unfold gidOf
              rw [Table.byId_insert (createUser_users hcreate), if_pos rfl, Option.map_some]
              exact congrArg some hok.1
          · intro uid' hnew
            cases hnew
            rfl
        · cases h
          refine stepOk_create hcreate hok.1 (behindGroup_ok _ _ _) (.inl (behindGroup_holds _ _)) ?_
          intro uid' hnew
          rw [behindGroup_newUid] at hnew
          cases hnew
  | setPrimaryGID group user ips =>
    have hne : user.primaryGid ≠ group.id := by
      rw [hok.2.1]
      exact Ne.symm hok.1.ne
    simp only [pcStep, if_neg hne, setPrimaryGID_primaryGid, Option.some.injEq, Prod.mk.injEq] at h
    obtain ⟨rfl, rfl⟩ := h
    exact stepOk_setPrimaryGID hok _ _
  | loadIPs name ips =>
    simp only [pcStep] at h
    split at h
    · cases h
      exact stepOk_read trivial (.inl rfl) rfl
    · cases h
      exact stepOk_read trivial (.inl rfl) rfl
  | addIPs user ips =>
    simp only [pcStep] at h
    split at h
    · cases h
      exact stepOk_read trivial (.inl rfl) rfl
    · split at h
      · split at h
        · cases h
          exact stepOk_addIPs _
        · cases h
          exact stepOk_read trivial (.inl rfl) rfl
      · cases h
        exact stepOk_read trivial (.inl rfl) rfl
  | loadUser name =>
    simp only [pcStep] at h
    split at h
    · cases h
      exact stepOk_read trivial (.inl rfl) rfl
    · rename_i user huser
      cases h
      split
      · refine stepOk_read ?_ (.inl rfl) rfl
        intro _
        unfold gidOf
        rw [(Table.byName_eq_some.mp huser).1, Option.map_some]
      · exact stepOk_read trivial (.inl rfl) rfl
  | loadUserGroup user =>
    simp only [pcStep] at h
    split at h
    · cases h
      exact stepOk_read trivial (.inl rfl) rfl
    · rename_i group hgroup
      cases h
      have hid := Table.byId_id hgroup
      have hknown : Known db group := by
        unfold Known
        rw [hid]
        exact hgroup
      exact stepOk_read ⟨hknown, hid, hok (hid ▸ hknown.ne)⟩ (.inl rfl) rfl
  | countReadd group user =>
    simp only [pcStep] at h
    split at h
    · cases h
      exact stepOk_read trivial (.inl rfl) rfl
    · rename_i hroom
      cases h
      exact stepOk_count hok rfl rfl rfl rfl (not_le.mp hroom)
  | delFlag group user =>
    simp only [pcStep, Option.some.injEq, Prod.mk.injEq] at h
    obtain ⟨rfl, rfl⟩ := h
    exact stepOk_delFlag hok _

/-! ## Runs -/

/-- The members of a group and the slots held in it are within its slots. -/
structure Inv (group : Group) (s : State) : Prop where
  known : Known s.db group
  sessions : ∀ (i : Nat) (x : Session), s.sessions[i]? = some x → PcOk s.db x.pc
  distinct : ∀ (i j : Nat) (x y : Session) (uid : UserID), s.sessions[i]? = some x → s.sessions[j]? = some y →
    x.pc.newUid = some uid → y.pc.newUid = some uid → i = j
  bound : (numSlotsUsed s.db group.id + s.held group.id : Int) ≤ group.slots

theorem newUid_mem {db : Database} {pc : Pc} {uid : UserID} (h : PcOk db pc)
    (hnew : pc.newUid = some uid) : db.users.byId uid ≠ none := by
  cases pc with
  | setPrimaryGID group user ips =>
    cases hnew
    intro hnone
    have hgid := h.2.2
    simp [gidOf, hnone] at hgid
  | _ => cases hnew

theorem start_ok {site : Site} {cmd : Start} {pc : Pc} (h : start site cmd = some pc) (db : Database) :
    PcOk db pc ∧ pc.holds = none ∧ pc.newUid = none := by
  cases cmd with
  | addUser name password ips =>
    simp only [start] at h
    split at h
    · cases h
      split
      · exact ⟨trivial, rfl, rfl⟩
      · exact ⟨trivial, rfl, rfl⟩
    · cases h
  | gAddUser groupName name password ips =>
    simp only [start] at h
    split at h
    · cases h
      split
      · exact ⟨trivial, rfl, rfl⟩
      · exact ⟨trivial, rfl, rfl⟩
    · cases h
  | readd name =>
    simp only [start] at h
    split at h
    · cases h
      split
      · exact ⟨trivial, rfl, rfl⟩
      · exact ⟨trivial, rfl, rfl⟩
    · cases h

/-- A step of session `i`, from what it does. -/
theorem inv_of_stepOk {group : Group} {s : State} (hinv : Inv group s) {i : Nat} {site : Site}
    {pc pc' : Pc} {db' : Database} (hi : s.sessions[i]? = some ⟨site, pc⟩)
    (hok : StepOk s.db pc db' pc')
    (hroom : ∀ g, pc.counts = some g → numSlotsUsed s.db g.id < g.slots →
      (numSlotsUsed s.db g.id + s.held g.id : Int) < g.slots) :
    Inv group ⟨db', s.sessions.set i ⟨site, pc'⟩⟩ := by
  have hget : ∀ (j : Nat) (x : Session), (s.sessions.set i ⟨site, pc'⟩)[j]? = some x →
      (j = i ∧ x = ⟨site, pc'⟩) ∨ (j ≠ i ∧ s.sessions[j]? = some x) := by
    intro j x hx
    rw [List.getElem?_set] at hx
    split at hx
    · rename_i hij
      split at hx
      · cases hx
        exact .inl ⟨hij.symm, rfl⟩
      · cases hx
    · rename_i hij
      exact .inr ⟨fun h => hij h.symm, hx⟩
  refine ⟨?_, ?_, ?_, ?_⟩
  · unfold Known
    rw [hok.groups]
    exact hinv.known
  · intro j x hx
    rcases hget j x hx with ⟨-, rfl⟩ | ⟨hj, hx⟩
    · exact hok.own
    · refine hok.others x.pc ?_ (hinv.sessions j x hx)
      intro uid hpc hother
      exact hj (hinv.distinct j i x ⟨site, pc⟩ uid hx hi hother hpc)
  · -- the id of a new user is not one that another session has
    have hfresh : ∀ (j : Nat) (x : Session) (uid : UserID), s.sessions[j]? = some x → x.pc.newUid = some uid →
        pc'.newUid ≠ some uid := by
      intro j x uid hx hnew hpc'
      exact newUid_mem (hinv.sessions j x hx) hnew (hok.fresh uid hpc')
    intro j k x y uid hx hy hxu hyu
    rcases hget j x hx with ⟨hj, rfl⟩ | ⟨-, hoj⟩
    · rcases hget k y hy with ⟨hk, -⟩ | ⟨-, hok'⟩
      · exact hj.trans hk.symm
      · exact absurd hxu (hfresh k y uid hok' hyu)
    · rcases hget k y hy with ⟨-, rfl⟩ | ⟨-, hok'⟩
      · exact absurd hyu (hfresh j x uid hoj hxu)
      · exact hinv.distinct j k x y uid hoj hok' hxu hyu
  · have hheld := countP_set (fun x : Session => x.pc.heldIn group.id) (b := ⟨site, pc'⟩) hi
    simp only at hheld
    have hbound := hinv.bound
    unfold State.held at hbound ⊢
    simp only at hbound ⊢
    rcases hok.members group.id hinv.known.ne with hle | ⟨rfl, hfree, g, hcounts, hgid, hlt⟩
    · omega
    · have hsame : g = group := by
        have hknown : Known s.db g := by
          have hpc := hinv.sessions i ⟨site, pc⟩ hi
          cases pc with
          | countAdd group name password ips =>
            cases hcounts
            exact hpc
          | countReadd group user =>
            cases hcounts
            exact hpc.1
          | _ => cases hcounts
        unfold Known at hknown
        rw [hgid, show s.db.groups.byId group.id = some group from hinv.known] at hknown
        exact (Option.some.inj hknown).symm
      subst hsame
      have hlt' := hroom g hcounts hlt
      unfold State.held at hlt'
      rw [hfree] at hheld
      have hone : (if pc'.heldIn g.id = true then 1 else 0) ≤ 1 := by
        split
        · exact Nat.le_refl 1
        · exact Nat.zero_le 1
      simp only [Bool.false_eq_true, if_false, Nat.add_zero] at hheld
      omega

theorem leavesRoom_template {s : State} {i : Nat} {uid : UserID} {site : Site} {pc : Pc}
    (hi : s.sessions[i]? = some ⟨site, pc⟩) (h : leavesRoom s (.step i uid) = true) :
    ∀ group name password ips, pc = .loadTemplate group name password ips →
      ∀ t, s.db.users.byName "default".toList = some t → t.primaryGid = -1 := by
  rintro group name password ips rfl t ht
  simp only [leavesRoom, hi] at h
  rw [ht] at h
  simpa using h

theorem leavesRoom_counts {s : State} {i : Nat} {uid : UserID} {site : Site} {pc : Pc}
    (hi : s.sessions[i]? = some ⟨site, pc⟩) (h : leavesRoom s (.step i uid) = true) :
    ∀ g, pc.counts = some g → numSlotsUsed s.db g.id < g.slots →
      (numSlotsUsed s.db g.id + s.held g.id : Int) < g.slots := by
  intro g hcounts
  cases pc with
  | countAdd group name password ips =>
    cases hcounts
    simp only [leavesRoom, hi, Pc.counts, decide_eq_true_eq] at h
    exact h
  | countReadd group user =>
    cases hcounts
    simp only [leavesRoom, hi, Pc.counts, decide_eq_true_eq] at h
    exact h
  | _ => cases hcounts

theorem step_inv {group : Group} {s s' : State} {i : Input} (hinv : Inv group s)
    (hroom : leavesRoom s i = true) (h : step s i = some s') : Inv group s' := by
  cases i with
  | start i cmd =>
    simp only [step] at h
    split at h
    · rename_i site hi
      split at h
      · rename_i pc hstart
        cases h
        obtain ⟨hok, hholds, hnew⟩ := start_ok hstart s.db
        refine inv_of_stepOk hinv hi (stepOk_read hok (.inl hholds) hnew) ?_
        intro g hcounts
        cases hcounts
      · cases h
    · cases h
  | step i uid =>
    simp only [step] at h
    split at h
    · rename_i site pc hi
      split at h
      · rename_i db' pc' hpc
        cases h
        exact inv_of_stepOk hinv hi
          (pcStep_ok (hinv.sessions i _ hi) (leavesRoom_template hi hroom) hpc)
          (leavesRoom_counts hi hroom)
      · cases h
    · cases h

/-- Any number of sessions, none of them in a command. -/
def begin (db : Database) (sites : List Site) : State := ⟨db, sites.map fun site => ⟨site, .idle⟩⟩

theorem begin_inv {db : Database} {group : Group} (sites : List Site) (hgroup : Known db group)
    (hbase : (numSlotsUsed db group.id : Int) ≤ group.slots) : Inv group (begin db sites) := by
  have hidle : ∀ (i : Nat) (x : Session), (begin db sites).sessions[i]? = some x → x.pc = .idle := by
    intro i x hx
    simp only [begin, List.getElem?_map] at hx
    obtain ⟨site, -, rfl⟩ := Option.map_eq_some_iff.mp hx
    rfl
  refine ⟨hgroup, ?_, ?_, ?_⟩
  · intro i x hx
    rw [hidle i x hx]
    trivial
  · intro i j x y uid hx _ hnew
    rw [hidle i x hx] at hnew
    cases hnew
  · have hheld : (begin db sites).held group.id = 0 := by
      unfold State.held
      rw [List.countP_eq_zero]
      intro x hx
      obtain ⟨site, -, rfl⟩ := List.mem_map.mp hx
      simp [Pc.heldIn, Pc.holds]
    rw [hheld]
    simpa [begin] using hbase

/-- From any user base within the slots of a group, over every interleaving of any number of group
admins whose steps leave room. -/
theorem slots_kept (db : Database) (sites : List Site) (group : Group)
    (hgroup : db.groups.byId group.id = some group)
    (hbase : (numSlotsUsed db group.id : Int) ≤ group.slots) (l : List Input) (s : State)
    (hmeets : Meets step (fun s i => leavesRoom s i = true) (begin db sites) l)
    (hrun : run step (begin db sites) l = some s) :
    (numSlotsUsed s.db group.id : Int) ≤ group.slots := by
  have hinv : Inv group s := run_invariant_of_meets (fun _ _ _ => step_inv) l
    (begin_inv sites hgroup hbase) hmeets hrun
  have hbound := hinv.bound
  omega

/-- The group leech with the deleted user dave, and its admin carol of staff. -/
def exampleDatabase (slots : Int) : Database where
  users :=
    { rows :=
        [{ id := 1, name := "default".toList, flags := "3".toList },
          { id := 2, name := "carol".toList, primaryGid := 0, gadminGids := [3] },
          { id := 5, name := "dave".toList, primaryGid := 3, flags := "6".toList }]
      ids := by decide
      names := by decide }
  groups :=
    { rows := [{ id := 0, name := "staff".toList }, { id := 3, name := "leech".toList, slots := slots }]
      ids := by simp
      names := by simp }
  uids := by decide
  gids := by simp

def exampleSite : Site where
  cfg :=
    { sitepath := "/site".toList
      commandACLs := [("gaddusergadmin".toList, ACL.fromString "*".toList),
        ("readdgadmin".toList, ACL.fromString "*".toList)]
      tlsControl := ACL.fromString "!*".toList
      maxOnline := ⟨10, 0⟩
      wildcardMatch := fun _ _ => false }
  user := { id := 2, name := "carol".toList, primaryGid := 0, gadminGids := [3] }
  users := UserCache.populate (exampleDatabase 1).users
  groups := GroupCache.populate (exampleDatabase 1).groups
  bannedUsers := []
  totalUsers := -1
  maximumRatio := 10
  masters := []
  securePass := fun _ => none
  secureIP := fun _ => none
  ipMatch := fun mask text => mask == text
  hashPassword := fun password salt => password ++ salt
  rawSalt := "salt".toList
  kicked := fun _ => 0
  templateError := none
  otherSetting := fun _ _ => .error []

/-- With two slots, a user is added while another is readded. -/
theorem slots_kept_two :
    let l : List Input :=
      [.start 0 (.gAddUser "leech".toList "erin".toList "secret".toList []), .step 0 0, .step 0 0,
        .start 1 (.readd "dave".toList), .step 1 0, .step 1 0, .step 1 0, .step 0 0, .step 0 0, .step 1 0,
        .step 0 6, .step 0 0]
    ∃ s, run step (begin (exampleDatabase 2) [exampleSite, exampleSite]) l = some s ∧
      numSlotsUsed s.db 3 = 2 ∧ (numSlotsUsed s.db 3 : Int) ≤ 2 := by
  intro l
  have hrun : (run step (begin (exampleDatabase 2) [exampleSite, exampleSite]) l).map
      (fun s => numSlotsUsed s.db 3) = some 2 := by decide
  obtain ⟨s, hs, hused⟩ := Option.map_eq_some_iff.mp hrun
  exact ⟨s, hs, hused, slots_kept (exampleDatabase 2) [exampleSite, exampleSite]
    { id := 3, name := "leech".toList, slots := 2 } (by decide) (by decide) l s (by decide) hs⟩

/-- With one slot, two sessions count before either writes. -/
theorem slots_exceeded :
    let l : List Input :=
      [.start 0 (.gAddUser "leech".toList "erin".toList "secret".toList []), .step 0 0, .step 0 0,
        .start 1 (.readd "dave".toList), .step 1 0, .step 1 0, .step 1 0, .step 0 0, .step 0 0, .step 1 0,
        .step 0 6, .step 0 0]
    numSlotsUsed (exampleDatabase 1) 3 = 0 ∧
      (exampleDatabase 1).groups.byId 3 = some { id := 3, name := "leech".toList, slots := 1 } ∧
      ∃ s, run step (begin (exampleDatabase 1) [exampleSite, exampleSite]) l = some s ∧
        numSlotsUsed s.db 3 = 2 := by
  intro l
  have hrun : (run step (begin (exampleDatabase 1) [exampleSite, exampleSite]) l).map
      (fun s => numSlotsUsed s.db 3) = some 2 := by decide
  obtain ⟨s, hs, hused⟩ := Option.map_eq_some_iff.mp hrun
  exact ⟨by decide, by decide, s, hs, hused⟩

end Slots
end Cmd
end Ebftpd
