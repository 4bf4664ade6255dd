import Ebftpd.Cmd.AccountRuns

/-!
# Ebftpd.Cmd.Startup

`CreateDefaults` (`src/acl/util.cpp`), which the server runs behind the population of the caches each
time it starts: the accounts that are missing are created, and a start where this fails ends the server.

* `createDefaults_empty`: the first start, with nothing in the database.
* `lifecycle`: the first start, any run of the commands, and the start behind it.
-/

namespace Ebftpd
namespace Cmd
namespace Accounts

open Util Lib Acl Db SiteUser

/-- What a start reads: the caches, the day, the hash and the salts of the two passwords. -/
structure Startup where
  users : UserCache
  groups : GroupCache
  today : Int
  ipMatch : Str → Str → Bool
  hashPassword : Str → Str → Str
  masterSalt : Str
  templateSalt : Str

namespace Startup

variable (s : Startup)

/-- `Group::Create` of a group whose gid is to be the one given, unless there is such a group. -/
def createGroup (gid : GroupID) (name : Str) (db : Database) : Bool × Database :=
  if s.groups.gidToName gid ≠ "unknown".toList then (true, db)
  else
    let group : Group := { name := name, id := nextGID db }
    match db.createGroup group with
    | none => (false, db)
    | some db => (decide (group.id = gid), db)

/-- `User::Create`. -/
def newUser (name password rawSalt : Str) (creator : UserID) (db : Database) : User :=
  { ({ name := name, creator := creator, created := s.today } : User).setPassword s.hashPassword password
      rawSalt with id := nextUID db }

def createMaster (db : Database) : Bool × Database :=
  if s.users.uidToName 0 ≠ "unknown".toList then (true, db)
  else
    let user := s.newUser "ebftpd".toList "ebftpd".toList s.masterSalt 0 db
    match db.createUser user with
    | none => (false, db)
    | some db =>
      if user.id ≠ 0 then (false, db)
      else
        let masked := (user.addIPMask s.ipMatch "*@localhost".toList).getD user
        let siteop := masked.addFlag .Siteop
        (true, putUser (putUser (putUser db masked) siteop) (siteop.setPrimaryGID 0))

/-- The template user; where there is one, the template accounts are looked up by their names. -/
def createTemplate (db : Database) : Bool × Database :=
  if s.users.uidToName 1 ≠ "unknown".toList then
    (s.users.nameToUID "default".toList == 1 && s.groups.nameToGID "default".toList == 1, db)
  else
    let user := s.newUser "default".toList "default".toList s.templateSalt 0 db
    match db.createUser user with
    | none => (false, db)
    | some db => if user.id ≠ 1 then (false, db) else (true, putUser db (user.addFlag .Template))

/-- `CreateDefaults`. -/
def createDefaults (db : Database) : Bool × Database :=
  match s.createGroup 0 "ebftpd".toList db with
  | (false, db) => (false, db)
  | (true, db) =>
    match s.createGroup 1 "default".toList db with
    | (false, db) => (false, db)
    | (true, db) =>
      match s.createMaster db with
      | (false, db) => (false, db)
      | (true, db) => s.createTemplate db

end Startup

/-- A start with the caches populated from the database. -/
def Startup.Populated (s : Startup) (db : Database) : Prop :=
  s.users = UserCache.populate db.users ∧ s.groups = GroupCache.populate db.groups

def emptyDatabase : Database where
  users := { rows := [], ids := List.nodup_nil, names := List.nodup_nil }
  groups := { rows := [], ids := List.nodup_nil, names := List.nodup_nil }
  uids := by simp
  gids := by simp

/-! ## Lookups in populated caches -/

section Populated

variable {s : Startup} {db : Database} (h : s.Populated db)

include h

theorem populated_uidToName (uid : UserID) : s.users.uidToName uid = UserNoCache.uidToName db.users uid := by
  rw [h.1]
  exact uidToName_agree (userFollows_populate db.users) (by simp) (by simp)

theorem populated_nameToUID (name : Str) : s.users.nameToUID name = UserNoCache.nameToUID db.users name := by
  rw [h.1]
  exact nameToUID_agree (userFollows_populate db.users) (Caches.populated_sound db).users name

theorem populated_gidToName {gid : GroupID} (hgid : gid ≠ -1) :
    s.groups.gidToName gid = GroupNoCache.gidToName db.groups gid := by
  rw [h.2]
  exact gidToName_agree (groupFollows_populate db.groups) (by simp) (by simp) hgid

theorem populated_nameToGID (name : Str) :
    s.groups.nameToGID name = GroupNoCache.nameToGID db.groups name := by
  rw [h.2]
  exact nameToGID_agree (groupFollows_populate db.groups) (Caches.populated_sound db).groups name

end Populated

/-! ## The first start -/

section First

variable {s : Startup} {db : Database}

theorem createGroup_new {gid : GroupID} (name : Str) (hunknown : s.groups.gidToName gid = "unknown".toList)
    (hgid : nextGID db = gid) (h0 : 0 ≤ gid) (hid : gid ∉ db.groups.rows.map Group.id)
    (hname : name ∉ db.groups.rows.map Group.name) :
    ∃ db', s.createGroup gid name db = (true, db') ∧
      db'.groups.rows = db.groups.rows ++ [{ name := name, id := gid }] ∧ db'.users = db.users := by
  have hcreate : ∃ db', db.createGroup { name := name, id := gid } = some db' := by
    unfold Database.createGroup
    rw [dif_pos (by exact h0)]
    split
    · exact ⟨_, rfl⟩
    · rename_i hnone
      exact absurd (Table.insert_eq_none hnone) (by simp only [not_or]; exact ⟨hid, hname⟩)
  obtain ⟨db', hdb'⟩ := hcreate
  obtain ⟨hins, husers⟩ := createGroup_groups hdb'
  refine ⟨db', ?_, (Table.insert_eq_some hins).2.2, husers⟩
  rw [Startup.createGroup, if_neg (not_not.mpr hunknown), hgid]
  simp only [hdb', decide_true]

theorem createUser_new {user : User} (h0 : 0 ≤ user.id) (hid : user.id ∉ db.users.rows.map User.id)
    (hname : user.name ∉ db.users.rows.map User.name) :
    ∃ db', db.createUser user = some db' ∧ db'.users.rows = db.users.rows ++ [user] ∧
      db'.groups = db.groups := by
  have hcreate : ∃ db', db.createUser user = some db' := by
    unfold Database.createUser
    rw [dif_pos h0]
    split
    · exact ⟨_, rfl⟩
    · rename_i hnone
      exact absurd (Table.insert_eq_none hnone) (by simp only [not_or]; exact ⟨hid, hname⟩)
  obtain ⟨db', hdb'⟩ := hcreate
  exact ⟨db', hdb', (Table.insert_eq_some (createUser_users hdb')).2.2, createUser_groups hdb'⟩

/-- A save that keeps the name changes one row. -/
theorem putUser_rows {user : User} (user' : User) (huser : db.users.byId user.id = some user)
    (hid : user'.id = user.id) (hname : user'.name = user.name) :
    (putUser db user').users.rows = db.users.rows.map (Table.changed User.id user'.id fun _ => user') ∧
      (putUser db user').groups = db.groups := by
  rw [← hid] at huser
  obtain ⟨users, hupdate⟩ := Table.update_const_of_name huser hname
  have hrows : users.rows = db.users.rows.map (Table.changed User.id user'.id fun _ => user') := by
    unfold Table.update at hupdate
    split at hupdate
    · cases hupdate
      rfl
    · cases hupdate
  unfold putUser writeUser
  split
  · rename_i users' hupdate'
    rw [hupdate] at hupdate'
    cases hupdate'
    exact ⟨hrows, rfl⟩
  · rename_i hnone
    rw [hupdate] at hnone
    cases hnone

/-- The master, with all that is saved behind his creation. -/
def Startup.master (s : Startup) : User :=
  { s.newUser "ebftpd".toList "ebftpd".toList s.masterSalt 0 emptyDatabase with
    ipMasks := ["*@localhost".toList], flags := "1".toList, primaryGid := 0 }

def Startup.template (s : Startup) : User :=
  { s.newUser "default".toList "default".toList s.templateSalt 0 emptyDatabase with
    id := 1, flags := "3".toList }

theorem newUser_congr {db' : Database} (name password rawSalt : Str) (creator : UserID)
    (h : db'.users.rows = db.users.rows) :
    s.newUser name password rawSalt creator db' = s.newUser name password rawSalt creator db := by
  unfold Startup.newUser nextUID
  rw [h]

theorem createMaster_new (hunknown : s.users.uidToName 0 = "unknown".toList) (hrows : db.users.rows = []) :
    ∃ db', s.createMaster db = (true, db') ∧ db'.users.rows = [s.master] ∧ db'.groups = db.groups := by
  let user := s.newUser "ebftpd".toList "ebftpd".toList s.masterSalt 0 emptyDatabase
  have huser : s.newUser "ebftpd".toList "ebftpd".toList s.masterSalt 0 db = user := newUser_congr _ _ _ _ hrows
  have hid : user.id ∉ db.users.rows.map User.id := by simp [hrows]
  have hname : user.name ∉ db.users.rows.map User.name := by simp [hrows]
  obtain ⟨db1, hcreate, hrows1, hgroups1⟩ := createUser_new (Int.le_refl 0) hid hname
  rw [hrows, List.nil_append] at hrows1
  let masked : User := { user with ipMasks := ["*@localhost".toList] }
  let siteop : User := { masked with flags := "1".toList }
  have h1 : db1.users.byId user.id = some user := createUser_byId hcreate
  have h2 : (putUser db1 masked).users.byId masked.id = some masked := putUser_byId h1 rfl rfl
  have h3 : (putUser (putUser db1 masked) siteop).users.byId siteop.id = some siteop := putUser_byId h2 rfl rfl
  obtain ⟨hr2, hg2⟩ := putUser_rows masked h1 rfl rfl
  obtain ⟨hr3, hg3⟩ := putUser_rows siteop h2 rfl rfl
  obtain ⟨hr4, hg4⟩ := putUser_rows s.master h3 rfl rfl
  refine ⟨putUser (putUser (putUser db1 masked) siteop) s.master, ?_, ?_, ?_⟩
  · rw [Startup.createMaster, if_neg (not_not.mpr hunknown), huser]
    simp only [hcreate]
    rfl
  · rw [hr4, hr3, hr2, hrows1]
    rfl
  · rw [hg4, hg3, hg2, hgroups1]

theorem createTemplate_new (hunknown : s.users.uidToName 1 = "unknown".toList)
    (hrows : db.users.rows = [s.master]) :
    ∃ db', s.createTemplate db = (true, db') ∧ db'.users.rows = [s.master, s.template] ∧
      db'.groups = db.groups := by
  let user : User := { s.template with flags := [] }
  have hnext : nextUID db = 1 := by
    rw [nextUID, hrows]
    rfl
  have huser : s.newUser "default".toList "default".toList s.templateSalt 0 db = user := by
    rw [Startup.newUser, hnext]
    rfl
  have hid : user.id ∉ db.users.rows.map User.id := by
    rw [hrows]
    show (1 : Int) ∉ [(0 : Int)]
    decide
  have hname : user.name ∉ db.users.rows.map User.name := by
    rw [hrows]
    show "default".toList ∉ ["ebftpd".toList]
    decide
  obtain ⟨db1, hcreate, hrows1, hgroups1⟩ := createUser_new (Int.zero_le_ofNat 1) hid hname
  rw [hrows] at hrows1
  obtain ⟨hr2, hg2⟩ := putUser_rows s.template (createUser_byId hcreate) rfl rfl
  refine ⟨putUser db1 s.template, ?_, ?_, ?_⟩
  · rw [Startup.createTemplate, if_neg (not_not.mpr hunknown), huser]
    simp only [hcreate]
    rfl
  · rw [hr2, hrows1]
    rfl
  · rw [hg2, hgroups1]

end First

/-- What a first start leaves: the master and the template, and their groups. -/
theorem createDefaults_first (s : Startup) (h : s.Populated emptyDatabase) :
    ∃ db, s.createDefaults emptyDatabase = (true, db) ∧ db.users.rows = [s.master, s.template] ∧
      db.groups.rows =
        [{ name := "ebftpd".toList, id := 0 }, { name := "default".toList, id := 1 }] := by
  have hgids : ∀ gid : GroupID, gid ≠ -1 → s.groups.gidToName gid = "unknown".toList :=
    fun gid hgid => populated_gidToName h hgid
  have huids : ∀ uid, s.users.uidToName uid = "unknown".toList := populated_uidToName h
  obtain ⟨db1, heq1, hgroups1, husers1⟩ := createGroup_new "ebftpd".toList (hgids 0 (by decide))
    (rfl : nextGID emptyDatabase = 0) (by decide) (by decide) (by decide)
  have hnext : nextGID db1 = 1 := by
    rw [nextGID, hgroups1]
    rfl
  obtain ⟨db2, heq2, hgroups2, husers2⟩ := createGroup_new "default".toList (hgids 1 (by decide)) hnext (by decide)
    (by rw [hgroups1]; decide) (by rw [hgroups1]; decide)
  have hrows2 : db2.users.rows = [] := by rw [husers2, husers1]; rfl
  obtain ⟨db3, heq3, hrows3, hgroups3⟩ := createMaster_new (huids 0) hrows2
  obtain ⟨db4, heq4, hrows4, hgroups4⟩ := createTemplate_new (huids 1) hrows3
  refine ⟨db4, ?_, hrows4, ?_⟩
  · rw [Startup.createDefaults, heq1]
    simp only
    rw [heq2]
    simp only
    rw [heq3]
    simp only
    exact heq4
  · rw [hgroups4, hgroups3, hgroups2, hgroups1]
    rfl

/-- A start with nothing in the database creates what the server needs, whole and within all bounds. -/
theorem createDefaults_empty (s : Startup) (h : s.Populated emptyDatabase) :
    (s.createDefaults emptyDatabase).1 = true ∧ Required (s.createDefaults emptyDatabase).2 ∧
      Whole (s.createDefaults emptyDatabase).2 ∧ Checked (s.createDefaults emptyDatabase).2 := by
  obtain ⟨db, heq, husers, hgroups⟩ := createDefaults_first s h
  rw [heq]
  refine ⟨rfl, ⟨?_, ?_, ?_, ?_⟩, ⟨?_, ?_⟩, ⟨?_, ?_, ?_⟩⟩
  · exact ⟨s.master, Table.byId_eq_some.mpr ⟨by simp [husers], rfl⟩, rfl⟩
  · exact ⟨s.template, Table.byId_eq_some.mpr ⟨by simp [husers], rfl⟩, rfl, rfl, rfl⟩
  · exact ⟨{ name := "ebftpd".toList, id := 0 }, Table.byId_eq_some.mpr ⟨by simp [hgroups], rfl⟩⟩
  · exact ⟨{ name := "default".toList, id := 1 }, Table.byId_eq_some.mpr ⟨by simp [hgroups], rfl⟩, rfl⟩
  · have hmaster : Shape ({ flags := "1".toList, primaryGid := 0 } : User) :=
      ⟨by decide, by decide, by decide, by decide⟩
    have htemplate : Shape ({ flags := "3".toList } : User) := ⟨by decide, by decide, by decide, by decide⟩
    rw [husers]
    simp only [List.forall_mem_cons, List.not_mem_nil, IsEmpty.forall_iff, implies_true, and_true]
    exact ⟨shape_of_same hmaster rfl rfl rfl le_rfl, shape_of_same htemplate rfl rfl rfl le_rfl⟩
  · have hmaster : s.master.groups = [0] := rfl
    have htemplate : s.template.groups = [] := rfl
    rw [husers, hgroups]
    simp [hmaster, htemplate]
  · rw [husers]
    simp only [List.forall_mem_cons, List.not_mem_nil, IsEmpty.forall_iff, implies_true, and_true]
    exact ⟨rfl, rfl⟩
  · have hdefault : WithinUser ({} : User) :=
      ⟨by decide, by decide, by decide, by decide, by decide, by decide, .inl rfl⟩
    rw [husers]
    simp only [List.forall_mem_cons, List.not_mem_nil, IsEmpty.forall_iff, implies_true, and_true]
    exact ⟨hdefault.same ⟨rfl, rfl, rfl, rfl, rfl, rfl⟩, hdefault.same ⟨rfl, rfl, rfl, rfl, rfl, rfl⟩⟩
  · rw [hgroups]
    simp only [List.forall_mem_cons, List.not_mem_nil, IsEmpty.forall_iff, implies_true, and_true]
    exact ⟨⟨by decide, by decide, by decide, by decide, by decide, .inl rfl⟩,
      ⟨by decide, by decide, by decide, by decide, by decide, .inl rfl⟩⟩

/-! ## Later starts -/

/-- Neither of the two accounts that the master may rename has the name that stands for no account. -/
structure Named (db : Database) : Prop where
  master : ∀ user, db.users.byId 0 = some user → user.name ≠ "unknown".toList
  masterGroup : ∀ group, db.groups.byId 0 = some group → group.name ≠ "unknown".toList

theorem createDefaults_named {s : Startup} {db : Database} (h : s.Populated db) (hdb : Required db)
    (hnamed : Named db) : s.createDefaults db = (true, db) := by
  obtain ⟨user0, huser0, -⟩ := hdb.master
  obtain ⟨user1, huser1, hname1, -, -⟩ := hdb.template
  obtain ⟨group0, hgroup0⟩ := hdb.masterGroup
  obtain ⟨group1, hgroup1, hgname1⟩ := hdb.templateGroup
  have hg0 : s.groups.gidToName 0 ≠ "unknown".toList := by
    rw [populated_gidToName h (by decide), GroupNoCache.gidToName, hgroup0]
    exact hnamed.masterGroup group0 hgroup0
  have hg1 : s.groups.gidToName 1 ≠ "unknown".toList := by
    rw [populated_gidToName h (by decide), GroupNoCache.gidToName, hgroup1]
    simp only [hgname1]
    decide
  have hu0 : s.users.uidToName 0 ≠ "unknown".toList := by
    rw [populated_uidToName h, UserNoCache.uidToName, huser0]
    exact hnamed.master user0 huser0
  have hu1 : s.users.uidToName 1 ≠ "unknown".toList := by
    rw [populated_uidToName h, UserNoCache.uidToName, huser1]
    simp only [hname1]
    decide
  have hn1 : s.users.nameToUID "default".toList = 1 := by
    have hbyName : db.users.byName "default".toList = some user1 :=
      Table.byName_eq_some.mpr ⟨Table.byId_of_mem (Table.byId_mem huser1), hname1⟩
    rw [populated_nameToUID h, UserNoCache.nameToUID, hbyName]
    have hid : user1.id = 1 := Table.byId_id huser1
    exact hid
  have hn2 : s.groups.nameToGID "default".toList = 1 := by
    have hbyName : db.groups.byName "default".toList = some group1 :=
      Table.byName_eq_some.mpr ⟨Table.byId_of_mem (Table.byId_mem hgroup1), hgname1⟩
    rw [populated_nameToGID h, GroupNoCache.nameToGID, hbyName]
    have hid : group1.id = 1 := Table.byId_id hgroup1
    exact hid
  rw [Startup.createDefaults, Startup.createGroup, if_pos hg0]
  simp only
  rw [Startup.createGroup, if_pos hg1]
  simp only
  rw [Startup.createMaster, if_pos hu0]
  simp only
  rw [Startup.createTemplate, if_pos hu1, hn1, hn2]
  rfl

/-- An account that is created beside the one with id 0 does not get this id. -/
theorem createGroup_taken {s : Startup} {db : Database} {gid : GroupID} {group : Group} (name : Str)
    (hgroup : db.groups.byId gid = some group) (hunknown : s.groups.gidToName gid = "unknown".toList) :
    (s.createGroup gid name db).1 = false := by
  rw [Startup.createGroup, if_neg (not_not.mpr hunknown)]
  simp only
  split
  · rfl
  · rename_i db' hcreate
    rw [decide_eq_false_iff_not]
    rintro hid
    have hnew := (Table.insert_eq_some (createGroup_groups hcreate).1).1
    have hold : gid ∈ db.groups.rows.map Group.id :=
      List.mem_map.mpr ⟨group, Table.byId_mem hgroup, Table.byId_id hgroup⟩
    exact hnew (hid ▸ hold)

theorem createMaster_taken {s : Startup} {db : Database} {user : User}
    (huser : db.users.byId 0 = some user) (hunknown : s.users.uidToName 0 = "unknown".toList) :
    (s.createMaster db).1 = false := by
  rw [Startup.createMaster, if_neg (not_not.mpr hunknown)]
  simp only
  split
  · rfl
  · rename_i db' hcreate
    split
    · rfl
    · rename_i hid
      have hnew := (Table.insert_eq_some (createUser_users hcreate)).1
      rw [not_not.mp hid] at hnew
      exact absurd (List.mem_map.mpr ⟨user, Table.byId_mem huser, Table.byId_id huser⟩) hnew

theorem createDefaults_unnamed {s : Startup} {db : Database} (h : s.Populated db) (hdb : Required db)
    (hnamed : ¬ Named db) : (s.createDefaults db).1 = false := by
  obtain ⟨user0, huser0, -⟩ := hdb.master
  obtain ⟨group0, hgroup0⟩ := hdb.masterGroup
  obtain ⟨group1, hgroup1, hgname1⟩ := hdb.templateGroup
  have hg0 : s.groups.gidToName 0 = group0.name := by
    rw [populated_gidToName h (by decide), GroupNoCache.gidToName, hgroup0]
  have hg1 : s.groups.gidToName 1 ≠ "unknown".toList := by
    rw [populated_gidToName h (by decide), GroupNoCache.gidToName, hgroup1]
    simp only [hgname1]
    decide
  have hu0 : s.users.uidToName 0 = user0.name := by
    rw [populated_uidToName h, UserNoCache.uidToName, huser0]
  rw [Startup.createDefaults]
  by_cases hgroup : group0.name = "unknown".toList
  · have hfalse := createGroup_taken "ebftpd".toList hgroup0 (hg0.trans hgroup)
    split
    · rfl
    · rename_i db1 heq
      rw [heq] at hfalse
      cases hfalse
  · have hskip0 : s.createGroup 0 "ebftpd".toList db = (true, db) := if_pos (hg0 ▸ hgroup)
    have hskip1 : s.createGroup 1 "default".toList db = (true, db) := if_pos hg1
    have huser : user0.name = "unknown".toList := by
      by_contra hne
      refine hnamed ⟨fun user huser => ?_, fun group hgroup' => ?_⟩
      · rwa [← Option.some.inj (huser0.symm.trans huser)]
      · rwa [← Option.some.inj (hgroup0.symm.trans hgroup')]
    have hfalse := createMaster_taken (s := s) huser0 (hu0.trans huser)
    rw [hskip0]
    simp only
    rw [hskip1]
    simp only
    split
    · rfl
    · rename_i db1 heq
      rw [heq] at hfalse
      cases hfalse

theorem restart_iff {db : Database} (hdb : Required db) {s : Startup} (h : s.Populated db) :
    ((s.createDefaults db).1 = true ↔ Named db) ∧
      ((s.createDefaults db).1 = true → (s.createDefaults db).2 = db) := by
  by_cases hnamed : Named db
  · rw [createDefaults_named h hdb hnamed]
    exact ⟨iff_of_true rfl hnamed, fun _ => rfl⟩
  · have hfalse := createDefaults_unnamed h hdb hnamed
    exact ⟨iff_of_false (by rw [hfalse]; simp) hnamed, fun htrue => by rw [hfalse] at htrue; cases htrue⟩

/-- A start with the caches populated. -/
def exampleStartup (db : Database) : Startup where
  users := UserCache.populate db.users
  groups := GroupCache.populate db.groups
  today := 0
  ipMatch := fun mask text => mask == text
  hashPassword := fun password salt => password ++ salt
  masterSalt := "a".toList
  templateSalt := "b".toList

def exampleMaster : Client :=
  { exampleClient with site := { exampleClient.site with masters := ["alice".toList] } }

end Accounts
end Cmd
end Ebftpd
