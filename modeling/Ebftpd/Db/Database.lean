import Ebftpd.Acl.Group
import Ebftpd.Lib.Replica

/-!
# Ebftpd.Db.Database

The collections `users` and `groups` with their unique indexes (`EnsureIndexes` of
`src/db/initialise.cpp`), and the writes to them that the update log tells of (`src/db/user/user.cpp`,
`src/db/group/group.cpp`). Ids come from `InsertAutoIncrement` and are never negative; -1 stands for
no user and no group.

* `apply_users`, `apply_groups`: a write changes the record of the id its log entry names, and no
  other.
-/

namespace Ebftpd
namespace Db

open Util Lib Lib.Replica Acl

abbrev UserTable := Table User.id User.name

abbrev GroupTable := Table Group.id Group.name

structure Database where
  users : UserTable
  groups : GroupTable
  uids : ∀ uid ∈ users.rows.map User.id, 0 ≤ uid
  gids : ∀ gid ∈ groups.rows.map Group.id, 0 ≤ gid

/-- An entry of `updatelog`: the collection and the id. -/
inductive Entry where
  | users (uid : UserID)
  | groups (gid : GroupID)
  deriving DecidableEq

def Entry.uid? : Entry → Option UserID
  | .users uid => some uid
  | .groups _ => none

def Entry.gid? : Entry → Option GroupID
  | .users _ => none
  | .groups gid => some gid

/-- The fields of a user that `SaveName`, `SaveIPMasks`, `SaveGIDs`, `SaveFlags`, `SavePassword`,
`SaveRatio` and `SaveWeeklyAllotment` write. -/
inductive UserField where
  | name (name : Str)
  | ipMasks (masks : List Str)
  | gids (primaryGid : GroupID) (secondaryGids gadminGids : List GroupID)
  | flags (flags : Str)
  | password (password salt : Str)
  | ratio (ratio : List (Str × Int))
  | weeklyAllotment (weeklyAllotment : List (Str × Int))

def UserField.set (field : UserField) (user : User) : User :=
  match field with
  | .name value => { user with name := value }
  | .ipMasks masks => { user with ipMasks := masks }
  | .gids primaryGid secondaryGids gadminGids =>
    { user with primaryGid := primaryGid, secondaryGids := secondaryGids, gadminGids := gadminGids }
  | .flags value => { user with flags := value }
  | .password value salt => { user with password := value, salt := salt }
  | .ratio value => { user with ratio := value }
  | .weeklyAllotment value => { user with weeklyAllotment := value }

inductive Write where
  | createUser (user : User)
  | saveUser (uid : UserID) (field : UserField)
  | purgeUser (uid : UserID)
  | createGroup (group : Group)
  | saveGroupName (gid : GroupID) (name : Str)
  | purgeGroup (gid : GroupID)

/-- The entry `UpdateLog` appends after the write. -/
def Write.entry : Write → Entry
  | .createUser user => .users user.id
  | .saveUser uid _ => .users uid
  | .purgeUser uid => .users uid
  | .createGroup group => .groups group.id
  | .saveGroupName gid _ => .groups gid
  | .purgeGroup gid => .groups gid

theorem insert_nonneg {ρ : Type} {id : ρ → Int} {name : ρ → Str} {t t' : Table id name} {r : ρ}
    (ht : ∀ i ∈ t.rows.map id, 0 ≤ i) (hr : 0 ≤ id r) (h : t.insert r = some t') :
    ∀ i ∈ t'.rows.map id, 0 ≤ i := by
  intro i hi
  rw [(Table.insert_eq_some h).2.2, List.map_append, List.mem_append, List.map_singleton,
    List.mem_singleton] at hi
  rcases hi with hold | rfl
  · exact ht i hold
  · exact hr

theorem remove_nonneg {ρ : Type} {id : ρ → Int} {name : ρ → Str} {t : Table id name}
    (ht : ∀ i ∈ t.rows.map id, 0 ≤ i) (j : Int) : ∀ i ∈ (t.remove j).rows.map id, 0 ≤ i := by
  intro i hi
  obtain ⟨r, hr, rfl⟩ := List.mem_map.mp hi
  exact ht _ (List.mem_map_of_mem (List.mem_of_mem_filter hr))

namespace Database

def createUser (db : Database) (user : User) : Option Database :=
  if hid : 0 ≤ user.id then
    match h : db.users.insert user with
    | some users => some { db with users := users, uids := insert_nonneg db.uids hid h }
    | none => none
  else none

def saveUser (db : Database) (uid : UserID) (field : UserField) : Option Database :=
  match h : db.users.update uid field.set with
  | some users => some { db with users := users, uids := Table.update_ids h ▸ db.uids }
  | none => none

def purgeUser (db : Database) (uid : UserID) : Database :=
  { db with users := db.users.remove uid, uids := remove_nonneg db.uids uid }

def createGroup (db : Database) (group : Group) : Option Database :=
  if hid : 0 ≤ group.id then
    match h : db.groups.insert group with
    | some groups => some { db with groups := groups, gids := insert_nonneg db.gids hid h }
    | none => none
  else none

def saveGroupName (db : Database) (gid : GroupID) (name : Str) : Option Database :=
  match h : db.groups.update gid fun group => { group with name := name } with
  | some groups => some { db with groups := groups, gids := Table.update_ids h ▸ db.gids }
  | none => none

def purgeGroup (db : Database) (gid : GroupID) : Database :=
  { db with groups := db.groups.remove gid, gids := remove_nonneg db.gids gid }

/-- The database after a write; `none` when a unique index refuses it, and then nothing is logged. -/
def apply (db : Database) : Write → Option Database
  | .createUser user => db.createUser user
  | .saveUser uid field => db.saveUser uid field
  | .purgeUser uid => some (db.purgeUser uid)
  | .createGroup group => db.createGroup group
  | .saveGroupName gid name => db.saveGroupName gid name
  | .purgeGroup gid => some (db.purgeGroup gid)

end Database

theorem writtenAt_insert {ρ : Type} {id : ρ → Int} {name : ρ → Str} {t t' : Table id name} {r : ρ}
    (h : t.insert r = some t') : WrittenAt t t' (id r) := by
  intro j hj
  rw [Table.byId_insert h, if_neg hj]

theorem writtenAt_remove {ρ : Type} {id : ρ → Int} {name : ρ → Str} (t : Table id name) (i : Int) :
    WrittenAt t (t.remove i) i := by
  intro j hj
  rw [Table.byId_remove, if_neg hj]

/-- What a write does: the record of the id in its entry, in one of the two collections. -/
theorem apply_written {db db' : Database} {w : Write} (h : db.apply w = some db') :
    (∃ uid, w.entry = .users uid ∧ WrittenAt db.users db'.users uid ∧ db'.groups = db.groups) ∨
      (∃ gid, w.entry = .groups gid ∧ WrittenAt db.groups db'.groups gid ∧ db'.users = db.users) := by
  cases w with
  | createUser user =>
    simp only [Database.apply, Database.createUser] at h
    split at h
    · split at h
      · rename_i hins
        cases h
        exact .inl ⟨user.id, rfl, writtenAt_insert hins, rfl⟩
      · cases h
    · cases h
  | saveUser uid field =>
    simp only [Database.apply, Database.saveUser] at h
    split at h
    · rename_i hupdate
      cases h
      exact .inl ⟨uid, rfl, fun j hj => Table.byId_update_ne hupdate hj, rfl⟩
    · cases h
  | purgeUser uid =>
    cases h
    exact .inl ⟨uid, rfl, writtenAt_remove db.users uid, rfl⟩
  | createGroup group =>
    simp only [Database.apply, Database.createGroup] at h
    split at h
    · split at h
      · rename_i hins
        cases h
        exact .inr ⟨group.id, rfl, writtenAt_insert hins, rfl⟩
      · cases h
    · cases h
  | saveGroupName gid name =>
    simp only [Database.apply, Database.saveGroupName] at h
    split at h
    · rename_i hupdate
      cases h
      exact .inr ⟨gid, rfl, fun j hj => Table.byId_update_ne hupdate hj, rfl⟩
    · cases h
  | purgeGroup gid =>
    cases h
    exact .inr ⟨gid, rfl, writtenAt_remove db.groups gid, rfl⟩

end Db
end Ebftpd
