import Ebftpd.Acl.User

/-!
# Ebftpd.Db.User

The collection `users` (`src/db/user/user.cpp`). The index on `uid` is unique and no write names the
field, so one record has each uid; `Users` carries this.

* `loadUID_setFields`, `loadUID_setFields_ne`: what a write does to the record of a user.
* `loadUID_of_load`: the record loaded by a name is the one loaded by its uid.
-/

namespace Ebftpd
namespace Db

open Util Acl

structure Users where
  records : List User
  unique : (records.map (·.id)).Nodup

namespace Users

variable {users : Users} {uid uid' : UserID}

def loadUID (users : Users) (uid : UserID) : Option User := users.records.find? (·.id == uid)

def load (users : Users) (name : Str) : Option User := users.records.find? (·.name == name)

def written (uid : UserID) (f : User → User) (r : User) : User :=
  if r.id = uid then { f r with id := r.id } else r

theorem written_id (uid : UserID) (f : User → User) (r : User) : (written uid f r).id = r.id := by
  unfold written
  split <;> rfl

def setFields (users : Users) (uid : UserID) (f : User → User) : Users where
  records := users.records.map (written uid f)
  unique := by
    rw [List.map_map]
    exact (List.map_congr_left fun r _ => written_id uid f r) ▸ users.unique

def purge (users : Users) (uid : UserID) : Users where
  records := users.records.filter (·.id != uid)
  unique := users.unique.sublist (List.Sublist.map _ List.filter_sublist)

/-- `Create`; `InsertAutoIncrement` takes an id that no record has. -/
def create (users : Users) (user : User) : Users where
  records := if user.id ∈ users.records.map (·.id) then users.records else users.records ++ [user]
  unique := by
    split
    · exact users.unique
    · rename_i hnew
      rw [List.map_append]
      refine List.nodup_append.mpr ⟨users.unique, by simp, ?_⟩
      rintro a ha b hb rfl
      rw [List.map_singleton, List.mem_singleton] at hb
      exact hnew (hb ▸ ha)

theorem loadUID_id {r : User} (h : users.loadUID uid = some r) : r.id = uid := by
  simpa using List.find?_some h

theorem loadUID_written (users : Users) (uid u : UserID) (f : User → User) :
    (users.setFields uid f).loadUID u = (users.loadUID u).map (written uid f) := by
  simp only [loadUID, setFields, List.find?_map]
  congr 2
  funext r
  simp [written_id]

theorem loadUID_setFields (users : Users) (uid : UserID) (f : User → User) :
    (users.setFields uid f).loadUID uid = (users.loadUID uid).map (written uid f) :=
  loadUID_written users uid uid f

theorem loadUID_setFields_ne (h : uid' ≠ uid) (f : User → User) :
    (users.setFields uid f).loadUID uid' = users.loadUID uid' := by
  have hsame : ((·.id == uid') ∘ written uid f) = ((·.id == uid') : User → Bool) := by
    funext r
    simp [written_id]
  simp only [loadUID, setFields, List.find?_map, hsame]
  cases hfound : users.records.find? (·.id == uid') with
  | none => rfl
  | some r =>
    have hr : r.id = uid' := by simpa using List.find?_some hfound
    simp [written, hr, h]

theorem loadUID_purge_ne (h : uid' ≠ uid) : (users.purge uid).loadUID uid' = users.loadUID uid' := by
  simp only [loadUID, purge, List.find?_filter]
  congr 1
  funext r
  by_cases hr : r.id = uid'
  · simp [hr, h]
  · simp [hr]

theorem loadUID_create_ne {user : User} (h : uid ≠ user.id) :
    (users.create user).loadUID uid = users.loadUID uid := by
  simp only [loadUID, create]
  split
  · rfl
  · rw [List.find?_append, List.find?_singleton]
    simp [Ne.symm h]

theorem find?_id_of_mem {records : List User} (hunique : (records.map (·.id)).Nodup) {u : User}
    (hu : u ∈ records) : records.find? (·.id == u.id) = some u := by
  induction records with
  | nil => cases hu
  | cons r records ih =>
    rw [List.map_cons, List.nodup_cons] at hunique
    rcases List.mem_cons.mp hu with rfl | hmem
    · simp
    · have hne : r.id ≠ u.id := fun heq => hunique.1 (heq ▸ List.mem_map_of_mem hmem)
      rw [List.find?_cons_of_neg (by simpa using hne)]
      exact ih hunique.2 hmem

theorem loadUID_of_load {name : Str} {u : User} (h : users.load name = some u) :
    users.loadUID u.id = some u :=
  find?_id_of_mem users.unique (List.mem_of_find?_eq_some h)

end Users

end Db
end Ebftpd
