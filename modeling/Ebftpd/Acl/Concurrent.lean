import Ebftpd.Acl.Setters
import Ebftpd.Lib.LoadSave

/-!
# Ebftpd.Acl.Concurrent

Sessions that change one record of a user at the same time. Each loads the record, runs a mutator on
its copy and saves the fields the mutator names, all of them from the copy. Only the credits are
changed in the database itself.

* `current_save`: a save of a copy whose fields are still those of the stored record is the mutator on
  the stored record.
* `changes_serial`: in a run of such saves no change is lost.
-/

namespace Ebftpd
namespace Acl

open Util Lib Prog
open Lib.LoadSave

namespace UserMutator

variable (ipMatch : Str → Str → Bool) (hashPassword : Str → Str → Str)

/-- The stored record `db` after a mutator on the copy `user` with its saves. -/
def save (m : UserMutator) (user db : User) : User :=
  (m.prog ipMatch hashPassword ⟨user, db⟩ []).image.db

/-- The fields that a mutator reads or names: that of a gadmin group also asks for the flag. -/
def reads (user : User) : UserMutator → List User.Field
  | addGadminGID _ | delGadminGID _ | toggleGadminGID _ => [.gadminGids, .flags]
  | m => m.fields ipMatch user

/-- The stored record has these fields as they were loaded. -/
def Current (m : UserMutator) (user db : User) : Prop := copyAll (m.reads ipMatch user) user db = db

instance (m : UserMutator) (user db : User) : Decidable (m.Current ipMatch user db) :=
  inferInstanceAs (Decidable (_ = _))

end UserMutator

open UserSetters UserMutator

variable {ipMatch : Str → Str → Bool} {hashPassword : Str → Str → Str} {user db : User}

theorem UserMutator.Current.of_reads {m : UserMutator} {fs : List User.Field}
    (h : m.Current ipMatch user db) (hreads : m.reads ipMatch user = fs) : copyAll fs user db = db :=
  hreads ▸ h

theorem copy_assign (gids : List GroupID) :
    copyAll gidFields (user.assignGIDs gids) db = (copyAll gidFields user db).assignGIDs gids := by
  cases gids with
  | nil => rfl
  | cons gid gids => rfl

theorem copy_add (gids : List GroupID) :
    copyAll gidFields (user.addGIDs gids) db = (copyAll gidFields user db).addGIDs gids := by
  cases gids with
  | nil => rfl
  | cons gid gids => rfl

theorem copy_clean : copyAll gidFields user.cleanGadminGIDs db = (copyAll gidFields user db).cleanGadminGIDs := rfl

theorem copy_del (gids : List GroupID) :
    copyAll gidFields (user.delGIDs gids) db = (copyAll gidFields user db).delGIDs gids := by
  unfold User.delGIDs
  have hprimary : (copyAll gidFields user db).primaryGid = user.primaryGid := rfl
  rw [hprimary]
  split
  · rw [copy_clean, copy_assign]
    rfl
  · rfl

theorem copy_setPrimary (gid : GroupID) :
    copyAll gidFields (user.setPrimaryGID gid) db = (copyAll gidFields user db).setPrimaryGID gid := by
  unfold User.setPrimaryGID
  have hprimary : (copyAll gidFields user db).primaryGid = user.primaryGid := rfl
  rw [hprimary]
  split
  · rfl
  · rfl

theorem copy_set (gids : List GroupID) :
    copyAll gidFields (user.setGIDs gids) db = (copyAll gidFields user db).setGIDs gids := by
  rw [User.setGIDs, copy_clean, copy_assign, User.setGIDs]

theorem copy_toggle (gids : List GroupID) :
    copyAll gidFields (user.toggleGIDs gids) db = (copyAll gidFields user db).toggleGIDs gids := by
  have hgroups : (copyAll gidFields user db).groups = user.groups := rfl
  unfold User.toggleGIDs
  rw [hgroups, copy_clean, copy_assign]

theorem copy_addGadmin (gid : GroupID) (h : copyAll [.gadminGids, .flags] user db = db) :
    copyAll (addGadminFields user) (user.addGadminGID gid) db = db.addGadminGID gid := by
  rw [← h, addGadminFields]
  by_cases hflag : user.hasFlag .Gadmin = true
  · have hadd : ∀ u : User, u.hasFlag .Gadmin = true → u.addGadminGID gid = { u with
        gadminGids := if u.hasGadminGID gid then u.gadminGids else u.gadminGids ++ [gid] } :=
      fun u hu => if_pos hu
    rw [if_pos hflag]
    exact (congrArg (copyAll [User.Field.gadminGids] · _) (hadd user hflag)).trans
      (hadd (copyAll [User.Field.gadminGids, User.Field.flags] user db) hflag).symm
  · have hadd : ∀ u : User, ¬ u.hasFlag .Gadmin = true → u.addGadminGID gid = { u with
        gadminGids := if u.hasGadminGID gid then u.gadminGids
          else u.gadminGids ++ [gid] }.addFlag .Gadmin :=
      fun u hu => if_neg hu
    rw [if_neg hflag]
    exact (congrArg (copyAll [User.Field.gadminGids, User.Field.flags] · _) (hadd user hflag)).trans
      (hadd (copyAll [User.Field.gadminGids, User.Field.flags] user db) hflag).symm

theorem copy_delGadmin (gid : GroupID) (h : copyAll [.gadminGids, .flags] user db = db) :
    copyAll (delGadminFields user gid) (user.delGadminGID gid) db = db.delGadminGID gid := by
  rw [← h, delGadminFields]
  by_cases hlast : (user.gadminGids.filter (· != gid)).isEmpty = true
  · have hdel : ∀ u : User, (u.gadminGids.filter (· != gid)).isEmpty = true → u.delGadminGID gid =
        { u with gadminGids := u.gadminGids.filter (· != gid) }.delFlag .Gadmin :=
      fun u hu => if_pos hu
    rw [if_pos hlast]
    exact (congrArg (copyAll [User.Field.gadminGids, User.Field.flags] · _) (hdel user hlast)).trans
      (hdel (copyAll [User.Field.gadminGids, User.Field.flags] user db) hlast).symm
  · have hdel : ∀ u : User, ¬ (u.gadminGids.filter (· != gid)).isEmpty = true → u.delGadminGID gid =
        { u with gadminGids := u.gadminGids.filter (· != gid) } :=
      fun u hu => if_neg hu
    rw [if_neg hlast]
    exact (congrArg (copyAll [User.Field.gadminGids] · _) (hdel user hlast)).trans
      (hdel (copyAll [User.Field.gadminGids, User.Field.flags] user db) hlast).symm

/-- What a mutator makes of its copy, put into a record with the same fields, is what it makes of that
record. -/
theorem copy_given {m : UserMutator} (h : m.Current ipMatch user db)
    (hsome : m.fields ipMatch user ≠ []) :
    copyAll (m.fields ipMatch user) (m.given ipMatch hashPassword user) db =
      m.given ipMatch hashPassword db := by
  cases m with
  | addIPMask ipMask =>
    have hnew : ¬ user.ipMasks.any (ipMatch · ipMask) = true := fun hany => hsome (if_pos hany)
    have hadd : ∀ u : User, ¬ u.ipMasks.any (ipMatch · ipMask) = true →
        (u.addIPMask ipMatch ipMask).getD u =
          { u with ipMasks := u.ipMasks.filter (fun mask => !ipMatch ipMask mask) ++ [ipMask] } :=
      fun u hu => congrArg (Option.getD · u) (if_neg hu)
    rw [fields, if_neg hnew, ← h.of_reads (if_neg hnew)]
    exact (congrArg (copyAll [User.Field.ipMasks] · _) (hadd user hnew)).trans
      (hadd (copyAll [User.Field.ipMasks] user db) hnew).symm
  | delIPMask ipMask =>
    have hold : user.ipMasks.contains ipMask = true := by
      by_contra hout
      exact hsome (if_neg hout)
    rw [fields, if_pos hold, ← h.of_reads (if_pos hold)]
    rfl
  | setPrimaryGID gid =>
    have hnew : ¬ user.primaryGid = gid := fun heq => hsome (if_pos heq)
    rw [fields, if_neg hnew]
    exact (copy_setPrimary gid).trans (congrArg (User.setPrimaryGID · gid) (h.of_reads (if_neg hnew)))
  | addGIDs gids =>
    have hgids : ¬ gids.isEmpty = true := fun hnil => hsome (if_pos hnil)
    rw [fields, if_neg hgids]
    exact (copy_add gids).trans (congrArg (User.addGIDs · gids) (h.of_reads (if_neg hgids)))
  | delGIDs gids => exact (copy_del gids).trans (congrArg (User.delGIDs · gids) h)
  | setGIDs gids => exact (copy_set gids).trans (congrArg (User.setGIDs · gids) h)
  | toggleGIDs gids => exact (copy_toggle gids).trans (congrArg (User.toggleGIDs · gids) h)
  | addGadminGID gid => exact copy_addGadmin gid h
  | delGadminGID gid => exact copy_delGadmin gid h
  | toggleGadminGID gid =>
    have hgadmin : db.hasGadminGID gid = user.hasGadminGID gid := by
      rw [← h]
      rfl
    simp only [given, fields, User.toggleGadminGID, hgadmin]
    split
    · exact copy_delGadmin gid h
    · exact copy_addGadmin gid h
  | delIPMaskAt index => exact congrArg (User.delIPMask · index) h
  | addFlags flags => exact congrArg (User.addFlags · flags) h
  | delFlags flags => exact congrArg (User.delFlags · flags) h
  | setSectionWeeklyAllotment sec allotment =>
    exact congrArg (User.setSectionWeeklyAllotment · sec allotment) h
  | setLoggedIn now => exact congrArg (User.setLoggedIn · now) h
  | setSectionRatio sec ratio => exact congrArg (User.setSectionRatio · sec ratio) h
  | _ => rfl

theorem cond_done {test : User → Bool} {p q : Prog User} {i : Image User} (hp : (p i []).threw = false)
    (hq : (q i []).threw = false) : (Prog.cond test p q i []).threw = false := by
  unfold Prog.cond
  split
  · exact hp
  · exact hq

theorem setterThen_done {guarded fields : List User.Field} {g : User → User} {p : Prog User}
    {i : Image User} (hp : ∀ i, (p i []).threw = false) :
    (setterThen guarded fields g p i []).threw = false := by
  simp [setterThen, scope, andThen, change, Prog.save, saveElse, nextSave, hp]

theorem addGadmin_done (gid : GroupID) (i : Image User) :
    (UserSetters.addGadminGID gid i []).threw = false := setterThen_done fun _ => cond_done rfl rfl

theorem delGadmin_done (gid : GroupID) (i : Image User) :
    (UserSetters.delGadminGID gid i []).threw = false := setterThen_done fun _ => cond_done rfl rfl

/-- Where the saves write, only the verification of an index throws. -/
theorem prog_done {m : UserMutator} (hm : ∀ index, m = .delIPMaskAt index → index < user.ipMasks.length) :
    (m.prog ipMatch hashPassword ⟨user, db⟩ []).threw = false := by
  cases m with
  | addIPMask ipMask => exact cond_done rfl rfl
  | delIPMask ipMask => exact cond_done rfl rfl
  | delIPMaskAt index =>
    have hindex : decide (index < user.ipMasks.length) = true := decide_eq_true (hm index rfl)
    exact (congrArg Ran.threw (if_pos hindex)).trans rfl
  | setPrimaryGID gid => exact cond_done rfl rfl
  | addGIDs gids => exact cond_done rfl rfl
  | addGadminGID gid => exact addGadmin_done gid _
  | delGadminGID gid => exact delGadmin_done gid _
  | toggleGadminGID gid => exact cond_done (delGadmin_done gid _) (addGadmin_done gid _)
  | _ => rfl

/-- A save of a current copy is the mutator on the stored record, or it has nothing to do. -/
theorem current_save {m : UserMutator} (h : m.Current ipMatch user db) :
    m.given ipMatch hashPassword user = user ∧ m.save ipMatch hashPassword user db = db ∨
      m.save ipMatch hashPassword user db = m.given ipMatch hashPassword db := by
  by_cases hindex : ∃ index, m = .delIPMaskAt index ∧ user.ipMasks.length ≤ index
  · obtain ⟨index, rfl, hout⟩ := hindex
    have hfails : ¬ decide (index < user.ipMasks.length) = true := by simpa using hout
    refine .inl ⟨?_, ?_⟩
    · show user.delIPMask index = user
      rw [User.delIPMask, List.eraseIdx_of_length_le hout]
    · exact congrArg (fun r : Ran User => r.image.db) (if_neg hfails)
  · have hdone : (m.prog ipMatch hashPassword ⟨user, db⟩ []).threw = false := by
      refine prog_done fun index hm => ?_
      by_contra hout
      exact hindex ⟨index, hm, by omega⟩
    have hsafe : m.Safe ipMatch user [] := by
      cases m with
      | rename name => intro h; cases h
      | addIPMask ipMask => intro h; cases h
      | delIPMask ipMask => intro h; cases h
      | delIPMaskAt index => intro h; cases h
      | clearIPMasks => intro h; cases h
      | setPassword password rawSalt => intro h; cases h
      | _ => trivial
    obtain ⟨himage, hframe⟩ := ((userMutator_law_iff m).mpr hsafe).framed (by simp) hdone
    have hsave : m.save ipMatch hashPassword user db =
        copyAll (m.fields ipMatch user) (m.given ipMatch hashPassword user) db := congrArg Image.db himage
    by_cases hnone : m.fields ipMatch user = []
    · rw [hnone, copyAll_nil] at hsave hframe
      exact .inl ⟨hframe, hsave⟩
    · exact .inr (hsave.trans (copy_given h hnone))

/-- In a run of sessions in which no session saves a field that another has changed since it was
loaded, the record ends as one on which the mutators were run one after another. -/
theorem changes_serial {κ : Type} [DecidableEq κ] (ipMatch : Str → Str → Bool)
    (hashPassword : Str → Str → Str) (user : User) (l : List (Input κ UserMutator))
    (s : Shared κ User UserMutator)
    (hmeets : Meets (step (UserMutator.save ipMatch hashPassword)) (Fresh (Current ipMatch)) (start user) l)
    (hrun : run (step (UserMutator.save ipMatch hashPassword)) (start user) l = some s) :
    Serial (UserMutator.given ipMatch hashPassword) user s := by
  have hsave : ∀ m u db, Current ipMatch m u db →
      given ipMatch hashPassword u m = u ∧ UserMutator.save ipMatch hashPassword m u db = db ∨
        UserMutator.save ipMatch hashPassword m u db = given ipMatch hashPassword db m :=
    fun _ _ _ h => current_save h
  exact serial_of_meets hsave l hmeets hrun

/-- Three sessions that change different fields from copies of the same record. -/
def threeInput : List (Input Nat UserMutator) :=
  [.load 1, .load 2, .load 3, .change 2 (.addIPMask "*@10.0.0.1".toList), .change 1 (.setLoggedIn 100),
    .change 3 (.addFlags ['6'])]

theorem changes_serial_three : ∃ s : Shared Nat User UserMutator,
    run (step (UserMutator.save (fun _ _ => false) fun _ _ => [])) (start { id := 7 }) threeInput = some s ∧
      Serial (UserMutator.given (fun _ _ => false) fun _ _ => []) { id := 7 } s ∧
      s.stored =
        { id := 7, ipMasks := ["*@10.0.0.1".toList], flags := ['6'], loggedIn := 1, lastLogin := some 100 } :=
  ⟨_, rfl, changes_serial _ _ _ threeInput _ (by decide) rfl, by decide⟩

/-- Two sessions log the user in from the same record: one of the logins is not counted. -/
def loginInput : List (Input Nat UserMutator) :=
  [.load 1, .load 2, .change 1 (.setLoggedIn 100), .change 2 (.setLoggedIn 100)]

theorem login_lost : ∃ s : Shared Nat User UserMutator,
    run (step (UserMutator.save (fun _ _ => false) fun _ _ => [])) (start { id := 7 }) loginInput = some s ∧
      ¬ Serial (UserMutator.given (fun _ _ => false) fun _ _ => []) { id := 7 } s := by
  refine ⟨_, rfl, ?_⟩
  rintro ⟨order, hperm, hend⟩
  have horder : order = List.replicate 2 (.setLoggedIn 100) := List.perm_replicate.mp hperm
  subst horder
  have hcount := congrArg User.loggedIn hend
  revert hcount
  decide

end Acl
end Ebftpd
