import Ebftpd.Cmd.AccountRuns
import Ebftpd.Cmd.Gadmin

/-!
# Ebftpd.Cmd.AccountRefusals

A command that is refused has written nothing. The commands write in more than one place, so this is not
for free: `ADDUSER` executes `ADDIP` behind the new record, and `ADDIP` can be refused.

* `refused_unchanged`: every account command, with every argument.
-/

namespace Ebftpd
namespace Cmd
namespace Accounts

open Util Lib Acl Db SiteUser

/-- Where the command is refused, the database is as it was. -/
def Unchanged (out : Outcome) (db : Database) : Prop := refused out.exit = true → out.db = db

theorem unchanged_same {exit : ChangeText.Exit} (db : Database) : Unchanged ⟨exit, db⟩ db := fun _ => rfl

theorem unchanged_okay (text : Str) (db db' : Database) : Unchanged (okay text db') db :=
  fun h => (Bool.false_ne_true h).elim

theorem unchanged_done {d : Done} {db : Database} (h : d.reply.refused = true → d.db = db) :
    Unchanged (.ofDone d) db := h

section Commands

variable {site : Site} {db : Database}

/-! ## Masks, passwords and flags -/

theorem addIP_unchanged (arg0 name : Str) (ips : List Str)
    (h : (addIP site arg0 name ips db).reply.refused = true) : (addIP site arg0 name ips db).db = db := by
  unfold addIP at h ⊢
  split
  · rfl
  · rename_i hpermitted
    rw [if_neg hpermitted] at h
    split
    · rfl
    · rename_i user hname
      rw [hname] at h
      exact (Bool.false_ne_true h).elim

/-- The masks of a user there is are added without a refusal. -/
theorem addIP_granted {name : Str} {user : User} (ips : List Str) (hname : db.users.byName name = some user) :
    (addIP site "ADDUSER".toList name ips db).reply.refused = false := by
  have harg : ¬ ("ADDUSER".toList = "ADDIP".toList ∧ site.permitted "addip".toList name = false) :=
    fun h => absurd h.1 (by decide)
  rw [addIP, if_neg harg, hname]
  rfl

theorem delIP_unchanged (name : Str) (args : List Str)
    (h : (delIP site name args db).reply.refused = true) : (delIP site name args db).db = db := by
  revert h
  unfold delIP
  split
  · exact fun _ => rfl
  · split
    · exact fun _ => rfl
    · split
      · exact fun _ => rfl
      · exact fun h => (Bool.false_ne_true h).elim
      · split
        · exact fun h => (Bool.false_ne_true h).elim
        · exact fun h => (Bool.false_ne_true h).elim

theorem setPassword_unchanged (name password : Str)
    (h : (setPassword site name password db).reply.refused = true) :
    (setPassword site name password db).db = db := by
  revert h
  unfold setPassword
  split
  · exact fun _ => rfl
  · split
    · exact fun _ => rfl
    · exact fun h => (Bool.false_ne_true h).elim

theorem chPass_unchanged (name password : Str) (h : (chPass site name password db).reply.refused = true) :
    (chPass site name password db).db = db := by
  revert h
  rw [chPass_eq]
  split
  · exact fun _ => rfl
  · exact setPassword_unchanged name password

theorem delUser_unchanged (name : Str) (h : (delUser site name db).reply.refused = true) :
    (delUser site name db).db = db := by
  revert h
  unfold delUser
  split
  · exact fun _ => rfl
  · split
    · exact fun _ => rfl
    · split
      · exact fun _ => rfl
      · split
        · exact fun _ => rfl
        · split
          · exact fun _ => rfl
          · exact fun h => (Bool.false_ne_true h).elim

theorem readd_unchanged (name : Str) (h : (readd site name db).reply.refused = true) :
    (readd site name db).db = db := by
  revert h
  unfold readd
  split
  · exact fun _ => rfl
  · split
    · exact fun _ => rfl
    · split
      · exact fun _ => rfl
      · split
        · split
          · exact fun _ => rfl
          · split
            · exact fun _ => rfl
            · exact fun h => (Bool.false_ne_true h).elim
        · exact fun h => (Bool.false_ne_true h).elim

/-! ## New users -/

/-- Nothing behind the new record is refused. -/
theorem addUserWrites_granted {group : Option Group} {user : User} (ips : List Str)
    (huser : db.users.byId user.id = some user) :
    (addUserWrites site group user ips db).reply.refused = false := by
  have hadd : ∀ {db' : Database} {user' : User} (os : Str), db'.users.byId user'.id = some user' →
      user'.name = user.name →
      ((addIP site "ADDUSER".toList user.name ips db').reply.after os).refused = false := by
    intro db' user' os huser' hname
    rw [after_refused]
    exact addIP_granted ips (hname ▸ Table.byName_of_mem (Table.byId_mem huser'))
  unfold addUserWrites
  cases group with
  | none =>
    simp only
    split
    · rfl
    · exact hadd _ huser rfl
  | some g =>
    simp only
    split
    · rfl
    · let moved : User := (UserField.gids (user.setPrimaryGID g.id).primaryGid
        (user.setPrimaryGID g.id).secondaryGids (user.setPrimaryGID g.id).gadminGids).set user
      refine @hadd _ moved _ ?_ rfl
      rw [save_eq_putUser huser]
      exact putUser_byId huser rfl rfl

theorem addUserTo_unchanged (groupName : Str) (gadmin : Bool) (name password : Str) (ips : List Str)
    (h : (addUserTo site groupName gadmin name password ips db).reply.refused = true) :
    (addUserTo site groupName gadmin name password ips db).db = db := by
  revert h
  unfold addUserTo
  split
  · exact fun _ => rfl
  · split
    · exact fun _ => rfl
    · simp only
      split
      · exact fun _ => rfl
      · rename_i db' hcreate
        intro h
        rw [addUserWrites_granted ips (createUser_byId hcreate)] at h
        cases h

theorem addUser_unchanged (name password : Str) (ips : List Str)
    (h : (addUser site name password ips db).reply.refused = true) :
    (addUser site name password ips db).db = db := by
  revert h
  unfold addUser
  split
  · simp only
    split
    · exact fun _ => rfl
    · exact addUserTo_unchanged _ _ _ _ _
  · exact addUserTo_unchanged _ _ _ _ _

theorem gAddUser_unchanged (groupName : Str) (args : List Str)
    (h : (gAddUser site groupName args db).reply.refused = true) :
    (gAddUser site groupName args db).db = db := by
  revert h
  unfold gAddUser
  split
  · exact fun _ => rfl
  · split
    · exact addUserTo_unchanged _ _ _ _ _
    · exact fun _ => rfl

theorem addUserFrom_unchanged (templateUser : User) (name password : Str) (ips : List Str)
    (h : (addUserFrom site templateUser name password ips db).reply.refused = true) :
    (addUserFrom site templateUser name password ips db).db = db := by
  revert h
  unfold addUserFrom
  split
  · exact fun _ => rfl
  · split
    · exact fun _ => rfl
    · split
      · exact fun _ => rfl
      · split
        · exact fun _ => rfl
        · simp only
          split
          · exact fun _ => rfl
          · rename_i db' hcreate
            split
            · exact fun h => (Bool.false_ne_true h).elim
            · intro h
              have hgranted : (addIP site "ADDUSER".toList name ips db').reply.refused = false :=
                addIP_granted ips (Table.byName_of_mem (Table.byId_mem (createUser_byId hcreate)))
              rw [after_refused, hgranted] at h
              cases h

theorem userInfo_unchanged (args : List Str) (h : (userInfo site args db).reply.refused = true) :
    (userInfo site args db).db = db := by
  revert h
  unfold userInfo
  simp only
  split
  · exact fun _ => rfl
  · split
    · exact fun _ => rfl
    · split
      · exact fun _ => rfl
      · exact fun _ => rfl

/-! ## The other commands on users -/

theorem passwd_unchanged (c : Client) (password : Str) : Unchanged (passwd c password db) db := by
  unfold passwd
  split
  · exact unchanged_done (setPassword_unchanged _ _)
  · exact unchanged_same db

theorem tagline_unchanged (c : Client) (argStr : Str) : Unchanged (tagline c argStr db) db := by
  unfold tagline
  split
  · exact unchanged_same db
  · exact unchanged_okay _ _ _

theorem renUser_unchanged (c : Client) (name newName : Str) : Unchanged (renUser c name newName db) db := by
  unfold renUser
  split
  · exact unchanged_same db
  · split
    · exact unchanged_same db
    · split
      · exact unchanged_same db
      · split
        · exact unchanged_same db
        · split
          · exact unchanged_same db
          · exact unchanged_okay _ _ _

theorem purge_unchanged (name : Str) : Unchanged (purge name db) db := by
  unfold purge
  split
  · unfold purgeAll
    simp only
    split
    · exact unchanged_same db
    · exact unchanged_okay _ _ _
  · split
    · exact unchanged_same db
    · split
      · exact unchanged_same db
      · exact unchanged_okay _ _ _

theorem tAddUser_unchanged (c : Client) (templateName : Str) (args : List Str) :
    Unchanged (tAddUser c templateName args db) db := by
  unfold tAddUser
  split
  · exact unchanged_same db
  · split
    · exact unchanged_same db
    · split
      · exact unchanged_done (addUserFrom_unchanged _ _ _ _)
      · exact unchanged_same db

theorem setPGrp_unchanged (c : Client) (name groupName : Str) : Unchanged (setPGrp c name groupName db) db := by
  unfold setPGrp
  split
  · exact unchanged_same db
  · simp only
    split
    · exact unchanged_same db
    · split
      · exact unchanged_same db
      · split
        · exact unchanged_same db
        · exact unchanged_okay _ _ _

theorem chGrp_unchanged (c : Client) (name : Str) (args : List Str) : Unchanged (chGrp c name args db) db := by
  unfold chGrp
  split
  · exact unchanged_same db
  · simp only
    split
    · exact unchanged_same db
    · split
      · exact unchanged_same db
      · exact unchanged_okay _ _ _

theorem chGadmin_unchanged (c : Client) (name groupName : Str) :
    Unchanged (chGadmin c name groupName db) db := by
  unfold chGadmin
  simp only
  split
  · exact unchanged_same db
  · split
    · exact unchanged_same db
    · split
      · exact unchanged_same db
      · exact unchanged_okay _ _ _

theorem change_unchanged (c : Client) (argStr multiStr setting : Str) (values : List Str) :
    Unchanged (change c argStr multiStr setting values db) db := by
  unfold change
  split
  · exact unchanged_same db
  · simp only
    split
    · exact unchanged_same db
    · split
      · exact unchanged_same db
      · exact unchanged_okay _ _ _

/-! ## Groups -/

theorem grpAdd_unchanged (name : Str) (args : List Str) (argStr : Str) :
    Unchanged (grpAdd name args argStr db) db := by
  unfold grpAdd
  simp only
  split
  · exact unchanged_same db
  · split
    · exact unchanged_same db
    · split
      · exact unchanged_same db
      · split
        · exact unchanged_same db
        · exact unchanged_okay _ _ _

theorem grpDel_unchanged (name : Str) : Unchanged (grpDel name db) db := by
  unfold grpDel
  split
  · exact unchanged_same db
  · split
    · exact unchanged_same db
    · split
      · exact unchanged_same db
      · exact unchanged_okay _ _ _

theorem grpRen_unchanged (name newName : Str) : Unchanged (grpRen name newName db) db := by
  unfold grpRen
  split
  · exact unchanged_same db
  · split
    · exact unchanged_same db
    · split
      · exact unchanged_same db
      · split
        · exact unchanged_same db
        · exact unchanged_okay _ _ _

theorem grpChange_unchanged (c : Client) (argStr groupNames setting value : Str) (values : List Str) :
    Unchanged (grpChange c argStr groupNames setting value values db) db := by
  unfold grpChange
  split
  · exact unchanged_same db
  · split
    · exact unchanged_same db
    · exact unchanged_okay _ _ _

end Commands

/-! ## Every command -/

theorem dispatch_unchanged (c : Client) (line : Line) (db : Database) :
    Unchanged (dispatch c db line.argStr line.cmd line.args) db := by
  unfold dispatch
  split
  · exact unchanged_done (addUser_unchanged _ _ _)
  · exact unchanged_done (gAddUser_unchanged _ _)
  · exact tAddUser_unchanged c _ _
  · exact unchanged_done (addIP_unchanged _ _ _)
  · exact unchanged_done (delIP_unchanged _ _)
  · exact unchanged_done (chPass_unchanged _ _)
  · exact passwd_unchanged c _
  · exact tagline_unchanged c _
  · exact unchanged_done (delUser_unchanged _)
  · exact unchanged_done (readd_unchanged _)
  · exact purge_unchanged _
  · exact renUser_unchanged c _ _
  · exact change_unchanged c _ _ _ _
  · exact unchanged_done (userInfo_unchanged _)
  · exact unchanged_done (userInfo_unchanged _)
  · exact setPGrp_unchanged c _ _
  · exact chGrp_unchanged c _ _
  · exact chGadmin_unchanged c _ _
  · exact grpAdd_unchanged _ _ _
  · exact grpDel_unchanged _
  · exact grpRen_unchanged _ _
  · exact grpChange_unchanged c _ _ _ _ _
  · exact unchanged_same db

/-- Whatever the command, its arguments and the client: a refusal, or an exception on the way to a reply,
leaves the database as it was. -/
theorem refused_unchanged (c : Client) (line : Line) (db : Database)
    (h : refused (execute c line db).exit = true) : (execute c line db).db = db := by
  revert h
  unfold execute
  split
  · exact dispatch_unchanged c line db
  · exact fun _ => rfl

/-- The default user is not deleted. -/
theorem refused_unchanged_default :
    let line : Line := ⟨.DELUSER, "default".toList, ["default".toList]⟩
    (execute exampleClient line exampleDatabase).db = exampleDatabase :=
  refused_unchanged exampleClient ⟨.DELUSER, "default".toList, ["default".toList]⟩ exampleDatabase (by decide)

end Accounts
end Cmd
end Ebftpd
