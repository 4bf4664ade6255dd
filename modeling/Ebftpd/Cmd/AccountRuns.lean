import Ebftpd.Cmd.AccountSettings

/-!
# Ebftpd.Cmd.AccountRuns

What every run of the account commands keeps, whoever gives them.

* `UserEdit.gains`, `UserEdit.deleted`, `UserEdit.siteop`: what an edit can do to the flags.
* `Whole`: the groups that the users name are there. `whole_run`: they are after every run of commands
  whose caches answer no gid that is gone.
* `Required`: the accounts that the server needs. `required_run`: no run takes one of them away.
* `Checked`: every setting passes its own check. `checked_run`: it does after every run.
* `flag_run`: where a flag comes from; `siteops_run`: what is done to a siteop.
-/

namespace Ebftpd
namespace Cmd
namespace Accounts

open Util Lib Acl Db SiteUser

/-! ## Flags -/

/-- The flag of a character. -/
def flagOf (ch : Char) : Option Flag :=
  [Flag.Siteop, .Gadmin, .Template, .Exempt, .Color, .Deleted, .Useredit, .Anonymous, .Nuke, .Unnuke,
    .Undupe, .Kick, .Kill, .Take, .Give, .Users, .Idler, .Custom1, .Custom2, .Custom3, .Custom4,
    .Custom5].find? fun f => f.char == ch

theorem flagOf_char (f : Flag) : flagOf f.char = some f := by
  cases f <;> rfl

theorem char_inj {f g : Flag} (h : f.char = g.char) : f = g := by
  have hflag := flagOf_char f
  rw [h, flagOf_char g] at hflag
  exact (Option.some.inj hflag).symm

/-- A flag that is not named is there as often as before. -/
theorem count_addFlags (user : User) {flags : Str} {f : Flag} (hf : f.char ∉ flags) :
    (user.addFlags flags).flags.count f.char = user.flags.count f.char := by
  have hfold : ∀ fs : Str,
      (flags.foldl (fun fs ch => if fs.contains ch then fs else fs ++ [ch]) fs).count f.char =
        fs.count f.char := by
    induction flags with
    | nil => exact fun _ => rfl
    | cons ch rest ih =>
      rw [List.mem_cons, not_or] at hf
      intro fs
      rw [List.foldl_cons, ih hf.2]
      split
      · rfl
      · rw [List.count_append, List.count_singleton, if_neg (by simpa using Ne.symm hf.1), Nat.add_zero]
  show ((flags.foldl _ user.flags).insertionSort _).count f.char = _
  rw [(List.perm_insertionSort _ _).count_eq, hfold]

/-- The groups of a user are about one flag. -/
theorem hasFlag_onUser (user : User) (op : GroupOp) {f : Flag} (hf : f ≠ .Gadmin) :
    (op.onUser user).hasFlag f = user.hasFlag f := by
  have hchar : f.char ∉ [Flag.Gadmin.char] := fun h => hf (char_inj (List.mem_singleton.mp h))
  rcases lists_or_toggle op with hlists | ⟨gid, rfl⟩
  · rw [User.hasFlag, User.hasFlag, onUser_flags user hlists]
  · simp only [GroupOp.onUser, User.toggleGadminGID, User.delGadminGID, User.addGadminGID]
    split
    · split
      · rw [User.delFlag, User.hasFlag_delFlags_of_notMem _ hchar]
        rfl
      · rfl
    · split
      · rfl
      · rw [User.addFlag, Bool.eq_iff_iff, User.hasFlag_addFlags]
        exact or_iff_left hchar

/-- `CHANGE flags` takes no flag away without naming it, but through `=`. -/
theorem hasFlag_of_apply {user : User} {action : Change.Action} {flags : Str} {f : Flag}
    (h : (action.apply user flags).hasFlag f = true) :
    user.hasFlag f = true ∨ (action ≠ .del ∧ f.char ∈ flags) ∨ (f = .Template ∧ user.id = 1) := by
  have hkeep : ∀ u : User, u.id = user.id → (Change.keepTemplate u).hasFlag f = true →
      u.hasFlag f = true ∨ (f = .Template ∧ user.id = 1) := by
    intro u hid hu
    unfold Change.keepTemplate at hu
    split at hu
    · rename_i h1
      rw [User.addFlag, User.hasFlag_addFlags] at hu
      rcases hu with hu | hu
      · exact .inl hu
      · exact .inr ⟨char_inj (List.mem_singleton.mp hu), hid ▸ h1⟩
    · exact .inl hu
  cases action with
  | add =>
    rcases (User.hasFlag_addFlags user flags f).mp h with h | h
    · exact .inl h
    · exact .inr (.inl ⟨by simp, h⟩)
  | del =>
    rcases hkeep (user.delFlags flags) rfl h with h | h
    · have hcount := (User.hasFlag_delFlags user flags f).mp h
      exact .inl (hasFlag_count.mpr (by omega))
    · exact .inr (.inr h)
  | set =>
    rcases hkeep (user.setFlags flags) rfl h with h | h
    · exact .inr (.inl ⟨by simp, (User.hasFlag_setFlags user flags f).mp h⟩)
    · exact .inr (.inr h)

namespace UserEdit

variable {s : Scope} {user user' : User}

/-- A flag other than those of deletion and of group admins is given by `CHANGE`, and the default user's
template flag is given back. -/
theorem gains (h : UserEdit s user user') {f : Flag} (hdeleted : f ≠ .Deleted) (hgadmin : f ≠ .Gadmin)
    (hf : user'.hasFlag f = true) : user.hasFlag f = true ∨ s.grants f ∨ (f = .Template ∧ user.id = 1) := by
  cases h with
  | plain h => exact .inl (by rwa [User.hasFlag, h.flags] at hf)
  | rename name hvalid hname hmaster => exact .inl hf
  | delete h0 h1 hmaster =>
    rcases (User.hasFlag_addFlags user [Flag.Deleted.char] f).mp hf with hf | hf
    · exact .inl hf
    · exact absurd (char_inj (List.mem_singleton.mp hf)) hdeleted
  | readd =>
    have hcount := (User.hasFlag_delFlags user [Flag.Deleted.char] f).mp hf
    exact .inl (hasFlag_count.mpr (by omega))
  | flags action flags hallowed hgrants hmaster =>
    rcases hasFlag_of_apply hf with hf | ⟨hne, hmem⟩ | htemplate
    · exact .inl hf
    · exact .inr (.inl (hgrants hne f hmem))
    · exact .inr (.inr htemplate)
  | groups op hop hgids =>
    obtain ⟨rfl, -⟩ := step_inv hop
    rw [hasFlag_onUser user op hgadmin] at hf
    exact .inl hf

/-- A user is deleted by `DELUSER`, which keeps out the two required ones. -/
theorem deleted (h : UserEdit s user user') (hf : user'.hasFlag .Deleted = true) :
    user.hasFlag .Deleted = true ∨
      user.id ≠ 0 ∧ user.id ≠ 1 ∧ (user.hasFlag .Siteop = true → s.master) := by
  cases h with
  | plain h => exact .inl (by rwa [User.hasFlag, h.flags] at hf)
  | rename name hvalid hname hmaster => exact .inl hf
  | delete h0 h1 hmaster => exact .inr ⟨h0, h1, hmaster⟩
  | readd =>
    have hcount := (User.hasFlag_delFlags user [Flag.Deleted.char] .Deleted).mp hf
    exact .inl (hasFlag_count.mpr (by omega))
  | flags action flags hallowed hgrants hmaster =>
    rcases hasFlag_of_apply hf with hf | ⟨hne, hmem⟩ | ⟨htemplate, -⟩
    · exact .inl hf
    · exact absurd hmem hallowed.deleted
    · cases htemplate
  | groups op hop hgids =>
    obtain ⟨rfl, -⟩ := step_inv hop
    rw [hasFlag_onUser user op (by simp)] at hf
    exact .inl hf

/-- The default user stays the template. -/
theorem template (h : UserEdit s user user') (hid : user.id = 1) (hf : user.hasFlag .Template = true) :
    user'.hasFlag .Template = true := by
  cases h with
  | plain h => rwa [User.hasFlag, h.flags]
  | rename name hvalid hname hmaster => exact hf
  | delete h0 h1 hmaster => exact absurd hid h1
  | readd =>
    rw [User.delFlag, User.hasFlag_delFlags_of_notMem _ (by decide)]
    exact hf
  | flags action flags hallowed hgrants hmaster => exact Change.apply_template flags hid (.inr hf)
  | groups op hop hgids =>
    obtain ⟨rfl, -⟩ := step_inv hop
    rw [hasFlag_onUser user op (by simp)]
    exact hf

/-- Nobody but a master renames or deletes a siteop, or changes his flags. -/
theorem siteop (h : UserEdit s user user') (hsiteop : user.hasFlag .Siteop = true) (hmaster : ¬ s.master) :
    user'.name = user.name ∧ user'.hasFlag .Siteop = true ∧
      (user'.hasFlag .Deleted = true → user.hasFlag .Deleted = true) := by
  cases h with
  | plain h => exact ⟨h.name, by rwa [User.hasFlag, h.flags], fun hf => by rwa [User.hasFlag, h.flags] at hf⟩
  | rename name hvalid hname hif => exact absurd (hif hsiteop) hmaster
  | delete h0 h1 hif => exact absurd (hif hsiteop) hmaster
  | readd =>
    refine ⟨rfl, ?_, fun hf => ?_⟩
    · rw [User.delFlag, User.hasFlag_delFlags_of_notMem _ (by decide)]
      exact hsiteop
    · have hcount := (User.hasFlag_delFlags user [Flag.Deleted.char] .Deleted).mp hf
      exact hasFlag_count.mpr (by omega)
  | flags action flags hallowed hgrants hif => exact absurd (hif hsiteop) hmaster
  | groups op hop hgids =>
    obtain ⟨rfl, -⟩ := step_inv hop
    refine ⟨(onUser_rest user op).2.1, ?_, ?_⟩
    · rw [hasFlag_onUser user op (by simp)]
      exact hsiteop
    · rw [hasFlag_onUser user op (by simp)]
      exact fun hf => hf

end UserEdit

/-! ## Rows -/

/-- What holds of every user goes on to, if an edit and a copy of a template keep it. -/
theorem Edit.users_forall {s : Scope} {db db' : Database} (h : Edit s db db') {P : User → Prop}
    (hall : ∀ user ∈ db.users.rows, P user)
    (hedit : ∀ user ∈ db.users.rows, ∀ user', UserEdit s user user' → P user → P user')
    (hfrom : ∀ templateUser ∈ db.users.rows, IsTemplate templateUser → ∀ user,
      FromTemplate db templateUser user → user.name ∉ db.users.rows.map User.name → P templateUser → P user) :
    ∀ user ∈ db'.users.rows, P user := by
  cases h with
  | @user user user' _ huser hkind hwrite =>
    have hmem := Table.byId_mem huser
    exact Table.update_forall (writeUser_users hwrite).1 hall
      fun _ _ _ _ => hedit user hmem user' hkind (hall user hmem)
  | @createUser templateUser user _ htemplate his hcopy hcreate =>
    have hins := createUser_users hcreate
    exact Table.insert_forall hins hall
      (hfrom templateUser htemplate his user hcopy (Table.insert_eq_some hins).2.1 (hall _ htemplate))
  | purgeUser huser hdeleted => exact Table.remove_forall hall _
  | group hgroup hid hname hwithin hwrite =>
    rw [(writeGroup_groups hwrite).2]
    exact hall
  | createGroup name htemplate hvalid hcreate =>
    rw [(createGroup_groups hcreate).2]
    exact hall
  | renameGroup name hgroup hname hwrite =>
    rw [saveGroupName_groups hwrite |>.2]
    exact hall

/-- An edit of the users or of the groups keeps every gid there is. -/
theorem Edit.gids_mono {s : Scope} {db db' : Database} (h : Edit s db db') {gid : GroupID}
    (hgid : gid ∈ db.groups.rows.map Group.id) : gid ∈ db'.groups.rows.map Group.id := by
  cases h with
  | user huser hkind hwrite => exact (writeUser_users hwrite).2.symm ▸ hgid
  | createUser htemplate his hfrom hcreate =>
    rw [createUser_groups hcreate]
    exact hgid
  | purgeUser huser hdeleted => exact hgid
  | group hgroup hid hname hwithin hwrite => rwa [Table.update_ids (writeGroup_groups hwrite).1]
  | createGroup name htemplate hvalid hcreate =>
    rw [(Table.insert_eq_some (createGroup_groups hcreate).1).2.2, List.map_append]
    exact List.mem_append_left _ hgid
  | renameGroup name hgroup hname hwrite => rwa [Table.update_ids (saveGroupName_groups hwrite).1]

/-- A copy of a template has its groups and its settings, and no flag that it has not. -/
theorem FromTemplate.copied {db : Database} {templateUser user : User} (h : FromTemplate db templateUser user) :
    validUsername user.name = true ∧ user.groups = templateUser.groups ∧
      user.primaryGid = templateUser.primaryGid ∧ user.secondaryGids = templateUser.secondaryGids ∧
      user.gadminGids = templateUser.gadminGids ∧ user.flags = (templateUser.delFlag .Template).flags ∧
      SameSettings templateUser user := by
  obtain ⟨hashPassword, name, password, rawSalt, creator, hvalid, rfl⟩ := h
  exact ⟨hvalid, rfl, rfl, rfl, rfl, rfl, rfl, rfl, rfl, rfl, rfl, rfl⟩

theorem FromTemplate.hasFlag {db : Database} {templateUser user : User} (h : FromTemplate db templateUser user)
    {f : Flag} (hf : user.hasFlag f = true) : templateUser.hasFlag f = true := by
  obtain ⟨-, -, -, -, -, hflags, -⟩ := h.copied
  rw [User.hasFlag, hflags] at hf
  have hcount := (User.hasFlag_delFlags templateUser [Flag.Template.char] f).mp hf
  exact hasFlag_count.mpr (by omega)

/-! ## Groups that are there -/

theorem shape_of_same {user user' : User} (hshape : Shape user) (hprimary : user'.primaryGid = user.primaryGid)
    (hsecondary : user'.secondaryGids = user.secondaryGids) (hgadmin : user'.gadminGids = user.gadminGids)
    (hflag : user'.flags.count Flag.Gadmin.char ≤ user.flags.count Flag.Gadmin.char) : Shape user' where
  none := by
    rw [hprimary, hsecondary]
    exact hshape.none
  secondary := hsecondary ▸ hshape.secondary
  gadmin := by
    rw [hgadmin, User.groups, hprimary, hsecondary]
    exact hshape.gadmin
  flag := hflag.trans hshape.flag

theorem groups_of_same {user user' : User} (hprimary : user'.primaryGid = user.primaryGid)
    (hsecondary : user'.secondaryGids = user.secondaryGids) : user'.groups = user.groups := by
  rw [User.groups, hprimary, hsecondary, User.groups]

theorem count_apply_gadmin (user : User) (action : Change.Action) {flags : Str}
    (hgadmin : Flag.Gadmin.char ∉ flags) :
    (action.apply user flags).flags.count Flag.Gadmin.char ≤ user.flags.count Flag.Gadmin.char := by
  have hkeep : ∀ u : User, (Change.keepTemplate u).flags.count Flag.Gadmin.char =
      u.flags.count Flag.Gadmin.char := by
    intro u
    unfold Change.keepTemplate
    split
    · exact count_addFlags u (by decide)
    · rfl
  cases action with
  | add => exact (count_addFlags user hgadmin).le
  | del =>
    have hdel := User.count_delFlags user flags Flag.Gadmin.char
    rw [Change.Action.apply, hkeep]
    omega
  | set =>
    rw [Change.Action.apply, hkeep, User.setFlags, List.count_eq_zero_of_not_mem hgadmin]
    exact Nat.zero_le _

theorem mem_of_onGroups {op : GroupOp} {groups : List GroupID} {gid : GroupID}
    (h : gid ∈ op.onGroups groups) : gid ∈ groups ∨ gid ∈ op.gids := by
  cases op with
  | setPrimaryGID g =>
    rcases List.mem_cons.mp h with rfl | h
    · exact .inr (List.mem_singleton.mpr rfl)
    · exact .inl (List.mem_of_mem_erase h)
  | addGIDs gids => exact (mem_foldl_append gids groups).mp h
  | delGIDs gids => exact .inl (List.mem_of_mem_filter h)
  | setGIDs gids => exact .inr h
  | toggleGIDs gids =>
    exact (List.mem_append.mp h).imp (fun h => List.mem_of_mem_filter h) fun h => List.mem_of_mem_filter h
  | toggleGadminGID g => exact .inl h

/-- An edit puts a user into groups that the command can come by. -/
theorem UserEdit.groups_known {s : Scope} {user user' : User} (h : UserEdit s user user')
    (hknown : ¬ s.known (-1)) (hshape : Shape user) :
    Shape user' ∧ ∀ gid ∈ user'.groups, gid ∈ user.groups ∨ s.known gid := by
  cases h with
  | plain h =>
    refine ⟨shape_of_same hshape h.primaryGid h.secondaryGids h.gadminGids (by rw [h.flags]), ?_⟩
    rw [groups_of_same h.primaryGid h.secondaryGids]
    exact fun gid => .inl
  | rename name hvalid hname hmaster => exact ⟨shape_of_same hshape rfl rfl rfl le_rfl, fun gid => .inl⟩
  | delete h0 h1 hmaster =>
    exact ⟨shape_of_same hshape rfl rfl rfl (count_addFlags user (by decide)).le, fun gid => .inl⟩
  | readd =>
    refine ⟨shape_of_same hshape rfl rfl rfl ?_, fun gid => .inl⟩
    have hdel := User.count_delFlags user [Flag.Deleted.char] Flag.Gadmin.char
    rw [User.delFlag]
    omega
  | flags action flags hallowed hgrants hmaster =>
    have hcount := count_apply_gadmin user action hallowed.gadmin
    obtain ⟨flags', heq⟩ := apply_eq user action flags
    rw [heq] at hcount ⊢
    exact ⟨shape_of_same hshape rfl rfl rfl hcount, fun gid => .inl⟩
  | groups op hop hgids =>
    have hne : (-1 : GroupID) ∉ op.gids := fun hmem => hknown (hgids _ hmem)
    refine ⟨step_shape hshape hne hop, ?_⟩
    obtain ⟨rfl, -⟩ := step_inv hop
    rw [onUser_groups hshape hne]
    exact fun gid hgid => (mem_of_onGroups hgid).imp_right fun h => hgids gid h

/-- The groups of every user are groups there are. -/
structure Whole (db : Database) : Prop where
  shape : ∀ user ∈ db.users.rows, Shape user
  groups : ∀ user ∈ db.users.rows, ∀ gid ∈ user.groups, gid ∈ db.groups.rows.map Group.id

/-- The caches answer no gid that is gone. -/
def Finds (c : Client) (db : Database) : Prop :=
  ∀ name, c.site.groups.nameToGID name ≠ -1 →
    c.site.groups.nameToGID name ∈ db.groups.rows.map Group.id

theorem finds_of_agrees {c : Client} {db : Database}
    (h : ∀ name, c.site.groups.nameToGID name = GroupNoCache.nameToGID db.groups name) : Finds c db := by
  intro name hname
  rw [h name, GroupNoCache.nameToGID] at hname ⊢
  split at hname
  · rename_i group hgroup
    exact List.mem_map_of_mem (Table.byName_mem hgroup).1
  · exact absurd rfl hname

theorem edits_whole {s : Scope} {db db' : Database} (h : Edits s db db')
    (hknown : ∀ gid, s.known gid → gid ∈ db.groups.rows.map Group.id) (hdb : Whole db) : Whole db' := by
  have hinv : Whole db' ∧ ∀ gid, s.known gid → gid ∈ db'.groups.rows.map Group.id := by
    refine h.preserves (P := fun db => Whole db ∧ ∀ gid, s.known gid → gid ∈ db.groups.rows.map Group.id)
      ?_ ⟨hdb, hknown⟩
    rintro db1 db2 hedit ⟨hwhole, hstored⟩
    have hnone : ¬ s.known (-1) := fun h => absurd (db1.gids _ (hstored _ h)) (by decide)
    have hrows := hedit.users_forall
      (P := fun user => Shape user ∧ ∀ gid ∈ user.groups, gid ∈ db1.groups.rows.map Group.id)
      (fun user huser => ⟨hwhole.shape user huser, hwhole.groups user huser⟩) ?_ ?_
    · exact ⟨⟨fun user huser => (hrows user huser).1,
        fun user huser gid hgid => hedit.gids_mono ((hrows user huser).2 gid hgid)⟩,
        fun gid hgid => hedit.gids_mono (hstored gid hgid)⟩
    · rintro user - user' hkind ⟨hshape, hgroups⟩
      obtain ⟨hshape', hsub⟩ := hkind.groups_known hnone hshape
      exact ⟨hshape', fun gid hgid => (hsub gid hgid).elim (hgroups gid) (hstored gid)⟩
    · rintro templateUser - - user hfrom - ⟨hshape, hgroups⟩
      obtain ⟨-, hsame, hprimary, hsecondary, hgadmin, hflags, -⟩ := hfrom.copied
      refine ⟨shape_of_same hshape hprimary hsecondary hgadmin ?_, hsame ▸ hgroups⟩
      have hdel := User.count_delFlags templateUser [Flag.Template.char] Flag.Gadmin.char
      rw [hflags, User.delFlag]
      omega
  exact hinv.1

/-- A group without members is nobody's, also not as a group he is an admin of. -/
theorem purgeGroup_whole {db : Database} {gid : GroupID} (hmembers : numMembers db gid = 0)
    (hdb : Whole db) : Whole (db.purgeGroup gid) := by
  refine ⟨hdb.shape, fun user huser g hg => ?_⟩
  have hnot := List.countP_eq_zero.mp hmembers user huser
  rw [Bool.not_eq_true, Bool.or_eq_false_iff] at hnot
  have hne : g ≠ gid := by
    rintro rfl
    unfold User.groups at hg
    split at hg
    · rcases List.mem_cons.mp hg with rfl | hg
      · simp at hnot
      · exact absurd hg (by simpa using hnot.2)
    · exact absurd hg (by simpa using hnot.2)
  obtain ⟨group, hgroup, rfl⟩ := List.mem_map.mp (hdb.groups user huser g hg)
  exact List.mem_map.mpr ⟨group, Table.mem_remove.mpr ⟨hgroup, hne⟩, rfl⟩

theorem step_whole {db db' : Database} {i : Client × Line} (hdb : Whole db) (hfinds : Finds i.1 db)
    (h : step db i = some db') : Whole db' := by
  cases step_effect h with
  | edits h =>
    refine edits_whole h (fun gid hgid => ?_) hdb
    rcases hgid with hstored | ⟨hne, name, rfl⟩
    · exact hstored
    · exact hfinds name hne
  | purgeGroup hgroup hname h0 h1 hmembers => exact purgeGroup_whole hmembers hdb

/-- No run of commands leaves a user in a group that is not there, nor as the admin of one. -/
theorem whole_run (l : List (Client × Line)) {db db' : Database} (hdb : Whole db)
    (hmeets : Meets step (fun db i => Finds i.1 db) db l) (hrun : run step db l = some db') : Whole db' :=
  run_invariant_of_meets (fun _ _ _ => step_whole) l hdb hmeets hrun

/-! ## Required accounts -/

/-- The accounts that `CreateDefaults` sees to. -/
structure Required (db : Database) : Prop where
  master : ∃ user, db.users.byId 0 = some user ∧ user.hasFlag .Deleted = false
  template : ∃ user, db.users.byId 1 = some user ∧ user.name = "default".toList ∧
    user.hasFlag .Template = true ∧ user.hasFlag .Deleted = false
  masterGroup : ∃ group, db.groups.byId 0 = some group
  templateGroup : ∃ group, db.groups.byId 1 = some group ∧ group.name = "default".toList

/-- What becomes of the record of a uid. -/
theorem Edit.user_byId {s : Scope} {db db' : Database} (h : Edit s db db') {uid : UserID} {user : User}
    (huser : db.users.byId uid = some user) :
    db'.users.byId uid = some user ∨
      (∃ user', db'.users.byId uid = some user' ∧ UserEdit s user user') ∨
      user.hasFlag .Deleted = true := by
  have hid := Table.byId_id huser
  cases h with
  | @user edited user' _ hedited hkind hwrite =>
    have hupdate := (writeUser_users hwrite).1
    by_cases heq : uid = user'.id
    · have hsame : edited = user := by
        rw [heq, hkind.id, hedited] at huser
        exact Option.some.inj huser
      subst hsame
      rw [heq] at huser ⊢
      exact .inr (.inl ⟨user', Table.byId_update_self hupdate huser rfl, hkind⟩)
    · exact .inl ((Table.byId_update_ne hupdate heq).trans huser)
  | createUser htemplate his hfrom hcreate =>
    have hins := createUser_users hcreate
    refine .inl ?_
    rw [Table.byId_insert hins, if_neg fun heq => ?_]
    · exact huser
    · exact (Table.insert_eq_some hins).1 (heq ▸ hid ▸ List.mem_map_of_mem (Table.byId_mem huser))
  | @purgeUser purged hpurged hdeleted =>
    by_cases heq : uid = purged.id
    · rw [heq, hpurged] at huser
      exact .inr (.inr (Option.some.inj huser ▸ hdeleted))
    · exact .inl ((Table.byId_remove db.users purged.id uid).trans (if_neg heq) |>.trans huser)
  | group hgroup hid hname hwithin hwrite => exact .inl ((writeGroup_groups hwrite).2.symm ▸ huser)
  | createGroup name htemplate hvalid hcreate => exact .inl ((createGroup_groups hcreate).2.symm ▸ huser)
  | renameGroup name hgroup hname hwrite => exact .inl ((saveGroupName_groups hwrite).2.symm ▸ huser)

/-- A gid keeps its group, and the template its name. -/
theorem Edit.group_byId {s : Scope} {db db' : Database} (h : Edit s db db') {gid : GroupID} {group : Group}
    (hgroup : db.groups.byId gid = some group) :
    ∃ group', db'.groups.byId gid = some group' ∧
      (group.name = "default".toList → group'.name = "default".toList) := by
  have hid := Table.byId_id hgroup
  cases h with
  | user huser hkind hwrite => exact ⟨group, (writeUser_users hwrite).2.symm ▸ hgroup, id⟩
  | createUser htemplate his hfrom hcreate => exact ⟨group, (createUser_groups hcreate).symm ▸ hgroup, id⟩
  | purgeUser huser hdeleted => exact ⟨group, hgroup, id⟩
  | @group edited group' _ hedited hsame hname hwithin hwrite =>
    have hupdate := (writeGroup_groups hwrite).1
    by_cases heq : gid = group'.id
    · have hrow : edited = group := by
        rw [heq, hsame, hedited] at hgroup
        exact Option.some.inj hgroup
      subst hrow
      rw [heq] at hgroup ⊢
      exact ⟨group', Table.byId_update_self hupdate hgroup rfl, fun h => hname.trans h⟩
    · exact ⟨group, (Table.byId_update_ne hupdate heq).trans hgroup, id⟩
  | createGroup name htemplate hvalid hcreate =>
    have hins := (createGroup_groups hcreate).1
    refine ⟨group, ?_, id⟩
    rw [Table.byId_insert hins, if_neg fun heq => ?_]
    · exact hgroup
    · exact (Table.insert_eq_some hins).1 (heq ▸ hid ▸ List.mem_map_of_mem (Table.byId_mem hgroup))
  | @renameGroup renamed _ name hrenamed hname hwrite =>
    have hupdate := (saveGroupName_groups hwrite).1
    by_cases heq : gid = renamed.id
    · have hrow : renamed = group := by
        rw [heq, hrenamed] at hgroup
        exact Option.some.inj hgroup
      subst hrow
      refine ⟨{ renamed with name := name }, ?_, fun h => absurd h hname⟩
      rw [heq, Table.byId_update hupdate, hrenamed, Option.map_some, Table.changed, if_pos ⟨rfl, rfl⟩]
    · exact ⟨group, (Table.byId_update_ne hupdate heq).trans hgroup, id⟩

theorem edit_required {s : Scope} {db db' : Database} (h : Edit s db db') (hdb : Required db) :
    Required db' where
  master := by
    obtain ⟨user, huser, hdeleted⟩ := hdb.master
    rcases h.user_byId huser with hsame | ⟨user', hedited, hkind⟩ | hflag
    · exact ⟨user, hsame, hdeleted⟩
    · refine ⟨user', hedited, Bool.eq_false_iff.mpr fun hf => ?_⟩
      rcases hkind.deleted hf with hflag | ⟨h0, -, -⟩
      · rw [hflag] at hdeleted
        cases hdeleted
      · exact h0 (Table.byId_id huser)
    · rw [hflag] at hdeleted
      cases hdeleted
  template := by
    obtain ⟨user, huser, hname, htemplate, hdeleted⟩ := hdb.template
    have hid := Table.byId_id huser
    rcases h.user_byId huser with hsame | ⟨user', hedited, hkind⟩ | hflag
    · exact ⟨user, hsame, hname, htemplate, hdeleted⟩
    · refine ⟨user', hedited, ?_, hkind.template hid htemplate, Bool.eq_false_iff.mpr fun hf => ?_⟩
      · rcases hkind.name with hsame | ⟨-, hne⟩
        · exact hsame.trans hname
        · exact absurd hname hne
      · rcases hkind.deleted hf with hflag | ⟨-, h1, -⟩
        · rw [hflag] at hdeleted
          cases hdeleted
        · exact h1 hid
    · rw [hflag] at hdeleted
      cases hdeleted
  masterGroup := by
    obtain ⟨group, hgroup⟩ := hdb.masterGroup
    obtain ⟨group', hgroup', -⟩ := h.group_byId hgroup
    exact ⟨group', hgroup'⟩
  templateGroup := by
    obtain ⟨group, hgroup, hname⟩ := hdb.templateGroup
    obtain ⟨group', hgroup', hkeep⟩ := h.group_byId hgroup
    exact ⟨group', hgroup', hkeep hname⟩

theorem step_required {db db' : Database} {i : Client × Line} (hdb : Required db)
    (h : step db i = some db') : Required db' := by
  cases step_effect h with
  | edits h => exact h.preserves (fun _ _ => edit_required) hdb
  | @purgeGroup purged hgroup hname h0 h1 hmembers =>
    refine ⟨hdb.master, hdb.template, ?_, ?_⟩
    · obtain ⟨group, hmaster⟩ := hdb.masterGroup
      exact ⟨group, (Table.byId_remove db.groups purged.id 0).trans (if_neg (Ne.symm h0)) |>.trans hmaster⟩
    · obtain ⟨group, htemplate, hdefault⟩ := hdb.templateGroup
      exact ⟨group, (Table.byId_remove db.groups purged.id 1).trans (if_neg (Ne.symm h1)) |>.trans htemplate,
        hdefault⟩

/-- No run of commands takes away an account that the server needs, whatever the caches answer. -/
theorem required_run (l : List (Client × Line)) {db db' : Database} (hdb : Required db)
    (hrun : run step db l = some db') : Required db' :=
  run_invariant (fun _ _ _ => step_required) l hdb hrun

/-! ## Settings that pass their checks -/

/-- Every name and every bounded setting passes the check of the command that sets it. -/
structure Checked (db : Database) : Prop where
  names : ∀ user ∈ db.users.rows, validUsername user.name = true
  users : ∀ user ∈ db.users.rows, WithinUser user
  groups : ∀ group ∈ db.groups.rows, WithinGroup group

theorem edit_checked {s : Scope} {db db' : Database} (hstart : ∀ u ∈ s.start.users.rows, WithinUser u)
    (h : Edit s db db') (hdb : Checked db) : Checked db' where
  names := by
    refine h.users_forall hdb.names ?_ ?_
    · intro user _ user' hkind hvalid
      rcases hkind.name with hsame | ⟨hvalid', -⟩
      · exact hsame ▸ hvalid
      · exact hvalid'
    · exact fun templateUser _ _ user hfrom _ _ => hfrom.copied.1
  users := by
    refine h.users_forall hdb.users ?_ ?_
    · exact fun user _ user' hkind hwithin => hkind.within hstart hwithin
    · intro templateUser _ _ user hfrom _ hwithin
      obtain ⟨-, -, -, -, -, -, hsame⟩ := hfrom.copied
      exact hwithin.same hsame
  groups := by
    cases h with
    | user huser hkind hwrite =>
      rw [(writeUser_users hwrite).2]
      exact hdb.groups
    | createUser htemplate his hfrom hcreate =>
      rw [createUser_groups hcreate]
      exact hdb.groups
    | purgeUser huser hdeleted => exact hdb.groups
    | group hgroup hid hname hwithin hwrite =>
      exact Table.update_forall (writeGroup_groups hwrite).1 hdb.groups
        fun _ _ _ _ => hwithin (hdb.groups _ (Table.byId_mem hgroup))
    | createGroup name htemplate hvalid hcreate =>
      have h := hdb.groups _ htemplate
      exact Table.insert_forall (createGroup_groups hcreate).1 hdb.groups
        ⟨h.slots, h.leechSlots, h.allotmentSlots, h.maxAllotmentSize, h.maxLogins, h.description⟩
    | renameGroup name hgroup hname hwrite =>
      exact Table.update_forall (saveGroupName_groups hwrite).1 hdb.groups
        fun _ _ _ h =>
          ⟨h.slots, h.leechSlots, h.allotmentSlots, h.maxAllotmentSize, h.maxLogins, h.description⟩

theorem step_checked {db db' : Database} {i : Client × Line} (hdb : Checked db)
    (h : step db i = some db') : Checked db' := by
  cases step_effect h with
  | edits h => exact h.preserves (fun _ _ hedit => edit_checked hdb.users hedit) hdb
  | purgeGroup hgroup hname h0 h1 hmembers =>
    exact ⟨hdb.names, hdb.users, Table.remove_forall hdb.groups _⟩

/-! ## Where a flag comes from -/

/-- Where the record of a user comes from. -/
theorem Edit.user_from {s : Scope} {db db' : Database} (h : Edit s db db') :
    ∀ user' ∈ db'.users.rows, user' ∈ db.users.rows ∨
      (∃ user ∈ db.users.rows, UserEdit s user user') ∨
      ∃ templateUser ∈ db.users.rows, IsTemplate templateUser ∧ FromTemplate db templateUser user' := by
  refine h.users_forall (fun user huser => .inl huser) ?_ ?_
  · exact fun user huser user' hkind _ => .inr (.inl ⟨user, huser, hkind⟩)
  · exact fun templateUser hmem his user hfrom _ _ => .inr (.inr ⟨templateUser, hmem, his, hfrom⟩)

/-- The user with the name of the default user is the one with uid 1. -/
theorem Required.default_id {db : Database} (h : Required db) {user : User} (huser : user ∈ db.users.rows)
    (hname : user.name = "default".toList) : user.id = 1 := by
  obtain ⟨defaultUser, hdefault, hsame, -, -⟩ := h.template
  exact Table.byId_name_inj (Table.byId_of_mem huser) hdefault (hname.trans hsame.symm)

theorem Required.isTemplate {db : Database} (h : Required db) {user : User} (huser : user ∈ db.users.rows)
    (hid : user.id = 1) : IsTemplate user := by
  obtain ⟨defaultUser, hdefault, hsame, -, -⟩ := h.template
  have hrow := Table.byId_of_mem huser
  rw [hid, hdefault] at hrow
  cases hrow
  exact .inl hsame

/-- Only the users of `uids` have the flag, and no template has it. -/
structure Held (f : Flag) (uids : List UserID) (db : Database) : Prop where
  required : Required db
  holders : ∀ user ∈ db.users.rows, user.hasFlag f = true → user.id ∈ uids
  templates : ∀ user ∈ db.users.rows, IsTemplate user → user.hasFlag f = false

section Held

variable {f : Flag} (hdeleted : f ≠ .Deleted) (hgadmin : f ≠ .Gadmin) (htemplate : f ≠ .Template)
  {uids : List UserID}

include hdeleted hgadmin htemplate

theorem edit_held {s : Scope} {db db' : Database} (hf : ¬ s.grants f) (ht : ¬ s.grants .Template)
    (h : Edit s db db') (hdb : Held f uids db) : Held f uids db' := by
  have hrequired := edit_required h hdb.required
  have hgains : ∀ {user user' : User}, UserEdit s user user' → user'.hasFlag f = true →
      user.hasFlag f = true := by
    intro user user' hkind hflag
    rcases hkind.gains hdeleted hgadmin hflag with hold | hgrant | ⟨heq, -⟩
    · exact hold
    · exact absurd hgrant hf
    · exact absurd heq htemplate
  refine ⟨hrequired, fun user' huser' hflag => ?_, fun user' huser' his => ?_⟩
  · rcases h.user_from user' huser' with hold | ⟨user, huser, hkind⟩ | ⟨templateUser, hmem, his, hfrom⟩
    · exact hdb.holders user' hold hflag
    · rw [hkind.id]
      exact hdb.holders user huser (hgains hkind hflag)
    · have hnone := hdb.templates templateUser hmem his
      rw [hfrom.hasFlag hflag] at hnone
      cases hnone
  · rw [Bool.eq_false_iff]
    intro hflag
    rcases h.user_from user' huser' with hold | ⟨user, huser, hkind⟩ | ⟨templateUser, hmem, his, hfrom⟩
    · rw [hdb.templates user' hold his] at hflag
      cases hflag
    · have hwas : IsTemplate user := by
        rcases his with hname | htmpl
        · exact hdb.required.isTemplate huser (hkind.id ▸ hrequired.default_id huser' hname)
        · rcases hkind.gains (by simp) (by simp) htmpl with hold | hgrant | ⟨-, hid⟩
          · exact .inr hold
          · exact absurd hgrant ht
          · exact hdb.required.isTemplate huser hid
      have hnone := hdb.templates user huser hwas
      rw [hgains hkind hflag] at hnone
      cases hnone
    · have hnone := hdb.templates templateUser hmem his
      rw [hfrom.hasFlag hflag] at hnone
      cases hnone

theorem step_held {db db' : Database} {i : Client × Line} (hdb : Held f uids db)
    (hi : f.char ∉ i.2.given ∧ Flag.Template.char ∉ i.2.given) (h : step db i = some db') :
    Held f uids db' := by
  have hrequired := step_required hdb.required h
  cases step_effect h with
  | edits h => exact h.preserves (fun _ _ => edit_held hdeleted hgadmin htemplate hi.1 hi.2) hdb
  | purgeGroup hgroup hname h0 h1 hmembers => exact ⟨hrequired, hdb.holders, hdb.templates⟩

/-- A flag that no template has and no line gives, nor makes its holder a template: whoever has it at
the end of a run had it at the start. -/
theorem flag_run (l : List (Client × Line)) {db db' : Database} (hdb : Required db)
    (hnone : ∀ user ∈ db.users.rows, IsTemplate user → user.hasFlag f = false)
    (hl : ∀ i ∈ l, f.char ∉ i.2.given ∧ Flag.Template.char ∉ i.2.given)
    (hrun : run step db l = some db') :
    ∀ user ∈ db'.users.rows, user.hasFlag f = true →
      ∃ before ∈ db.users.rows, before.id = user.id ∧ before.hasFlag f = true := by
  have hstart : Held f ((db.users.rows.filter (User.hasFlag · f)).map User.id) db :=
    ⟨hdb, fun user huser hflag => List.mem_map_of_mem (List.mem_filter.mpr ⟨huser, hflag⟩), hnone⟩
  have hend := run_invariant_of_forall
    (fun _ _ _ hdb hi h => step_held hdeleted hgadmin htemplate hdb hi h) l hstart hl hrun
  intro user huser hflag
  obtain ⟨before, hbefore, hid⟩ := List.mem_map.mp (hend.holders user huser hflag)
  rw [List.mem_filter] at hbefore
  exact ⟨before, hbefore.1, hid, hbefore.2⟩

end Held

/-! ## Siteops -/

/-- The user is a siteop under his name, and not deleted. -/
def StaysSiteop (uid : UserID) (name : Str) (db : Database) : Prop :=
  ∃ user, db.users.byId uid = some user ∧ user.name = name ∧ user.hasFlag .Siteop = true ∧
    user.hasFlag .Deleted = false

theorem edit_siteop {s : Scope} {db db' : Database} (hmaster : ¬ s.master) (h : Edit s db db')
    {uid : UserID} {name : Str} (hdb : StaysSiteop uid name db) : StaysSiteop uid name db' := by
  obtain ⟨user, huser, hname, hsiteop, hdeleted⟩ := hdb
  rcases h.user_byId huser with hsame | ⟨user', hedited, hkind⟩ | hflag
  · exact ⟨user, hsame, hname, hsiteop, hdeleted⟩
  · obtain ⟨hname', hsiteop', hdel⟩ := hkind.siteop hsiteop hmaster
    refine ⟨user', hedited, hname'.trans hname, hsiteop', Bool.eq_false_iff.mpr fun hf => ?_⟩
    rw [hdel hf] at hdeleted
    cases hdeleted
  · rw [hflag] at hdeleted
    cases hdeleted

theorem step_siteop {db db' : Database} {i : Client × Line} {uid : UserID} {name : Str}
    (hdb : StaysSiteop uid name db) (hi : i.1.isMaster = false) (h : step db i = some db') :
    StaysSiteop uid name db' := by
  have hmaster : ¬ (scope i.1 i.2 db).master := by
    intro hmaster
    have htrue : i.1.isMaster = true := hmaster
    rw [hi] at htrue
    cases htrue
  cases step_effect h with
  | edits h => exact h.preserves (fun _ _ hedit => edit_siteop hmaster hedit) hdb
  | purgeGroup hgroup hname h0 h1 hmembers => exact hdb

/-- What clients who are no masters do, in any order: a siteop stays one, under his name and not
deleted. -/
theorem siteops_run (l : List (Client × Line)) {db db' : Database} {user : User}
    (huser : user ∈ db.users.rows) (hsiteop : user.hasFlag .Siteop = true)
    (hdeleted : user.hasFlag .Deleted = false) (hl : ∀ i ∈ l, i.1.isMaster = false)
    (hrun : run step db l = some db') :
    ∃ user' ∈ db'.users.rows, user'.id = user.id ∧ user'.name = user.name ∧
      user'.hasFlag .Siteop = true ∧ user'.hasFlag .Deleted = false := by
  have hstart : StaysSiteop user.id user.name db :=
    ⟨user, Table.byId_of_mem huser, rfl, hsiteop, hdeleted⟩
  obtain ⟨user', huser', hname, hflag, hdel⟩ :=
    run_invariant_of_forall (fun _ _ _ hdb hi h => step_siteop hdb hi h) l hstart hl hrun
  exact ⟨user', Table.byId_mem huser', Table.byId_id huser', hname, hflag, hdel⟩

/-! ## One user -/

def exampleDatabase : Database where
  users :=
    { rows :=
        [{ id := 0, name := "ebftpd".toList, flags := "1".toList, primaryGid := 0 },
          { id := 1, name := "default".toList, flags := "3".toList },
          { id := 2, name := "bob".toList }]
      ids := by decide
      names := by decide }
  groups :=
    { rows :=
        [{ id := 0, name := "ebftpd".toList }, { id := 1, name := "default".toList },
          { id := 2, name := "staff".toList }]
      ids := by decide
      names := by decide }
  uids := by decide
  gids := by decide

/-- A client who may do everything and is no master. -/
def exampleClient : Client where
  site :=
    { cfg :=
        { sitepath := "/site".toList
          sections := []
          commandACLs :=
            ["deluser", "purge", "change", "changeflags", "chgrp", "chgadmin", "grpdel", "renuser"].map
              fun keyword => (keyword.toList, ACL.fromString "*".toList)
          tlsControl := ACL.fromString "!*".toList
          maxOnline := ⟨10, 0⟩
          wildcardMatch := fun _ _ => false }
      user := { id := 7, name := "alice".toList }
      users := UserCache.populate exampleDatabase.users
      groups := GroupCache.populate exampleDatabase.groups
      bannedUsers := []
      totalUsers := -1
      maximumRatio := 10
      masters := []
      securePass := fun _ => none
      secureIP := fun _ => none
      ipMatch := fun mask text => mask == text
      hashPassword := fun password salt => password ++ salt
      rawSalt := "salt".toList
      kicked := fun _ => 0
      templateError := none
      otherSetting := fun _ _ => .error [] }
  pathFromUser := .ok
  fromSimpleString := fun _ => none

def exampleLine (cmd : Command) (args : List String) : Client × Line :=
  (exampleClient, ⟨cmd, (" ".intercalate args).toList, args.map String.toList⟩)

theorem example_finds : Finds exampleClient exampleDatabase :=
  finds_of_agrees (nameToGID_agree (groupFollows_populate exampleDatabase.groups)
    (Caches.populated_sound exampleDatabase).groups)

theorem Finds.congr {c : Client} {db db' : Database} (h : Finds c db)
    (hgids : db'.groups.rows.map Group.id = db.groups.rows.map Group.id) : Finds c db' :=
  fun name hname => hgids ▸ h name hname

theorem example_whole : Whole exampleDatabase where
  shape := by
    simp only [exampleDatabase, List.forall_mem_cons, List.not_mem_nil, IsEmpty.forall_iff, implies_true,
      and_true]
    exact ⟨⟨by decide, by decide, by decide, by decide⟩, ⟨by decide, by decide, by decide, by decide⟩,
      ⟨by decide, by decide, by decide, by decide⟩⟩
  groups := by decide

theorem example_required : Required exampleDatabase where
  master := ⟨_, rfl, by decide⟩
  template := ⟨_, rfl, by decide, by decide, by decide⟩
  masterGroup := ⟨_, rfl⟩
  templateGroup := ⟨_, rfl, by decide⟩

/-- Bob becomes a member and an admin of the group, which cannot be deleted then. -/
theorem whole_run_bob :
    let l := [exampleLine .CHGRP ["bob", "+", "staff"], exampleLine .CHGADMIN ["bob", "staff"],
      exampleLine .GRPDEL ["staff"]]
    ∃ db', run step exampleDatabase l = some db' ∧ Whole db' ∧
      (db'.users.byId 2).map User.gadminGids = some [2] ∧ (db'.groups.byId 2).isSome = true := by
  intro l
  refine ⟨_, rfl, whole_run l example_whole ?_ rfl, by decide, by decide⟩
  refine ⟨example_finds, fun db1 h1 => ?_⟩
  cases h1
  refine ⟨example_finds.congr (by decide), fun db2 h2 => ?_⟩
  cases h2
  exact ⟨example_finds.congr (by decide), fun _ _ => trivial⟩

/-- Bob gets every custom flag, and is no siteop for that. -/
theorem flag_run_bob :
    let l := [exampleLine .CHANGE ["bob", "flags", "+JKLMN"], exampleLine .CHANGE ["default", "flags", "=J"]]
    ∃ db', run step exampleDatabase l = some db' ∧
      (db'.users.byId 2).map User.flags = some "JKLMN".toList ∧
      ∀ user ∈ db'.users.rows, user.hasFlag .Siteop = true →
        ∃ before ∈ exampleDatabase.users.rows, before.id = user.id ∧ before.hasFlag .Siteop = true := by
  intro l
  refine ⟨_, rfl, by decide, ?_⟩
  exact flag_run (by decide) (by decide) (by decide) l example_required
    (by simp only [IsTemplate]; decide) (by decide) rfl

/-- The client is no master, and what he tries on the siteop fails. -/
theorem siteops_run_ebftpd :
    let l := [exampleLine .DELUSER ["ebftpd"], exampleLine .RENUSER ["ebftpd", "mallory"],
      exampleLine .CHANGE ["ebftpd", "flags", "-1"], exampleLine .PURGE ["*"]]
    ∃ db', run step exampleDatabase l = some db' ∧
      ∃ user' ∈ db'.users.rows, user'.id = 0 ∧ user'.name = "ebftpd".toList ∧
        user'.hasFlag .Siteop = true ∧ user'.hasFlag .Deleted = false := by
  intro l
  have hmaster : exampleDatabase.users.byId 0 =
      some { id := 0, name := "ebftpd".toList, flags := "1".toList, primaryGid := 0 } := by decide
  exact ⟨_, rfl, siteops_run l (Table.byId_mem hmaster) (by decide) (by decide) (by decide) rfl⟩

end Accounts
end Cmd
end Ebftpd
