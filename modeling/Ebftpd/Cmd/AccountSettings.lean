import Ebftpd.Cmd.AccountEdits

/-!
# Ebftpd.Cmd.AccountSettings

The settings of `CHANGE` and `GRPCHANGE` as edits, and with them every command of `Accounts`.

* `checks_edited`: what each setting of `CHANGE` makes of a record.
* `checkGroup_kept`: what each setting of `GRPCHANGE` does.
* `execute_effect`: every command, with every argument, is `Edits`, or it purges a group.
-/

namespace Ebftpd
namespace Cmd
namespace Accounts

open Util Lib Acl Db SiteUser

/-! ## Settings of users -/

/-- What a setting of `CHANGE` makes of a record is an edit of it. -/
def Edited (s : Scope) (set : Database → User → Except Str User) : Prop :=
  ∀ db user user', set db user = .ok user' → UserEdit s user user'

section Settings

open ChangeText (Exit Request Setting TextSetting)

variable {s : Scope} {r : Request} {setting : Setting}

theorem mem_assign {m : List (Str × Int)} {key : Str} {value : Int} {kv : Str × Int}
    (h : kv ∈ User.assign m key value) : kv ∈ m ∨ kv = (key, value) := by
  unfold User.assign at h
  split at h
  · obtain ⟨kv', hmem, rfl⟩ := List.mem_map.mp h
    split
    · exact .inr rfl
    · exact .inl hmem
  · exact (List.mem_append.mp h).imp id List.mem_singleton.mp

theorem keys_assign {m : List (Str × Int)} (key : Str) (value : Int) {k : Str}
    (h : k ∈ m.map Prod.fst) : k ∈ (User.assign m key value).map Prod.fst := by
  obtain ⟨kv, hmem, rfl⟩ := List.mem_map.mp h
  unfold User.assign
  split
  · by_cases hkey : kv.1 = key
    · refine List.mem_map.mpr ⟨(key, value), List.mem_map.mpr ⟨kv, hmem, ?_⟩, hkey.symm⟩
      rw [if_pos (beq_iff_eq.mpr hkey)]
    · refine List.mem_map.mpr ⟨kv, List.mem_map.mpr ⟨kv, hmem, ?_⟩, rfl⟩
      rw [if_neg fun h => hkey (beq_iff_eq.mp h)]
  · exact List.mem_map.mpr ⟨kv, List.mem_append_left _ hmem, rfl⟩

theorem within_ratio {user : User} (h : WithinUser user) (sec : Str) {ratio : Int} (hratio : 0 ≤ ratio) :
    WithinUser (user.setSectionRatio sec ratio) where
  default := keys_assign sec ratio h.default
  ratio := by
    intro kv hkv
    rcases mem_assign hkv with hmem | rfl
    · exact h.ratio kv hmem
    · exact hratio
  idleTime := h.idleTime
  numLogins := h.numLogins
  maxSimDown := h.maxSimDown
  maxSimUp := h.maxSimUp
  tagline := h.tagline

/-- The ratio of a template that is within the bounds is one. -/
theorem defaultRatio_nonneg {user : User} (h : WithinUser user) : 0 ≤ user.defaultRatio := by
  unfold User.defaultRatio User.sectionRatio
  cases hlookup : user.ratio.lookup [] with
  | none =>
    obtain ⟨kv, hmem, hkey⟩ := List.mem_map.mp h.default
    have hnone := List.lookup_eq_none_iff.mp hlookup kv hmem
    rw [hkey] at hnone
    simp at hnone
  | some value =>
    obtain ⟨l1, l2, heq, -⟩ := List.lookup_eq_some_iff.mp hlookup
    exact h.ratio ([], value) (by rw [heq]; simp)

theorem setRatio_ok {site : Site} {gadmin : Bool} {ratio : Int} {db : Database} {user : User}
    {field : UserField} (h : setRatio site gadmin ratio db user = .ok field) :
    field.set user = user.setSectionRatio [] ratio := by
  simp only [setRatio] at h
  split at h
  · split at h
    · cases h
    · split at h
      · cases h
      · cases h
        rfl
  · cases h
    rfl

theorem setWeeklyAllotment_ok {site : Site} {gadmin : Bool} {sec : Str} {allotment : Int} {db : Database}
    {user : User} {field : UserField} (h : setWeeklyAllotment site gadmin sec allotment db user = .ok field) :
    field.set user = user.setSectionWeeklyAllotment sec allotment := by
  simp only [setWeeklyAllotment] at h
  split at h
  · split at h
    · cases h
    · split at h
      · cases h
      · split at h
        · cases h
        · cases h
          rfl
  · cases h
    rfl

/-- A check goes on with an argument there is. -/
theorem arg_bind {α : Type} {i : Nat} {f : Str → Except Exit α} {a : α} (h : (r.arg i >>= f) = .ok a) :
    ∃ arg, r.args[i]? = some arg ∧ f arg = .ok a := by
  unfold Request.arg at h
  cases harg : r.args[i]? with
  | none =>
    rw [harg] at h
    cases h
  | some arg =>
    rw [harg] at h
    exact ⟨arg, rfl, h⟩

theorem edited_always (display : Str) {set : User → User} (h : ∀ user, UserEdit s user (set user)) :
    Edited s (Setting.always display set).set := by
  intro db user user' hset
  cases hset
  exact h user

/-- A setting that is neither the name, nor a group, nor a flag. -/
theorem plain_within {user user' : User} (hid : user'.id = user.id) (hname : user'.name = user.name)
    (hprimary : user'.primaryGid = user.primaryGid) (hsecondary : user'.secondaryGids = user.secondaryGids)
    (hgadmin : user'.gadminGids = user.gadminGids) (hflags : user'.flags = user.flags)
    (hwithin : WithinUser user → WithinUser user') : UserEdit s user user' :=
  .plain ⟨hid, hname, hprimary, hsecondary, hgadmin, hflags, fun _ => hwithin⟩

theorem checkRatio_edited (hdb : r.db = s.start) (h : ChangeText.checkRatio r = .ok setting) :
    Edited s setting.set := by
  obtain ⟨value, -, h⟩ := arg_bind h
  cases hcheck : SiteUser.checkRatio r.site value r.db with
  | error reply =>
    rw [hcheck] at h
    cases h
  | ok c =>
    rw [hcheck] at h
    cases h
    have hset : ∃ ratio, c.set = setRatio r.site (r.site.gadmin "change".toList) ratio ∧
        ((∀ u ∈ s.start.users.rows, WithinUser u) → 0 ≤ ratio) := by
      simp only [SiteUser.checkRatio] at hcheck
      split at hcheck
      · cases hcheck
      · split at hcheck
        · cases hcheck
        · split at hcheck
          · cases hcheck
          · split at hcheck
            · split at hcheck
              · cases hcheck
              · rename_i user hdefault
                cases hcheck
                refine ⟨_, rfl, fun hstart => defaultRatio_nonneg (hstart user ?_)⟩
                rw [← hdb]
                exact (Table.byName_mem hdefault).1
            · split at hcheck
              · cases hcheck
              · cases hcheck
                exact ⟨_, rfl, fun _ => by omega⟩
    obtain ⟨ratio, hratio, hnonneg⟩ := hset
    intro db user user' huser
    simp only [hratio] at huser
    cases hfield : setRatio r.site (r.site.gadmin "change".toList) ratio db user with
    | error text =>
      rw [hfield] at huser
      cases huser
    | ok field =>
      rw [hfield] at huser
      cases huser
      show UserEdit s user (field.set user)
      rw [setRatio_ok hfield]
      exact .plain ⟨rfl, rfl, rfl, rfl, rfl, rfl, fun hstart h => within_ratio h [] (hnonneg hstart)⟩

theorem checkSectionRatio_edited (h : ChangeText.checkSectionRatio r = .ok setting) :
    Edited s setting.set := by
  simp only [ChangeText.checkSectionRatio] at h
  split at h
  · cases h
  · obtain ⟨arg, -, h⟩ := arg_bind h
    split at h
    · cases h
    · obtain ⟨value, -, h⟩ := arg_bind h
      split at h
      · cases h
      · split at h
        · cases h
        · split at h
          · cases h
          · cases h
            exact edited_always _ fun user => plain_within rfl rfl rfl rfl rfl rfl
              fun h => within_ratio h _ (by omega)

theorem checkWeeklyAllotment_edited (h : ChangeText.checkWeeklyAllotment r = .ok setting) :
    Edited s setting.set := by
  obtain ⟨value, -, h⟩ := arg_bind h
  cases hcheck : SiteUser.checkWeeklyAllotment r.site value (r.args.drop 4) with
  | error reply =>
    rw [hcheck] at h
    cases h
  | ok c =>
    rw [hcheck] at h
    cases h
    have hset : ∃ sec allotment,
        c.set = setWeeklyAllotment r.site (r.site.gadmin "change".toList) sec allotment := by
      simp only [SiteUser.checkWeeklyAllotment] at hcheck
      split at hcheck
      · cases hcheck
      · split at hcheck
        · cases hcheck
        · cases hcheck
          exact ⟨_, _, rfl⟩
    obtain ⟨sec, allotment, heq⟩ := hset
    intro db user user' huser
    simp only [heq] at huser
    cases hfield : setWeeklyAllotment r.site (r.site.gadmin "change".toList) sec allotment db user with
    | error text =>
      rw [hfield] at huser
      cases huser
    | ok field =>
      rw [hfield] at huser
      cases huser
      show UserEdit s user (field.set user)
      rw [setWeeklyAllotment_ok hfield]
      exact plain_within rfl rfl rfl rfl rfl rfl fun h => h.same ⟨rfl, rfl, rfl, rfl, rfl, rfl⟩

theorem textCheck_edited (t : TextSetting) (h : t.check r = .ok setting) : Edited s setting.set := by
  simp only [TextSetting.check] at h
  cases htext : r.cut with
  | error exit =>
    rw [htext] at h
    cases h
  | ok text =>
    rw [htext] at h
    have h : t.onText r text = .ok setting := h
    have hpath : ∀ set : Str → User → User, (∀ path user, UserEdit s user (set path user)) →
        ChangeText.onPath r set text = .ok setting → Edited s setting.set := by
      intro set hset hon
      unfold ChangeText.onPath at hon
      split at hon
      · cases hon
        exact edited_always _ (hset _)
      · cases hon
    cases t with
    | homedir =>
      exact hpath (fun path user => { user with homeDir := path })
        (fun path user => plain_within rfl rfl rfl rfl rfl rfl
          fun h => h.same ⟨rfl, rfl, rfl, rfl, rfl, rfl⟩) h
    | startupdir =>
      exact hpath (fun path user => { user with startUpDir := path })
        (fun path user => plain_within rfl rfl rfl rfl rfl rfl
        fun h => h.same ⟨rfl, rfl, rfl, rfl, rfl, rfl⟩) h
    | tagline =>
      change (if !ChangeText.validTagline text then _ else _) = _ at h
      split at h
      · cases h
      · rename_i hvalid
        rw [Bool.not_eq_true', Bool.not_eq_false] at hvalid
        cases h
        exact edited_always _ fun user => plain_within rfl rfl rfl rfl rfl rfl fun h =>
          ⟨h.default, h.ratio, h.idleTime, h.numLogins, h.maxSimDown, h.maxSimUp, .inr hvalid⟩
    | comment =>
      cases h
      exact edited_always _ fun user => plain_within rfl rfl rfl rfl rfl rfl
        fun h => h.same ⟨rfl, rfl, rfl, rfl, rfl, rfl⟩

/-- The flags that the argument of `CHANGE flags` would give. -/
def givenFlags (value : Str) : Str :=
  match Change.checkFlags value with
  | .ok (.del, _) => []
  | .ok (_, flags) => flags
  | .error _ => []

theorem checkFlags_edited (hmaster : r.isMaster = true → s.master)
    (hgrants : ∀ value, r.args[3]? = some value → ∀ f : Flag, f.char ∈ givenFlags value → s.grants f)
    (h : ChangeText.checkFlags r = .ok setting) : Edited s setting.set := by
  obtain ⟨value, hvalue, h⟩ := arg_bind h
  have hgiven := hgrants value hvalue
  unfold givenFlags at hgiven
  split at h
  · cases h
  · cases h
  · cases h
  · rename_i action flags hcheck
    cases h
    intro db user user' huser
    obtain ⟨ch, rest, -, -, -, hallowed⟩ := (Change.checkFlags_ok_iff value action flags).mp hcheck
    have happly : user' = action.apply user flags ∧ (user.hasFlag .Siteop = true → r.isMaster = true) := by
      simp only [Change.setFlags] at huser
      split at huser
      · rename_i user1 hif
        split at hif
        · cases hif
        · rename_i hsiteop
          cases hif
          cases huser
          exact ⟨rfl, fun h => by simpa [h] using hsiteop⟩
      · cases huser
    rw [happly.1]
    refine .flags action flags hallowed (fun hne f hf => hgiven f ?_) fun h => hmaster (happly.2 h)
    rw [hcheck]
    cases action with
    | add => exact hf
    | del => exact absurd rfl hne
    | set => exact hf

theorem checkNumber_edited {display : Int → Str} {set : Int → User → User}
    (h : ChangeText.checkNumber display set r = .ok setting)
    (hset : ∀ n, -1 ≤ n → ∀ user, UserEdit s user (set n user)) : Edited s setting.set := by
  obtain ⟨value, -, h⟩ := arg_bind h
  split at h
  · cases h
  · split at h
    · cases h
    · rename_i n hn hlow
      cases h
      exact edited_always _ (hset n (by omega))

theorem checkSpeed_edited {set : Int → User → User} (h : ChangeText.checkSpeed set r = .ok setting)
    (hset : ∀ n user, UserEdit s user (set n user)) : Edited s setting.set := by
  obtain ⟨value, -, h⟩ := arg_bind h
  split at h
  · cases h
  · cases h
    exact edited_always _ (hset _)

theorem checkExpires_edited (h : ChangeText.checkExpires r = .ok setting) : Edited s setting.set := by
  obtain ⟨value, -, h⟩ := arg_bind h
  have hplain : ∀ (expires : Option Int) (user : User), UserEdit s user { user with expires := expires } :=
    fun expires user => plain_within rfl rfl rfl rfl rfl rfl fun h => h.same ⟨rfl, rfl, rfl, rfl, rfl, rfl⟩
  simp only at h
  split at h
  · cases h
    exact edited_always _ (hplain none)
  · split at h
    · cases h
    · cases h
      exact edited_always _ (hplain _)

/-- Every function of the table of settings. -/
theorem checks_edited {entry : Str × ChangeText.Check} (hentry : entry ∈ ChangeText.checks)
    (hdb : r.db = s.start) (hmaster : r.isMaster = true → s.master)
    (hgrants : entry.1 = "flags".toList → ∀ value, r.args[3]? = some value → ∀ f : Flag,
      f.char ∈ givenFlags value → s.grants f)
    (h : entry.2 r = .ok setting) : Edited s setting.set := by
  simp only [ChangeText.checks, List.mem_cons, List.not_mem_nil, or_false] at hentry
  rcases hentry with rfl | rfl | rfl | rfl | rfl | rfl | rfl | rfl | rfl | rfl | rfl | rfl | rfl | rfl | rfl
  · exact checkRatio_edited hdb h
  · exact checkSectionRatio_edited h
  · exact checkWeeklyAllotment_edited h
  · exact textCheck_edited .homedir h
  · exact textCheck_edited .startupdir h
  · exact checkFlags_edited hmaster (hgrants rfl) h
  · exact checkNumber_edited h fun n hn user => plain_within rfl rfl rfl rfl rfl rfl fun h =>
      ⟨h.default, h.ratio, hn, h.numLogins, h.maxSimDown, h.maxSimUp, h.tagline⟩
  · exact checkExpires_edited h
  · exact checkNumber_edited h fun n hn user => plain_within rfl rfl rfl rfl rfl rfl fun h =>
      ⟨h.default, h.ratio, h.idleTime, hn, h.maxSimDown, h.maxSimUp, h.tagline⟩
  · exact textCheck_edited .tagline h
  · exact textCheck_edited .comment h
  · exact checkSpeed_edited h fun n user => plain_within rfl rfl rfl rfl rfl rfl
      fun h => h.same ⟨rfl, rfl, rfl, rfl, rfl, rfl⟩
  · exact checkSpeed_edited h fun n user => plain_within rfl rfl rfl rfl rfl rfl
      fun h => h.same ⟨rfl, rfl, rfl, rfl, rfl, rfl⟩
  · exact checkNumber_edited h fun n hn user => plain_within rfl rfl rfl rfl rfl rfl fun h =>
      ⟨h.default, h.ratio, h.idleTime, h.numLogins, h.maxSimDown, hn, h.tagline⟩
  · exact checkNumber_edited h fun n hn user => plain_within rfl rfl rfl rfl rfl rfl fun h =>
      ⟨h.default, h.ratio, h.idleTime, h.numLogins, hn, h.maxSimUp, h.tagline⟩

theorem changeLoop_edits {set : Database → User → Except Str User} (hset : Edited s set)
    (uids : List UserID) (db : Database) : Edits s db (changeLoop set uids db).2.2 := by
  induction uids generalizing db with
  | nil => exact .refl
  | cons uid uids ih =>
    unfold changeLoop
    split
    · exact ih db
    · rename_i user huser
      split
      · exact .refl
      · rename_i user' hok
        have hid := Table.byId_id huser
        subst hid
        exact (putUser_edits huser (hset db user user' hok)).trans (ih _)

end Settings

/-- The flags that a line would give to users. -/
def Line.given (line : Line) : Str :=
  match line.cmd, line.args with
  | .CHANGE, _ :: setting :: value :: _ =>
    if toLowerCopy setting = "flags".toList then givenFlags value else []
  | _, _ => []

/-- What a line starts from. -/
def scope (c : Client) (line : Line) (db : Database) : Scope where
  start := db
  master := c.isMaster = true
  grants f := f.char ∈ line.given
  cached := c.cached

theorem check_edited {c : Client} {argStr multiStr setting value : Str} {values : List Str} {db : Database}
    {s : ChangeText.Setting}
    (h : ChangeText.check (c.request argStr (multiStr :: setting :: value :: values) db) = .ok s) :
    Edited (scope c ⟨.CHANGE, argStr, multiStr :: setting :: value :: values⟩ db) s.set := by
  obtain ⟨arg, harg, h⟩ := arg_bind h
  cases harg
  simp only at h
  cases hclear : ChangeText.clearance (c.request argStr (multiStr :: setting :: value :: values) db)
      (toLowerCopy setting) with
  | error exit =>
    rw [hclear] at h
    cases h
  | ok u =>
    rw [hclear] at h
    have hcall : ChangeText.call (toLowerCopy setting)
        (c.request argStr (multiStr :: setting :: value :: values) db) = .ok s := h
    unfold ChangeText.call at hcall
    split at hcall
    · rename_i entry hentry
      have hname : entry.1 = toLowerCopy setting := by simpa using List.find?_some hentry
      refine checks_edited (List.mem_of_find?_eq_some hentry) rfl id (fun hflags v hv f hf => ?_) hcall
      cases hv
      show f.char ∈ if toLowerCopy setting = "flags".toList then givenFlags value else []
      rw [if_pos (hname.symm.trans hflags)]
      exact hf
    · cases hcall

theorem change_edits (c : Client) (argStr multiStr setting value : Str) (values : List Str) (db : Database) :
    Edits (scope c ⟨.CHANGE, argStr, multiStr :: setting :: value :: values⟩ db) db
      (change c argStr multiStr setting (value :: values) db).db := by
  unfold change
  split
  · exact .refl
  · rename_i set hcheck
    simp only
    split
    · exact .refl
    · split
      · exact .refl
      · exact changeLoop_edits (check_edited hcheck) _ db

/-! ## Settings of groups -/

/-- A setting of `GRPCHANGE` keeps the gid, the name and the bounds. -/
def Kept (set : Group → Group) : Prop :=
  ∀ group, (set group).id = group.id ∧ (set group).name = group.name ∧
    (WithinGroup group → WithinGroup (set group))

theorem checkLimit_kept {parse : Str → Option Int} {low : Int} {names : List (Int × String)}
    {set : Int → Group → Group} {value : Str} {setting : GroupSetting}
    (h : checkLimit parse low names set value = .ok setting) (hset : ∀ n, low ≤ n → Kept (set n)) :
    Kept setting.set := by
  unfold checkLimit at h
  split at h
  · cases h
  · split at h
    · cases h
    · rename_i n hn hlow
      cases h
      exact hset n (by omega)

theorem checkDescription_kept {text : Str} {setting : GroupSetting} (h : checkDescription text = .ok setting) :
    Kept setting.set := by
  unfold checkDescription at h
  split at h
  · cases h
  · rename_i hvalid
    rw [Bool.not_eq_true', Bool.not_eq_false] at hvalid
    cases h
    exact fun group => ⟨rfl, rfl, fun h =>
      ⟨h.slots, h.leechSlots, h.allotmentSlots, h.maxAllotmentSize, h.maxLogins, .inr hvalid⟩⟩

theorem checkGroup_kept {c : Client} {argStr groupNames setting value : Str} {values : List Str}
    {s : GroupSetting} (h : checkGroup c argStr groupNames setting value values = .ok s) : Kept s.set := by
  simp only [checkGroup] at h
  split at h
  · rename_i entry hentry
    split at h
    · cases h
    · split at h
      · cases h
      · have hmem := List.mem_of_find?_eq_some hentry
        simp only [List.mem_cons, List.not_mem_nil, or_false] at hmem
        rcases hmem with rfl | rfl | rfl | rfl | rfl
        · exact checkLimit_kept h fun n hn group => ⟨rfl, rfl, fun h =>
            ⟨hn, h.leechSlots, h.allotmentSlots, h.maxAllotmentSize, h.maxLogins, h.description⟩⟩
        · exact checkLimit_kept h fun n hn group => ⟨rfl, rfl, fun h =>
            ⟨h.slots, hn, h.allotmentSlots, h.maxAllotmentSize, h.maxLogins, h.description⟩⟩
        · exact checkLimit_kept h fun n hn group => ⟨rfl, rfl, fun h =>
            ⟨h.slots, h.leechSlots, hn, h.maxAllotmentSize, h.maxLogins, h.description⟩⟩
        · exact checkLimit_kept h fun n hn group => ⟨rfl, rfl, fun h =>
            ⟨h.slots, h.leechSlots, h.allotmentSlots, hn, h.maxLogins, h.description⟩⟩
        · exact checkLimit_kept h fun n hn group => ⟨rfl, rfl, fun h =>
            ⟨h.slots, h.leechSlots, h.allotmentSlots, h.maxAllotmentSize, hn, h.description⟩⟩
  · split at h
    · rename_i entry hentry
      split at h
      · cases h
      · cases htext : cutText argStr groupNames (toLowerCopy setting) with
        | error exit =>
          rw [htext] at h
          cases h
        | ok text =>
          rw [htext] at h
          have hmem := List.mem_of_find?_eq_some hentry
          simp only [List.mem_cons, List.not_mem_nil, or_false] at hmem
          rcases hmem with rfl | rfl
          · exact checkDescription_kept h
          · cases h
            exact fun group => ⟨rfl, rfl, fun h => h⟩
    · cases h

theorem grpChangeLoop_edits {s : Scope} {set : Group → Group} (hset : Kept set) (gids : List GroupID)
    (db : Database) : Edits s db (grpChangeLoop set gids db) := by
  induction gids generalizing db with
  | nil => exact .refl
  | cons gid gids ih =>
    unfold grpChangeLoop
    split
    · exact ih db
    · rename_i group hgroup
      have hid := Table.byId_id hgroup
      subst hid
      exact (putGroup_edits hgroup (hset group).1 (hset group).2.1 (hset group).2.2).trans (ih _)

theorem grpChange_edits {s : Scope} (c : Client) (argStr groupNames setting value : Str) (values : List Str)
    (db : Database) : Edits s db (grpChange c argStr groupNames setting value values db).db := by
  unfold grpChange
  split
  · exact .refl
  · rename_i set hcheck
    split
    · exact .refl
    · exact grpChangeLoop_edits (checkGroup_kept hcheck) _ db

/-! ## Every command -/

/-- What a command does: edits, or the purge of a group, which others could refer to. -/
inductive Effect (s : Scope) (db : Database) : Database → Prop where
  | edits {db' : Database} (h : Edits s db db') : Effect s db db'
  | purgeGroup {group : Group} (hgroup : db.groups.byId group.id = some group)
      (hname : group.name ≠ "default".toList) (h0 : group.id ≠ 0) (h1 : group.id ≠ 1)
      (hmembers : numMembers db group.id = 0) : Effect s db (db.purgeGroup group.id)

theorem grpDel_effect {s : Scope} (name : Str) (db : Database) : Effect s db (grpDel name db).db := by
  unfold grpDel
  split
  · exact .edits .refl
  · rename_i group hname
    split
    · exact .edits .refl
    · rename_i hrequired
      rw [not_or, not_or] at hrequired
      split
      · exact .edits .refl
      · rename_i hmembers
        exact .purgeGroup (byName_group hname) hrequired.1 hrequired.2.2 hrequired.2.1 (by omega)

theorem dispatch_effect (c : Client) (line : Line) (db : Database) :
    Effect (scope c line db) db (dispatch c db line.argStr line.cmd line.args).db := by
  obtain ⟨cmd, argStr, args⟩ := line
  simp only
  unfold dispatch
  split
  · exact .edits (addUser_edits _ _ _ rfl)
  · exact .edits (gAddUser_edits _ _ rfl)
  · exact .edits (tAddUser_edits c _ _)
  · exact .edits (addIP_edits _ _ _)
  · exact .edits (delIP_edits _ _)
  · exact .edits (chPass_edits _ _)
  · exact .edits (passwd_edits c _)
  · exact .edits (tagline_edits c _)
  · exact .edits (delUser_edits _ id)
  · exact .edits (readd_edits _)
  · exact .edits (purge_edits _)
  · exact .edits (renUser_edits c _ _ id)
  · exact .edits (change_edits c _ _ _ _ _ db)
  · exact .edits (userInfo_edits _)
  · exact .edits (userInfo_edits _)
  · exact .edits (setPGrp_edits c _ _ rfl)
  · exact .edits (chGrp_edits c _ _ rfl)
  · exact .edits (chGadmin_edits c _ _ rfl)
  · exact .edits (grpAdd_edits _ _ _)
  · exact grpDel_effect _ db
  · exact .edits (grpRen_edits _ _)
  · exact .edits (grpChange_edits c _ _ _ _ _ db)
  · exact .edits .refl

theorem execute_effect (c : Client) (line : Line) (db : Database) :
    Effect (scope c line db) db (execute c line db).db := by
  unfold execute
  split
  · exact dispatch_effect c line db
  · exact .edits .refl

theorem step_effect {db db' : Database} {i : Client × Line} (h : step db i = some db') :
    Effect (scope i.1 i.2 db) db db' := by
  have hdb : (execute i.1 i.2 db).db = db' := Option.some.inj h
  exact hdb ▸ execute_effect i.1 i.2 db

end Accounts
end Cmd
end Ebftpd
