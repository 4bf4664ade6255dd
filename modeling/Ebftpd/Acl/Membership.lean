import Ebftpd.Acl.Flags

/-!
# Ebftpd.Acl.Membership

The groups of a user (`src/acl/user.cpp`): a primary one, a list of secondary ones, the set of those
he is an admin of, and the flag that says whether there are any.

`groups` is the primary group with the secondary ones behind it, on which every mutator is a list
operation.

* `groups_setPrimaryGID` to `groups_toggleGIDs`: these operations.
* `Membership`: what is to hold between the three collections and the flag.
* `membership_iff_keeps`: it does exactly as long as no list repeats a new group and no group admin
  loses the last of his groups but through `ToggleGadminGID`.
-/

namespace Ebftpd
namespace Acl

open Util Lib

namespace User

def hasSecondaryGID (user : User) (gid : GroupID) : Bool := user.secondaryGids.contains gid

def hasGID (user : User) (gid : GroupID) : Bool := user.primaryGid == gid || user.hasSecondaryGID gid

/-- `AddGIDs`; what is copied is not copied again. -/
def addGIDs (user : User) (gids : List GroupID) : User :=
  match gids with
  | [] => user
  | gid :: rest =>
    let primaryGid := if user.primaryGid = -1 then gid else user.primaryGid
    let more := if user.primaryGid = -1 then rest else gids
    { user with
      primaryGid := primaryGid
      secondaryGids := more.foldl
        (fun sec gid => if !sec.contains gid && gid != primaryGid then sec ++ [gid] else sec)
        user.secondaryGids }

def cleanGadminGIDs (user : User) : User :=
  { user with gadminGids := user.gadminGids.filter user.hasGID }

/-- The first of the groups becomes the primary one, the rest the secondary ones. -/
def assignGIDs (user : User) : List GroupID → User
  | [] => { user with primaryGid := -1, secondaryGids := [] }
  | gid :: gids => { user with primaryGid := gid, secondaryGids := gids }

def delGIDs (user : User) (gids : List GroupID) : User :=
  let secondaryGids := user.secondaryGids.filter (!gids.contains ·)
  let user :=
    if gids.contains user.primaryGid then user.assignGIDs secondaryGids
    else { user with secondaryGids := secondaryGids }
  user.cleanGadminGIDs

def setGIDs (user : User) (gids : List GroupID) : User := (user.assignGIDs gids).cleanGadminGIDs

/-- The primary group, if there is one, and the secondary ones. -/
def groups (user : User) : List GroupID :=
  if user.primaryGid ≠ -1 then user.primaryGid :: user.secondaryGids else user.secondaryGids

def toggleGIDs (user : User) (gids : List GroupID) : User :=
  let diffGids := user.groups.filter (!gids.contains ·) ++ gids.filter (!user.groups.contains ·)
  (user.assignGIDs diffGids).cleanGadminGIDs

def addGadminGID (user : User) (gid : GroupID) : User :=
  let user :=
    { user with gadminGids := if user.hasGadminGID gid then user.gadminGids else user.gadminGids ++ [gid] }
  if user.hasFlag .Gadmin then user else user.addFlag .Gadmin

def delGadminGID (user : User) (gid : GroupID) : User :=
  let user := { user with gadminGids := user.gadminGids.filter (· != gid) }
  if user.gadminGids.isEmpty then user.delFlag .Gadmin else user

def toggleGadminGID (user : User) (gid : GroupID) : User :=
  if user.hasGadminGID gid then user.delGadminGID gid else user.addGadminGID gid

end User

/-! ## What the mutators do to the list of groups -/

/-- What holds of the groups of a user whatever is done to them, as long as `-1` stays out. -/
structure Shape (user : User) : Prop where
  none : user.primaryGid = -1 → user.secondaryGids = []
  secondary : (-1 : GroupID) ∉ user.secondaryGids
  gadmin : ∀ gid ∈ user.gadminGids, gid ∈ user.groups
  flag : user.flags.count Flag.Gadmin.char ≤ 1

theorem groups_ne {user : User} (h : (-1 : GroupID) ∉ user.secondaryGids) : (-1 : GroupID) ∉ user.groups := by
  unfold User.groups
  split
  · rename_i hprimary
    rw [List.mem_cons, not_or]
    exact ⟨Ne.symm hprimary, h⟩
  · exact h

theorem groups_eq_nil {user : User} (hprimary : user.primaryGid = -1) (hsecondary : user.secondaryGids = []) :
    user.groups = [] := by
  rw [User.groups, if_neg (not_not.mpr hprimary), hsecondary]

theorem groups_eq_cons {user : User} (hprimary : user.primaryGid ≠ -1) :
    user.groups = user.primaryGid :: user.secondaryGids := if_pos hprimary

theorem groups_assignGIDs (user : User) {gids : List GroupID} (hgids : (-1 : GroupID) ∉ gids) :
    (user.assignGIDs gids).groups = gids := by
  cases gids with
  | nil => rfl
  | cons gid gids =>
    rw [List.mem_cons, not_or] at hgids
    exact if_pos (Ne.symm hgids.1)

@[simp] theorem groups_cleanGadminGIDs (user : User) : user.cleanGadminGIDs.groups = user.groups := rfl

theorem hasGID_iff {user : User} {gid : GroupID} (hgid : gid ≠ -1) :
    user.hasGID gid = true ↔ gid ∈ user.groups := by
  simp only [User.hasGID, User.hasSecondaryGID, User.groups, Bool.or_eq_true, beq_iff_eq,
    List.contains_iff_mem]
  split
  · rw [List.mem_cons, eq_comm]
  · rename_i hprimary
    rw [ne_eq, not_not] at hprimary
    exact or_iff_right fun h => hgid (h.symm.trans hprimary)

theorem groups_setPrimaryGID (user : User) {gid : GroupID} (hgid : gid ≠ -1) :
    (user.setPrimaryGID gid).groups = gid :: user.groups.erase gid := by
  unfold User.setPrimaryGID
  split
  · rename_i hprimary
    rw [User.groups, if_pos (hprimary ▸ hgid), hprimary, List.erase_cons_head]
  · exact if_pos hgid

theorem groups_delGIDs {user : User} (hshape : Shape user) (gids : List GroupID) :
    (user.delGIDs gids).groups = user.groups.filter (!gids.contains ·) := by
  have hsec : (-1 : GroupID) ∉ user.secondaryGids.filter (!gids.contains ·) :=
    fun h => hshape.secondary (List.mem_of_mem_filter h)
  unfold User.delGIDs
  simp only [groups_cleanGadminGIDs]
  by_cases hprimary : user.primaryGid = -1
  · rw [groups_eq_nil hprimary (hshape.none hprimary), hshape.none hprimary]
    split
    · rfl
    · exact if_neg (not_not.mpr hprimary)
  · by_cases hdel : gids.contains user.primaryGid = true
    · rw [if_pos hdel, groups_assignGIDs _ hsec, groups_eq_cons hprimary,
        List.filter_cons_of_neg (by rw [hdel]; exact Bool.false_ne_true)]
    · rw [if_neg hdel, groups_eq_cons hprimary, List.filter_cons_of_pos (by simpa using hdel)]
      exact groups_eq_cons hprimary

theorem groups_setGIDs (user : User) {gids : List GroupID} (hgids : (-1 : GroupID) ∉ gids) :
    (user.setGIDs gids).groups = gids := by
  rw [User.setGIDs, groups_cleanGadminGIDs, groups_assignGIDs _ hgids]

theorem groups_toggleGIDs {user : User} (hshape : Shape user) {gids : List GroupID}
    (hgids : (-1 : GroupID) ∉ gids) :
    (user.toggleGIDs gids).groups =
      user.groups.filter (!gids.contains ·) ++ gids.filter (!user.groups.contains ·) := by
  rw [User.toggleGIDs]
  simp only [groups_cleanGadminGIDs]
  refine groups_assignGIDs _ fun hmem => ?_
  rcases List.mem_append.mp hmem with h | h
  · exact groups_ne hshape.secondary (List.mem_of_mem_filter h)
  · exact hgids (List.mem_of_mem_filter h)

/-- What is appended to the secondary groups is what is missing among all. -/
theorem cons_foldl_secondary (primaryGid : GroupID) (gids : List GroupID) :
    ∀ sec : List GroupID,
      primaryGid :: gids.foldl
          (fun sec gid => if !sec.contains gid && gid != primaryGid then sec ++ [gid] else sec) sec =
        gids.foldl (fun gs gid => if gs.contains gid then gs else gs ++ [gid]) (primaryGid :: sec) := by
  induction gids with
  | nil => exact fun _ => rfl
  | cons gid gids ih =>
    intro sec
    rw [List.foldl_cons, List.foldl_cons, ih]
    congr 1
    by_cases hmem : gid ∈ primaryGid :: sec
    · have hold : (!sec.contains gid && gid != primaryGid) = false := by
        rcases List.mem_cons.mp hmem with rfl | h
        · simp
        · simp [h]
      rw [hold, if_neg Bool.false_ne_true, if_pos (List.contains_iff_mem.mpr hmem)]
    · have hmiss : (primaryGid :: sec).contains gid = false := by simpa using hmem
      rw [List.mem_cons, not_or] at hmem
      have hnew : (!sec.contains gid && gid != primaryGid) = true := by simp [hmem.1, hmem.2]
      rw [hnew, hmiss, if_pos rfl, if_neg Bool.false_ne_true]
      rfl

theorem groups_addGIDs {user : User} (hshape : Shape user) {gids : List GroupID}
    (hgids : (-1 : GroupID) ∉ gids) :
    (user.addGIDs gids).groups =
      gids.foldl (fun gs gid => if gs.contains gid then gs else gs ++ [gid]) user.groups := by
  cases gids with
  | nil => rfl
  | cons gid rest =>
    have hgid : gid ≠ -1 := fun h => hgids (by simp [h])
    by_cases hprimary : user.primaryGid = -1
    · simp only [User.addGIDs, if_pos hprimary, hshape.none hprimary]
      rw [groups_eq_cons hgid, cons_foldl_secondary, groups_eq_nil hprimary (hshape.none hprimary)]
      rfl
    · simp only [User.addGIDs, if_neg hprimary]
      rw [groups_eq_cons (by exact hprimary), cons_foldl_secondary, groups_eq_cons hprimary]

/-! ## The operations -/

inductive GroupOp where
  | setPrimaryGID (gid : GroupID)
  | addGIDs (gids : List GroupID)
  | delGIDs (gids : List GroupID)
  | setGIDs (gids : List GroupID)
  | toggleGIDs (gids : List GroupID)
  | toggleGadminGID (gid : GroupID)

namespace GroupOp

def gids : GroupOp → List GroupID
  | .setPrimaryGID gid => [gid]
  | .addGIDs gids => gids
  | .delGIDs gids => gids
  | .setGIDs gids => gids
  | .toggleGIDs gids => gids
  | .toggleGadminGID gid => [gid]

def onUser (user : User) : GroupOp → User
  | .setPrimaryGID gid => user.setPrimaryGID gid
  | .addGIDs gids => user.addGIDs gids
  | .delGIDs gids => user.delGIDs gids
  | .setGIDs gids => user.setGIDs gids
  | .toggleGIDs gids => user.toggleGIDs gids
  | .toggleGadminGID gid => user.toggleGadminGID gid

/-- `SITE CHGADMIN` asks `HasGID` before it toggles. -/
def step (user : User) (op : GroupOp) : Option User :=
  match op with
  | .toggleGadminGID gid => if user.hasGID gid then some (user.toggleGadminGID gid) else none
  | op => some (op.onUser user)

/-- The groups after an operation. -/
def onGroups (groups : List GroupID) : GroupOp → List GroupID
  | .setPrimaryGID gid => gid :: groups.erase gid
  | .addGIDs gids => gids.foldl (fun gs gid => if gs.contains gid then gs else gs ++ [gid]) groups
  | .delGIDs gids => groups.filter (!gids.contains ·)
  | .setGIDs gids => gids
  | .toggleGIDs gids => groups.filter (!gids.contains ·) ++ gids.filter (!groups.contains ·)
  | .toggleGadminGID _ => groups

/-- Whether the user stays in a group he is in. -/
def keeps (gid : GroupID) : GroupOp → Bool
  | .delGIDs gids => !gids.contains gid
  | .setGIDs gids => gids.contains gid
  | .toggleGIDs gids => !gids.contains gid
  | _ => true

/-- No group is given twice where the operation takes the list as it is. -/
def Fresh (groups : List GroupID) : GroupOp → Prop
  | .setGIDs gids => gids.Nodup
  | .toggleGIDs gids => (gids.filter (!groups.contains ·)).Nodup
  | _ => True

instance (groups : List GroupID) (op : GroupOp) : Decidable (op.Fresh groups) :=
  match op with
  | .setGIDs gids => inferInstanceAs (Decidable gids.Nodup)
  | .toggleGIDs gids => inferInstanceAs (Decidable (gids.filter (!groups.contains ·)).Nodup)
  | .setPrimaryGID _ | .addGIDs _ | .delGIDs _ | .toggleGadminGID _ => .isTrue trivial

theorem mem_onGroups (op : GroupOp) {groups : List GroupID} {gid : GroupID} (hgid : gid ∈ groups) :
    gid ∈ op.onGroups groups ↔ op.keeps gid = true := by
  cases op with
  | setPrimaryGID g =>
    refine iff_of_true (List.mem_cons.mpr ?_) rfl
    by_cases h : gid = g
    · exact .inl h
    · exact .inr ((List.mem_erase_of_ne h).mpr hgid)
  | addGIDs gids => exact iff_of_true ((mem_foldl_append gids groups).mpr (.inl hgid)) rfl
  | delGIDs gids => exact List.mem_filter.trans (and_iff_right hgid)
  | setGIDs gids => exact List.contains_iff_mem.symm
  | toggleGIDs gids =>
    rw [onGroups, List.mem_append, List.mem_filter, List.mem_filter]
    simp [keeps, hgid]
  | toggleGadminGID g => exact iff_of_true hgid rfl

theorem nodup_foldl_append (new : List GroupID) :
    ∀ {groups : List GroupID}, groups.Nodup →
      (new.foldl (fun gs gid => if gs.contains gid then gs else gs ++ [gid]) groups).Nodup := by
  induction new with
  | nil => exact fun h => h
  | cons gid new ih =>
    intro groups h
    rw [List.foldl_cons]
    by_cases hgid : groups.contains gid = true
    · rw [if_pos hgid]
      exact ih h
    · rw [if_neg hgid]
      refine ih (List.nodup_append.mpr ⟨h, List.nodup_singleton _, fun a ha b hb hab => hgid ?_⟩)
      rw [List.contains_iff_mem, ← List.mem_singleton.mp hb, ← hab]
      exact ha

theorem nodup_onGroups (op : GroupOp) {groups : List GroupID} (h : groups.Nodup) :
    (op.onGroups groups).Nodup ↔ op.Fresh groups := by
  cases op with
  | setPrimaryGID gid =>
    exact iff_of_true (List.nodup_cons.mpr ⟨h.not_mem_erase, h.erase gid⟩) trivial
  | addGIDs gids => exact iff_of_true (nodup_foldl_append gids h) trivial
  | delGIDs gids => exact iff_of_true (h.filter _) trivial
  | setGIDs gids => exact Iff.rfl
  | toggleGIDs gids =>
    rw [onGroups, List.nodup_append]
    refine ⟨fun hall => hall.2.1, fun hnew => ⟨h.filter _, hnew, fun a ha b hb hab => ?_⟩⟩
    have hin := List.mem_of_mem_filter ha
    have hout := (List.mem_filter.mp hb).2
    simp [← hab, hin] at hout
  | toggleGadminGID gid => exact iff_of_true h trivial

end GroupOp

/-! ## The user after an operation -/

theorem assignGIDs_gadminGids (user : User) (gids : List GroupID) :
    (user.assignGIDs gids).gadminGids = user.gadminGids := by
  cases gids <;> rfl

theorem assignGIDs_flags (user : User) (gids : List GroupID) :
    (user.assignGIDs gids).flags = user.flags := by
  cases gids <;> rfl

theorem toggleGadminGID_gids (user : User) (gid : GroupID) :
    (user.toggleGadminGID gid).primaryGid = user.primaryGid ∧
      (user.toggleGadminGID gid).secondaryGids = user.secondaryGids := by
  simp only [User.toggleGadminGID, User.delGadminGID, User.addGadminGID]
  split
  · split
    · exact ⟨rfl, rfl⟩
    · exact ⟨rfl, rfl⟩
  · split
    · exact ⟨rfl, rfl⟩
    · exact ⟨rfl, rfl⟩

theorem onUser_groups {user : User} (hshape : Shape user) {op : GroupOp} (hgids : (-1 : GroupID) ∉ op.gids) :
    (op.onUser user).groups = op.onGroups user.groups := by
  cases op with
  | setPrimaryGID gid => exact groups_setPrimaryGID user fun h => hgids (List.mem_singleton.mpr h.symm)
  | addGIDs gids => exact groups_addGIDs hshape hgids
  | delGIDs gids => exact groups_delGIDs hshape gids
  | setGIDs gids => exact groups_setGIDs user hgids
  | toggleGIDs gids => exact groups_toggleGIDs hshape hgids
  | toggleGadminGID gid =>
    obtain ⟨hprimary, hsecondary⟩ := toggleGadminGID_gids user gid
    simp only [GroupOp.onUser, GroupOp.onGroups, User.groups, hprimary, hsecondary]

/-- The mutators that clean the set of groups he is an admin of keep those he stays in. -/
theorem gadminGids_clean {user user' : User} (hshape : Shape user) {op : GroupOp}
    (hgroups : user'.groups = op.onGroups user.groups) (hsame : user'.gadminGids = user.gadminGids) :
    user'.cleanGadminGIDs.gadminGids = user.gadminGids.filter (op.keeps ·) := by
  rw [User.cleanGadminGIDs, hsame]
  refine List.filter_congr fun gid hgid => ?_
  have hin := hshape.gadmin gid hgid
  have hne : gid ≠ -1 := fun h => groups_ne hshape.secondary (h ▸ hin)
  rw [Bool.eq_iff_iff, hasGID_iff hne, hgroups]
  exact op.mem_onGroups hin

/-- An operation on the groups, the toggling of a gadmin group apart. -/
def GroupOp.Lists : GroupOp → Prop
  | .toggleGadminGID _ => False
  | _ => True

theorem onUser_gadminGids {user : User} (hshape : Shape user) {op : GroupOp} (hgids : (-1 : GroupID) ∉ op.gids)
    (hlists : op.Lists) : (op.onUser user).gadminGids = user.gadminGids.filter (op.keeps ·) := by
  have hgroups := onUser_groups hshape hgids
  cases op with
  | setPrimaryGID gid =>
    refine Eq.trans ?_ (List.filter_eq_self.mpr fun _ _ => rfl).symm
    rw [GroupOp.onUser, User.setPrimaryGID]
    split
    · rfl
    · rfl
  | addGIDs gids =>
    refine Eq.trans ?_ (List.filter_eq_self.mpr fun _ _ => rfl).symm
    cases gids with
    | nil => rfl
    | cons gid gids => rfl
  | delGIDs gids =>
    refine gadminGids_clean hshape hgroups ?_
    split
    · exact assignGIDs_gadminGids user _
    · rfl
  | setGIDs gids => exact gadminGids_clean hshape hgroups (assignGIDs_gadminGids user _)
  | toggleGIDs gids => exact gadminGids_clean hshape hgroups (assignGIDs_gadminGids user _)
  | toggleGadminGID gid => exact absurd hlists (fun h => h)

theorem onUser_flags (user : User) {op : GroupOp} (hlists : op.Lists) : (op.onUser user).flags = user.flags := by
  cases op with
  | setPrimaryGID gid =>
    rw [GroupOp.onUser, User.setPrimaryGID]
    split
    · rfl
    · rfl
  | addGIDs gids =>
    cases gids with
    | nil => rfl
    | cons gid gids => rfl
  | delGIDs gids =>
    simp only [GroupOp.onUser, User.delGIDs, User.cleanGadminGIDs]
    split
    · exact assignGIDs_flags user _
    · rfl
  | setGIDs gids => exact assignGIDs_flags user _
  | toggleGIDs gids => exact assignGIDs_flags user _
  | toggleGadminGID gid => exact absurd hlists (fun h => h)

theorem ne_onGroups {groups : List GroupID} {op : GroupOp} (hgroups : (-1 : GroupID) ∉ groups)
    (hgids : (-1 : GroupID) ∉ op.gids) : (-1 : GroupID) ∉ op.onGroups groups := by
  cases op with
  | setPrimaryGID gid =>
    intro h
    rcases List.mem_cons.mp h with h | h
    · exact hgids (List.mem_singleton.mpr h)
    · exact hgroups (List.mem_of_mem_erase h)
  | addGIDs gids => exact fun h => ((mem_foldl_append gids groups).mp h).elim hgroups hgids
  | delGIDs gids => exact fun h => hgroups (List.mem_of_mem_filter h)
  | setGIDs gids => exact hgids
  | toggleGIDs gids =>
    intro h
    rcases List.mem_append.mp h with h | h
    · exact hgroups (List.mem_of_mem_filter h)
    · exact hgids (List.mem_of_mem_filter h)
  | toggleGadminGID gid => exact hgroups

theorem secondaryGids_subset {user : User} {gid : GroupID} (h : gid ∈ user.secondaryGids) : gid ∈ user.groups := by
  unfold User.groups
  split
  · exact List.mem_cons_of_mem _ h
  · exact h

theorem assignGIDs_none {user : User} {gids : List GroupID} (hgids : (-1 : GroupID) ∉ gids)
    (h : (user.assignGIDs gids).primaryGid = -1) : (user.assignGIDs gids).secondaryGids = [] := by
  cases gids with
  | nil => rfl
  | cons gid gids =>
    have hgid : gid = -1 := h
    exact absurd (by simp [hgid]) hgids

theorem onUser_none {user : User} (hshape : Shape user) {op : GroupOp} (hgids : (-1 : GroupID) ∉ op.gids)
    (h : (op.onUser user).primaryGid = -1) : (op.onUser user).secondaryGids = [] := by
  cases op with
  | setPrimaryGID gid =>
    have hgid : gid ≠ -1 := fun h => hgids (List.mem_singleton.mpr h.symm)
    simp only [GroupOp.onUser, User.setPrimaryGID] at h ⊢
    split at h
    · rename_i hsame
      exact absurd (hsame.symm.trans h) hgid
    · exact absurd h hgid
  | addGIDs gids =>
    cases gids with
    | nil => exact hshape.none h
    | cons gid gids =>
      have hgid : gid ≠ -1 := fun h => hgids (by simp [GroupOp.gids, h])
      simp only [GroupOp.onUser, User.addGIDs] at h
      split at h
      · exact absurd h hgid
      · rename_i hprimary
        exact absurd h hprimary
  | delGIDs gids =>
    have hsec : (-1 : GroupID) ∉ user.secondaryGids.filter (!gids.contains ·) :=
      fun h => hshape.secondary (List.mem_of_mem_filter h)
    simp only [GroupOp.onUser, User.delGIDs, User.cleanGadminGIDs] at h ⊢
    split
    · rename_i hdel
      rw [if_pos hdel] at h
      exact assignGIDs_none hsec h
    · rename_i hdel
      rw [if_neg hdel] at h
      simp only [hshape.none h, List.filter_nil]
  | setGIDs gids => exact assignGIDs_none hgids h
  | toggleGIDs gids =>
    have hdiff : (-1 : GroupID) ∉ GroupOp.onGroups user.groups (.toggleGIDs gids) :=
      ne_onGroups (groups_ne hshape.secondary) hgids
    exact assignGIDs_none hdiff h
  | toggleGadminGID gid =>
    obtain ⟨hprimary, hsecondary⟩ := toggleGadminGID_gids user gid
    exact hsecondary.trans (hshape.none (hprimary.symm.trans h))

theorem hasFlag_count {user : User} {f : Flag} : user.hasFlag f = true ↔ 0 < user.flags.count f.char := by
  rw [User.hasFlag_iff, List.count_pos_iff]

/-- The flag says whether there are groups the user is an admin of. -/
def FlagAgrees (user : User) : Prop := user.hasFlag .Gadmin = true ↔ user.gadminGids ≠ []

theorem addGadminGID_spec {user : User} (gid : GroupID) (hflag : user.flags.count Flag.Gadmin.char ≤ 1) :
    (user.addGadminGID gid).flags.count Flag.Gadmin.char ≤ 1 ∧ FlagAgrees (user.addGadminGID gid) ∧
      ∀ g ∈ (user.addGadminGID gid).gadminGids, g ∈ user.gadminGids ∨ g = gid := by
  let gadminGids := if user.hasGadminGID gid then user.gadminGids else user.gadminGids ++ [gid]
  have hmem : ∀ g, g ∈ gadminGids ↔ g ∈ user.gadminGids ∨ g = gid := by
    intro g
    by_cases hgid : user.hasGadminGID gid = true
    · have hin : gid ∈ user.gadminGids := by simpa [User.hasGadminGID] using hgid
      rw [show gadminGids = user.gadminGids from if_pos hgid]
      exact ⟨.inl, fun h => h.elim id fun h => h ▸ hin⟩
    · rw [show gadminGids = user.gadminGids ++ [gid] from if_neg hgid, List.mem_append, List.mem_singleton]
  have hne : gadminGids ≠ [] := List.ne_nil_of_mem ((hmem gid).mpr (.inr rfl))
  have hadd : user.addGadminGID gid =
      if user.hasFlag .Gadmin then { user with gadminGids := gadminGids }
      else { user with gadminGids := gadminGids }.addFlag .Gadmin := rfl
  by_cases hhas : user.hasFlag .Gadmin = true
  · rw [hadd, if_pos hhas]
    exact ⟨hflag, iff_of_true hhas hne, fun g hg => (hmem g).mp hg⟩
  · have hcount : ({ user with gadminGids := gadminGids }.addFlag .Gadmin).flags.count Flag.Gadmin.char = 1 :=
      User.count_addFlag (Bool.eq_false_iff.mpr hhas)
    rw [hadd, if_neg hhas]
    exact ⟨hcount.le, iff_of_true (hasFlag_count.mpr (by omega)) hne, fun g hg => (hmem g).mp hg⟩

theorem delGadminGID_spec {user : User} (gid : GroupID) (hflag : user.flags.count Flag.Gadmin.char ≤ 1) :
    (user.delGadminGID gid).flags.count Flag.Gadmin.char ≤ 1 ∧
      (user.hasGadminGID gid = true → FlagAgrees user → FlagAgrees (user.delGadminGID gid)) ∧
      ∀ g ∈ (user.delGadminGID gid).gadminGids, g ∈ user.gadminGids := by
  let gadminGids := user.gadminGids.filter (· != gid)
  have hdel : user.delGadminGID gid =
      if gadminGids.isEmpty then { user with gadminGids := gadminGids }.delFlag .Gadmin
      else { user with gadminGids := gadminGids } := rfl
  have hsub : ∀ g ∈ gadminGids, g ∈ user.gadminGids := fun g hg => List.mem_of_mem_filter hg
  by_cases hempty : gadminGids.isEmpty = true
  · have hcount := User.count_delFlags { user with gadminGids := gadminGids } [Flag.Gadmin.char]
      Flag.Gadmin.char
    rw [List.count_singleton_self] at hcount
    rw [hdel, if_pos hempty]
    refine ⟨hcount.le.trans (by show user.flags.count Flag.Gadmin.char - 1 ≤ 1; omega), fun _ _ => ?_, hsub⟩
    refine iff_of_false (fun hhas => ?_) (fun hne => hne (List.isEmpty_iff.mp hempty))
    have hpos := hasFlag_count.mp hhas
    rw [User.delFlag, hcount] at hpos
    have : 0 < user.flags.count Flag.Gadmin.char - 1 := hpos
    omega
  · rw [hdel, if_neg hempty]
    refine ⟨hflag, fun hgadmin hagrees => ?_, hsub⟩
    have hin : gid ∈ user.gadminGids := by simpa [User.hasGadminGID] using hgadmin
    exact iff_of_true (hagrees.mpr (List.ne_nil_of_mem hin)) fun h => hempty (List.isEmpty_iff.mpr h)

/-- What the toggling of a group that the user is in does to the flag and the set. -/
theorem toggleGadminGID_spec {user : User} (gid : GroupID) (hflag : user.flags.count Flag.Gadmin.char ≤ 1) :
    (user.toggleGadminGID gid).flags.count Flag.Gadmin.char ≤ 1 ∧
      (FlagAgrees user → FlagAgrees (user.toggleGadminGID gid)) ∧
      ∀ g ∈ (user.toggleGadminGID gid).gadminGids, g ∈ user.gadminGids ∨ g = gid := by
  unfold User.toggleGadminGID
  split
  · rename_i hhas
    obtain ⟨hcount, hagrees, hsub⟩ := delGadminGID_spec gid hflag
    exact ⟨hcount, hagrees hhas, fun g hg => .inl (hsub g hg)⟩
  · obtain ⟨hcount, hagrees, hsub⟩ := addGadminGID_spec gid hflag
    exact ⟨hcount, fun _ => hagrees, hsub⟩

/-! ## Runs -/

/-- A step is the operation, and a group that is toggled is one of the user's. -/
theorem step_inv {user user' : User} {op : GroupOp} (h : op.step user = some user') :
    user' = op.onUser user ∧ ∀ gid, op = .toggleGadminGID gid → user.hasGID gid = true := by
  cases op with
  | toggleGadminGID gid =>
    simp only [GroupOp.step] at h
    split at h
    · rename_i hgid
      cases h
      exact ⟨rfl, fun g hg => by cases hg; exact hgid⟩
    · cases h
  | _ =>
    cases h
    exact ⟨rfl, fun g hg => by cases hg⟩

theorem lists_or_toggle (op : GroupOp) : op.Lists ∨ ∃ gid, op = .toggleGadminGID gid := by
  cases op with
  | toggleGadminGID gid => exact .inr ⟨gid, rfl⟩
  | _ => exact .inl trivial

theorem step_shape {user user' : User} {op : GroupOp} (hshape : Shape user) (hgids : (-1 : GroupID) ∉ op.gids)
    (h : op.step user = some user') : Shape user' := by
  obtain ⟨rfl, htoggle⟩ := step_inv h
  have hgroups := onUser_groups hshape hgids
  refine ⟨onUser_none hshape hgids, fun hmem => ?_, ?_, ?_⟩
  · have := secondaryGids_subset hmem
    rw [hgroups] at this
    exact ne_onGroups (groups_ne hshape.secondary) hgids this
  · intro gid hgid
    rw [hgroups]
    rcases lists_or_toggle op with hlists | ⟨g, rfl⟩
    · rw [onUser_gadminGids hshape hgids hlists, List.mem_filter] at hgid
      exact (op.mem_onGroups (hshape.gadmin gid hgid.1)).mpr hgid.2
    · rcases (toggleGadminGID_spec g hshape.flag).2.2 gid hgid with hin | rfl
      · exact hshape.gadmin gid hin
      · exact (hasGID_iff fun h => hgids (List.mem_singleton.mpr h.symm)).mp (htoggle _ rfl)
  · rcases lists_or_toggle op with hlists | ⟨g, rfl⟩
    · rw [onUser_flags user hlists]
      exact hshape.flag
    · exact (toggleGadminGID_spec g hshape.flag).1

/-- The invariant of a user's groups. -/
structure Membership (user : User) : Prop where
  nodup : user.secondaryGids.Nodup
  primary : user.primaryGid ∉ user.secondaryGids
  none : user.primaryGid = -1 → user.secondaryGids = []
  gadmin : ∀ gid ∈ user.gadminGids, user.hasGID gid = true
  flag : user.hasFlag .Gadmin = true ↔ user.gadminGids ≠ []

theorem groups_nodup_iff {user : User} (hshape : Shape user) :
    user.groups.Nodup ↔ user.secondaryGids.Nodup ∧ user.primaryGid ∉ user.secondaryGids := by
  by_cases hprimary : user.primaryGid = -1
  · rw [groups_eq_nil hprimary (hshape.none hprimary), hshape.none hprimary]
    simp
  · rw [groups_eq_cons hprimary, List.nodup_cons]
    exact and_comm

theorem membership_iff {user : User} (hshape : Shape user) :
    Membership user ↔ user.groups.Nodup ∧ FlagAgrees user := by
  rw [groups_nodup_iff hshape]
  constructor
  · intro h
    exact ⟨⟨h.nodup, h.primary⟩, h.flag⟩
  · rintro ⟨⟨hnodup, hprimary⟩, hflag⟩
    refine ⟨hnodup, hprimary, hshape.none, fun gid hgid => ?_, hflag⟩
    have hin := hshape.gadmin gid hgid
    exact (hasGID_iff fun h => groups_ne hshape.secondary (h ▸ hin)).mpr hin

/-- A list that is taken as it is repeats no new group, and a group admin stays in one of the groups he
is an admin of. -/
def Keeps (user : User) (op : GroupOp) : Prop :=
  op.Fresh user.groups ∧ (user.gadminGids = [] ∨ ∃ gid ∈ user.gadminGids, op.keeps gid = true)

instance (user : User) (op : GroupOp) : Decidable (Keeps user op) :=
  inferInstanceAs (Decidable (_ ∧ _))

theorem flagAgrees_onUser {user : User} (hshape : Shape user) (hagrees : FlagAgrees user) {op : GroupOp}
    (hgids : (-1 : GroupID) ∉ op.gids) (hlists : op.Lists) :
    FlagAgrees (op.onUser user) ↔ user.gadminGids = [] ∨ ∃ gid ∈ user.gadminGids, op.keeps gid = true := by
  have hsame : (op.onUser user).hasFlag .Gadmin = user.hasFlag .Gadmin := by
    rw [User.hasFlag, User.hasFlag, onUser_flags user hlists]
  have hhas : user.hasFlag .Gadmin = true ↔ user.gadminGids ≠ [] := hagrees
  rw [FlagAgrees, hsame, onUser_gadminGids hshape hgids hlists, hhas, ne_eq, ne_eq, List.filter_eq_nil_iff]
  by_cases hempty : user.gadminGids = []
  · simp [hempty]
  · simp [hempty]

theorem step_keeps_iff (user : User) (op : GroupOp) (h : Membership user ∧ Shape user)
    (hgids : (-1 : GroupID) ∉ op.gids) :
    (∀ user', op.step user = some user' → Membership user' ∧ Shape user') ↔ Keeps user op := by
  obtain ⟨hmember, hshape⟩ := h
  obtain ⟨hnodup, hagrees⟩ := (membership_iff hshape).mp hmember
  rcases lists_or_toggle op with hlists | ⟨gid, rfl⟩
  · have hstep : op.step user = some (op.onUser user) := by
      cases op with
      | toggleGadminGID gid => exact absurd hlists (fun h => h)
      | _ => rfl
    have hshape' := step_shape hshape hgids hstep
    simp only [hstep, Option.some.injEq, forall_eq', and_iff_left hshape']
    rw [membership_iff hshape', onUser_groups hshape hgids, op.nodup_onGroups hnodup,
      flagAgrees_onUser hshape hagrees hgids hlists, Keeps]
  · refine iff_of_true (fun user' h => ?_) ⟨trivial, ?_⟩
    · have hshape' := step_shape hshape hgids h
      obtain ⟨rfl, -⟩ := step_inv h
      refine ⟨(membership_iff hshape').mpr ⟨?_, (toggleGadminGID_spec gid hshape.flag).2.1 hagrees⟩, hshape'⟩
      rw [onUser_groups hshape hgids]
      exact hnodup
    · rcases List.eq_nil_or_concat user.gadminGids with hempty | ⟨gids, g, hgadmin⟩
      · exact .inl hempty
      · exact .inr ⟨g, by simp [hgadmin], rfl⟩

/-- A user without groups, and without the flag of a group admin. -/
structure NoGroups (user : User) : Prop where
  primary : user.primaryGid = -1
  secondary : user.secondaryGids = []
  gadmin : user.gadminGids = []
  flag : user.hasFlag .Gadmin = false

theorem NoGroups.shape {user : User} (h : NoGroups user) : Shape user where
  none := fun _ => h.secondary
  secondary := by simp [h.secondary]
  gadmin := by simp [h.gadmin]
  flag := by
    have : ¬ 0 < user.flags.count Flag.Gadmin.char := fun hpos => by
      rw [← hasFlag_count, h.flag] at hpos
      cases hpos
    omega

theorem NoGroups.membership {user : User} (h : NoGroups user) : Membership user := by
  refine (membership_iff h.shape).mpr ⟨?_, ?_⟩
  · rw [groups_eq_nil h.primary h.secondary]
    exact List.nodup_nil
  · simp [FlagAgrees, h.flag, h.gadmin]

/-- From a user without groups, where no argument is `-1`: the invariant holds after every operation
exactly where each finds what it needs. -/
theorem membership_iff_keeps {user : User} (hnone : NoGroups user) (ops : List GroupOp)
    (hgids : ∀ op ∈ ops, (-1 : GroupID) ∉ op.gids) :
    Always GroupOp.step Membership user ops ↔ Meets GroupOp.step Keeps user ops := by
  have hcongr : Always GroupOp.step Membership user ops ↔
      Always GroupOp.step (fun u => Membership u ∧ Shape u) user ops :=
    always_congr_of_forall (I := Shape) (fun _ _ _ hshape hop h => step_shape hshape hop h)
      (fun _ hshape => (and_iff_left hshape).symm) ops hgids hnone.shape
  rw [hcongr]
  exact always_iff_meets_of_forall step_keeps_iff ops hgids ⟨hnone.membership, hnone.shape⟩

/-- Groups 1 and 2, the second one's admin and no more, then 3 and 4. -/
theorem membership_chgrp :
    Always GroupOp.step Membership {} [.addGIDs [1, 2, 1], .toggleGadminGID 2, .delGIDs [1],
      .toggleGadminGID 2, .setGIDs [3, 4]] :=
  (membership_iff_keeps ⟨rfl, rfl, rfl, rfl⟩ _ (by decide)).mpr (by decide)

/-- A group admin of one group who leaves it: the set is empty and the flag is there. -/
theorem gadmin_leaves :
    ∃ user', run GroupOp.step {} [.addGIDs [1], .toggleGadminGID 1, .delGIDs [1]] = some user' ∧
      user'.gadminGids = [] ∧ user'.hasFlag .Gadmin = true ∧ ¬ Membership user' := by
  refine ⟨_, rfl, rfl, by decide, fun h => ?_⟩
  exact h.flag.mp (by decide) rfl

end Acl
end Ebftpd
