import Ebftpd.Cmd.Gadmin
import Ebftpd.Lib.Tally

/-!
# Ebftpd.Cmd.Limits

`CHANGE ratio` and `CHANGE wkly_allotment` of group admins (`src/cmd/site/change.cpp`) under the limits of their
groups. The limits mean what `GRPCHANGE` says of them (`src/cmd/site/grpchange.cpp`): of the slots, -1 is unlimited
and -2 disabled; of the size, 0 is unlimited. The command takes the users of its list one after the other and ends at
the first whom it does not change.

* `measure_save`: what one write does to a sum over the members of a group.
* `set_isOk_iff`: a change is made when its result is within the limits, in a regular state.
* `limits_run`: in every run of regular changes each is made just then, and the groups stay within their limits.
-/

namespace Ebftpd
namespace Cmd
namespace Limits

open Util Lib Acl Db SiteUser

/-! ## What a group's members have -/

/-- The value of the section without a name. -/
def isLeech (user : User) : Bool := user.ratio.contains ([], 0)

def hasAllotment (user : User) : Bool := user.weeklyAllotment.any fun kv => kv.1.isEmpty && decide (kv.2 > 0)

def allotments (user : User) : List Int := (user.weeklyAllotment.filter fun kv => kv.1.isEmpty).map Prod.snd

/-- A sum over the members of a group. -/
def measure (g : User → Int) (db : Database) (gid : GroupID) : Int :=
  (db.users.rows.map fun user => if user.primaryGid = gid then g user else 0).sum

/-- The default allotments of a group. -/
def allotted : Database → GroupID → Int := measure fun user => (allotments user).sum

theorem countP_members (p : User → Bool) (db : Database) (gid : GroupID) :
    ((db.users.rows.countP fun user => user.primaryGid == gid && p user : Nat) : Int) =
      measure (fun user => if p user then 1 else 0) db gid := by
  unfold measure
  induction db.users.rows with
  | nil => rfl
  | cons user rows ih =>
    rw [List.countP_cons, List.map_cons, List.sum_cons, ← ih]
    by_cases hgid : user.primaryGid = gid
    · simp only [hgid, beq_self_eq_true, Bool.true_and, if_true]
      split <;> omega
    · simp [hgid]

theorem numLeeches_eq (db : Database) (gid : GroupID) :
    (numLeeches db gid : Int) = measure (fun user => if isLeech user then 1 else 0) db gid :=
  countP_members isLeech db gid

theorem numAllotments_eq (db : Database) (gid : GroupID) :
    (numAllotments db gid : Int) = measure (fun user => if hasAllotment user then 1 else 0) db gid :=
  countP_members hasAllotment db gid

/-- Nobody in the group has an entry for the default section. -/
def NoAllotments (db : Database) (gid : GroupID) : Prop :=
  ∀ user ∈ db.users.rows, user.primaryGid = gid → allotments user = []

theorem allotted_eq (db : Database) (gid : GroupID) :
    ((db.users.rows.filter fun user => user.primaryGid == gid).flatMap allotments).sum = allotted db gid := by
  unfold allotted measure
  induction db.users.rows with
  | nil => rfl
  | cons user rows ih =>
    rw [List.filter_cons, List.map_cons, List.sum_cons, ← ih]
    by_cases hgid : user.primaryGid = gid
    · simp [hgid]
    · simp [hgid]

/-- `TotalAllotmentSize` is the sum, or -1 when nobody has an entry. -/
theorem totalAllotmentSize_eq (db : Database) (gid : GroupID) :
    NoAllotments db gid ∧ totalAllotmentSize db gid = -1 ∧ allotted db gid = 0 ∨
      ¬ NoAllotments db gid ∧ totalAllotmentSize db gid = allotted db gid := by
  have hnone : (db.users.rows.filter fun user => user.primaryGid == gid).flatMap allotments = [] ↔
      NoAllotments db gid := by
    simp [List.flatMap_eq_nil_iff, NoAllotments]
  have htotal : totalAllotmentSize db gid =
      if ((db.users.rows.filter fun user => user.primaryGid == gid).flatMap allotments).isEmpty then -1
      else ((db.users.rows.filter fun user => user.primaryGid == gid).flatMap allotments).foldl (· + ·) 0 := rfl
  by_cases h : NoAllotments db gid
  · have hnil := hnone.mpr h
    rw [← allotted_eq, htotal, hnil]
    exact .inl ⟨h, rfl, rfl⟩
  · rw [htotal, if_neg (by simpa using hnone.not.mpr h), ← List.sum_eq_foldl, allotted_eq]
    exact .inr ⟨h, rfl⟩

/-- One write, in a user's record, of a field that is not about names and groups. -/
theorem measure_save (g : User → Int) (db : Database) {user : User} {field : UserField}
    (hload : db.users.byId user.id = some user) (hfield : keepsGroup field = true) (gid : GroupID) :
    measure g (save db user.id field) gid =
      measure g db gid + if user.primaryGid = gid then g (field.set user) - g user else 0 := by
  rw [measure, save_rows db user.id (keepsGroup_name hfield),
    sum_map_changed User.id db.users.ids (Table.byId_mem hload), (set_keeps hfield user).1, ← measure]
  split <;> omega

/-! ## What a change makes of a record -/

/-- The keys of an unordered map are distinct. -/
def Proper (user : User) : Prop := (user.weeklyAllotment.map Prod.fst).Nodup

section Assign

variable {m : List (Str × Int)} {key : Str}

theorem any_key : (m.any fun kv => kv.1 == key) = true ↔ key ∈ m.map Prod.fst := by
  simp [List.any_eq_true]

theorem keys_replace (value : Int) :
    (m.map fun kv => if kv.1 == key then (key, value) else kv).map Prod.fst = m.map Prod.fst := by
  rw [List.map_map]
  refine List.map_congr_left fun kv _ => ?_
  rw [Function.comp_apply]
  split
  · rename_i hkey
    exact (beq_iff_eq.mp hkey).symm
  · rfl

theorem assign_nodup (h : (m.map Prod.fst).Nodup) (value : Int) : ((User.assign m key value).map Prod.fst).Nodup := by
  unfold User.assign
  split
  · rw [keys_replace]
    exact h
  · rename_i hnot
    rw [any_key] at hnot
    rw [List.map_append]
    refine List.nodup_append.mpr ⟨h, List.nodup_singleton _, fun a ha b hb hab => hnot ?_⟩
    have hkey : b = key := List.mem_singleton.mp hb
    rwa [← hkey, ← hab]

theorem lookup_assign (m : List (Str × Int)) (key : Str) (value : Int) :
    (User.assign m key value).lookup key = some value := by
  unfold User.assign
  split
  · rename_i hmem
    induction m with
    | nil => cases hmem
    | cons kv m ih =>
      rw [List.any_cons, Bool.or_eq_true] at hmem
      rw [List.map_cons]
      by_cases hkey : (kv.1 == key) = true
      · rw [if_pos hkey, List.lookup_cons, beq_self_eq_true]
      · have hne : (key == kv.1) = false := by
          rw [Bool.not_eq_true, beq_eq_false_iff_ne] at hkey
          exact beq_eq_false_iff_ne.mpr (Ne.symm hkey)
        rw [if_neg hkey, List.lookup_cons, hne]
        exact ih (hmem.resolve_left hkey)
  · rename_i hnot
    rw [any_key] at hnot
    induction m with
    | nil => simp
    | cons kv m ih =>
      rw [List.map_cons, List.mem_cons, not_or] at hnot
      rw [List.cons_append, List.lookup_cons, beq_eq_false_iff_ne.mpr hnot.1]
      exact ih hnot.2

/-- The key has the value and no other. -/
theorem mem_assign (m : List (Str × Int)) (key : Str) (value v : Int) :
    (key, v) ∈ User.assign m key value ↔ v = value := by
  unfold User.assign
  split
  · rename_i hmem
    obtain ⟨kv, hkv, hkey⟩ := List.any_eq_true.mp hmem
    constructor
    · intro h
      obtain ⟨kv', -, heq⟩ := List.mem_map.mp h
      split at heq
      · exact (Prod.mk.inj heq).2.symm
      · rename_i hne
        exact absurd (by rw [heq]; simp) hne
    · rintro rfl
      exact List.mem_map.mpr ⟨kv, hkv, if_pos hkey⟩
  · rename_i hnot
    rw [any_key] at hnot
    rw [List.mem_append, List.mem_singleton, or_iff_right fun h => hnot (List.mem_map_of_mem h)]
    exact ⟨fun h => (Prod.mk.inj h).2, fun h => by rw [h]⟩

/-- With distinct keys, the values of a key are the one a lookup finds. -/
theorem values_eq_lookup (h : (m.map Prod.fst).Nodup) :
    (m.filter fun kv => kv.1.isEmpty).map Prod.snd = (m.lookup []).toList := by
  induction m with
  | nil => rfl
  | cons kv m ih =>
    obtain ⟨k, v⟩ := kv
    rw [List.map_cons, List.nodup_cons] at h
    cases k with
    | nil =>
      have hrest : (m.filter fun kv => kv.1.isEmpty) = [] := by
        rw [List.filter_eq_nil_iff]
        intro kv hkv hempty
        exact h.1 (List.mem_map.mpr ⟨kv, hkv, List.isEmpty_iff.mp hempty⟩)
      rw [List.filter_cons_of_pos rfl, hrest]
      rfl
    | cons c k => exact ih h.2

end Assign

theorem allotments_eq {user : User} (h : Proper user) : allotments user = (user.weeklyAllotment.lookup []).toList :=
  values_eq_lookup h

theorem hasAllotment_eq (user : User) : hasAllotment user = (allotments user).any fun value => decide (value > 0) := by
  rw [allotments, List.any_map, List.any_filter]
  rfl

/-- What a user who is in order has, and what the sums count him for. -/
theorem allotments_cases {user : User} (h : Proper user) :
    allotments user = [] ∧ user.sectionWeeklyAllotment [] = 0 ∨
      allotments user = [user.sectionWeeklyAllotment []] := by
  rw [allotments_eq h, User.sectionWeeklyAllotment]
  cases user.weeklyAllotment.lookup [] with
  | none => exact .inl ⟨rfl, rfl⟩
  | some value => exact .inr rfl

theorem hasAllotment_iff {user : User} (h : Proper user) :
    hasAllotment user = true ↔ user.sectionWeeklyAllotment [] > 0 := by
  rw [hasAllotment_eq]
  rcases allotments_cases h with ⟨hnil, hzero⟩ | hone
  · simp [hnil, hzero]
  · simp [hone]

theorem allotments_sum {user : User} (h : Proper user) : (allotments user).sum = user.sectionWeeklyAllotment [] := by
  rcases allotments_cases h with ⟨hnil, hzero⟩ | hone
  · rw [hnil, hzero]
    rfl
  · rw [hone, List.sum_singleton]

/-- What a command sets for each of its users. -/
inductive Setting where
  | ratio (ratio : Int)
  | allotment (kBytes : Int)

namespace Setting

def field (user : User) : Setting → UserField
  | .ratio r => .ratio (user.setSectionRatio [] r).ratio
  | .allotment kBytes => .weeklyAllotment (user.setSectionWeeklyAllotment [] kBytes).weeklyAllotment

/-- What `CheckRatio` and `CheckWeeklyAllotment` return, for a group admin and the default section. -/
def set (site : Site) : Setting → Database → User → Except Str UserField
  | .ratio r => setRatio site true r
  | .allotment kBytes => setWeeklyAllotment site true [] kBytes

/-- The record with the setting. -/
def changed (user : User) (s : Setting) : User := (s.field user).set user

theorem keepsGroup_field (user : User) (s : Setting) : keepsGroup (s.field user) = true := by
  cases s with
  | ratio r => rfl
  | allotment kBytes => rfl

theorem set_ok {site : Site} {s : Setting} {db : Database} {user : User} {field : UserField}
    (h : s.set site db user = .ok field) : field = s.field user := by
  cases s with
  | ratio r =>
    simp only [set, setRatio] at h
    split at h
    · split at h
      · cases h
      · split at h
        · cases h
        · exact (Except.ok.inj h).symm
    · exact (Except.ok.inj h).symm
  | allotment kBytes =>
    simp only [set, setWeeklyAllotment] at h
    split at h
    · split at h
      · cases h
      · split at h
        · cases h
        · split at h
          · cases h
          · exact (Except.ok.inj h).symm
    · exact (Except.ok.inj h).symm

end Setting

theorem isLeech_ratio (user : User) (r : Int) : isLeech ((Setting.ratio r).changed user) = decide (r = 0) := by
  show (User.assign user.ratio [] r).contains ([], 0) = decide (r = 0)
  rw [Bool.eq_iff_iff, List.contains_iff_mem, mem_assign, decide_eq_true_iff, eq_comm]

theorem allotment_changed (user : User) (kBytes : Int) :
    ((Setting.allotment kBytes).changed user).sectionWeeklyAllotment [] = kBytes := by
  show ((User.assign user.weeklyAllotment [] kBytes).lookup []).getD 0 = kBytes
  rw [lookup_assign]
  rfl

theorem proper_changed {user : User} (h : Proper user) (s : Setting) : Proper (s.changed user) := by
  cases s with
  | ratio r => exact h
  | allotment kBytes => exact assign_nodup h kBytes

/-! ## The limits -/

/-- A number of slots: -1 is unlimited, -2 disabled. -/
def Fits (slots n : Int) : Prop := slots = -1 ∨ n ≤ max 0 slots

/-- A group within its limits; a maximum size of 0 is unlimited. -/
structure Within (db : Database) (group : Group) : Prop where
  leeches : Fits group.leechSlots (numLeeches db group.id)
  allotments : Fits group.allotmentSlots (numAllotments db group.id)
  size : group.maxAllotmentSize = 0 ∨ allotted db group.id ≤ group.maxAllotmentSize

/-- Where the checks of a change mean what the limits mean. -/
def Setting.Regular (db : Database) (user : User) (group : Group) : Setting → Prop
  | .ratio r => r = 0 →
      group.leechSlots ≠ -1 ∧ (isLeech user = true → (numLeeches db group.id : Int) < group.leechSlots)
  | .allotment kBytes => 0 ≤ user.sectionWeeklyAllotment [] ∧
      (0 < kBytes →
        (user.sectionWeeklyAllotment [] = 0 → group.allotmentSlots ≠ -1) ∧ group.maxAllotmentSize ≠ 0 ∧
          (NoAllotments db group.id → kBytes ≠ group.maxAllotmentSize + 1) ∧
          llongMin ≤ allotted db group.id - user.sectionWeeklyAllotment [] + kBytes ∧
          allotted db group.id - user.sectionWeeklyAllotment [] + kBytes ≤ llongMax)

section After

variable {db : Database} {user : User} (hload : db.users.byId user.id = some user)
include hload

/-- A write in a record of another group. -/
theorem measure_other (g : User → Int) (s : Setting) {gid : GroupID} (hgid : user.primaryGid ≠ gid) :
    measure g (save db user.id (s.field user)) gid = measure g db gid := by
  rw [measure_save g db hload (s.keepsGroup_field user), if_neg hgid, Int.add_zero]

theorem measure_own (g : User → Int) (s : Setting) :
    measure g (save db user.id (s.field user)) user.primaryGid =
      measure g db user.primaryGid + (g (s.changed user) - g user) := by
  rw [measure_save g db hload (s.keepsGroup_field user), if_pos rfl]
  rfl

theorem within_other {group : Group} (h : Within db group) (s : Setting) (hgid : user.primaryGid ≠ group.id) :
    Within (save db user.id (s.field user)) group where
  leeches := by
    rw [numLeeches_eq, measure_other hload _ s hgid, ← numLeeches_eq]
    exact h.leeches
  allotments := by
    rw [numAllotments_eq, measure_other hload _ s hgid, ← numAllotments_eq]
    exact h.allotments
  size := by
    rw [allotted, measure_other hload _ s hgid]
    exact h.size

/-- A new ratio counts for the leeches only. -/
theorem within_ratio {group : Group} (h : Within db group) (hgid : group.id = user.primaryGid) (r : Int) :
    Within (save db user.id ((Setting.ratio r).field user)) group ↔
      Fits group.leechSlots (numLeeches db group.id + ((if r = 0 then 1 else 0) - if isLeech user then 1 else 0)) := by
  have hleeches : (numLeeches (save db user.id ((Setting.ratio r).field user)) group.id : Int) =
      numLeeches db group.id + ((if r = 0 then 1 else 0) - if isLeech user then 1 else 0) := by
    rw [numLeeches_eq, numLeeches_eq, hgid, measure_own hload]
    simp only [isLeech_ratio, decide_eq_true_eq]
  have hallotments : numAllotments (save db user.id ((Setting.ratio r).field user)) group.id =
      numAllotments db group.id := by
    have hsame := measure_own hload (fun user => if hasAllotment user then 1 else 0) (.ratio r)
    rw [← numAllotments_eq, ← numAllotments_eq, ← hgid] at hsame
    have hkept : hasAllotment ((Setting.ratio r).changed user) = hasAllotment user := rfl
    rw [hkept] at hsame
    omega
  have hsize : allotted (save db user.id ((Setting.ratio r).field user)) group.id = allotted db group.id := by
    have hsame := measure_own hload (fun user => (allotments user).sum) (.ratio r)
    have hkept : allotments ((Setting.ratio r).changed user) = allotments user := rfl
    rw [hkept, ← hgid, Int.sub_self, Int.add_zero] at hsame
    exact hsame
  constructor
  · intro h'
    rw [← hleeches]
    exact h'.leeches
  · intro hfits
    refine ⟨hleeches ▸ hfits, ?_, ?_⟩
    · rw [hallotments]
      exact h.allotments
    · rw [hsize]
      exact h.size

/-- A new allotment counts for the allotments and their size. -/
theorem within_allotment {group : Group} (h : Within db group) (hproper : Proper user)
    (hgid : group.id = user.primaryGid) (kBytes : Int) :
    Within (save db user.id ((Setting.allotment kBytes).field user)) group ↔
      Fits group.allotmentSlots (numAllotments db group.id +
        ((if kBytes > 0 then 1 else 0) - if user.sectionWeeklyAllotment [] > 0 then 1 else 0)) ∧
      (group.maxAllotmentSize = 0 ∨
        allotted db group.id + (kBytes - user.sectionWeeklyAllotment []) ≤ group.maxAllotmentSize) := by
  have hchanged := proper_changed hproper (.allotment kBytes)
  have hleeches : numLeeches (save db user.id ((Setting.allotment kBytes).field user)) group.id =
      numLeeches db group.id := by
    have hsame := measure_own hload (fun user => if isLeech user then 1 else 0) (.allotment kBytes)
    rw [← numLeeches_eq, ← numLeeches_eq, ← hgid] at hsame
    have hkept : isLeech ((Setting.allotment kBytes).changed user) = isLeech user := rfl
    rw [hkept] at hsame
    omega
  have hallotments : (numAllotments (save db user.id ((Setting.allotment kBytes).field user)) group.id : Int) =
      numAllotments db group.id +
        ((if kBytes > 0 then 1 else 0) - if user.sectionWeeklyAllotment [] > 0 then 1 else 0) := by
    rw [numAllotments_eq, numAllotments_eq, hgid, measure_own hload]
    simp only [hasAllotment_iff hchanged, hasAllotment_iff hproper, allotment_changed]
  have hsize : allotted (save db user.id ((Setting.allotment kBytes).field user)) group.id =
      allotted db group.id + (kBytes - user.sectionWeeklyAllotment []) := by
    rw [allotted, hgid, measure_own hload, allotments_sum hchanged, allotments_sum hproper, allotment_changed]
  constructor
  · intro h'
    rw [← hallotments, ← hsize]
    exact ⟨h'.allotments, h'.size⟩
  · rintro ⟨hfits, hmax⟩
    refine ⟨?_, hallotments ▸ hfits, hsize ▸ hmax⟩
    rw [hleeches]
    exact h.leeches

end After

theorem isOk_ite {ε α : Type} (p : Prop) [Decidable p] (e : ε) (r : Except ε α) :
    (if p then Except.error e else r).isOk = true ↔ ¬ p ∧ r.isOk = true := by
  split
  · rename_i h
    exact iff_of_false (by simp [Except.isOk, Except.toBool]) fun h' => h'.1 h
  · rename_i h
    exact (and_iff_right h).symm

/-- The test of the size asks for the sum that would be there, where the query answers with it. -/
theorem exceeds_iff {db : Database} {user : User} {gid : GroupID} {size kBytes : Int}
    (hload : db.users.byId user.id = some user) (hgid : gid = user.primaryGid) (hproper : Proper user)
    (hk : kBytes > 0) (hfirst : NoAllotments db gid → kBytes ≠ size + 1)
    (hbounds : llongMin ≤ allotted db gid - user.sectionWeeklyAllotment [] + kBytes ∧
      allotted db gid - user.sectionWeeklyAllotment [] + kBytes ≤ llongMax) :
    wrap64 (totalAllotmentSize db gid - user.sectionWeeklyAllotment [] + kBytes) > size ↔
      allotted db gid + (kBytes - user.sectionWeeklyAllotment []) > size := by
  rcases totalAllotmentSize_eq db gid with ⟨hnone, htotal, hzero⟩ | ⟨-, htotal⟩
  · -- the query answers -1, and the user has none either
    have huser := hnone user (Table.byId_mem hload) hgid.symm
    have hcurrent : user.sectionWeeklyAllotment [] = 0 := by
      rcases allotments_cases hproper with ⟨-, hcurrent⟩ | hone
      · exact hcurrent
      · rw [hone] at huser
        cases huser
    have hfirst := hfirst hnone
    rw [hzero, hcurrent] at hbounds
    simp only [llongMin, llongMax] at hbounds
    rw [htotal, hzero, hcurrent, wrap64_of_bounds (by simp only [llongMin, llongMax]; omega)]
    omega
  · rw [htotal, wrap64_of_bounds hbounds]
    omega

/-- In a regular state a change is made just when the group stays within its limits. -/
theorem set_isOk_iff {site : Site} {db : Database} {user : User} {group : Group} {s : Setting}
    (hload : db.users.byId user.id = some user) (hgroup : db.groups.byId user.primaryGid = some group)
    (hproper : Proper user) (h : Within db group) (hregular : s.Regular db user group) :
    (s.set site db user).isOk = true ↔ Within (save db user.id (s.field user)) group := by
  have hgid := Table.byId_id hgroup
  have hok : ∀ field : UserField, (Except.ok field : Except Str UserField).isOk = true := fun _ => rfl
  cases s with
  | ratio r =>
    have hleeches := h.leeches
    rw [within_ratio hload h hgid]
    unfold Fits at hleeches ⊢
    simp only [Setting.set, setRatio, hgroup]
    by_cases hr : r = 0
    · obtain ⟨hslots, hleech⟩ := hregular hr
      rw [if_pos ⟨trivial, hr⟩, if_pos hr, isOk_ite]
      simp only [hok, and_true]
      by_cases huser : isLeech user = true
      · -- a leech stays one
        have hfree := hleech huser
        rw [if_pos huser]
        omega
      · rw [if_neg huser]
        omega
    · rw [if_neg fun h => hr h.2, if_neg hr]
      refine iff_of_true (hok _) ?_
      split <;> omega
  | allotment kBytes =>
    have hallotments := h.allotments
    have hsize := h.size
    obtain ⟨hcurrent, hpositive⟩ := hregular
    rw [within_allotment hload h hproper hgid]
    unfold Fits at hallotments ⊢
    simp only [Setting.set, setWeeklyAllotment, hgroup]
    by_cases hk : kBytes > 0
    · obtain ⟨hslots, hmax, hfirst, hbounds⟩ := hpositive hk
      rw [if_pos ⟨trivial, hk⟩, if_pos hk, isOk_ite, isOk_ite]
      simp only [hok, and_true]
      rw [exceeds_iff hload hgid hproper hk hfirst hbounds]
      by_cases hzero : user.sectionWeeklyAllotment [] = 0
      · have hslots := hslots hzero
        rw [if_neg (by omega)]
        omega
      · -- one who has an allotment keeps it
        rw [if_pos (by omega)]
        omega
    · -- no more than before, of anything
      rw [if_neg fun h => hk h.2, if_neg hk]
      refine iff_of_true (hok _) ⟨?_, ?_⟩
      · split <;> omega
      · omega

/-! ## The commands -/

/-- The change of one user. -/
structure Attempt where
  db : Database
  user : User
  setting : Setting
  applied : Bool
  /-- The command ended at a user before him. -/
  barred : Bool

/-- What the loop of `CHANGE` tries, with the users it does not come to. -/
def attempts (site : Site) (s : Setting) : List UserID → Database → List Attempt × Database
  | [], db => ([], db)
  | uid :: uids, db =>
    match db.users.byId uid with
    | none => attempts site s uids db
    | some user =>
      match s.set site db user with
      | .error _ =>
        (⟨db, user, s, false, false⟩ :: (uids.filterMap db.users.byId).map fun user => ⟨db, user, s, false, true⟩, db)
      | .ok field =>
        let r := attempts site s uids (save db uid field)
        (⟨db, user, s, true, false⟩ :: r.1, r.2)

theorem attempts_db (site : Site) (s : Setting) (uids : List UserID) :
    ∀ db, (attempts site s uids db).2 = (changeLoop (s.set site) uids db).2.2 := by
  induction uids with
  | nil => exact fun db => rfl
  | cons uid uids ih =>
    intro db
    rw [attempts, changeLoop]
    cases db.users.byId uid with
    | none => exact ih db
    | some user =>
      simp only
      cases s.set site db user with
      | error text => rfl
      | ok field => exact ih _

/-- `SITE CHANGE <user(s)> <setting> <value>`. -/
structure Order where
  site : Site
  multiStr : Str
  setting : Str
  value : Str

namespace Order

variable (o : Order)

/-- A group admin changes a ratio or an allotment for the default section. -/
structure Gadmin : Prop where
  gadmin : o.site.gadmin "change".toList = true
  setting : toLowerCopy o.setting = "ratio".toList ∨ toLowerCopy o.setting = "wkly_allotment".toList

def execute (db : Database) : Database := (change o.site o.multiStr o.setting o.value [] db).db

/-- What the value stands for. -/
def parse (db : Database) : Option Setting :=
  if toLowerCopy o.setting = "ratio".toList then
    (SiteUser.strToInt o.value).bind fun r =>
      if r = -1 then (db.users.byName "default".toList).map fun user => .ratio user.defaultRatio
      else some (.ratio r)
  else (Cfg.parseSize o.value).map .allotment

/-- The users of an order that passes the checks. -/
def uids (db : Database) : List UserID :=
  let uids := (getUsers o.site o.multiStr db).map User.id
  if (checkChange o.site o.setting o.value [] db).isOk &&
      uids.all fun uid => o.site.user.hasGadminGID (o.site.users.uidToPrimaryGID uid) then uids
  else []

def attempts (db : Database) : List Attempt :=
  match o.parse db with
  | some s => (Limits.attempts o.site s (o.uids db) db).1
  | none => []

end Order

theorem checkRatio_gadmin {o : Order} (h : o.Gadmin) {db : Database} {c : SiteUser.Change}
    (hratio : toLowerCopy o.setting = "ratio".toList) (hcheck : checkRatio o.site o.value db = .ok c) :
    c.gadmin = true ∧ ∃ s, o.parse db = some s ∧ c.set = s.set o.site := by
  rw [Order.parse, if_pos hratio]
  unfold checkRatio at hcheck
  rw [h.gadmin] at hcheck
  cases hvalue : SiteUser.strToInt o.value with
  | none =>
    rw [hvalue] at hcheck
    cases hcheck
  | some r =>
    rw [hvalue] at hcheck
    simp only [Option.bind_some] at hcheck ⊢
    split at hcheck
    · cases hcheck
    · split at hcheck
      · cases hcheck
      · split at hcheck
        · rename_i hdefault
          rw [if_pos hdefault]
          split at hcheck
          · cases hcheck
          · rename_i user huser
            cases hcheck
            exact ⟨rfl, .ratio user.defaultRatio, by rw [huser]; rfl, rfl⟩
        · rename_i hdefault
          rw [if_neg hdefault]
          split at hcheck
          · cases hcheck
          · cases hcheck
            exact ⟨rfl, .ratio r, rfl, rfl⟩

theorem checkWeeklyAllotment_gadmin {o : Order} (h : o.Gadmin) {db : Database} {c : SiteUser.Change}
    (hratio : toLowerCopy o.setting ≠ "ratio".toList) (hcheck : checkWeeklyAllotment o.site o.value [] = .ok c) :
    c.gadmin = true ∧ ∃ s, o.parse db = some s ∧ c.set = s.set o.site := by
  have hset : ∀ kBytes, setWeeklyAllotment o.site (o.site.gadmin "change".toList) (allotmentSection []) kBytes =
      (Setting.allotment kBytes).set o.site := by
    intro kBytes
    rw [h.gadmin]
    rfl
  rw [Order.parse, if_neg hratio]
  unfold checkWeeklyAllotment at hcheck
  split at hcheck
  · cases hcheck
  · rename_i kBytes hvalue
    obtain rfl := Except.ok.inj hcheck
    exact ⟨h.gadmin, .allotment kBytes, by rw [hvalue]; rfl, hset kBytes⟩

/-- A check that is passed gives the setting of the value. -/
theorem checkChange_gadmin {o : Order} (h : o.Gadmin) {db : Database} {c : SiteUser.Change}
    (hcheck : checkChange o.site o.setting o.value [] db = .ok c) :
    c.gadmin = true ∧ ∃ s, o.parse db = some s ∧ c.set = s.set o.site := by
  unfold checkChange at hcheck
  simp only at hcheck
  split at hcheck
  · cases hcheck
  · split at hcheck
    · cases hcheck
    · split at hcheck
      · cases hcheck
      · split at hcheck
        · rename_i hratio
          exact checkRatio_gadmin h hratio hcheck
        · rename_i hratio
          rw [if_pos (h.setting.resolve_left hratio)] at hcheck
          exact checkWeeklyAllotment_gadmin h hratio hcheck

/-- The attempts are those of the command. -/
theorem execute_eq {o : Order} (h : o.Gadmin) (db : Database) :
    o.attempts db = [] ∧ o.execute db = db ∨
      ∃ s, o.attempts db = (attempts o.site s (o.uids db) db).1 ∧
        o.execute db = (attempts o.site s (o.uids db) db).2 := by
  unfold Order.execute change
  cases hcheck : checkChange o.site o.setting o.value [] db with
  | error reply =>
    have huids : o.uids db = [] := by
      rw [Order.uids, hcheck]
      rfl
    refine .inl ⟨?_, rfl⟩
    rw [Order.attempts, huids]
    split <;> rfl
  | ok c =>
    obtain ⟨hgadmin, s, hparse, hset⟩ := checkChange_gadmin h hcheck
    refine .inr ⟨s, by rw [Order.attempts, hparse], ?_⟩
    have huids : o.uids db =
        if ((getUsers o.site o.multiStr db).map User.id).all fun uid =>
          o.site.user.hasGadminGID (o.site.users.uidToPrimaryGID uid) then (getUsers o.site o.multiStr db).map User.id
        else [] := by
      rw [Order.uids, hcheck]
      rfl
    rw [attempts_db, ← hset, huids]
    generalize (getUsers o.site o.multiStr db).map User.id = uids
    simp only
    split
    · rename_i hempty
      rw [List.isEmpty_iff.mp hempty]
      split <;> rfl
    · have hany : (c.gadmin && uids.any fun uid => !o.site.user.hasGadminGID (o.site.users.uidToPrimaryGID uid)) =
          !uids.all fun uid => o.site.user.hasGadminGID (o.site.users.uidToPrimaryGID uid) := by
        rw [hgadmin, Bool.true_and, List.not_all_eq_any_not]
      rw [hany]
      cases uids.all fun uid => o.site.user.hasGadminGID (o.site.users.uidToPrimaryGID uid) with
      | true => rfl
      | false => rfl

/-- One order after the other, with what each attempts. -/
def run : List Order → Database → List Attempt × Database
  | [], db => ([], db)
  | o :: orders, db =>
    let r := run orders (o.execute db)
    (o.attempts db ++ r.1, r.2)

/-! ## Runs -/

/-- Every group is within its limits. -/
structure InOrder (db : Database) : Prop where
  proper : ∀ user ∈ db.users.rows, Proper user
  within : ∀ group ∈ db.groups.rows, Within db group

/-- The change is made just when the group of the user stays within its limits. -/
def Attempt.Exact (a : Attempt) : Prop :=
  ∀ group, a.db.groups.byId a.user.primaryGid = some group →
    (a.applied = true ↔ Within (save a.db a.user.id (a.setting.field a.user)) group)

def Attempt.Regular (a : Attempt) : Prop :=
  a.barred = false ∧
    ∀ group, a.db.groups.byId a.user.primaryGid = some group → a.setting.Regular a.db a.user group

theorem save_proper {db : Database} (h : ∀ user ∈ db.users.rows, Proper user) {user : User}
    (hload : db.users.byId user.id = some user) (s : Setting) :
    ∀ u ∈ (save db user.id (s.field user)).users.rows, Proper u := by
  intro u hu
  rw [save_rows db user.id (keepsGroup_name (s.keepsGroup_field user))] at hu
  obtain ⟨u', hu', rfl⟩ := List.mem_map.mp hu
  split
  · rename_i hid
    have hsame : u' = user := by
      have hfound := Table.byId_eq_some.mpr ⟨hu', hid⟩
      rw [hload] at hfound
      exact (Option.some.inj hfound).symm
    rw [hsame]
    exact proper_changed (h user (Table.byId_mem hload)) s
  · exact h u' hu'

/-- A change that is made in a regular state keeps every group within its limits. -/
theorem save_inOrder {site : Site} {db : Database} (h : InOrder db) {user : User} {s : Setting}
    (hload : db.users.byId user.id = some user) (hok : (s.set site db user).isOk = true)
    (hregular : ∀ group, db.groups.byId user.primaryGid = some group → s.Regular db user group) :
    InOrder (save db user.id (s.field user)) where
  proper := save_proper h.proper hload s
  within := by
    intro group hgroup
    rw [save_groups] at hgroup
    by_cases hgid : user.primaryGid = group.id
    · have hfound := Table.byId_eq_some.mpr ⟨hgroup, hgid.symm⟩
      exact (set_isOk_iff hload hfound (h.proper user (Table.byId_mem hload)) (h.within group hgroup)
        (hregular group hfound)).mp hok
    · exact within_other hload (h.within group hgroup) s hgid

theorem attempts_inOrder (site : Site) (s : Setting) (uids : List UserID) :
    ∀ {db : Database}, InOrder db → (∀ a ∈ (attempts site s uids db).1, a.Regular) →
      (∀ a ∈ (attempts site s uids db).1, a.Exact ∧ InOrder a.db) ∧ InOrder (attempts site s uids db).2 := by
  induction uids with
  | nil => exact fun h _ => ⟨by simp [attempts], h⟩
  | cons uid uids ih =>
    intro db h hregular
    rw [attempts] at hregular ⊢
    cases hload : db.users.byId uid with
    | none =>
      rw [hload] at hregular
      exact ih h hregular
    | some user =>
      obtain rfl := Table.byId_id hload
      rw [hload] at hregular
      simp only at hregular ⊢
      have hexact : ∀ hregular : ∀ group, db.groups.byId user.primaryGid = some group → s.Regular db user group,
          ∀ group, db.groups.byId user.primaryGid = some group →
            ((s.set site db user).isOk = true ↔ Within (save db user.id (s.field user)) group) := by
        intro hregular group hgroup
        exact set_isOk_iff hload hgroup (h.proper user (Table.byId_mem hload))
          (h.within group (Table.byId_mem hgroup)) (hregular group hgroup)
      cases hset : s.set site db user with
      | error text =>
        rw [hset] at hregular hexact
        refine ⟨fun a ha => ?_, h⟩
        rcases List.mem_cons.mp ha with rfl | hbarred
        · exact ⟨hexact (hregular _ List.mem_cons_self).2, h⟩
        · -- the users behind him are not in the run
          have hfalse := (hregular a (List.mem_cons_of_mem _ hbarred)).1
          obtain ⟨u, -, rfl⟩ := List.mem_map.mp hbarred
          cases hfalse
      | ok field =>
        have hfield := Setting.set_ok hset
        rw [hset] at hregular hexact
        have hown := (hregular _ List.mem_cons_self).2
        have hnext := save_inOrder h hload (by rw [hset]; rfl) hown
        rw [← hfield] at hnext
        obtain ⟨hrest, hlast⟩ := ih hnext fun a ha => hregular a (List.mem_cons_of_mem _ ha)
        refine ⟨fun a ha => ?_, hlast⟩
        rcases List.mem_cons.mp ha with rfl | ha
        · exact ⟨hexact hown, h⟩
        · exact hrest a ha

/-- In a run of regular changes each is made just when the limits allow it, and no group ever exceeds them. -/
theorem limits_run (orders : List Order) :
    ∀ db : Database, (∀ o ∈ orders, o.Gadmin) → InOrder db → (∀ a ∈ (run orders db).1, a.Regular) →
      (∀ a ∈ (run orders db).1, a.Exact ∧ InOrder a.db) ∧ InOrder (run orders db).2 := by
  induction orders with
  | nil => exact fun db _ h _ => ⟨by simp [run], h⟩
  | cons o orders ih =>
    intro db hgadmin h hregular
    simp only [run, List.forall_mem_append] at hregular ⊢
    obtain ⟨hown, hrest⟩ := hregular
    have hstep : (∀ a ∈ o.attempts db, a.Exact ∧ InOrder a.db) ∧ InOrder (o.execute db) := by
      rcases execute_eq (hgadmin o List.mem_cons_self) db with ⟨hnone, hsame⟩ | ⟨s, hattempts, hexecute⟩
      · rw [hnone, hsame]
        exact ⟨by simp, h⟩
      · rw [hattempts] at hown ⊢
        rw [hexecute]
        exact attempts_inOrder o.site s (o.uids db) h hown
    obtain ⟨hlater, hlast⟩ := ih (o.execute db) (fun o ho => hgadmin o (List.mem_cons_of_mem _ ho)) hstep.2 hrest
    exact ⟨⟨hstep.1, hlater⟩, hlast⟩

/-! ## A group with one member -/

instance (slots n : Int) : Decidable (Fits slots n) := inferInstanceAs (Decidable (_ ∨ _))

def exampleGroup (leechSlots : Int) : Group :=
  { id := 3, name := "leech".toList, leechSlots := leechSlots, allotmentSlots := 5, maxAllotmentSize := 100 }

def exampleMembers (leechSlots : Int) : Database where
  users := exampleUsers.users
  groups :=
    { rows := [{ id := 0, name := "staff".toList }, exampleGroup leechSlots]
      ids := show [(0 : Int), 3].Nodup by decide
      names := show ["staff".toList, "leech".toList].Nodup by decide }
  uids := exampleUsers.uids
  gids := show ∀ gid ∈ [(0 : Int), 3], 0 ≤ gid by decide

/-- Carol changes a setting of dave, who is in leech. -/
def exampleOrder (setting value : String) : Order where
  site :=
    { exampleSite with
      cfg := { exampleSite.cfg with commandACLs := [("changegadmin".toList, ACL.fromString "*".toList)] } }
  multiStr := "dave".toList
  setting := setting.toList
  value := value.toList

theorem exampleMembers_inOrder {leechSlots : Int} (h : Fits leechSlots 0) : InOrder (exampleMembers leechSlots) where
  proper := by
    intro user huser
    have hall : ∀ user ∈ exampleUsers.users.rows, (user.weeklyAllotment.map Prod.fst).Nodup := by decide
    exact hall user huser
  within := by
    intro group hgroup
    rcases List.mem_cons.mp hgroup with rfl | hgroup
    · have hstaff : Fits (-2) (numLeeches exampleUsers 0) ∧ Fits (-2) (numAllotments exampleUsers 0) := by decide
      exact ⟨hstaff.1, hstaff.2, .inl rfl⟩
    · have hleech : Fits 5 (numAllotments exampleUsers 3) ∧ allotted exampleUsers 3 ≤ 100 := by decide
      rw [List.mem_singleton.mp hgroup]
      exact ⟨h, hleech.1, .inr hleech.2⟩

theorem exampleOrder_gadmin {setting : String} (value : String) (h : gadminSetting setting.toList = true) :
    (exampleOrder setting value).Gadmin where
  gadmin := show (exampleOrder "ratio" "0").site.gadmin "change".toList = true by decide
  setting := by
    simp only [gadminSetting, Bool.or_eq_true, beq_iff_eq] at h
    exact h

/-- A ratio of 0 with one leech slot free. -/
theorem limits_run_leech :
    let r := run [exampleOrder "ratio" "0"] (exampleMembers 1)
    r.1.map (·.applied) = [true] ∧ InOrder r.2 := by
  intro r
  have hattempts : r.1 = [⟨exampleMembers 1, { id := 5, name := "dave".toList, primaryGid := 3 }, .ratio 0, true,
    false⟩] := rfl
  have hlimits := limits_run [exampleOrder "ratio" "0"] (exampleMembers 1)
    (fun o ho => List.mem_singleton.mp ho ▸ exampleOrder_gadmin "0" (by decide))
    (exampleMembers_inOrder (by decide)) (by
      intro a ha
      rw [show a = _ from List.mem_singleton.mp (hattempts ▸ ha)]
      refine ⟨rfl, fun group hgroup _ => ?_⟩
      rw [← Option.some.inj (show some _ = some group from hgroup)]
      exact ⟨by decide, by decide⟩)
  exact ⟨by rw [hattempts]; rfl, hlimits.2⟩

/-- With unlimited leech slots a ratio of 0 is refused, and a first allotment exceeds the maximum size by one. -/
theorem limits_broken :
    (InOrder (exampleMembers (-1)) ∧ (exampleOrder "ratio" "0").Gadmin ∧
        ∃ a ∈ (run [exampleOrder "ratio" "0"] (exampleMembers (-1))).1, ¬ a.Exact) ∧
      InOrder (exampleMembers 0) ∧ (exampleOrder "wkly_allotment" "101").Gadmin ∧
        ¬ InOrder (run [exampleOrder "wkly_allotment" "101"] (exampleMembers 0)).2 := by
  refine ⟨⟨exampleMembers_inOrder (by decide), exampleOrder_gadmin "0" (by decide), ?_⟩,
    exampleMembers_inOrder (by decide), exampleOrder_gadmin "101" (by decide), fun h => ?_⟩
  · refine ⟨⟨exampleMembers (-1), { id := 5, name := "dave".toList, primaryGid := 3 }, .ratio 0, false, false⟩,
      List.mem_singleton.mpr rfl, fun h => ?_⟩
    have hexact := h (exampleGroup (-1)) rfl
    exact absurd (hexact.mpr ⟨.inl rfl, by decide, by decide⟩) (by decide)
  · have hsize := (h.within (exampleGroup 0) (by decide)).size
    revert hsize
    decide

end Limits
end Cmd
end Ebftpd
