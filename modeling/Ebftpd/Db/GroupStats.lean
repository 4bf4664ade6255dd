import Mathlib.Data.List.Induction
import Mathlib.Tactic.Linarith
import Ebftpd.Stats.Stat

/-!
# Ebftpd.Db.GroupStats

The statistics of groups from those of users (`RetrieveGroups` in `src/db/stats/stats.cpp`). Each user's amounts
go to the entry of his primary group in a hash map, and the entries of the map are inserted into a sorted list
one by one. A user who is not loaded counts for `acl::GroupID()`, the number 0, which is the group the server
creates first.

* `accumulate_value`: what the map holds for a group.
* `insertBy_sorted`, `retrieveGroups_perm`: the list is the map's entries in order.
* `partition_iff`: when a group's entry is that of its members.
-/

namespace Ebftpd
namespace Db
namespace Stats

open Util Lib Lib.Cells Acl Ebftpd.Stats

/-- The order in which an unordered map is gone through. -/
structure HashOrder where
  order : List Stat → List Stat
  perm : ∀ l, (order l).Perm l

/-- The comparison for a sort field. -/
def greater (sf : SortField) (s₁ s₂ : Stat) : Bool :=
  match sf with
  | .Files => decide (s₁.files > s₂.files)
  | .KBytes => decide (s₁.kBytes > s₂.kBytes)
  | .Speed => decide (speed s₁.toAmounts > speed s₂.toAmounts)

/-- `lower_bound` and the insertion: behind all that are greater. -/
def insertBy (sf : SortField) (groups : List Stat) (s : Stat) : List Stat :=
  groups.takeWhile (greater sf · s) ++ s :: groups.dropWhile (greater sf · s)

variable (load : UserID → Option User)

/-- The group a user's amounts go to. -/
def ugid (u : Stat) : GroupID :=
  match load u.id with
  | some user => user.primaryGid
  | none => 0

/-- Whether a group is asked for. -/
def wanted (gid : Option GroupID) (id : GroupID) : Bool := gid.all (· == id)

/-- The loop over the users. -/
def accumulate (gid : Option GroupID) (users : List Stat) : List (GroupID × Amounts) :=
  users.foldl (fun stats u =>
    if !wanted gid (ugid load u) then stats else upsert (ugid load u) u.toAmounts stats) []

def statOf (e : GroupID × Amounts) : Stat := ⟨e.2, e.1⟩

def retrieveGroups (map : HashOrder) (sortField : Option SortField) (gid : Option GroupID) (users : List Stat) :
    List Stat :=
  let entries := map.order ((accumulate load gid users).map statOf)
  match sortField with
  | some sf => entries.foldl (insertBy sf) []
  | none => entries

/-! ## The order of the list -/

section Order

variable (sf : SortField)

theorem greater_trans {s₁ s₂ s₃ : Stat} (h : greater sf s₂ s₁ = false) (h' : greater sf s₃ s₂ = false) :
    greater sf s₃ s₁ = false := by
  cases sf with
  | Files =>
    simp only [greater, decide_eq_false_iff_not, not_lt] at *
    exact h'.trans h
  | KBytes =>
    simp only [greater, decide_eq_false_iff_not, not_lt] at *
    exact h'.trans h
  | Speed =>
    simp only [greater, decide_eq_false_iff_not, not_lt] at *
    exact h'.trans h

theorem greater_asymm {s₁ s₂ : Stat} (h : greater sf s₁ s₂ = true) : greater sf s₂ s₁ = false := by
  cases sf with
  | Files =>
    simp only [greater, decide_eq_false_iff_not, decide_eq_true_eq, not_lt] at *
    exact h.le
  | KBytes =>
    simp only [greater, decide_eq_false_iff_not, decide_eq_true_eq, not_lt] at *
    exact h.le
  | Speed =>
    simp only [greater, decide_eq_false_iff_not, decide_eq_true_eq, not_lt] at *
    exact h.le

/-- No entry is greater than one in front of it. -/
def Falling (groups : List Stat) : Prop := groups.Pairwise fun a b => greater sf b a = false

theorem insertBy_perm (groups : List Stat) (s : Stat) : (insertBy sf groups s).Perm (s :: groups) := by
  have hsplit := List.takeWhile_append_dropWhile (p := (greater sf · s)) (l := groups)
  conv_rhs => rw [← hsplit]
  exact List.perm_middle

theorem insertBy_sorted {groups : List Stat} (h : Falling sf groups) (s : Stat) :
    Falling sf (insertBy sf groups s) := by
  induction groups with
  | nil => exact List.pairwise_singleton _ s
  | cons g groups ih =>
    obtain ⟨hg, hrest⟩ := List.pairwise_cons.mp h
    unfold insertBy
    cases hgreater : greater sf g s with
    | true =>
      simp only [List.takeWhile_cons, List.dropWhile_cons, hgreater, if_true]
      refine List.pairwise_cons.mpr ⟨fun b hb => ?_, ih hrest⟩
      rcases List.mem_cons.mp ((insertBy_perm sf groups s).mem_iff.mp hb) with rfl | hb
      · exact greater_asymm sf hgreater
      · exact hg b hb
    | false =>
      simp only [List.takeWhile_cons, List.dropWhile_cons, hgreater, Bool.false_eq_true, if_false]
      refine List.pairwise_cons.mpr ⟨fun b hb => ?_, h⟩
      rcases List.mem_cons.mp hb with rfl | hb
      · exact hgreater
      · exact greater_trans sf hgreater (hg b hb)

theorem foldl_insertBy (entries : List Stat) :
    ∀ {groups : List Stat}, Falling sf groups → Falling sf (entries.foldl (insertBy sf) groups) ∧
      (entries.foldl (insertBy sf) groups).Perm (entries ++ groups) := by
  induction entries with
  | nil => exact fun h => ⟨h, List.Perm.refl _⟩
  | cons s entries ih =>
    intro groups h
    obtain ⟨hfalling, hperm⟩ := ih (insertBy_sorted sf h s)
    exact ⟨hfalling, hperm.trans ((insertBy_perm sf groups s).append_left entries |>.trans List.perm_middle)⟩

end Order

/-! ## The entries -/

/-- The users of a group, and those who are there no more. -/
def members (users : List Stat) (id : GroupID) : List Stat :=
  users.filter fun u => (load u.id).any (·.primaryGid == id)

def purged (users : List Stat) : List Stat := users.filter fun u => (load u.id).isNone

theorem ugid_sums (users : List Stat) (id : GroupID) :
    sums (users.filter fun u => ugid load u == id) =
      sums (members load users id) + if id = 0 then sums (purged load users) else 0 := by
  induction users with
  | nil => simp [members, purged]
  | cons u users ih =>
    rw [members, purged, List.filter_cons, List.filter_cons, List.filter_cons, ugid, ← purged, ← members]
    cases hload : load u.id with
    | some user =>
      cases hgid : user.primaryGid == id with
      | true => simp [hgid, sums_cons, ih, add_assoc]
      | false => simp [hgid, ih]
    | none =>
      by_cases hid : id = 0
      · subst hid
        simp [sums_cons, ih, add_left_comm]
      · have hne : ((0 : GroupID) == id) = false := beq_eq_false_iff_ne.mpr (Ne.symm hid)
        simp [hne, hid, ih]

variable (gid : Option GroupID)

theorem accumulate_concat (users : List Stat) (u : Stat) :
    accumulate load gid (users ++ [u]) =
      if !wanted gid (ugid load u) then accumulate load gid users
      else upsert (ugid load u) u.toAmounts (accumulate load gid users) := by
  rw [accumulate, List.foldl_append]
  rfl

theorem accumulate_distinct (users : List Stat) : Distinct (accumulate load gid users) := by
  induction users using List.reverseRecOn with
  | nil => exact List.nodup_nil
  | append_singleton users u ih =>
    rw [accumulate_concat]
    split
    · exact ih
    · exact distinct_upsert ih _ _

/-- What the map holds for a group that is asked for. -/
theorem accumulate_value (users : List Stat) {id : GroupID} (hid : wanted gid id = true) :
    value (accumulate load gid users) id = sums (users.filter fun u => ugid load u == id) := by
  induction users using List.reverseRecOn with
  | nil => rfl
  | append_singleton users u ih =>
    rw [accumulate_concat, List.filter_append, sums_append, ← ih]
    by_cases hu : ugid load u = id
    · simp [hu, hid, value_upsert, sums_cons]
    · have hne : (ugid load u == id) = false := beq_eq_false_iff_ne.mpr hu
      split
      · simp [hne]
      · simp [value_upsert, Ne.symm hu, hne]

theorem accumulate_keys (users : List Stat) (id : GroupID) :
    id ∈ keys (accumulate load gid users) ↔ wanted gid id = true ∧ ∃ u ∈ users, ugid load u = id := by
  induction users using List.reverseRecOn with
  | nil => simp [accumulate, keys]
  | append_singleton users u ih =>
    rw [accumulate_concat]
    simp only [List.mem_append, List.mem_singleton, or_and_right, exists_or, exists_eq_left]
    cases hwanted : wanted gid (ugid load u) with
    | false =>
      rw [Bool.not_false, if_pos rfl, ih]
      refine and_congr_right fun hid => (or_iff_left ?_).symm
      rintro rfl
      rw [hwanted] at hid
      cases hid
    | true =>
      rw [Bool.not_true, if_neg Bool.false_ne_true, mem_keys_upsert, ih]
      constructor
      · rintro (rfl | ⟨hid, h⟩)
        · exact ⟨hwanted, .inr rfl⟩
        · exact ⟨hid, .inl h⟩
      · rintro ⟨hid, h | h⟩
        · exact .inr ⟨hid, h⟩
        · exact .inl h.symm

/-! ## The list of groups -/

variable (map : HashOrder)

theorem retrieveGroups_perm (sortField : Option SortField) (users : List Stat) :
    (retrieveGroups load map sortField gid users).Perm ((accumulate load gid users).map statOf) := by
  have hentries := map.perm ((accumulate load gid users).map statOf)
  cases sortField with
  | none => exact hentries
  | some sf =>
    have hperm := (foldl_insertBy sf (map.order ((accumulate load gid users).map statOf)) List.Pairwise.nil).2
    rw [List.append_nil] at hperm
    exact hperm.trans hentries

theorem statOf_ids (users : List Stat) :
    ((accumulate load gid users).map statOf).map (·.id) = keys (accumulate load gid users) := by
  rw [keys, List.map_map]
  rfl

theorem retrieveGroups_ids (sortField : Option SortField) (users : List Stat) :
    ((retrieveGroups load map sortField gid users).map (·.id)).Perm (keys (accumulate load gid users)) := by
  rw [← statOf_ids]
  exact (retrieveGroups_perm load gid map sortField users).map _

/-- The groups that have an entry. -/
theorem exists_retrieveGroups_iff (sortField : Option SortField) (users : List Stat) (id : GroupID) :
    (∃ g ∈ retrieveGroups load map sortField gid users, g.id = id) ↔
      wanted gid id = true ∧ ∃ u ∈ users, ugid load u = id := by
  rw [← accumulate_keys, ← (retrieveGroups_ids load gid map sortField users).mem_iff, List.mem_map]

/-- The amounts in an entry. -/
theorem retrieveGroups_amounts (sortField : Option SortField) (users : List Stat) {g : Stat}
    (hg : g ∈ retrieveGroups load map sortField gid users) :
    g.toAmounts = sums (members load users g.id) + if g.id = 0 then sums (purged load users) else 0 := by
  have hdistinct := accumulate_distinct load gid users
  obtain ⟨e, he, rfl⟩ := List.mem_map.mp ((retrieveGroups_perm load gid map sortField users).mem_iff.mp hg)
  have hwanted := ((accumulate_keys load gid users e.1).mp (List.mem_map_of_mem he)).1
  rw [← ugid_sums, statOf, ← accumulate_value load gid users hwanted, value_eq_lookup, lookup_of_mem hdistinct he]
  rfl

theorem ugid_of_member {users : List Stat} {id : GroupID} {u : Stat} (h : u ∈ members load users id) :
    u ∈ users ∧ ugid load u = id := by
  obtain ⟨hu, hgid⟩ := List.mem_filter.mp h
  refine ⟨hu, ?_⟩
  cases hload : load u.id with
  | none =>
    rw [hload] at hgid
    cases hgid
  | some user =>
    rw [hload, Option.any_some] at hgid
    rw [ugid, hload]
    exact beq_iff_eq.mp hgid

/-- One entry for each group that is asked for, that of an existing group with the amounts of its members and no
more, in falling order of the field. -/
structure Partition (isGroup : GroupID → Bool) (sf : SortField) (users groups : List Stat) : Prop where
  distinct : (groups.map (·.id)).Nodup
  entry : ∀ g ∈ groups, isGroup g.id = true → g.toAmounts = sums (members load users g.id)
  complete : ∀ id, isGroup id = true → wanted gid id = true → members load users id ≠ [] → ∃ g ∈ groups, g.id = id
  sorted : Falling sf groups

/-- A group's entry is that of its members, except for the group 0 when there are amounts of purged users. -/
theorem partition_iff (isGroup : GroupID → Bool) (sf : SortField) (users : List Stat) :
    Partition load gid isGroup sf users (retrieveGroups load map (some sf) gid users) ↔
      (isGroup 0 = true → wanted gid 0 = true → sums (purged load users) = 0) := by
  have hentry := exists_retrieveGroups_iff load gid map (some sf) users
  constructor
  · intro h hgroup hwanted
    by_cases hnone : purged load users = []
    · rw [hnone, sums_nil]
    · obtain ⟨u, hu⟩ := List.exists_mem_of_ne_nil _ hnone
      obtain ⟨hu, hload⟩ := List.mem_filter.mp hu
      have hugid : ugid load u = 0 := by
        rw [ugid, Option.isNone_iff_eq_none.mp hload]
      obtain ⟨g, hg, hid⟩ := (hentry 0).mpr ⟨hwanted, u, hu, hugid⟩
      have hown := h.entry g hg (hid ▸ hgroup)
      rw [retrieveGroups_amounts load gid map _ users hg, if_pos hid] at hown
      exact add_eq_left_iff.mp hown
  · intro h
    refine ⟨?_, fun g hg hgroup => ?_, fun id _ hwanted hne => ?_, ?_⟩
    · rw [(retrieveGroups_ids load gid map _ users).nodup_iff]
      exact accumulate_distinct load gid users
    · rw [retrieveGroups_amounts load gid map _ users hg]
      split
      · rename_i hid
        have hwanted := ((hentry g.id).mp ⟨g, hg, rfl⟩).1
        rw [hid] at hgroup hwanted
        exact add_eq_left_iff.mpr (h hgroup hwanted)
      · exact add_zero _
    · obtain ⟨u, hu⟩ := List.exists_mem_of_ne_nil _ hne
      obtain ⟨hu, hgid⟩ := ugid_of_member load hu
      exact (hentry id).mpr ⟨hwanted, u, hu, hgid⟩
    · exact (foldl_insertBy sf _ List.Pairwise.nil).1

/-- The amounts of a purged user are in the entry of the group with the number 0. -/
theorem purged_counted :
    let load : UserID → Option User := fun uid => if uid = 7 then none else some { id := uid, primaryGid := 0 }
    ¬ Partition load none (fun gid => gid == 0) .KBytes [⟨⟨1, 10, 1000⟩, 1⟩, ⟨⟨2, 90, 1000⟩, 7⟩]
      (retrieveGroups load ⟨id, .refl⟩ (some .KBytes) none [⟨⟨1, 10, 1000⟩, 1⟩, ⟨⟨2, 90, 1000⟩, 7⟩]) := by
  intro load h
  have hentry := h.entry ⟨⟨3, 100, 2000⟩, 0⟩ (by decide) (by decide)
  revert hentry
  decide

end Stats
end Db
end Ebftpd
