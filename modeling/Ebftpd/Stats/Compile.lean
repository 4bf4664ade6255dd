import Mathlib.Data.List.TakeWhile
import Ebftpd.Stats.Stat

/-!
# Ebftpd.Stats.Compile

The ranking of users (`CompileUserRanks` in `src/stats/compile.cpp`). One loop writes the first rows and adds
up what goes into the foot. It ends at the first user without files, whatever the order of the list, and asks
for the user's record and the filter only as long as there are rows to write.

A report is the values that are registered with the sections of the template. Beside the sums it keeps which
users they are of.

* `counts_eq_iff`: when the users that are counted are those that should be.
* `report_exact_iff`: the lists and limits for which a report is what it says.
* `report_totals`: exact reports of one list in any order and with any limit have the same foot.
-/

namespace Ebftpd
namespace Stats

open Util Acl Db.Stats

/-- What is registered with the body for a user. -/
structure Row where
  index : Int
  user : Str
  group : Str
  tagline : Str
  files : Int
  size : Int
  speed : ℚ

/-- What is registered with the foot. -/
structure Foot where
  users : Nat
  size : Int
  files : Int
  speed : ℚ

/-- The variables of the loop, the rows written, and whose amounts the totals are. -/
structure Ranking where
  index : Int := 0
  total : Nat := 0
  totalBytes : Int := 0
  totalFiles : Int := 0
  totalXfertime : Int := 0
  rows : List Row := []
  counted : List Stat := []

/-- Where the names come from, and whom the filter lets through. -/
structure Source where
  load : UserID → Option User
  gidToName : GroupID → Str
  filter : Option (User → Bool)

def Source.passes (src : Source) (user : User) : Bool :=
  match src.filter with
  | none => true
  | some filter => filter user

variable (src : Source) (max : Int)

def Source.row (index : Int) (user : User) (u : Stat) : Row where
  index := index
  user := user.name
  group := user.primaryGroup src.gidToName
  tagline := user.tagline
  files := u.files
  size := u.kBytes
  speed := speed u.toAmounts

/-- The end of the loop's body. -/
def Ranking.add (r : Ranking) (u : Stat) : Ranking :=
  { r with
    total := r.total + 1
    totalBytes := r.totalBytes + u.kBytes
    totalFiles := r.totalFiles + u.files
    totalXfertime := r.totalXfertime + u.xfertime
    counted := r.counted ++ [u] }

/-- The loop of `CompileUserRanks`. -/
def rank : List Stat → Ranking → Ranking
  | [], r => r
  | u :: users, r =>
    if u.files ≤ 0 then r
    else if r.index < max then
      match src.load u.id with
      | none => rank users r
      | some user =>
        if !src.passes user then rank users r
        else
          let r := { r with index := r.index + 1, rows := r.rows ++ [src.row (r.index + 1) user u] }
          rank users (r.add u)
    else rank users (r.add u)

def Ranking.foot (r : Ranking) : Foot where
  users := r.total
  size := r.totalBytes
  files := r.totalFiles
  speed := speed ⟨r.totalFiles, r.totalBytes, r.totalXfertime⟩

/-- `CompileUserRanks`, of the statistics that `CalculateUserRanks` returned. -/
def compileUserRanks (users : List Stat) : Ranking := rank src max users {}

/-! ## What a report says -/

/-- A user who is in the ranking. -/
def Source.eligible (u : Stat) : Bool := decide (0 < u.files) && (src.load u.id).any src.passes

def footOf (users : List Stat) : Foot where
  users := users.length
  size := (sums users).kBytes
  files := (sums users).files
  speed := speed (sums users)

/-- The rows of some users, numbered from one on. -/
def rowsOf (first : Int) : List Stat → List Row
  | [] => []
  | u :: users => ((src.load u.id).map fun user => src.row first user u).toList ++ rowsOf (first + 1) users

/-- The totals are those of the users in the ranking, and the first of these are shown. -/
structure Exact (users : List Stat) : Prop where
  counted : (compileUserRanks src max users).counted = users.filter src.eligible
  rows : (compileUserRanks src max users).rows = rowsOf src 1 ((users.filter src.eligible).take max.toNat)

def hasFiles (u : Stat) : Bool := decide (0 < u.files)

/-- Nobody who is in the ranking stands behind a user without files; and in front of the first such user, nobody
who is not stands behind as many as are shown. The rows in front of the list are `index`. -/
structure Ordered (index : Int) (users : List Stat) : Prop where
  behind : ∀ u ∈ users.dropWhile hasFiles, src.eligible u = false
  shown : ∀ before u after, users.takeWhile hasFiles = before ++ u :: after →
    max ≤ index + (before.countP src.eligible : Int) → src.eligible u = true

/-! ## The loop -/

/-- Whose amounts are added, where so many rows are written. -/
def counts (index : Int) : List Stat → List Stat
  | [] => []
  | u :: users =>
    if u.files ≤ 0 then []
    else if index < max then
      if src.eligible u then u :: counts (index + 1) users else counts index users
    else u :: counts index users

theorem add_counted (r : Ranking) (u : Stat) : (r.add u).counted = r.counted ++ [u] := rfl

/-- The totals belong to the users that are counted. -/
def Ranking.Summed (r : Ranking) : Prop :=
  r.total = r.counted.length ∧ ⟨r.totalFiles, r.totalBytes, r.totalXfertime⟩ = sums r.counted

theorem Ranking.Summed.add {r : Ranking} (h : r.Summed) (u : Stat) : (r.add u).Summed := by
  refine ⟨?_, ?_⟩
  · rw [add_counted, List.length_append, List.length_singleton, ← h.1]
    rfl
  · rw [add_counted, sums_append, ← h.2, sums_cons, sums_nil]
    ext <;> simp [Ranking.add]

theorem Ranking.Summed.foot {r : Ranking} (h : r.Summed) : r.foot = footOf r.counted := by
  have hkBytes := congrArg Amounts.kBytes h.2
  have hfiles := congrArg Amounts.files h.2
  simp only at hkBytes hfiles
  rw [Ranking.foot, footOf, h.2, h.1, ← hkBytes, ← hfiles]

theorem rank_summed {users : List Stat} : ∀ {r : Ranking}, r.Summed → (rank src max users r).Summed := by
  induction users with
  | nil => exact fun h => h
  | cons u users ih =>
    intro r h
    rw [rank]
    split
    · exact h
    · split
      · split
        · exact ih h
        · split
          · exact ih h
          · exact ih (Ranking.Summed.add (r := { r with index := r.index + 1, rows := _ }) h u)
      · exact ih (h.add u)

theorem eligible_none {u : Stat} (h : src.load u.id = none) : src.eligible u = false := by
  rw [Source.eligible, h, Option.any_none, Bool.and_false]

theorem eligible_some {u : Stat} {user : User} (hfiles : ¬ u.files ≤ 0) (h : src.load u.id = some user) :
    src.eligible u = src.passes user := by
  rw [Source.eligible, h, Option.any_some, decide_eq_true (by omega), Bool.true_and]

theorem rowsOf_cons (first : Int) (u : Stat) (users : List Stat) :
    rowsOf src first (u :: users) = rowsOf src first [u] ++ rowsOf src (first + 1) users := by
  simp [rowsOf]

/-- A turn of the loop while rows are still written. -/
theorem rank_cons {u : Stat} {users : List Stat} {r : Ranking} (hfiles : ¬ u.files ≤ 0) (hindex : r.index < max) :
    rank src max (u :: users) r =
      if src.eligible u then
        rank src max users
          ({ r with index := r.index + 1, rows := r.rows ++ rowsOf src (r.index + 1) [u] }.add u)
      else rank src max users r := by
  rw [rank, if_neg hfiles, if_pos hindex]
  cases hload : src.load u.id with
  | none => simp [eligible_none src hload]
  | some user =>
    rw [eligible_some src hfiles hload]
    cases hpasses : src.passes user with
    | false => simp [hpasses]
    | true => simp [hpasses, rowsOf, hload]

theorem rank_counted {users : List Stat} :
    ∀ (r : Ranking), (rank src max users r).counted = r.counted ++ counts src max r.index users := by
  induction users with
  | nil => exact fun r => (List.append_nil _).symm
  | cons u users ih =>
    intro r
    rw [counts]
    by_cases hfiles : u.files ≤ 0
    · rw [rank, if_pos hfiles, if_pos hfiles, List.append_nil]
    · rw [if_neg hfiles]
      by_cases hindex : r.index < max
      · rw [rank_cons src max hfiles hindex, if_pos hindex]
        cases heligible : src.eligible u with
        | false => exact ih r
        | true => simp [ih, Ranking.add]
      · rw [rank, if_neg hfiles, if_neg hindex, if_neg hindex, ih]
        simp [Ranking.add]

theorem rank_rows {users : List Stat} :
    ∀ (r : Ranking), (rank src max users r).rows = r.rows ++ rowsOf src (r.index + 1)
      (((users.takeWhile hasFiles).filter src.eligible).take (max - r.index).toNat) := by
  induction users with
  | nil => simp [rank, rowsOf]
  | cons u users ih =>
    intro r
    by_cases hfiles : u.files ≤ 0
    · have hnone : hasFiles u = false := decide_eq_false (by omega)
      rw [rank, if_pos hfiles, List.takeWhile_cons, hnone]
      simp [rowsOf]
    · have hsome : hasFiles u = true := decide_eq_true (by omega)
      rw [List.takeWhile_cons, if_pos hsome, List.filter_cons]
      by_cases hindex : r.index < max
      · rw [rank_cons src max hfiles hindex]
        cases heligible : src.eligible u with
        | false => exact ih r
        | true =>
          have htake : (max - r.index).toNat = (max - (r.index + 1)).toNat + 1 := by omega
          rw [if_pos rfl, if_pos rfl, ih, htake, List.take_succ_cons, rowsOf_cons src _ u (List.take _ _),
            ← List.append_assoc]
          rfl
      · have hzero : (max - r.index).toNat = 0 := by omega
        rw [rank, if_neg hfiles, if_neg hindex, ih]
        simp [Ranking.add, hzero, rowsOf]

theorem ordered_cons {u : Stat} (hfiles : hasFiles u = true) (index : Int) (users : List Stat) :
    Ordered src max index (u :: users) ↔ (max ≤ index → src.eligible u = true) ∧
      Ordered src max (if src.eligible u then index + 1 else index) users := by
  have hcount : ∀ before : List Stat, index + ((u :: before).countP src.eligible : Int) =
      (if src.eligible u then index + 1 else index) + (before.countP src.eligible : Int) := by
    intro before
    rw [List.countP_cons]
    split <;> push_cast <;> omega
  constructor
  · intro h
    refine ⟨fun hmax => ?_, ⟨fun v hv => ?_, fun before v after hsplit hmax => ?_⟩⟩
    · refine h.shown [] u (users.takeWhile hasFiles) (by rw [List.takeWhile_cons, if_pos hfiles]; rfl) ?_
      simpa using hmax
    · exact h.behind v (by rwa [List.dropWhile_cons, if_pos hfiles])
    · refine h.shown (u :: before) v after (by rw [List.takeWhile_cons, if_pos hfiles, hsplit]; rfl) ?_
      rwa [hcount]
  · rintro ⟨hfirst, h⟩
    refine ⟨fun v hv => ?_, fun before v after hsplit hmax => ?_⟩
    · rw [List.dropWhile_cons, if_pos hfiles] at hv
      exact h.behind v hv
    · rw [List.takeWhile_cons, if_pos hfiles] at hsplit
      cases before with
      | nil =>
        obtain rfl := (List.cons.inj hsplit).1
        exact hfirst (by simpa using hmax)
      | cons u' before =>
        obtain ⟨rfl, htail⟩ := List.cons.inj hsplit
        rw [hcount] at hmax
        exact h.shown before v after htail hmax

/-- Behind the last row it does not matter how many there were. -/
theorem ordered_full (index index' : Int) (h : max ≤ index) (h' : max ≤ index') (users : List Stat) :
    Ordered src max index users ↔ Ordered src max index' users := by
  constructor
  · exact fun hord => ⟨hord.behind, fun before v after hsplit _ => hord.shown before v after hsplit (by omega)⟩
  · exact fun hord => ⟨hord.behind, fun before v after hsplit _ => hord.shown before v after hsplit (by omega)⟩

/-- The users that are counted are those in the ranking just if the list is ordered as the loop expects. -/
theorem counts_eq_iff {users : List Stat} :
    ∀ {index : Int}, counts src max index users = users.filter src.eligible ↔ Ordered src max index users := by
  induction users with
  | nil => exact fun {index} => iff_of_true rfl ⟨by simp, by simp⟩
  | cons u users ih =>
    intro index
    rw [counts]
    by_cases hfiles : u.files ≤ 0
    · have hnone : hasFiles u = false := decide_eq_false (by omega)
      rw [if_pos hfiles, eq_comm, List.filter_eq_nil_iff]
      constructor
      · intro h
        refine ⟨fun v hv => ?_, fun before v after hsplit => ?_⟩
        · rw [List.dropWhile_cons, hnone] at hv
          simpa using h v hv
        · simp [hnone] at hsplit
      · intro h v hv
        have := h.behind v (by rw [List.dropWhile_cons, hnone]; exact hv)
        simp [this]
    · have hsome : hasFiles u = true := decide_eq_true (by omega)
      rw [if_neg hfiles, ordered_cons src max hsome, List.filter_cons]
      by_cases heligible : src.eligible u = true
      · simp only [if_pos heligible]
        rw [and_iff_right fun _ => heligible]
        by_cases hindex : index < max
        · rw [if_pos hindex, List.cons_inj_right, ih]
        · rw [if_neg hindex, List.cons_inj_right, ih, ordered_full src max index (index + 1) (by omega) (by omega)]
      · simp only [if_neg heligible]
        by_cases hindex : index < max
        · rw [if_pos hindex, ih, and_iff_right fun h => absurd h (by omega)]
        · rw [if_neg hindex]
          refine iff_of_false (fun h => heligible ?_) fun h => heligible (h.1 (by omega))
          have hmem : u ∈ users.filter src.eligible := h ▸ List.mem_cons_self
          exact (List.mem_filter.mp hmem).2

/-- Without anybody in the ranking behind them, the users in front are all of it. -/
theorem filter_takeWhile {users : List Stat} (h : ∀ u ∈ users.dropWhile hasFiles, src.eligible u = false) :
    (users.takeWhile hasFiles).filter src.eligible = users.filter src.eligible := by
  have hnone : (users.dropWhile hasFiles).filter src.eligible = [] := List.filter_eq_nil_iff.mpr fun u hu => by
    rw [h u hu]
    exact Bool.false_ne_true
  have hsplit := congrArg (List.filter src.eligible) (List.takeWhile_append_dropWhile (p := hasFiles) (l := users))
  rw [List.filter_append, hnone, List.append_nil] at hsplit
  exact hsplit

/-- A report is exact just if the list is ordered as the loop expects. The foot is that of the users counted, and
exact reports of one list, in any order and with any limits, have the same foot. -/
theorem report_exact_iff (users : List Stat) :
    (Exact src max users ↔ Ordered src max 0 users) ∧
    (compileUserRanks src max users).foot = footOf (compileUserRanks src max users).counted ∧
    ∀ users' max', users'.Perm users → Exact src max users → Exact src max' users' →
      (compileUserRanks src max' users').foot = (compileUserRanks src max users).foot := by
  have hfoot : ∀ users max, (compileUserRanks src max users).foot =
      footOf (compileUserRanks src max users).counted := fun users max =>
    (rank_summed src max ⟨rfl, rfl⟩).foot
  refine ⟨⟨fun h => ?_, fun h => ?_⟩, hfoot users max, fun users' max' hperm h h' => ?_⟩
  · have hcounted := h.counted
    rw [compileUserRanks, rank_counted] at hcounted
    exact (counts_eq_iff src max).mp hcounted
  · refine ⟨?_, ?_⟩
    · rw [compileUserRanks, rank_counted]
      exact (counts_eq_iff src max).mpr h
    · rw [compileUserRanks, rank_rows, filter_takeWhile src h.behind]
      simp
  · have hcounted := hperm.filter src.eligible
    rw [hfoot, hfoot, h.counted, h'.counted, footOf, footOf, sums_perm hcounted, hcounted.length_eq]

/-! ## A filter, and a user without files -/

def exampleSource : Source where
  load uid := some { id := uid, name := if uid = 2 then "bob".toList else "alice".toList }
  gidToName := fun _ => "NoGroup".toList
  filter := some fun user => user.name ≠ "bob".toList

/-- Bob, whom the filter keeps out, is counted behind the last row; alice is not, behind a user whose files have
been taken back. -/
theorem ranks_differ :
    ¬ Exact exampleSource 1 [⟨⟨5, 500, 0⟩, 1⟩, ⟨⟨4, 400, 0⟩, 2⟩] ∧
      ¬ Exact exampleSource 10 [⟨⟨0, 900, 0⟩, 3⟩, ⟨⟨5, 500, 0⟩, 1⟩] := by
  refine ⟨fun h => ?_, fun h => ?_⟩
  · have hcounted := h.counted
    revert hcounted
    decide
  · have hcounted := h.counted
    revert hcounted
    decide

end Stats
end Ebftpd
