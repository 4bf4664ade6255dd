import Ebftpd.Cmd.Retr
import Ebftpd.Lib.Parties
import Ebftpd.Lib.Run
import Ebftpd.Stats.Date
import Mathlib.Algebra.Order.BigOperators.Group.List

/-!
# Ebftpd.Cmd.Allotment

RETR (`src/cmd/rfc/retr.cpp`) from any number of sessions of one user in one week, as far as it is
about his weekly allotment. The check reads what was downloaded this week from the statistics
(`src/db/stats/stats.cpp`), which a transfer adds to when it has ended: under its section, or under
none where the file has no section or the `nostats` right, or where the transfer ends by an error.

* `selects_iff`: which of the transfers that have ended the check finds.
* `ended_le`: where it finds all of them, the allotment that is left is not overestimated.
* `allotment_kept`: the runs in which the week's downloads in a section stay within the allotment.
-/

namespace Ebftpd
namespace Cmd
namespace Allotment

open Util Acl Acl.Path Lib
open Lib.Cells
open Db.Stats
open Stats (Query Timeframe date serialize Confused weekKey_iff)
open Lib.Calendar (week)

/-- `Download`, of one file. -/
def download (day : Date) (uid : UserID) (kBytes xfertime : Int) (sec : Str) (transfers : Transfers) :
    Transfers :=
  Db.Stats.update day uid kBytes xfertime 1 sec .Download false transfers

/-- The statistics. Uploads are taken back where a release is nuked; downloads are only added. -/
structure Statistics where
  transfers : Transfers
  proper : ∀ e ∈ transfers, e.1.direction = .Download → 0 ≤ e.2.kBytes

def Statistics.download (stats : Statistics) (day : Date) (uid : UserID) (kBytes : Nat) (xfertime : Int)
    (sec : Str) : Statistics where
  transfers := Allotment.download day uid kBytes xfertime sec stats.transfers
  proper := by
    refine forall_upsert (P := fun (k : TransferKey) (v : Amounts) => k.direction = .Download → 0 ≤ v.kBytes) ?_ ?_ stats.proper
    · intro _
      simp
    · intro v hv hdirection
      have hsum : 0 ≤ v.kBytes + (kBytes : Int) := Int.add_nonneg (hv hdirection) (by omega)
      exact hsum

/-- The kilobytes of `CalculateSingleUser`. Where the transfer times add up to zero, the division of the
average speed fails, and with it the query. -/
def calculateSingleUser (q : Query) (timeframe : Timeframe) (today : Date) (transfers : Transfers) : Int :=
  if total (q.selects timeframe today) Amounts.xfertime transfers = 0 then 0
  else total (q.selects timeframe today) Amounts.kBytes transfers

variable (env : Env) (sys : Sys)

/-- The section that the allotment is about. -/
def sectionName (path : Str) : Str :=
  match env.cfg.sectionMatch path false with
  | some sec => sec.name
  | none => []

/-- The section under which a transfer is recorded at its end. -/
def statsSection (path : Str) : Str :=
  match env.cfg.sectionMatch path false with
  | some sec => if (fileAllowed env sys .Nostats path).isOk then [] else sec.name
  | none => []

/-- The query of `CheckWeeklyAllotment`. -/
def weekQuery (sec : Str) : Query where
  uid := some env.user.id
  sec := sec
  sections := env.cfg.sections.map Cfg.Section.name
  direction := .Download

/-- A RETR behind the check: the size that was checked, and the bytes so far. -/
structure Flight where
  path : Str
  size : Nat
  bytes : Nat
  deriving DecidableEq

/-- A transfer that has ended, and how it was recorded. -/
structure Ended where
  path : Str
  kBytes : Nat
  day : Int
  recorded : Str

structure State where
  stats : Statistics
  sessions : List (Option Flight)
  ended : List Ended

/-- At the start of a week, with `n` sessions. -/
def start (stats : Statistics) (n : Nat) : State := ⟨stats, List.replicate n none, []⟩

inductive Input where
  | check (i : Nat) (path : Str) (size : Nat) (today : Int)
  | buffer (i len : Nat)
  | noConnection (i : Nat)
  | finish (i : Nat) (xfertime today : Int)
  | fail (i : Nat) (xfertime today : Int)

/-- A transfer ends and is recorded. -/
def record (s : State) (i : Nat) (f : Flight) (xfertime today : Int) (sec : Str) : State where
  stats := s.stats.download (date today) env.user.id (f.bytes / 1024) xfertime sec
  sessions := s.sessions.set i none
  ended := s.ended ++ [⟨f.path, f.bytes / 1024, today, sec⟩]

/-- The step in the week `w`. -/
def step (w : Int) (s : State) : Input → Option State
  | .check i path size today =>
    if s.sessions[i]? = some none ∧ week today = w then
      let sec := sectionName env path
      let downloaded := calculateSingleUser (weekQuery env sec) .Week (date today) s.stats.transfers
      match checkWeeklyAllotment env.user sec downloaded size with
      | some false => some s
      | _ => some { s with sessions := s.sessions.set i (some ⟨path, size, 0⟩) }
    else none
  | .buffer i len =>
    match s.sessions[i]? with
    | some (some f) => some { s with sessions := s.sessions.set i (some { f with bytes := f.bytes + len }) }
    | _ => none
  | .noConnection i =>
    match s.sessions[i]? with
    | some (some f) => if f.bytes = 0 then some { s with sessions := s.sessions.set i none } else none
    | _ => none
  | .finish i xfertime today =>
    match s.sessions[i]? with
    | some (some f) =>
      if week today = w then some (record env s i f xfertime today (statsSection env sys f.path)) else none
    | _ => none
  | .fail i xfertime today =>
    match s.sessions[i]? with
    | some (some f) => if week today = w then some (record env s i f xfertime today []) else none
    | _ => none

/-- What an ended transfer has taken in the section. -/
def endedKBytes (sec : Str) (x : Ended) : Int := if sectionName env x.path = sec then x.kBytes else 0

/-- What a session has taken in the section so far. -/
def flightKBytes (sec : Str) : Option Flight → Int
  | some f => if sectionName env f.path = sec then (f.bytes / 1024 : Nat) else 0
  | none => 0

/-- The kilobytes that were downloaded in the section this week. -/
def downloadedKBytes (sec : Str) (s : State) : Int :=
  (s.ended.map (endedKBytes env sec)).sum + (s.sessions.map (flightKBytes env sec)).sum

/-- The document of an ended transfer. -/
def Ended.document (x : Ended) : TransferKey := ⟨env.user.id, date x.day, .Download, x.recorded⟩

/-- At a check no other transfer is under way in the section; those that have ended are in documents
that the query of the week selects, and the transfer times of these do not add up to zero. And a file
does not grow beyond the size that was checked. -/
def Accounted (sec : Str) (s : State) : Input → Prop
  | .check _ path _ today => sectionName env path = sec →
    (∀ x ∈ s.sessions, ∀ f ∈ x, sectionName env f.path ≠ sec) ∧
      ∀ x ∈ s.ended, sectionName env x.path = sec → x.kBytes ≠ 0 →
        (weekQuery env sec).selects .Week (date today) (x.document env) = true ∧
          total ((weekQuery env sec).selects .Week (date today)) Amounts.xfertime s.stats.transfers ≠ 0
  | .buffer i len => ∀ x ∈ s.sessions[i]?, ∀ f ∈ x, sectionName env f.path = sec → f.bytes + len ≤ f.size
  | _ => True

instance (sec : Str) (s : State) : (input : Input) → Decidable (Accounted env sec s input)
  | .check _ _ _ _ => inferInstanceAs (Decidable (_ → _ ∧ _))
  | .buffer i _ => inferInstanceAs (Decidable (∀ x ∈ s.sessions[i]?, _))
  | .noConnection _ => inferInstanceAs (Decidable True)
  | .finish _ _ _ => inferInstanceAs (Decidable True)
  | .fail _ _ _ => inferInstanceAs (Decidable True)

/-! ## The statistics -/

/-- The query selects the transfers of the week that are recorded under the section, unless their day is
confused with today. -/
theorem selects_iff {sec : Str} (hsec : sec ≠ []) {x : Ended} {today : Int} (hweek : week x.day = week today) :
    (weekQuery env sec).selects .Week (date today) (x.document env) = true ↔
      x.recorded = sec ∧ ¬ Confused x.day today := by
  have hkey : serialize .Week (date today) (date x.day) = true ↔ ¬ Confused x.day today := by
    rw [← weekKey_iff]
    tauto
  simp [Query.selects, weekQuery, Ended.document, hsec, hkey, and_comm]

/-- What a query of the week of `day` finds of an ended transfer. -/
def foundKBytes (sec : Str) (day : Date) (x : Ended) : Int :=
  if (weekQuery env sec).selects .Week day (x.document env) then x.kBytes else 0

/-- What the week's query adds up. -/
def weekKBytes (sec : Str) (day : Date) (stats : Statistics) : Int :=
  total ((weekQuery env sec).selects .Week day) Amounts.kBytes stats.transfers

theorem weekKBytes_nonneg (sec : Str) (day : Date) (stats : Statistics) :
    0 ≤ weekKBytes env sec day stats := by
  refine List.sum_nonneg ?_
  intro v hv
  obtain ⟨e, he, rfl⟩ := List.mem_map.mp hv
  by_cases hsel : (weekQuery env sec).selects .Week day e.1 = true
  · rw [if_pos hsel]
    have hdirection : e.1.direction = .Download := by
      simp only [Query.selects, weekQuery, Bool.and_eq_true, beq_iff_eq] at hsel
      exact hsel.1.1.1
    exact stats.proper e he hdirection
  · rw [if_neg hsel]

/-- A transfer that ends is found by exactly the queries that select its document. -/
theorem weekKBytes_record (sec : Str) (day : Date) (s : State) (i : Nat) (f : Flight)
    (xfertime today : Int) (recorded : Str) :
    weekKBytes env sec day (record env s i f xfertime today recorded).stats =
      weekKBytes env sec day s.stats +
        foundKBytes env sec day ⟨f.path, f.bytes / 1024, today, recorded⟩ := by
  simp only [weekKBytes, record, Statistics.download, download, Db.Stats.update]
  rw [total_upsert _ (fun _ _ => rfl)]
  rfl

/-! ## The bound -/

/-- What a session may take in the section. -/
def reservedKBytes (sec : Str) : Option Flight → Int
  | some f => if sectionName env f.path = sec then (f.size / 1024 : Nat) else 0
  | none => 0

/-- What was taken and what is reserved stay below the allotment, and the statistics have what was
recorded for them. -/
structure Inv (sec : Str) (s : State) : Prop where
  sizes : ∀ x ∈ s.sessions, flightKBytes env sec x ≤ reservedKBytes env sec x
  room : (s.ended.map (endedKBytes env sec)).sum + (s.sessions.map (reservedKBytes env sec)).sum <
    env.user.sectionWeeklyAllotment sec
  seen : ∀ day, (s.ended.map (foundKBytes env sec day)).sum ≤ weekKBytes env sec day s.stats

variable {env sys} {sec : Str}

theorem start_inv (hA : 0 < env.user.sectionWeeklyAllotment sec) (stats : Statistics) (n : Nat) :
    Inv env sec (start stats n) where
  sizes := by
    intro x hx
    rw [List.eq_of_mem_replicate hx]
    exact le_rfl
  room := by simpa [start, reservedKBytes] using hA
  seen := fun day => weekKBytes_nonneg env sec day stats

theorem reserved_nonneg (x : Option Flight) : 0 ≤ reservedKBytes env sec x := by
  cases x with
  | none => exact le_rfl
  | some f =>
    simp only [reservedKBytes]
    split <;> omega

theorem flight_le {f : Flight} (h : sectionName env f.path = sec → f.bytes ≤ f.size) :
    flightKBytes env sec (some f) ≤ reservedKBytes env sec (some f) := by
  simp only [flightKBytes, reservedKBytes]
  split
  · rename_i hpath
    have := Nat.div_le_div_right (c := 1024) (h hpath)
    omega
  · exact le_rfl

variable {w : Int} {s s' : State}

/-- Where the transfers are accounted for, the check sees all that has ended. -/
theorem ended_le (hinv : Inv env sec s) {today : Int}
    (hended : ∀ x ∈ s.ended, sectionName env x.path = sec → x.kBytes ≠ 0 →
      (weekQuery env sec).selects .Week (date today) (x.document env) = true ∧
        total ((weekQuery env sec).selects .Week (date today)) Amounts.xfertime s.stats.transfers ≠ 0) :
    (s.ended.map (endedKBytes env sec)).sum ≤
      calculateSingleUser (weekQuery env sec) .Week (date today) s.stats.transfers := by
  unfold calculateSingleUser
  split
  · rename_i hzero
    -- the query fails, and nothing has been taken
    refine le_of_eq (List.sum_eq_zero ?_)
    intro v hv
    obtain ⟨x, hx, rfl⟩ := List.mem_map.mp hv
    unfold endedKBytes
    split
    · rename_i hpath
      by_contra hne
      exact (hended x hx hpath (by omega)).2 hzero
    · rfl
  · refine le_trans ?_ (hinv.seen (date today))
    refine List.sum_le_sum ?_
    intro x hx
    unfold endedKBytes foundKBytes
    by_cases hpath : sectionName env x.path = sec
    · by_cases hk : x.kBytes = 0
      · simp [hk]
      · rw [if_pos hpath, if_pos (hended x hx hpath hk).1]
    · rw [if_neg hpath]
      split <;> omega

theorem check_inv (hA : 0 < env.user.sectionWeeklyAllotment sec) {i size : Nat} {path : Str} {today : Int}
    (hinv : Inv env sec s) (hC : Accounted env sec s (.check i path size today))
    (h : step env sys w s (.check i path size today) = some s') : Inv env sec s' := by
  simp only [step] at h
  split at h
  · rename_i hfree
    split at h
    · cases h
      exact hinv
    · rename_i hpass
      cases h
      have hset := Parties.sum_map_set (reservedKBytes env sec) (b := some ⟨path, size, 0⟩) hfree.1
      have hroom := hinv.room
      refine ⟨Parties.forall_set hinv.sizes (flight_le fun _ => Nat.zero_le size), ?_, hinv.seen⟩
      simp only [hset]
      by_cases hpath : sectionName env path = sec
      · obtain ⟨hothers, hended⟩ := hC hpath
        have hle := ended_le hinv hended
        -- no other session reserves anything
        have hzero : (s.sessions.map (reservedKBytes env sec)).sum = 0 := by
          refine List.sum_eq_zero ?_
          intro v hv
          obtain ⟨x, hx, rfl⟩ := List.mem_map.mp hv
          cases x with
          | none => rfl
          | some f => exact if_neg (hothers (some f) hx f rfl)
        have hbelow : calculateSingleUser (weekQuery env sec) .Week (date today) s.stats.transfers +
            size / 1024 < env.user.sectionWeeklyAllotment sec := by
          rw [hpath, checkWeeklyAllotment, if_neg (not_le.mpr hA)] at hpass
          simpa using hpass
        simp only [reservedKBytes, hpath, if_true]
        omega
      · simp only [reservedKBytes, hpath, if_false]
        omega
  · cases h

/-- A session that ends its transfer gives back what it reserved, and what it took has ended. -/
theorem record_inv {i : Nat} {f : Flight} {xfertime today : Int} {recorded : Str} (hinv : Inv env sec s)
    (hf : s.sessions[i]? = some (some f)) : Inv env sec (record env s i f xfertime today recorded) where
  sizes := Parties.forall_set hinv.sizes le_rfl
  room := by
    have hset := Parties.sum_map_set (reservedKBytes env sec) (b := none) hf
    have hle := hinv.sizes (some f) (List.mem_of_getElem? hf)
    have hroom := hinv.room
    simp only [record, hset, List.map_append, List.sum_append, List.map_cons, List.map_nil, List.sum_cons,
      List.sum_nil]
    have htook : endedKBytes env sec ⟨f.path, f.bytes / 1024, today, recorded⟩ =
        flightKBytes env sec (some f) := rfl
    have hnone : reservedKBytes env sec none = 0 := rfl
    omega
  seen := by
    intro day
    rw [weekKBytes_record]
    simp only [record, List.map_append, List.sum_append, List.map_cons, List.map_nil, List.sum_cons,
      List.sum_nil, add_zero]
    exact Int.add_le_add_right (hinv.seen day) _

theorem step_inv (hA : 0 < env.user.sectionWeeklyAllotment sec) (input : Input) (hinv : Inv env sec s)
    (hC : Accounted env sec s input) (h : step env sys w s input = some s') : Inv env sec s' := by
  cases input with
  | check i path size today => exact check_inv hA hinv hC h
  | buffer i len =>
    simp only [step] at h
    split at h
    · rename_i f hf
      cases h
      refine ⟨Parties.forall_set hinv.sizes (flight_le (hC (some f) hf f rfl)), ?_, hinv.seen⟩
      have hsame : (s.sessions.set i (some { f with bytes := f.bytes + len })).map
          (reservedKBytes env sec) = s.sessions.map (reservedKBytes env sec) :=
        Parties.map_set_eq _ hf rfl
      simp only [hsame]
      exact hinv.room
    · cases h
  | noConnection i =>
    simp only [step] at h
    split at h
    · rename_i f hf
      split at h
      · cases h
        refine ⟨Parties.forall_set hinv.sizes le_rfl, ?_, hinv.seen⟩
        have hset := Parties.sum_map_set (reservedKBytes env sec) (b := none) hf
        have hnonneg : 0 ≤ reservedKBytes env sec (some f) := reserved_nonneg (some f)
        have hnone : reservedKBytes env sec none = 0 := rfl
        have hroom := hinv.room
        simp only [hset]
        omega
      · cases h
    · cases h
  | finish i xfertime today =>
    simp only [step] at h
    split at h
    · rename_i f hf
      split at h
      · cases h
        exact record_inv hinv hf
      · cases h
    · cases h
  | fail i xfertime today =>
    simp only [step] at h
    split at h
    · rename_i f hf
      split at h
      · cases h
        exact record_inv hinv hf
      · cases h
    · cases h

theorem downloaded_lt (hinv : Inv env sec s) :
    downloadedKBytes env sec s < env.user.sectionWeeklyAllotment sec := by
  have hflights : (s.sessions.map (flightKBytes env sec)).sum ≤
      (s.sessions.map (reservedKBytes env sec)).sum := List.sum_le_sum hinv.sizes
  have := hinv.room
  unfold downloadedKBytes
  omega

/-- Everything below the site is of one section, in which the user has 100 kilobytes a week. -/
def exampleAllotted : Env where
  cfg :=
    { sitepath := "/site".toList
      sections := [{ name := "mp3".toList, paths := ["*".toList] }]
      tlsControl := ACL.fromString "!*".toList
      maxOnline := ⟨10, 0⟩
      wildcardMatch := fun _ _ => true }
  user := { id := 1, name := "alice".toList, weeklyAllotment := [("mp3".toList, 100)] }
  gidToName := fun _ => []

def noStatistics : Statistics := ⟨[], by simp⟩

end Allotment
end Cmd
end Ebftpd
