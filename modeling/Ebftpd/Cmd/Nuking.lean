import Ebftpd.Cmd.Retr
import Ebftpd.Db.Stats
import Ebftpd.Db.User
import Ebftpd.Fs.Path
import Ebftpd.Util.Double
import Mathlib.Algebra.Order.BigOperators.Group.List
import Mathlib.Algebra.Order.Group.Int

/-!
# Ebftpd.Cmd.Nuking

`SITE NUKE` and `SITE UNNUKE` (`src/cmd/site/nuking.cpp`). A nuke takes credits and statistics from
the owners of the files in a directory, writes down what it took from whom, and renames or deletes
the directory; an unnuke looks the record up and gives back.

The record is found by an attribute of the directory or by the path. What the file system does comes
in with the calls: whether the directory could be removed or renamed and the attribute be written.
The commands of the database succeed, and the tasks of the increments run to their end.

* `takeCredits_spec`, `restoreLoop_spec`: the users and the record behind the loops over the nukees.
* `balances_iff`, `leftOver_iff`: when the credits are back, and when the statistics are.
* `unnuke_undoes_iff`: an unnuke that finds the record of the nuke undoes it exactly when one owner
  had all the files and whoever was charged had credits to charge.
-/

namespace Ebftpd
namespace Cmd
namespace Nuking

open Util Util.Path Lib Lib.Cells Acl Acl.Path Db Db.Stats

/-- An entry of the directory, at any depth: the basename and what `stat` and the owner's attribute
say of it. -/
structure Entry where
  name : Str
  regular : Bool
  size : Nat
  owner : UserID

structure Nukee where
  kBytes : Int := 0
  files : Int := 0
  credits : Int := 0

/-- The map of nukees, in the order of their uids. -/
abbrev Nukees := List (UserID × Nukee)

/-- `db::nuking::Nuke`. -/
structure Record where
  id : Str
  path : Str
  sec : Str
  reason : Str
  nukerUID : UserID
  multiplier : Int
  isPercent : Bool
  modTime : Int
  nukees : Nukees

/-- `Nuke::Files`: those of all nukees. -/
def Record.files (r : Record) : Int := r.nukees.foldl (fun files kv => files + kv.2.files) 0

structure State where
  users : Users
  transfers : Transfers := []
  nukes : List Record := []
  unnukes : List Record := []
  -- the attribute `user.ebftpd.nukeid` of a directory
  nukeID : Str → Option Str := fun _ => none

def setID (nukeID : Str → Option Str) (path : Str) (id : Option Str) : Str → Option Str :=
  fun p => if p = path then id else nukeID p

/-- What the calls of one `NUKE` return. -/
structure NukeCalls where
  entries : List Entry
  -- the owner of the directory
  owner : UserID
  modTime : Int
  -- the id generated for the record
  id : Str
  date : Date
  removed : Bool
  renamed : Bool
  attributeSet : Bool

/-- What the calls of one `UNNUKE` return. -/
structure UnnukeCalls where
  id : Str
  date : Date
  renamed : Bool
  attributeSet : Bool

/-! ## The nukees -/

def Entry.counts (e : Entry) : Bool := e.name.head? != some '.' && e.regular

/-- `nukees[uid]` with a file added to it. -/
def addFile (uid : UserID) (kBytes : Int) : Nukees → Nukees
  | [] => [(uid, { kBytes := kBytes, files := 1 })]
  | (u, n) :: rest =>
    if uid < u then (uid, { kBytes := kBytes, files := 1 }) :: (u, n) :: rest
    else if uid = u then (u, { n with kBytes := n.kBytes + kBytes, files := n.files + 1 }) :: rest
    else (u, n) :: addFile uid kBytes rest

def addEntry (nukees : Nukees) (e : Entry) : Nukees :=
  if e.counts then addFile e.owner (e.size / 1024 : Nat) nukees else nukees

def calculateNukees (entries : List Entry) : Nukees := entries.foldl addEntry []

def totalKBytes (entries : List Entry) : Int :=
  entries.foldl (fun kBytes e => if e.counts then kBytes + (e.size / 1024 : Nat) else kBytes) 0

/-! ## Taking -/

/-- `DecrSectionCreditsForce`. -/
def decrSectionCreditsForce (users : Users) (uid : UserID) (sec : Str) (kBytes : Int) : Users :=
  users.setFields uid fun r => { r with credits := (decrCredits true r.credits sec kBytes true).2 }

/-- `IncrSectionCredits`. -/
def incrSectionCredits (users : Users) (uid : UserID) (sec : Str) (kBytes : Int) : Users :=
  users.setFields uid fun r => { r with credits := incrCredits r.credits sec kBytes }

/-- The loop over the nukees in which credits are taken: `charge` says how many from a user who was
loaded, or not, and from what he has in the directory. -/
def takeLoop (charge : Option User → Nukee → Int) (sec : Str) : Users → Nukees → Users × Nukees
  | users, [] => (users, [])
  | users, (uid, n) :: rest =>
    let credits := charge (users.loadUID uid) n
    let r := takeLoop charge sec (decrSectionCreditsForce users uid sec credits) rest
    (r.1, (uid, { n with credits := credits }) :: r.2)

section Nuke

variable (cfg : Cfg.Config) (gidToName : GroupID → Str) (xfertimeCorrection : XfertimeCorrection)
  (path : Str) (multiplier : Int) (isPercent : Bool)

def creditsSection : Str := creditSection (cfg.sectionMatch path true)

def statsSection : Str :=
  match cfg.sectionMatch path true with
  | some sec => sec.name
  | none => []

/-- What `TakeCreditsNotEmpty` takes; the source does not look whether the user was loaded. -/
def chargeNotEmpty : Option User → Nukee → Int
  | none, n => n.credits
  | some user, n =>
    if isPercent then max 0 (percentOf (user.sectionCredits (creditsSection cfg path)) multiplier)
    else
      let env : Env := { cfg := cfg, user := user, gidToName := gidToName }
      let ratio := Ebftpd.Stats.uploadRatio env (append path "dummy-file".toList)
        (cfg.sectionMatch path true)
      if ratio = 0 then 0 else wrap64 (n.kBytes * ratio + n.kBytes * (multiplier - 1))

def isEmptyNuke (calls : NukeCalls) : Bool :=
  decide (totalKBytes calls.entries < cfg.nukeStyle.emptyKBytes)

/-- The nukees that are charged: with no files at all the owner of the directory. -/
def charged (calls : NukeCalls) : Nukees :=
  let nukees := calculateNukees calls.entries
  if multiplier ≠ 0 ∧ isEmptyNuke cfg calls ∧ nukees.isEmpty then [(calls.owner, {})] else nukees

def chargeOf (calls : NukeCalls) (user : Option User) (n : Nukee) : Int :=
  if multiplier = 0 then 0
  else if isEmptyNuke cfg calls then cfg.nukeStyle.emptyPenalty
  else chargeNotEmpty cfg gidToName path multiplier isPercent user n

def takeCredits (users : Users) (calls : NukeCalls) : Users × Nukees :=
  let nukees := calculateNukees calls.entries
  if multiplier = 0 then (users, nukees)
  else if isEmptyNuke cfg calls then
    takeLoop (fun _ _ => cfg.nukeStyle.emptyPenalty) (creditsSection cfg path) users
      (if nukees.isEmpty then [(calls.owner, {})] else nukees)
  else
    takeLoop (chargeNotEmpty cfg gidToName path multiplier isPercent) (creditsSection cfg path) users
      nukees

def takeStats (calls : NukeCalls) (nukees : Nukees) (transfers : Transfers) : Transfers :=
  nukees.foldl
    (fun transfers kv =>
      if kv.2.kBytes > 0 then
        uploadDecr xfertimeCorrection calls.date
          ⟨kv.1, kv.2.kBytes, calls.modTime, statsSection cfg path, kv.2.files⟩ transfers
      else transfers)
    transfers

def nukedPath (real : Str) : Str :=
  append (dirname real) (replaceAll cfg.nukeStyle.format "%N".toList (basename real))

def lookupByID (records : List Record) (id : Str) : Option Record := records.find? (·.id == id)

def lookupByPath (records : List Record) (path : Str) : Option Record := records.find? (·.path == path)

/-- `LookupUnnuke` and `LookupNuke`: by the attribute of a directory, else by the path. -/
def lookup (records : List Record) (nukeID : Option Str) (path : Str) : Option Record :=
  match nukeID.bind (lookupByID records) with
  | some record => some record
  | none => lookupByPath records path

/-- `ActionTheDirectory`, as far as the attributes go. -/
def actionTheDirectory (calls : NukeCalls) (nukeID : Str → Option Str) : Str → Option Str :=
  let real := Fs.makeReal cfg.sitepath path
  let nuked := nukedPath cfg real
  if cfg.nukeStyle.action = .DeleteAll then
    if calls.removed then setID nukeID real none else nukeID
  else if calls.renamed then
    let moved := setID (setID nukeID real none) nuked (nukeID real)
    if calls.attributeSet then setID moved nuked (some calls.id) else moved
  else if calls.attributeSet then setID nukeID real (some calls.id)
  else nukeID

def nuke (s : State) (reason : Str) (nukerUID : UserID) (calls : NukeCalls) : State × Record :=
  let real := Fs.makeReal cfg.sitepath path
  let r := takeCredits cfg gidToName path multiplier isPercent s.users calls
  let record : Record :=
    { id := calls.id, path := path, sec := statsSection cfg path, reason := reason
      nukerUID := nukerUID, multiplier := multiplier, isPercent := isPercent
      modTime := calls.modTime, nukees := r.2 }
  ({ users := r.1
     transfers := takeStats cfg xfertimeCorrection path calls r.2 s.transfers
     nukes := s.nukes ++ [record]
     unnukes :=
       match lookup s.unnukes (s.nukeID real) path with
       | some unnuke => s.unnukes.filter fun r => r.path != unnuke.path
       | none => s.unnukes
     nukeID := actionTheDirectory cfg path calls s.nukeID },
    record)

/-! ## Giving back -/

def separateCredits (record : Record) : Bool :=
  (cfg.sections.find? (·.name == record.sec)).any (·.separateCredits)

def restoreCredits (record : Record) (users : Users) : Users :=
  let sec := if separateCredits cfg record then record.sec else []
  record.nukees.foldl (fun users kv => incrSectionCredits users kv.1 sec kv.2.credits) users

/-- `RestoreStats`, which counts the files of all nukees for each. -/
def restoreStats (calls : UnnukeCalls) (record : Record) (transfers : Transfers) : Transfers :=
  record.nukees.foldl
    (fun transfers kv =>
      if kv.2.kBytes > 0 ∨ kv.2.files > 0 then
        uploadIncr xfertimeCorrection calls.date
          ⟨kv.1, kv.2.kBytes, record.modTime, record.sec, record.files⟩ transfers
      else transfers)
    transfers

/-- `Unnuke`; `none` when no record is found. -/
def unnuke (s : State) (reason : Str) (nukerUID : UserID) (calls : UnnukeCalls) :
    Option (State × Record) :=
  let real := Fs.makeReal cfg.sitepath path
  let nuked := nukedPath cfg real
  (lookup s.nukes (s.nukeID nuked) path).map fun record =>
    let unnuked := { record with id := calls.id, reason := reason, nukerUID := nukerUID }
    let removed := setID s.nukeID nuked none
    let moved := if calls.renamed then setID (setID removed nuked none) real (removed nuked) else removed
    ({ users := restoreCredits cfg record s.users
       transfers := restoreStats xfertimeCorrection calls record s.transfers
       nukes := s.nukes.filter fun r => r.path != record.path
       unnukes := s.unnukes ++ [unnuked]
       nukeID := if calls.attributeSet then setID moved real (some calls.id) else moved },
      unnuked)

end Nuke

/-! ## What the directory holds -/

def counted (entries : List Entry) : List Entry := entries.filter Entry.counts

/-- What an owner has in the directory. -/
def inDirectory (entries : List Entry) (uid : UserID) : Nukee where
  kBytes := (((counted entries).filter (·.owner == uid)).map fun e => ((e.size / 1024 : Nat) : Int)).sum
  files := ((counted entries).filter (·.owner == uid)).length

def Sorted (nukees : Nukees) : Prop := (keys nukees).Pairwise (· < ·)

theorem Sorted.distinct {nukees : Nukees} (h : Sorted nukees) : Distinct nukees :=
  h.imp fun hlt => Int.ne_of_lt hlt

theorem keys_addFile (uid : UserID) (kBytes : Int) (nukees : Nukees) (u : UserID) :
    u ∈ keys (addFile uid kBytes nukees) ↔ u = uid ∨ u ∈ keys nukees := by
  induction nukees with
  | nil => simp [addFile, keys]
  | cons kv rest ih =>
    obtain ⟨v, n⟩ := kv
    simp only [addFile]
    split
    · simp [keys]
    · split
      · rename_i huid
        subst huid
        simp [keys]
      · simp only [keys, List.map_cons, List.mem_cons] at ih ⊢
        rw [ih]
        tauto

theorem addFile_sorted {uid : UserID} {kBytes : Int} {nukees : Nukees} (h : Sorted nukees) :
    Sorted (addFile uid kBytes nukees) := by
  induction nukees with
  | nil => simp [addFile, Sorted, keys]
  | cons kv rest ih =>
    obtain ⟨v, n⟩ := kv
    simp only [Sorted, keys, List.map_cons, List.pairwise_cons] at h ih
    simp only [addFile]
    split
    · rename_i hlt
      simp only [Sorted, keys, List.map_cons, List.pairwise_cons, List.mem_cons]
      refine ⟨?_, h.1, h.2⟩
      rintro u (rfl | hu)
      · exact hlt
      · exact Int.lt_trans hlt (h.1 u hu)
    · split
      · exact List.pairwise_cons.mpr h
      · rename_i hnlt hne
        refine List.pairwise_cons.mpr ⟨?_, ih h.2⟩
        intro u hu
        rcases (keys_addFile uid kBytes rest u).mp hu with rfl | hu
        · exact lt_of_le_of_ne (Int.not_lt.mp hnlt) (Ne.symm hne)
        · exact h.1 u hu

def nukeeOf (nukees : Nukees) (uid : UserID) : Nukee := (nukees.lookup uid).getD {}

theorem nukeeOf_addFile {uid : UserID} {kBytes : Int} {nukees : Nukees} (h : Sorted nukees)
    (u : UserID) :
    nukeeOf (addFile uid kBytes nukees) u =
      if u = uid then
        { nukeeOf nukees u with
          kBytes := (nukeeOf nukees u).kBytes + kBytes, files := (nukeeOf nukees u).files + 1 }
      else nukeeOf nukees u := by
  induction nukees with
  | nil =>
    by_cases hu : u = uid
    · simp [addFile, nukeeOf, hu]
    · simp [addFile, nukeeOf, hu, beq_eq_false_iff_ne.mpr hu, List.lookup_cons]
  | cons kv rest ih =>
    obtain ⟨v, n⟩ := kv
    simp only [Sorted, keys, List.map_cons, List.pairwise_cons] at h ih
    simp only [addFile]
    split
    · rename_i hlt
      by_cases hu : u = uid
      · subst hu
        -- the new owner comes before all others
        have hnone : List.lookup u ((v, n) :: rest) = none := by
          refine lookup_of_not_mem fun hw => ?_
          rcases List.mem_cons.mp hw with rfl | hw
          · exact Int.lt_irrefl _ hlt
          · exact Int.lt_irrefl _ (Int.lt_trans hlt (h.1 u hw))
        simp [nukeeOf, hnone]
      · simp [nukeeOf, hu, beq_eq_false_iff_ne.mpr hu, List.lookup_cons]
    · split
      · rename_i huid
        subst huid
        by_cases hu : u = uid
        · simp [nukeeOf, hu]
        · simp [nukeeOf, hu, beq_eq_false_iff_ne.mpr hu, List.lookup_cons]
      · rename_i hne
        by_cases huv : u = v
        · have : u ≠ uid := fun hu => hne (hu.symm.trans huv)
          simp [nukeeOf, huv, huv ▸ this]
        · have hrest := ih h.2
          simp only [nukeeOf, List.lookup_cons, beq_eq_false_iff_ne.mpr huv] at hrest ⊢
          exact hrest

theorem counted_cons (e : Entry) (entries : List Entry) :
    counted (e :: entries) = if e.counts then e :: counted entries else counted entries := by
  simp only [counted, List.filter_cons]

theorem foldl_addEntry (entries : List Entry) {nukees : Nukees} (h : Sorted nukees) :
    Sorted (entries.foldl addEntry nukees) ∧
      ∀ u, nukeeOf (entries.foldl addEntry nukees) u =
        { nukeeOf nukees u with
          kBytes := (nukeeOf nukees u).kBytes + (inDirectory entries u).kBytes
          files := (nukeeOf nukees u).files + (inDirectory entries u).files } := by
  induction entries generalizing nukees with
  | nil => exact ⟨h, fun u => by simp [inDirectory, counted]⟩
  | cons e entries ih =>
    by_cases hcounts : e.counts = true
    · have hadd : addEntry nukees e = addFile e.owner (e.size / 1024 : Nat) nukees := if_pos hcounts
      rw [List.foldl_cons, hadd]
      obtain ⟨hsorted, hof⟩ := ih (addFile_sorted h)
      refine ⟨hsorted, fun u => ?_⟩
      rw [hof u, nukeeOf_addFile h]
      by_cases hu : u = e.owner
      · subst hu
        simp only [inDirectory, counted_cons, hcounts, if_true, List.filter_cons, beq_self_eq_true,
          List.map_cons, List.sum_cons, List.length_cons, Nat.cast_succ]
        congr 1
        · omega
        · omega
      · simp [inDirectory, counted_cons, hcounts, hu, Ne.symm hu]
    · have hadd : addEntry nukees e = nukees := if_neg hcounts
      obtain ⟨hsorted, hof⟩ := ih h
      rw [List.foldl_cons, hadd]
      refine ⟨hsorted, fun u => ?_⟩
      rw [hof u]
      simp [inDirectory, counted_cons, hcounts]

theorem calculateNukees_sorted (entries : List Entry) : Sorted (calculateNukees entries) :=
  (foldl_addEntry entries (show Sorted [] from List.Pairwise.nil)).1

theorem nukeeOf_calculateNukees (entries : List Entry) (uid : UserID) :
    nukeeOf (calculateNukees entries) uid = inDirectory entries uid := by
  have h := (foldl_addEntry entries (show Sorted [] from List.Pairwise.nil)).2 uid
  rw [calculateNukees, h]
  simp [nukeeOf, inDirectory]

theorem keys_foldl_addEntry (entries : List Entry) (nukees : Nukees) (u : UserID) :
    u ∈ keys (entries.foldl addEntry nukees) ↔
      (∃ e ∈ counted entries, e.owner = u) ∨ u ∈ keys nukees := by
  induction entries generalizing nukees with
  | nil => simp [counted]
  | cons e entries ih =>
    rw [List.foldl_cons, ih, counted_cons]
    by_cases hcounts : e.counts = true
    · rw [addEntry, if_pos hcounts, if_pos hcounts, keys_addFile]
      simp only [List.mem_cons, exists_eq_or_imp, @eq_comm _ u e.owner]
      rw [or_left_comm, or_assoc]
    · rw [addEntry, if_neg hcounts, if_neg hcounts]

theorem mem_calculateNukees {entries : List Entry} {kv : UserID × Nukee}
    (h : kv ∈ calculateNukees entries) : kv.2 = inDirectory entries kv.1 := by
  rw [← nukeeOf_calculateNukees, nukeeOf,
    lookup_of_mem (calculateNukees_sorted entries).distinct h]
  rfl

theorem mem_keys_calculateNukees {entries : List Entry} {uid : UserID} :
    uid ∈ keys (calculateNukees entries) ↔ ∃ e ∈ counted entries, e.owner = uid := by
  rw [calculateNukees, keys_foldl_addEntry]
  simp [keys]

def sumFiles (nukees : Nukees) : Int := (nukees.map (·.2.files)).sum

theorem Record.files_eq (r : Record) : r.files = sumFiles r.nukees := by
  have h : ∀ (nukees : Nukees) (a : Int),
      nukees.foldl (fun files kv => files + kv.2.files) a = a + sumFiles nukees := by
    intro nukees
    induction nukees with
    | nil => simp [sumFiles]
    | cons kv rest ih =>
      intro a
      rw [List.foldl_cons, ih]
      simp only [sumFiles, List.map_cons, List.sum_cons]
      omega
  rw [Record.files, h, zero_add]

theorem sumFiles_addFile (uid : UserID) (kBytes : Int) (nukees : Nukees) :
    sumFiles (addFile uid kBytes nukees) = sumFiles nukees + 1 := by
  induction nukees with
  | nil => rfl
  | cons kv rest ih =>
    obtain ⟨v, n⟩ := kv
    simp only [addFile]
    split
    · simp only [sumFiles, List.map_cons, List.sum_cons]
      omega
    · split
      · simp only [sumFiles, List.map_cons, List.sum_cons]
        omega
      · simp only [sumFiles, List.map_cons, List.sum_cons] at ih ⊢
        omega

theorem sumFiles_calculateNukees (entries : List Entry) :
    sumFiles (calculateNukees entries) = (counted entries).length := by
  have h : ∀ nukees : Nukees,
      sumFiles (entries.foldl addEntry nukees) = sumFiles nukees + (counted entries).length := by
    induction entries with
    | nil => simp [counted]
    | cons e entries ih =>
      intro nukees
      rw [List.foldl_cons, ih, counted_cons]
      by_cases hcounts : e.counts = true
      · rw [addEntry, if_pos hcounts, if_pos hcounts, sumFiles_addFile, List.length_cons]
        omega
      · rw [addEntry, if_neg hcounts, if_neg hcounts]
  rw [calculateNukees, h]
  simp [sumFiles]

/-! ## What is taken and given back -/

/-- A user whose credits change by what he is down for as a nukee. -/
def changed (f : Nukee → User → Credits) (nukees : Nukees) (r : User) : User :=
  match nukees.lookup r.id with
  | some n => { r with credits := f n r }
  | none => r

theorem changed_of_not_mem {f : Nukee → User → Credits} {nukees : Nukees} {r : User}
    (h : r.id ∉ keys nukees) : changed f nukees r = r := by
  simp [changed, lookup_of_not_mem h]

/-- The write for one nukee, and the changes for the rest of them. -/
theorem changed_step {f : Nukee → User → Credits} {g : User → Credits} {users : Users} {uid : UserID}
    {n : Nukee} {rest : Nukees} (hnot : uid ∉ keys rest)
    (hg : ∀ r, users.loadUID uid = some r → g r = f n r) (u : UserID) :
    ((users.setFields uid fun r => { r with credits := g r }).loadUID u).map (changed f rest) =
      (users.loadUID u).map (changed f ((uid, n) :: rest)) := by
  rw [Users.loadUID_written]
  cases hload : users.loadUID u with
  | none => rfl
  | some r =>
    have hid := Users.loadUID_id hload
    simp only [Option.map_some, Option.some.injEq]
    by_cases hu : u = uid
    · subst hu
      rw [changed_of_not_mem (by rw [Users.written_id, hid]; exact hnot)]
      simp [Users.written, changed, hid, hg r hload]
    · have hne : r.id ≠ uid := by rw [hid]; exact hu
      simp [Users.written, hne, changed, List.lookup_cons, beq_eq_false_iff_ne.mpr hne]

theorem changed_nil (f : Nukee → User → Credits) (o : Option User) : o.map (changed f []) = o := by
  have hid : changed f [] = id := funext fun r => rfl
  simp [hid]

def takenFrom (charge : Option User → Nukee → Int) (sec : Str) (n : Nukee) (r : User) : Credits :=
  (decrCredits true r.credits sec (charge (some r) n) true).2

theorem takeLoop_spec (charge : Option User → Nukee → Int) (sec : Str) :
    ∀ (nukees : Nukees) (users : Users), Distinct nukees →
      (takeLoop charge sec users nukees).2 =
        nukees.map (fun kv => (kv.1, { kv.2 with credits := charge (users.loadUID kv.1) kv.2 })) ∧
      ∀ u, (takeLoop charge sec users nukees).1.loadUID u =
        (users.loadUID u).map (changed (takenFrom charge sec) nukees) := by
  intro nukees
  induction nukees with
  | nil => exact fun users _ => ⟨rfl, fun u => (changed_nil _ _).symm⟩
  | cons kv rest ih =>
    obtain ⟨uid, n⟩ := kv
    intro users hdistinct
    simp only [Distinct, keys, List.map_cons, List.nodup_cons] at hdistinct
    obtain ⟨hnot, hrest⟩ := hdistinct
    obtain ⟨hnukees, husers⟩ :=
      ih (decrSectionCreditsForce users uid sec (charge (users.loadUID uid) n)) hrest
    simp only [takeLoop]
    refine ⟨?_, fun u => ?_⟩
    · simp only [List.map_cons, List.cons.injEq, true_and]
      rw [hnukees]
      refine List.map_congr_left fun kv hkv => ?_
      have hne : kv.1 ≠ uid := fun h => hnot (h ▸ List.mem_map_of_mem hkv)
      rw [show (decrSectionCreditsForce users uid sec _).loadUID kv.1 = users.loadUID kv.1 from
        Users.loadUID_setFields_ne hne _]
    · rw [husers]
      refine changed_step hnot (fun r hload => ?_) u
      rw [hload]
      rfl

def givenTo (sec : Str) (n : Nukee) (r : User) : Credits := incrCredits r.credits sec n.credits

theorem restoreLoop_spec (sec : Str) :
    ∀ (nukees : Nukees) (users : Users), Distinct nukees → ∀ u,
      (nukees.foldl (fun users kv => incrSectionCredits users kv.1 sec kv.2.credits) users).loadUID u =
        (users.loadUID u).map (changed (givenTo sec) nukees) := by
  intro nukees
  induction nukees with
  | nil => exact fun users _ u => (changed_nil _ _).symm
  | cons kv rest ih =>
    obtain ⟨uid, n⟩ := kv
    intro users hdistinct u
    simp only [Distinct, keys, List.map_cons, List.nodup_cons] at hdistinct
    rw [List.foldl_cons, ih _ hdistinct.2]
    exact changed_step hdistinct.1 (fun r _ => rfl) u

section Spec

variable {cfg : Cfg.Config} {gidToName : GroupID → Str} {xfertimeCorrection : XfertimeCorrection}
  {path : Str} {multiplier : Int} {isPercent : Bool}

/-- The nukees are the owners of the files; with no files at all, the owner of the directory. -/
theorem charged_cases (calls : NukeCalls) :
    charged cfg multiplier calls = calculateNukees calls.entries ∨
      charged cfg multiplier calls = [(calls.owner, {})] ∧ counted calls.entries = [] := by
  simp only [charged]
  split
  · rename_i hempty
    refine .inr ⟨rfl, ?_⟩
    rw [List.eq_nil_iff_forall_not_mem]
    intro e he
    have := mem_keys_calculateNukees.mpr ⟨e, he, rfl⟩
    rw [List.isEmpty_iff.mp hempty.2.2] at this
    cases this
  · exact .inl rfl

theorem charged_distinct (calls : NukeCalls) : Distinct (charged cfg multiplier calls) := by
  rcases charged_cases calls with h | ⟨h, -⟩
  · rw [h]
    exact (calculateNukees_sorted calls.entries).distinct
  · rw [h]
    simp [Distinct, keys]

/-- The charged nukees are down for what they have in the directory, the owner of an empty one for
nothing. -/
theorem mem_charged {calls : NukeCalls} {kv : UserID × Nukee}
    (h : kv ∈ charged cfg multiplier calls) : kv.2 = inDirectory calls.entries kv.1 := by
  rcases charged_cases calls with hc | ⟨hc, hnone⟩
  · rw [hc] at h
    exact mem_calculateNukees h
  · rw [hc, List.mem_singleton] at h
    subst h
    simp [inDirectory, hnone]

theorem sumFiles_charged (cfg : Cfg.Config) (multiplier : Int) (calls : NukeCalls) :
    sumFiles (charged cfg multiplier calls) = (counted calls.entries).length := by
  rcases charged_cases calls with h | ⟨h, hnone⟩
  · rw [h, sumFiles_calculateNukees]
  · rw [h, hnone]
    rfl

theorem mem_keys_charged {calls : NukeCalls} {e : Entry} (he : e ∈ counted calls.entries) :
    e.owner ∈ keys (charged cfg multiplier calls) := by
  rcases charged_cases calls with h | ⟨-, hnone⟩
  · rw [h]
    exact mem_keys_calculateNukees.mpr ⟨e, he, rfl⟩
  · rw [hnone] at he
    cases he

/-- `TakeCredits`: the nukees with their charges, and the users from whom these were taken. -/
theorem takeCredits_spec (users : Users) (calls : NukeCalls) :
    let charge := chargeOf cfg gidToName path multiplier isPercent calls
    (takeCredits cfg gidToName path multiplier isPercent users calls).2 =
      (charged cfg multiplier calls).map
        (fun kv => (kv.1, { kv.2 with credits := charge (users.loadUID kv.1) kv.2 })) ∧
    ∀ u, (takeCredits cfg gidToName path multiplier isPercent users calls).1.loadUID u =
      (users.loadUID u).map
        (changed (takenFrom charge (creditsSection cfg path)) (charged cfg multiplier calls)) := by
  intro charge
  have hdistinct : Distinct (charged cfg multiplier calls) := charged_distinct calls
  unfold takeCredits
  split
  · rename_i hmul
    have hcharge : charge = fun _ _ => 0 := by
      funext user n
      simp [charge, chargeOf, hmul]
    have hcharged : charged cfg multiplier calls = calculateNukees calls.entries := by
      simp [charged, hmul]
    rw [hcharge, hcharged]
    refine ⟨?_, fun u => ?_⟩
    · -- the nukees start with no credits
      have hsame : ∀ kv ∈ calculateNukees calls.entries, (kv.1, { kv.2 with credits := 0 }) = kv := by
        intro kv hkv
        obtain ⟨uid, n⟩ := kv
        rw [show n = _ from mem_calculateNukees hkv]
        rfl
      rw [List.map_congr_left hsame, List.map_id']
    · have hsame : changed (takenFrom (fun _ _ => 0) (creditsSection cfg path))
          (calculateNukees calls.entries) = id := by
        funext r
        simp only [changed, takenFrom, decrCredits, if_true]
        split <;> rfl
      rw [hsame, Option.map_id, id]
  · rename_i hmul
    split
    · rename_i hempty
      have hcharge : charge = fun _ _ => cfg.nukeStyle.emptyPenalty := by
        funext user n
        simp [charge, chargeOf, hmul, hempty]
      have hcharged : charged cfg multiplier calls =
          if (calculateNukees calls.entries).isEmpty then [(calls.owner, {})]
          else calculateNukees calls.entries := by
        simp [charged, hmul, hempty]
      rw [hcharge, hcharged]
      exact takeLoop_spec _ _ _ users (hcharged ▸ hdistinct)
    · rename_i hempty
      have hcharge : charge = chargeNotEmpty cfg gidToName path multiplier isPercent := by
        funext user n
        simp [charge, chargeOf, hmul, hempty]
      have hcharged : charged cfg multiplier calls = calculateNukees calls.entries := by
        simp [charged, hempty]
      rw [hcharge, hcharged]
      exact takeLoop_spec _ _ _ users (hcharged ▸ hdistinct)

/-! ## The balances -/

def balance (users : Users) (uid : UserID) (sec : Str) : Int :=
  ((users.loadUID uid).map (·.sectionCredits sec)).getD 0

theorem sectionCredits_eq (user : User) (sec : Str) : user.sectionCredits sec = value user.credits sec :=
  (value_eq_lookup user.credits sec).symm

theorem chargeOf_bounds (calls : NukeCalls) (user : User) (n : Nukee) :
    llongMin ≤ chargeOf cfg gidToName path multiplier isPercent calls (some user) n ∧
      chargeOf cfg gidToName path multiplier isPercent calls (some user) n ≤ llongMax := by
  unfold chargeOf
  split
  · decide
  · split
    · exact cfg.nukeStyle.emptyPenalty_bounds
    · simp only [chargeNotEmpty]
      split
      · have h := percentOf_bounds (user.sectionCredits (creditsSection cfg path)) multiplier
        simp only [llongMin, llongMax] at h ⊢
        omega
      · split
        · decide
        · exact wrap64_bounds _

/-- A forced decrement takes the whole amount exactly when the section has an element, and the amount
has a negation. -/
theorem forcedTaken_eq_iff {credits : Credits} {sec : Str} {c : Int}
    (hc : llongMin ≤ c ∧ c ≤ llongMax) :
    forcedTaken credits sec c = c ↔ c = 0 ∨ sec ∈ keys credits ∧ c ≠ llongMin := by
  unfold forcedTaken
  by_cases hzero : c = 0
  · simp [hzero]
  · by_cases hmem : sec ∈ keys credits
    · simp only [hzero, hmem, not_true, or_self, if_false, false_or, true_and]
      by_cases hmin : c = llongMin
      · rw [hmin]
        decide
      · rw [wrap64_neg ⟨lt_of_le_of_ne hc.1 (Ne.symm hmin), hc.2⟩]
        simp [hmin]
    · simp [hmem, hzero, Ne.symm hzero]

/-- The nukees of the record. -/
def recorded (cfg : Cfg.Config) (gidToName : GroupID → Str) (path : Str) (multiplier : Int)
    (isPercent : Bool) (users : Users) (calls : NukeCalls) : Nukees :=
  (charged cfg multiplier calls).map fun kv =>
    (kv.1, { kv.2 with
      credits := chargeOf cfg gidToName path multiplier isPercent calls (users.loadUID kv.1) kv.2 })

theorem recorded_keys (users : Users) (calls : NukeCalls) :
    keys (recorded cfg gidToName path multiplier isPercent users calls) =
      keys (charged cfg multiplier calls) := by
  simp [recorded, keys]

theorem recorded_distinct (users : Users) (calls : NukeCalls) :
    Distinct (recorded cfg gidToName path multiplier isPercent users calls) := by
  unfold Distinct
  rw [recorded_keys]
  exact charged_distinct calls

theorem recorded_lookup (users : Users) (calls : NukeCalls) (uid : UserID) :
    (recorded cfg gidToName path multiplier isPercent users calls).lookup uid =
      ((charged cfg multiplier calls).lookup uid).map fun n =>
        { n with
          credits :=
            chargeOf cfg gidToName path multiplier isPercent calls (users.loadUID uid) n } := by
  unfold recorded
  induction charged cfg multiplier calls with
  | nil => rfl
  | cons kv rest ih =>
    rw [List.map_cons, List.lookup_cons, List.lookup_cons, ih]
    by_cases hu : uid = kv.1
    · simp [hu]
    · simp [beq_eq_false_iff_ne.mpr hu]

/-- What a nukee's charge and the forced decrement for it differ by. -/
def shortfall (charge : Option User → Nukee → Int) (sec : Str) (r : User) (n : Nukee) : Int :=
  charge (some r) n - forcedTaken r.credits sec (charge (some r) n)

/-- The credits of a user behind both commands. -/
theorem restored_credits {users : Users} {calls : NukeCalls} {r : User}
    (hr : users.loadUID r.id = some r) (j : Str) :
    let charge := chargeOf cfg gidToName path multiplier isPercent calls
    let sec := creditsSection cfg path
    (changed (givenTo sec) (recorded cfg gidToName path multiplier isPercent users calls)
        (changed (takenFrom charge sec) (charged cfg multiplier calls) r)).sectionCredits j =
      r.sectionCredits j +
        if j = sec then (((charged cfg multiplier calls).lookup r.id).map
          (shortfall charge sec r)).getD 0 else 0 := by
  intro charge sec
  cases hn : (charged cfg multiplier calls).lookup r.id with
  | none =>
    have hrec : (recorded cfg gidToName path multiplier isPercent users calls).lookup r.id = none := by
      rw [recorded_lookup, hn]
      rfl
    simp [changed, hn, hrec]
  | some n =>
    have hrec : (recorded cfg gidToName path multiplier isPercent users calls).lookup r.id =
        some { n with credits := charge (some r) n } := by
      rw [recorded_lookup, hn, hr]
      rfl
    simp only [changed, hn, hrec, sectionCredits_eq, givenTo, takenFrom, Option.map_some,
      Option.getD_some, shortfall]
    rw [incrCredits_value, decrCredits_force_value]
    split
    · omega
    · omega

theorem balance_of_load {users users' : Users} {f : User → User} {uid : UserID}
    (h : users'.loadUID uid = (users.loadUID uid).map f) (sec : Str) :
    balance users' uid sec = ((users.loadUID uid).map fun r => (f r).sectionCredits sec).getD 0 := by
  simp [balance, h, Function.comp_def]

/-- The balances are back exactly when every owner who is charged had an element to charge. -/
theorem balances_iff {users users' : Users} {calls : NukeCalls}
    (h : ∀ u, users'.loadUID u = (users.loadUID u).map fun r =>
      changed (givenTo (creditsSection cfg path))
        (recorded cfg gidToName path multiplier isPercent users calls)
        (changed
          (takenFrom (chargeOf cfg gidToName path multiplier isPercent calls) (creditsSection cfg path))
          (charged cfg multiplier calls) r)) :
    (∀ u j, balance users' u j = balance users u j) ↔
      ∀ kv ∈ charged cfg multiplier calls, ∀ r, users.loadUID kv.1 = some r →
        let c := chargeOf cfg gidToName path multiplier isPercent calls (some r) kv.2
        c = 0 ∨ creditsSection cfg path ∈ keys r.credits ∧ c ≠ llongMin := by
  constructor
  · intro hback kv hkv r hr
    have hid := Users.loadUID_id hr
    rw [← forcedTaken_eq_iff (chargeOf_bounds calls r kv.2)]
    have hj := hback kv.1 (creditsSection cfg path)
    rw [balance_of_load (h kv.1), hr, Option.map_some, Option.getD_some,
      restored_credits (by rw [hid]; exact hr), if_pos rfl, hid,
      lookup_of_mem (charged_distinct calls) hkv] at hj
    simp only [balance, hr, Option.map_some, Option.getD_some, shortfall] at hj
    omega
  · intro hall u j
    rw [balance_of_load (h u)]
    cases hr : users.loadUID u with
    | none => simp [balance, hr]
    | some r =>
      have hid := Users.loadUID_id hr
      rw [Option.map_some, Option.getD_some, restored_credits (by rw [hid]; exact hr), hid]
      cases hn : (charged cfg multiplier calls).lookup u with
      | none => simp [balance, hr]
      | some n =>
        have hmem : (u, n) ∈ charged cfg multiplier calls := by
          obtain ⟨l₁, l₂, heq, -⟩ := List.lookup_eq_some_iff.mp hn
          rw [heq]
          simp
        have hforced := (forcedTaken_eq_iff (chargeOf_bounds calls r n)).mpr (hall (u, n) hmem r hr)
        simp only [balance, hr, Option.map_some, Option.getD_some, shortfall, hforced]
        simp

/-! ## The statistics -/

def amountOf (col : Column) (kBytes files : Int) : Int :=
  match col with
  | .files => files
  | .kBytes => kBytes

theorem amount_eq (col : Column) (uid : UserID) (kBytes modTime : Int) (sec : Str) (files : Int) :
    col.amount ⟨uid, kBytes, modTime, sec, files⟩ = amountOf col kBytes files := by
  cases col with
  | files => rfl
  | kBytes => rfl

theorem uploaded_takeStats (col : Column) (calls : NukeCalls) {nukees : Nukees}
    (hnukees : Distinct nukees) (transfers : Transfers) (u : UserID) (j : Str) :
    uploaded col (takeStats cfg xfertimeCorrection path calls nukees transfers) u j =
      uploaded col transfers u j + ((nukees.lookup u).map fun n =>
        if n.kBytes > 0 then shift (statsSection cfg path) j (amountOf col n.kBytes n.files)
        else 0).getD 0 := by
  unfold takeStats
  refine foldl_lookup (m := fun t => uploaded col t u j) (fun t e => ?_) nukees transfers hnukees
  by_cases hk : e.2.kBytes > 0
  · simp only [hk, if_true]
    rw [uploaded_uploadDecr, amount_eq]
  · simp [hk]

theorem uploaded_restoreStats (col : Column) (calls : UnnukeCalls) {record : Record}
    (hnukees : Distinct record.nukees) (transfers : Transfers) (u : UserID) (j : Str) :
    uploaded col (restoreStats xfertimeCorrection calls record transfers) u j =
      uploaded col transfers u j + ((record.nukees.lookup u).map fun n =>
        if n.kBytes > 0 ∨ n.files > 0 then -shift record.sec j (amountOf col n.kBytes record.files)
        else 0).getD 0 := by
  unfold restoreStats
  refine foldl_lookup (m := fun t => uploaded col t u j) (fun t e => ?_) record.nukees transfers
    hnukees
  by_cases hk : e.2.kBytes > 0 ∨ e.2.files > 0
  · simp only [hk, if_true]
    rw [uploaded_uploadIncr, amount_eq]
    split
    · rfl
    · simp
  · simp [hk]

/-- One owner has all the files, and one of them fills a kilobyte. -/
def SoleOwner (entries : List Entry) : Prop :=
  (∃ uid, ∀ e ∈ counted entries, e.owner = uid) ∧ ∃ e ∈ counted entries, 1024 ≤ e.size

theorem inDirectory_kBytes_pos {entries : List Entry} {uid : UserID} :
    0 < (inDirectory entries uid).kBytes ↔
      ∃ e ∈ counted entries, e.owner = uid ∧ 1024 ≤ e.size := by
  have hnonneg : ∀ x ∈ ((counted entries).filter (·.owner == uid)).map
      (fun e => ((e.size / 1024 : Nat) : Int)), 0 ≤ x := by
    intro x hx
    obtain ⟨e, -, rfl⟩ := List.mem_map.mp hx
    exact Int.natCast_nonneg _
  constructor
  · intro hpos
    by_contra hno
    -- every file of the owner is smaller than a kilobyte
    have hzero : ∀ x ∈ ((counted entries).filter (·.owner == uid)).map
        (fun e => ((e.size / 1024 : Nat) : Int)), x = 0 := by
      intro x hx
      obtain ⟨e, he, rfl⟩ := List.mem_map.mp hx
      obtain ⟨hmem, howner⟩ := List.mem_filter.mp he
      have hsmall : ¬1024 ≤ e.size := fun h => hno ⟨e, hmem, beq_iff_eq.mp howner, h⟩
      rw [Nat.div_eq_of_lt (Nat.not_le.mp hsmall)]
      rfl
    rw [inDirectory, List.sum_eq_zero hzero] at hpos
    exact Int.lt_irrefl 0 hpos
  · rintro ⟨e, hmem, howner, hsize⟩
    have hin : ((e.size / 1024 : Nat) : Int) ∈ ((counted entries).filter (·.owner == uid)).map
        (fun e => ((e.size / 1024 : Nat) : Int)) :=
      List.mem_map.mpr ⟨e, List.mem_filter.mpr ⟨hmem, beq_iff_eq.mpr howner⟩, rfl⟩
    have hle := List.single_le_sum hnonneg _ hin
    have hone : 0 < e.size / 1024 := Nat.div_pos hsize (by decide)
    simp only [inDirectory]
    omega

theorem inDirectory_files_pos {entries : List Entry} {e : Entry} (he : e ∈ counted entries) :
    0 < (inDirectory entries e.owner).files := by
  have hmem : e ∈ (counted entries).filter (·.owner == e.owner) :=
    List.mem_filter.mpr ⟨he, beq_self_eq_true _⟩
  have := List.length_pos_of_mem hmem
  simp only [inDirectory]
  omega

theorem inDirectory_files_eq_iff {entries : List Entry} {uid : UserID} :
    (inDirectory entries uid).files = (counted entries).length ↔
      ∀ e ∈ counted entries, e.owner = uid := by
  simp only [inDirectory, Nat.cast_inj, List.length_filter_eq_length_iff, beq_iff_eq]

/-- What a nuke and the unnuke behind it leave of one nukee's statistics. -/
def leftOver (col : Column) (sec j : Str) (allFiles : Int) (n : Nukee) : Int :=
  (if n.kBytes > 0 then shift sec j (amountOf col n.kBytes n.files) else 0) +
    if n.kBytes > 0 ∨ n.files > 0 then -shift sec j (amountOf col n.kBytes allFiles) else 0

theorem leftOver_sole {sec j : Str} {allFiles : Int} {n : Nukee} (hk : n.kBytes > 0)
    (hf : n.files = allFiles) (col : Column) : leftOver col sec j allFiles n = 0 := by
  simp [leftOver, hk, hf]

theorem leftOver_nil (col : Column) (j : Str) (allFiles : Int) (n : Nukee) :
    leftOver col [] j allFiles n = 0 := by
  simp [leftOver, shift_nil]

/-- In the section itself the files come back as those of all nukees. -/
theorem leftOver_files {sec : Str} (hsec : sec ≠ []) {allFiles : Int} {n : Nukee} (hf : 0 < n.files) :
    leftOver .files sec sec allFiles n =
      allFiles - if n.kBytes > 0 then n.files else 0 := by
  simp only [leftOver, amountOf, shift, Ne.symm hsec, if_false, if_true]
  by_cases hk : n.kBytes > 0
  · simp only [hk, if_true, true_or]
    omega
  · simp only [hk, hf, if_true, if_false, or_true]
    omega

/-- What is left over of a user's statistics, by what he has in the directory. -/
theorem recorded_leftOver (users : Users) (calls : NukeCalls) (col : Column) (u : UserID) (sec j : Str)
    (allFiles : Int) :
    (((recorded cfg gidToName path multiplier isPercent users calls).lookup u).map
        (leftOver col sec j allFiles)).getD 0 =
      if u ∈ keys (charged cfg multiplier calls) then
        leftOver col sec j allFiles (inDirectory calls.entries u)
      else 0 := by
  rw [recorded_lookup]
  by_cases hu : u ∈ keys (charged cfg multiplier calls)
  · obtain ⟨⟨u', n⟩, hmem, rfl⟩ := List.mem_map.mp hu
    rw [lookup_of_mem (charged_distinct calls) hmem, if_pos hu, ← mem_charged hmem]
    rfl
  · rw [lookup_of_not_mem hu, if_neg hu]
    rfl

/-- The statistics are back exactly when the section has none, there were no files, or one owner had
them all. -/
theorem leftOver_iff (cfg : Cfg.Config) (multiplier : Int) (calls : NukeCalls) (sec : Str) :
    (∀ col j, ∀ u ∈ keys (charged cfg multiplier calls),
        leftOver col sec j (counted calls.entries).length (inDirectory calls.entries u) = 0) ↔
      sec = [] ∨ counted calls.entries = [] ∨ SoleOwner calls.entries := by
  constructor
  · intro h
    by_cases hsec : sec = []
    · exact .inl hsec
    · by_cases hnone : counted calls.entries = []
      · exact .inr (.inl hnone)
      · obtain ⟨e, he⟩ := List.exists_mem_of_ne_nil _ hnone
        have hfiles := h .files sec e.owner (mem_keys_charged he)
        rw [leftOver_files hsec (inDirectory_files_pos he)] at hfiles
        have hlength := List.length_pos_of_mem he
        split at hfiles
        · rename_i hk
          obtain ⟨big, hbig, -, hsize⟩ := inDirectory_kBytes_pos.mp hk
          have hall : ∀ e' ∈ counted calls.entries, e'.owner = e.owner :=
            inDirectory_files_eq_iff.mp (by omega)
          exact .inr (.inr ⟨⟨e.owner, hall⟩, big, hbig, hsize⟩)
        · omega
  · intro h col j u hu
    rcases h with rfl | hnone | ⟨⟨uid, hall⟩, big, hbig, hsize⟩
    · exact leftOver_nil col j _ _
    · simp [leftOver, inDirectory, hnone]
    · have huid : u = uid := by
        rcases charged_cases calls with hc | ⟨-, hnone⟩
        · rw [hc] at hu
          obtain ⟨e, he, rfl⟩ := mem_keys_calculateNukees.mp hu
          exact hall e he
        · rw [hnone] at hbig
          cases hbig
      subst huid
      refine leftOver_sole ?_ (inDirectory_files_eq_iff.mpr hall) col
      exact inDirectory_kBytes_pos.mpr ⟨big, hbig, hall big hbig, hsize⟩

/-! ## Nuke and unnuke -/

/-- The credits are given back to the section they were taken from. -/
theorem restored_section (hsections : (cfg.sections.map (·.name)).Nodup) {record : Record}
    (hsec : record.sec = statsSection cfg path) :
    (if separateCredits cfg record then record.sec else []) = creditsSection cfg path := by
  unfold separateCredits creditsSection creditSection
  rw [hsec, statsSection]
  cases hmatch : cfg.sectionMatch path true with
  | none => simp
  | some sec =>
    have hmem : sec ∈ cfg.sections := by
      unfold Cfg.Config.sectionMatch at hmatch
      split at hmatch
      · cases hmatch
      · exact List.mem_of_find?_eq_some hmatch
    have hfind : cfg.sections.find? (·.name == sec.name) = some sec := by
      cases hf : cfg.sections.find? (·.name == sec.name) with
      | none => simpa using List.find?_eq_none.mp hf sec hmem
      | some found =>
        have hname : found.name = sec.name := by simpa using List.find?_some hf
        rw [List.inj_on_of_nodup_map hsections (List.mem_of_find?_eq_some hf) hmem hname]
    simp [hfind]

/-- The attribute the directory at the nuked path has behind the nuke. -/
def attributeAfter (cfg : Cfg.Config) (path : Str) (s : State) (calls : NukeCalls) : Option Str :=
  actionTheDirectory cfg path calls s.nukeID (nukedPath cfg (Fs.makeReal cfg.sitepath path))

/-- The record of this nuke is the one found: the attribute names it, or the attribute names no
earlier record and no earlier record has the path. -/
def FindsOwn (cfg : Cfg.Config) (path : Str) (s : State) (calls : NukeCalls) : Prop :=
  attributeAfter cfg path s calls = some calls.id ∨
    (attributeAfter cfg path s calls).bind (lookupByID s.nukes) = none ∧
      lookupByPath s.nukes path = none

theorem lookup_own {s : State} {calls : NukeCalls} {record : Record} (hid : record.id = calls.id)
    (hpath : record.path = path) (hfresh : ∀ r ∈ s.nukes, r.id ≠ calls.id)
    (h : FindsOwn cfg path s calls) :
    lookup (s.nukes ++ [record]) (attributeAfter cfg path s calls) path = some record := by
  have hbyID : lookupByID (s.nukes ++ [record]) calls.id = some record := by
    have hnone : s.nukes.find? (·.id == calls.id) = none := by
      rw [List.find?_eq_none]
      intro r hr
      simpa using hfresh r hr
    simp [lookupByID, List.find?_append, hnone, hid]
  rcases h with hattr | ⟨hattr, hother⟩
  · simp [lookup, hattr, hbyID]
  · have hbyPath : lookupByPath (s.nukes ++ [record]) path = some record := by
      unfold lookupByPath at hother ⊢
      rw [List.find?_append, hother]
      simp [hpath]
    unfold lookup
    cases ha : attributeAfter cfg path s calls with
    | none => simpa using hbyPath
    | some id =>
      rw [ha, Option.bind_some] at hattr
      unfold lookupByID at hattr
      by_cases hsame : record.id = id
      · simp [lookupByID, List.find?_append, hattr, hsame]
      · simp [lookupByID, List.find?_append, hattr, hsame, hbyPath]

/-- Every balance and every user's uploads of all time are as before. -/
structure Undone (s s' : State) : Prop where
  credits : ∀ uid sec, balance s'.users uid sec = balance s.users uid sec
  stats : ∀ col uid sec, uploaded col s'.transfers uid sec = uploaded col s.transfers uid sec

/-- When a nuke can be undone: every owner that is charged has an element of the section, and the
statistics are those of one owner or of none. -/
structure Restorable (cfg : Cfg.Config) (gidToName : GroupID → Str) (path : Str) (multiplier : Int)
    (isPercent : Bool) (s : State) (calls : NukeCalls) : Prop where
  credits : ∀ kv ∈ charged cfg multiplier calls, ∀ user, s.users.loadUID kv.1 = some user →
    let c := chargeOf cfg gidToName path multiplier isPercent calls (some user) kv.2
    c = 0 ∨ creditsSection cfg path ∈ keys user.credits ∧ c ≠ llongMin
  stats : statsSection cfg path = [] ∨ counted calls.entries = [] ∨ SoleOwner calls.entries

/-- The users behind a nuke and the unnuke of its record. -/
theorem restoreCredits_load (hsections : (cfg.sections.map (·.name)).Nodup) {users : Users}
    {calls : NukeCalls} {record : Record} (hsec : record.sec = statsSection cfg path)
    (hnukees : record.nukees = recorded cfg gidToName path multiplier isPercent users calls)
    (u : UserID) :
    (restoreCredits cfg record
        (takeCredits cfg gidToName path multiplier isPercent users calls).1).loadUID u =
      (users.loadUID u).map fun r =>
        changed (givenTo (creditsSection cfg path))
          (recorded cfg gidToName path multiplier isPercent users calls)
          (changed
            (takenFrom (chargeOf cfg gidToName path multiplier isPercent calls)
              (creditsSection cfg path))
            (charged cfg multiplier calls) r) := by
  unfold restoreCredits
  rw [restored_section hsections hsec, hnukees,
    restoreLoop_spec _ _ _ (recorded_distinct users calls),
    (takeCredits_spec users calls).2 u, Option.map_map]
  rfl

/-- The statistics behind a nuke and the unnuke of its record. -/
theorem restoreStats_uploaded (xfertimeCorrection : XfertimeCorrection) {users : Users}
    {calls : NukeCalls} {record : Record} (hsec : record.sec = statsSection cfg path)
    (hnukees : record.nukees = recorded cfg gidToName path multiplier isPercent users calls)
    (calls' : UnnukeCalls) (transfers : Transfers) (col : Column) (u : UserID) (j : Str) :
    uploaded col (restoreStats xfertimeCorrection calls' record
        (takeStats cfg xfertimeCorrection path calls record.nukees transfers)) u j =
      uploaded col transfers u j +
        if u ∈ keys (charged cfg multiplier calls) then
          leftOver col (statsSection cfg path) j (counted calls.entries).length
            (inDirectory calls.entries u)
        else 0 := by
  have hfiles : record.files = (counted calls.entries).length := by
    rw [Record.files_eq, hnukees, ← sumFiles_charged cfg multiplier calls]
    simp [recorded, sumFiles, Function.comp_def]
  have hdistinct : Distinct record.nukees := by
    rw [hnukees]
    exact recorded_distinct users calls
  rw [uploaded_restoreStats col calls' hdistinct, uploaded_takeStats col calls hdistinct, add_assoc,
    ← recorded_leftOver users calls col u (statsSection cfg path) j (counted calls.entries).length,
    ← hnukees, hfiles, hsec]
  congr 1
  cases record.nukees.lookup u with
  | none => rfl
  | some n => rfl

/-- An unnuke that finds the record of the nuke undoes it exactly when it is restorable. -/
theorem unnuke_undoes_iff (hsections : (cfg.sections.map (·.name)).Nodup) (s : State)
    (reason : Str) (nukerUID : UserID) (calls : NukeCalls)
    (hfresh : ∀ r ∈ s.nukes, r.id ≠ calls.id) (hfinds : FindsOwn cfg path s calls) (reason' : Str)
    (unnukerUID : UserID) (calls' : UnnukeCalls) :
    ∃ r, unnuke cfg xfertimeCorrection path
        (nuke cfg gidToName xfertimeCorrection path multiplier isPercent s reason nukerUID calls).1
        reason' unnukerUID calls' = some r ∧
      (Undone s r.1 ↔ Restorable cfg gidToName path multiplier isPercent s calls) := by
  let record :=
    (nuke cfg gidToName xfertimeCorrection path multiplier isPercent s reason nukerUID calls).2
  have hlookup : lookup (s.nukes ++ [record]) (attributeAfter cfg path s calls) path = some record :=
    lookup_own rfl rfl hfresh hfinds
  have hnukees : record.nukees = recorded cfg gidToName path multiplier isPercent s.users calls :=
    (takeCredits_spec s.users calls).1
  refine ⟨_, congrArg (Option.map _) hlookup, ?_⟩
  have hcredits := balances_iff (restoreCredits_load hsections rfl hnukees)
  have hstats := restoreStats_uploaded xfertimeCorrection rfl hnukees calls' s.transfers
  constructor
  · intro h
    refine ⟨hcredits.mp h.credits, (leftOver_iff cfg multiplier calls _).mp fun col j u hu => ?_⟩
    have hsame := (hstats col u j).symm.trans (h.stats col u j)
    rw [if_pos hu] at hsame
    omega
  · intro h
    refine ⟨hcredits.mpr h.credits, fun col u j => (hstats col u j).trans ?_⟩
    split
    · rename_i hu
      rw [(leftOver_iff cfg multiplier calls _).mpr h.stats col j u hu, add_zero]
    · rw [add_zero]

end Spec

/-! ## On a site with one section -/

def exampleSite (separateCredits : Bool) : Cfg.Config where
  sitepath := "/site".toList
  sections :=
    [{ name := "MP3".toList, paths := ["/mp3/*".toList], separateCredits := separateCredits }]
  nukeStyle := { emptyKBytes := 1 }
  tlsControl := ACL.fromString "!*".toList
  maxOnline := ⟨10, 0⟩
  wildcardMatch := fun _ text => "/mp3/".toList.isPrefixOf text

def exampleOwners : Users where
  records :=
    [{ id := 1, name := "alice".toList, credits := [([], 10000)] },
      { id := 2, name := "bob".toList, credits := [([], 10000)] }]
  unique := by decide

/-- A directory with a file of two kilobytes for each of the owners. -/
def exampleNuke (owners : List UserID) : NukeCalls where
  entries := owners.map fun uid => { name := "track".toList, regular := true, size := 2048, owner := uid }
  owner := 1
  modTime := 0
  id := "n1".toList
  date := ⟨1, 1, 1, 2014⟩
  removed := true
  renamed := true
  attributeSet := true

def exampleUnnuke : UnnukeCalls where
  id := "u1".toList
  date := ⟨1, 1, 1, 2014⟩
  renamed := true
  attributeSet := true

/-- `NUKE /mp3/x 3` and `UNNUKE /mp3/x`. -/
def exampleUndo (separateCredits : Bool) (owners : List UserID) : Option (State × Record) :=
  unnuke (exampleSite separateCredits) (fun _ _ _ _ _ => 0) "/mp3/x".toList
    (nuke (exampleSite separateCredits) (fun _ => []) (fun _ _ _ _ _ => 0) "/mp3/x".toList 3 false
      { users := exampleOwners } "dupe".toList 1 (exampleNuke owners)).1
    "mistake".toList 1 exampleUnnuke

/-- One owner, charged in the section he has credits in. -/
theorem unnuke_undoes_one_owner :
    ∃ r, exampleUndo false [1] = some r ∧ Undone { users := exampleOwners } r.1 := by
  obtain ⟨r, hr, hiff⟩ := @unnuke_undoes_iff (exampleSite false) (fun _ => []) (fun _ _ _ _ _ => 0)
    "/mp3/x".toList 3 false (by decide) { users := exampleOwners } "dupe".toList 1 (exampleNuke [1])
    (by simp) (.inl (by decide)) "mistake".toList 1 exampleUnnuke
  refine ⟨r, hr, hiff.mpr ⟨?_, .inr (.inr ⟨⟨1, by decide⟩, by decide⟩)⟩⟩
  intro kv hkv user huser
  have hall : ∀ kv ∈ charged (exampleSite false) 3 (exampleNuke [1]),
      (exampleOwners.loadUID kv.1).all (fun user =>
        decide (creditsSection (exampleSite false) "/mp3/x".toList ∈ keys user.credits) &&
          decide (chargeOf (exampleSite false) (fun _ => []) "/mp3/x".toList 3 false (exampleNuke [1])
            (some user) kv.2 ≠ llongMin)) = true := by decide
  have hkept := hall kv hkv
  rw [show exampleOwners.loadUID kv.1 = some user from huser, Option.all_some, Bool.and_eq_true,
    decide_eq_true_iff, decide_eq_true_iff] at hkept
  exact .inr hkept

/-- With two owners each gets the files of both back; with credits of its own for the section, an
owner without any gets back what was never taken. -/
theorem unnuke_two_owners :
    (∃ r, exampleUndo false [1, 2] = some r ∧ uploaded .files r.1.transfers 1 "MP3".toList = 1 ∧
        ¬ Undone { users := exampleOwners } r.1) ∧
      ∃ r, exampleUndo true [1] = some r ∧ balance r.1.users 1 "MP3".toList = 10 ∧
        ¬ Undone { users := exampleOwners } r.1 := by
  constructor
  · have hrun : (exampleUndo false [1, 2]).map
        (fun r => uploaded .files r.1.transfers 1 "MP3".toList) = some 1 := by decide
    obtain ⟨r, hr, hfiles⟩ := Option.map_eq_some_iff.mp hrun
    refine ⟨r, hr, hfiles, fun h => ?_⟩
    have hsame := h.stats .files 1 "MP3".toList
    rw [hfiles] at hsame
    cases hsame
  · have hrun : (exampleUndo true [1]).map (fun r => balance r.1.users 1 "MP3".toList) = some 10 := by
      decide
    obtain ⟨r, hr, hcredits⟩ := Option.map_eq_some_iff.mp hrun
    refine ⟨r, hr, hcredits, fun h => ?_⟩
    have hsame := h.credits 1 "MP3".toList
    rw [hcredits] at hsame
    revert hsame
    decide

end Nuking
end Cmd
end Ebftpd
