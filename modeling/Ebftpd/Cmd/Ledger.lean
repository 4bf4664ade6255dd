import Ebftpd.Cmd.Stor
import Ebftpd.Lib.Tally

/-!
# Ebftpd.Cmd.Ledger

`DELE` (`src/cmd/rfc/commands.cpp`), and what it takes back over a whole sequence of uploads,
downloads and deletions. An upload grants its user `bytes / 1024` times the ratio; a deletion takes
the same product from the user who deletes, where he is the owner of the file, and if his credits
cover it. What other users delete, and what is overwritten or appended to, leaves grants behind.

The configuration and the accounts do not change, so the ratio of a user at a path is fixed. A
sequence is a run of completed commands: `step` is `none` for a command that is refused or ends
early. The statistics of downloads are apart from those of uploads and not here.

* `dele_own`, `dele_other`: one deletion.
* `step_balance`: what a command does to the balances beyond the grants of the files present.
* `upload_ledger`: the balance of every user after every such run.
-/

namespace Ebftpd
namespace Cmd

open Util Lib Lib.Cells Acl Acl.Path Db Db.Stats Fs

/-! ## Deleting a file -/

/-- What the calls of one `DELE` return. -/
structure DeleCalls where
  unlinkError : Option Errno
  date : Date

inductive DeleReply where
  | refused (e : Errno)
  | okay
  -- "DELE command successful. (.. MB credits lost)"
  | creditsLost (creditLoss : Int)

section Dele

variable (env : Env) (sys : Sys) (xfertimeCorrection : XfertimeCorrection) (path : Str)

/-- The statistics behind a deletion; the user is the one who deletes. -/
def deleStats (date : Date) (bytes : Nat) (modTime : Int) (transfers : Transfers) : Transfers :=
  match env.cfg.sectionMatch path false with
  | some sec =>
    if nostats env sys path then transfers
    else
      uploadDecr xfertimeCorrection date
        { uid := env.user.id, kBytes := (bytes / 1024 : Nat), modTime := modTime, sec := sec.name,
          files := 1 } transfers
  | none => transfers

/-- `DELECommand::Execute`. -/
def dele (calls : DeleCalls) (site : Site) : DeleReply × Site :=
  let loseCredits := decide (getOwner env sys site.files path = env.user.id)
  match deleteFile env sys site.files path calls.unlinkError with
  | .error e => (.refused e, site)
  | .ok (files, bytes, modTime) =>
    let site :=
      { site with
        files := files
        transfers :=
          deleStats env sys xfertimeCorrection path calls.date bytes modTime site.transfers }
    let creditLoss := wrap64 (uploadCredits env path bytes)
    if loseCredits && creditLoss != 0 then
      (.creditsLost creditLoss,
        site.decrSectionCredits env.user.id (creditSection (env.cfg.sectionMatch path false)) creditLoss)
    else (.okay, site)

variable {env sys xfertimeCorrection path} {calls : DeleCalls} {site : Site}

/-- The file a deletion that was not refused deletes, and the site behind it. -/
theorem dele_ok {reply : DeleReply} {site' : Site}
    (h : dele env sys xfertimeCorrection path calls site = (reply, site'))
    (hreply : ∀ e, reply ≠ .refused e) :
    ∃ file, site.files.lookup path = some file ∧ site'.files = site.files.erase path ∧
      site'.transfers = deleStats env sys xfertimeCorrection path calls.date file.size file.modTime
        site.transfers ∧
      site'.credits =
        if file.owner = env.user.id ∧ wrap64 (uploadCredits env path file.size) ≠ 0 then
          (site.decrSectionCredits env.user.id (creditSection (env.cfg.sectionMatch path false))
            (wrap64 (uploadCredits env path file.size))).credits
        else site.credits := by
  unfold dele at h
  split at h
  · cases h
    exact absurd rfl (hreply _)
  · rename_i files bytes modTime hdelete
    obtain ⟨file, hfile, rfl, rfl, rfl⟩ := deleteFile_ok hdelete
    refine ⟨file, hfile, ?_⟩
    simp only [getOwner_of_lookup hfile, Bool.and_eq_true, decide_eq_true_eq, bne_iff_ne] at h
    split at h
    · rename_i hlose
      cases h
      exact ⟨rfl, rfl, by rw [if_pos hlose]; rfl⟩
    · rename_i hkeep
      cases h
      exact ⟨rfl, rfl, by rw [if_neg hkeep]⟩

/-- What one file counts for in the statistics. -/
def fileAmount (size : Nat) : Column → Int
  | .files => 1
  | .kBytes => (size / 1024 : Nat)

theorem deleStats_uploaded (date : Date) (size : Nat) (modTime : Int) (transfers : Transfers)
    (col : Column) (u : UserID) (j : Str) :
    uploaded col (deleStats env sys xfertimeCorrection path date size modTime transfers) u j =
      uploaded col transfers u j +
        if env.user.id = u then shift (uploadSection env sys path) j (fileAmount size col) else 0 := by
  unfold deleStats uploadSection
  cases env.cfg.sectionMatch path false with
  | none => simp [shift_nil]
  | some sec =>
    simp only
    split
    · simp [shift_nil]
    · rw [uploaded_uploadDecr]
      cases col with
      | files => rfl
      | kBytes => rfl

end Dele

/-! ## Sequences of commands -/

namespace Ledger

inductive Command where
  | stor (uid : UserID) (path : Str) (calls : StorCalls)
  | retr (uid : UserID) (path : Str) (calls : RetrCalls)
  | dele (uid : UserID) (path : Str) (calls : DeleCalls)

/-- What does not change while the commands run. -/
structure Host where
  cfg : Cfg.Config
  gidToName : GroupID → Str
  accounts : UserID → User
  sys : Sys
  xfertimeCorrection : XfertimeCorrection

section

variable (host : Host)

def client (uid : UserID) : Env :=
  { cfg := host.cfg, user := { host.accounts uid with id := uid }, gidToName := host.gidToName }

/-- One completed command: an upload or a download that finished, a deletion that was not refused. -/
def step (site : Site) : Command → Option Site
  | .stor uid path calls =>
    match stor (client host uid) host.sys path calls site with
    | (.finished, site') => some site'
    | _ => none
  | .retr uid path calls =>
    match site.files.lookup path with
    | none => none
    | some file =>
      let r := retr (client host uid) host.sys path calls (site.credits uid)
      if calls.size = file.size ∧ r.ending = .finished then
        some (site.setCredits uid r.credits (retr_distinct _ host.sys path calls (site.distinct uid)))
      else none
  | .dele uid path calls =>
    match dele (client host uid) host.sys host.xfertimeCorrection path calls site with
    | (.refused _, _) => none
    | (_, site') => some site'

/-- What `bytes` bytes uploaded by `uid` are worth to the user `u` in the section `j`. -/
def creditsFor (u : UserID) (j : Str) (uid : UserID) (path : Str) (bytes : Nat) : Int :=
  if u = uid ∧ j = creditSection (host.cfg.sectionMatch path false) then
    uploadCredits (client host uid) path bytes
  else 0

/-- The grants for the files of a user that are present. -/
def granted (site : Site) (u : UserID) (j : Str) : Int :=
  tally (fun path file => creditsFor host u j file.owner path file.size) site.files

/-- What a command leaves granted for files that it takes away: those another user deletes and those
it overwrites. An upload that is appended is granted by itself and taken back with the whole file,
each rounded down to kilobytes. -/
def kept (u : UserID) (j : Str) (site : Site) : Command → Int
  | .stor uid path calls =>
    match site.files.lookup path with
    | none => 0
    | some old =>
      let creditsFor := creditsFor host u j
      if calls.offset > 0 then
        creditsFor uid path calls.received.bytes + creditsFor old.owner path old.size -
          creditsFor old.owner path (min calls.offset old.size + calls.received.bytes)
      else creditsFor old.owner path old.size
  | .retr _ _ _ => 0
  | .dele uid path _ =>
    match site.files.lookup path with
    | none => 0
    | some file =>
      if file.owner = uid then 0 else creditsFor host u j file.owner path file.size

def charged (u : UserID) (j : Str) (site : Site) : Command → Int
  | .stor _ _ _ => 0
  | .retr uid path calls =>
    if u = uid then downloadCharge (client host uid) host.sys path calls (site.credits uid) j else 0
  | .dele _ _ _ => 0

/-- A `long long` whose negation is one. -/
def Representable (k : Int) : Prop := llongMin < k ∧ k ≤ llongMax

instance (k : Int) : Decidable (Representable k) := inferInstanceAs (Decidable (_ ∧ _))

/-- The owner of a file can pay for deleting it. -/
def Covered (site : Site) (uid : UserID) (path : Str) (file : File) : Prop :=
  let loss := uploadCredits (client host uid) path file.size
  let sec := creditSection (host.cfg.sectionMatch path false)
  Representable loss ∧ (loss = 0 ∨ sec ∈ keys (site.credits uid) ∧ loss ≤ site.balance uid sec)

/-- The products a command computes are `long long`s, beyond which C++ defines no result, and who
deletes a file of his own can pay for it. -/
def Admits (site : Site) : Command → Prop
  | .stor uid path calls => Representable (uploadCredits (client host uid) path calls.received.bytes)
  | .retr uid path calls =>
    Fits calls (Stats.downloadRatio (client host uid) host.sys path (host.cfg.sectionMatch path false))
  | .dele uid path _ =>
    ∀ file, site.files.lookup path = some file → file.owner = uid → Covered host site uid path file

instance (calls : RetrCalls) (ratio : Int) : Decidable (Fits calls ratio) :=
  decidable_of_iff
    ((calls.size : Int) / 1024 * ratio ≤ llongMax ∧
      ((calls.progress.bytes - calls.size : Nat) : Int) * ratio ≤ llongMax)
    ⟨fun h => ⟨h.1, h.2⟩, fun h => ⟨h.charge, h.overrun⟩⟩

instance (site : Site) (uid : UserID) (path : Str) (file : File) :
    Decidable (Covered host site uid path file) :=
  inferInstanceAs (Decidable (_ ∧ (_ ∨ _ ∧ _)))

instance (site : Site) : ∀ cmd, Decidable (Admits host site cmd)
  | .stor _ _ _ => inferInstanceAs (Decidable (Representable _))
  | .retr _ _ _ => inferInstanceAs (Decidable (Fits _ _))
  | .dele uid path _ =>
    match h : site.files.lookup path with
    | none => .isTrue fun _ hfile => absurd (h.symm.trans hfile) (by simp)
    | some file =>
      decidable_of_iff (file.owner = uid → Covered host site uid path file)
        ⟨fun hpays _ hfile => Option.some.inj (h.symm.trans hfile) ▸ hpays,
          fun hadmits => hadmits file h⟩

/-- Uploads make new files, and files are deleted by their owners. -/
def Plain (site : Site) : Command → Prop
  | .stor _ path _ => site.files.lookup path = none
  | .retr _ _ _ => True
  | .dele uid path _ => ∀ file, site.files.lookup path = some file → file.owner = uid

/-! ## One command -/

section Step

variable {host} {site site' : Site} {uid : UserID} {path : Str}

theorem step_retr_inv {calls : RetrCalls} (h : step host site (.retr uid path calls) = some site') :
    site' = site.setCredits uid (retr (client host uid) host.sys path calls (site.credits uid)).credits
      (retr_distinct _ host.sys path calls (site.distinct uid)) := by
  simp only [step] at h
  split at h
  · cases h
  · split at h
    · cases h
      rfl
    · cases h

theorem step_dele_file {calls : DeleCalls} (h : step host site (.dele uid path calls) = some site') :
    ∃ file, site.files.lookup path = some file ∧ site'.files = site.files.erase path ∧
      site'.transfers = deleStats (client host uid) host.sys host.xfertimeCorrection path calls.date
        file.size file.modTime site.transfers ∧
      site'.credits =
        if file.owner = uid ∧ wrap64 (uploadCredits (client host uid) path file.size) ≠ 0 then
          (site.decrSectionCredits uid (creditSection (host.cfg.sectionMatch path false))
            (wrap64 (uploadCredits (client host uid) path file.size))).credits
        else site.credits := by
  simp only [step] at h
  split at h
  · cases h
  · rename_i hrefused hdele
    cases h
    exact dele_ok hdele hrefused

/-- What a deletion did to the statistics and the credits, for the file it found. -/
theorem step_dele_inv {calls : DeleCalls} {file : File} (hfile : site.files.lookup path = some file)
    (h : step host site (.dele uid path calls) = some site') :
    site'.transfers = deleStats (client host uid) host.sys host.xfertimeCorrection path calls.date
        file.size file.modTime site.transfers ∧
      site'.credits =
        if file.owner = uid ∧ wrap64 (uploadCredits (client host uid) path file.size) ≠ 0 then
          (site.decrSectionCredits uid (creditSection (host.cfg.sectionMatch path false))
            (wrap64 (uploadCredits (client host uid) path file.size))).credits
        else site.credits := by
  obtain ⟨file', hfile', -, hdone⟩ := step_dele_file h
  obtain rfl : file = file' := Option.some.inj (hfile.symm.trans hfile')
  exact hdone

/-- A completed upload: the file is there with the size that was counted, and what was counted is
granted. -/
theorem step_stor_inv {calls : StorCalls} (h : step host site (.stor uid path calls) = some site') :
    site'.files = site.files.insert path (calls.file uid (site.files.lookup path)) ∧
      calls.received.content.length = calls.received.bytes ∧
      ∀ u j, site'.balance u j =
        site.balance u j + if u = uid ∧ j = creditSection (host.cfg.sectionMatch path false) then
          wrap64 (uploadCredits (client host uid) path calls.received.bytes) else 0 := by
  simp only [step] at h
  split at h
  · rename_i hstor
    cases h
    obtain ⟨hend, rfl⟩ := stor_finished hstor
    refine ⟨rfl, ?_, fun u j => Site.incrSectionCredits_balance _ _ _ _ u j⟩
    rw [StorCalls.received, hend]
    exact storLoop_size calls.buffers {} rfl
  · cases h

theorem stor_balance {calls : StorCalls} (hadmits : Admits host site (.stor uid path calls))
    (h : step host site (.stor uid path calls) = some site') (u : UserID) (j : Str) :
    site'.balance u j - granted host site' u j =
      site.balance u j - granted host site u j + kept host u j site (.stor uid path calls) := by
  obtain ⟨hfiles, hsize, hbalance⟩ := step_stor_inv h
  have hgrant : site'.balance u j =
      site.balance u j + creditsFor host u j uid path calls.received.bytes := by
    rw [hbalance, wrap64_of_bounds ⟨le_of_lt hadmits.1, hadmits.2⟩]
    rfl
  rw [hgrant, granted, hfiles, tally_insert, ← granted]
  simp only [tallyAt, kept]
  cases hold : site.files.lookup path with
  | none =>
    simp only [StorCalls.file, File.size, hsize]
    omega
  | some old =>
    by_cases hoffset : calls.offset > 0
    · simp only [StorCalls.file, File.size, hsize, hoffset, if_true, List.length_append,
        List.length_take]
      omega
    · simp only [StorCalls.file, File.size, hsize, hoffset, if_false]
      omega

theorem retr_balance {calls : RetrCalls} (hadmits : Admits host site (.retr uid path calls))
    (h : step host site (.retr uid path calls) = some site') (u : UserID) (j : Str) :
    site'.balance u j - granted host site' u j =
      site.balance u j - granted host site u j - charged host u j site (.retr uid path calls) := by
  obtain rfl := step_retr_inv h
  rw [Site.setCredits_balance, retr_value (site.distinct uid) hadmits]
  simp only [charged, granted, Site.setCredits]
  by_cases hu : u = uid
  · subst hu
    simp only [if_true, Site.balance]
    omega
  · simp [hu]

/-- The owner of a file pays what it is worth, and nobody else does. -/
theorem dele_own {calls : DeleCalls} {file : File} (hfile : site.files.lookup path = some file)
    (howner : file.owner = uid) (hcovered : Covered host site uid path file)
    (h : step host site (.dele uid path calls) = some site') (u : UserID) (j : Str) :
    site'.balance u j = site.balance u j - creditsFor host u j file.owner path file.size := by
  obtain ⟨-, hcredits⟩ := step_dele_inv hfile h
  obtain ⟨hfits, hpays⟩ := hcovered
  rw [wrap64_of_bounds ⟨le_of_lt hfits.1, hfits.2⟩] at hcredits
  have htaken := site.decrSectionCredits_balance uid hfits hpays u j
  subst howner
  simp only [Site.balance, hcredits, creditsFor] at htaken ⊢
  split
  · exact htaken
  · rename_i hkeep
    have hzero : uploadCredits (client host file.owner) path file.size = 0 := by
      by_contra hne
      exact hkeep ⟨trivial, hne⟩
    simp [hzero]

/-- Whoever deletes a file of another user takes no credits from anybody. -/
theorem dele_other {calls : DeleCalls} {file : File} (hfile : site.files.lookup path = some file)
    (howner : file.owner ≠ uid) (h : step host site (.dele uid path calls) = some site') :
    site'.credits = site.credits := by
  rw [(step_dele_inv hfile h).2, if_neg fun hlose => howner hlose.1]

theorem dele_balance {calls : DeleCalls} (hadmits : Admits host site (.dele uid path calls))
    (h : step host site (.dele uid path calls) = some site') (u : UserID) (j : Str) :
    site'.balance u j - granted host site' u j =
      site.balance u j - granted host site u j + kept host u j site (.dele uid path calls) := by
  obtain ⟨file, hfile, hfiles, -, -⟩ := step_dele_file h
  rw [granted, hfiles, tally_erase, ← granted]
  simp only [tallyAt, kept, hfile]
  by_cases howner : file.owner = uid
  · rw [dele_own hfile howner (hadmits file hfile howner) h, if_pos howner]
    omega
  · rw [if_neg howner, Site.balance, dele_other hfile howner h, ← Site.balance]
    omega

/-- What a command does to the balances beyond the grants of the files present. -/
theorem step_balance {cmd : Command} (hadmits : Admits host site cmd)
    (h : step host site cmd = some site') (u : UserID) (j : Str) :
    site'.balance u j - granted host site' u j =
      site.balance u j - granted host site u j +
        (kept host u j site cmd - charged host u j site cmd) := by
  cases cmd with
  | stor uid path calls =>
    rw [stor_balance hadmits h, charged, Int.sub_zero]
  | retr uid path calls =>
    rw [retr_balance hadmits h, kept]
    omega
  | dele uid path calls =>
    rw [dele_balance hadmits h, charged, Int.sub_zero]

/-- Among new files deleted by their owners nothing is left granted. -/
theorem kept_plain {cmd : Command} (h : Plain site cmd) (u : UserID) (j : Str) :
    kept host u j site cmd = 0 := by
  cases cmd with
  | stor uid path calls =>
    simp only [Plain] at h
    simp [kept, h]
  | retr uid path calls => rfl
  | dele uid path calls =>
    simp only [kept]
    split
    · rfl
    · rename_i file hfile
      rw [if_pos (h file hfile)]

theorem dele_stats {calls : DeleCalls} {file : File} (hfile : site.files.lookup path = some file)
    (h : step host site (.dele uid path calls) = some site') (col : Column) (u : UserID) (j : Str) :
    uploaded col site'.transfers u j =
      uploaded col site.transfers u j +
        if uid = u then
          shift (uploadSection (client host uid) host.sys path) j (fileAmount file.size col)
        else 0 := by
  rw [(step_dele_inv hfile h).1, deleStats_uploaded]
  rfl

end Step

/-! ## Every sequence -/

/-- What the deletion of a file takes: from its owner what it is worth and one upload, where he
deletes it himself; no credits where another user does. -/
structure Deletion (site site' : Site) (uid : UserID) (path : Str) (file : File) : Prop where
  own : file.owner = uid → ∀ u j, site'.balance u j =
    site.balance u j - creditsFor host u j file.owner path file.size
  ownStats : file.owner = uid → ∀ col u j, uploaded col site'.transfers u j =
    uploaded col site.transfers u j +
      if u = file.owner then
        shift (uploadSection (client host file.owner) host.sys path) j (fileAmount file.size col)
      else 0
  other : file.owner ≠ uid → site'.credits = site.credits

/-- The balance is the initial one and the grants for the files still present, less the downloads. -/
def Balances (site : Site) (cmds : List Command) (site' : Site) (u : UserID) (j : Str) : Prop :=
  site'.balance u j =
    site.balance u j + (granted host site' u j - granted host site u j) -
      runSum (step host) (charged host u j) site cmds

instance (site : Site) (cmds : List Command) (site' : Site) (u : UserID) (j : Str) :
    Decidable (Balances host site cmds site' u j) :=
  inferInstanceAs (Decidable (_ = _))

variable {host}

theorem step_deletion {site site' : Site} {uid : UserID} {path : Str} {calls : DeleCalls}
    (hadmits : Admits host site (.dele uid path calls))
    (h : step host site (.dele uid path calls) = some site') :
    ∃ file, site.files.lookup path = some file ∧ Deletion host site site' uid path file := by
  obtain ⟨file, hfile, -, -, -⟩ := step_dele_file h
  refine ⟨file, hfile, ?_, ?_, ?_⟩
  · intro howner u j
    exact dele_own hfile howner (hadmits file hfile howner) h u j
  · intro howner col u j
    rw [dele_stats hfile h, howner]
    simp only [eq_comm]
  · intro howner
    exact dele_other hfile howner h

/-- The ledger of every run in which the owners can pay for what they delete: a balance is the
initial one and the grants for the files still present, with what is left granted for files that
others deleted or that were written over, less the downloads. -/
theorem upload_ledger {site site' : Site} {cmds : List Command}
    (hrun : run (step host) site cmds = some site')
    (hmeets : Meets (step host) (Admits host) site cmds) :
    let sum := runSum (step host)
    let granted := granted host
    let kept := kept host
    let charged := charged host
    (∀ u j, site'.balance u j =
        site.balance u j + (granted site' u j - granted site u j) + sum (kept u j) site cmds -
          sum (charged u j) site cmds) ∧
      (Meets (step host) Plain site cmds → ∀ u j, Balances host site cmds site' u j) ∧
      ∀ before uid path calls after, cmds = before ++ .dele uid path calls :: after →
        ∃ site₁ site₂ file,
          run (step host) site before = some site₁ ∧
          step host site₁ (.dele uid path calls) = some site₂ ∧
          site₁.files.lookup path = some file ∧
          Deletion host site₁ site₂ uid path file := by
  intro sum granted kept charged
  have hbalance : ∀ u j, site'.balance u j - granted site' u j =
      site.balance u j - granted site u j + (sum (kept u j) site cmds - sum (charged u j) site cmds) := by
    intro u j
    rw [← runSum_sub]
    exact run_sum_of_meets (fun _ _ _ hadmits hstep => step_balance hadmits hstep u j) cmds hmeets hrun
  refine ⟨fun u j => ?_, fun hplain u j => ?_, ?_⟩
  · have := hbalance u j
    omega
  · have hkept : sum (kept u j) site cmds = 0 :=
      runSum_eq_zero (fun _ _ h => kept_plain h u j) cmds hplain
    have := hbalance u j
    show site'.balance u j =
      site.balance u j + (granted site' u j - granted site u j) - sum (charged u j) site cmds
    omega
  · rintro before uid path calls after rfl
    obtain ⟨site₁, hbefore, hafter⟩ := run_append_inv hrun
    obtain ⟨site₂, hstep, -⟩ := run_cons_inv hafter
    have hadmits := (hmeets.append_inv hbefore).2.1
    obtain ⟨file, hfile, hdeletion⟩ := step_deletion hadmits hstep
    exact ⟨site₁, site₂, file, hbefore, hstep, hfile, hdeletion⟩

end

/-! ## On a site with two users -/

/-- A site where everybody may upload, overwrite and delete, in one section without credits of its
own. -/
def exampleRights : Cfg.Config where
  sitepath := "/site".toList
  rights
    | .Upload => [⟨"*".toList, ACL.fromString "*".toList, false⟩]
    | .Overwrite => [⟨"*".toList, ACL.fromString "*".toList, false⟩]
    | .Delete => [⟨"*".toList, ACL.fromString "*".toList, false⟩]
    | _ => []
  sections := [{ name := "MP3".toList, paths := ["*".toList] }]
  freeSpace := 0
  tlsControl := ACL.fromString "!*".toList
  maxOnline := ⟨10, 0⟩
  wildcardMatch := fun _ _ => true

/-- Uploads count three times. -/
def exampleAccounts (uid : UserID) : User := { id := uid, name := "user".toList, ratio := [([], 3)] }

def exampleHost : Host where
  cfg := exampleRights
  gidToName := fun _ => []
  accounts := exampleAccounts
  sys := exampleDisk
  xfertimeCorrection := fun _ _ _ _ _ => 0

/-- No files, and no credits but those of the second user. -/
def exampleStart : Site where
  files := ∅
  credits uid := if uid = 2 then [([], 100)] else []
  distinct uid := by
    by_cases h : uid = 2
    · simp [h, Distinct, keys]
    · simp [h, Distinct, keys]
  transfers := []

/-- An upload of so many kilobytes that passes every check. -/
def exampleUpload (uid : UserID) (path : String) (kBytes : Nat) : Command :=
  .stor uid path.toList
    { filtered := true
      ascii := false
      offset := 0
      preCheck := true
      counted := true
      asciiAllowed := true
      opening := { freeBytes := .ok 0, createError := none, writeError := none, time := 0 }
      replied := true
      connected := true
      protectionOkay := true
      buffers := List.replicate kBytes (List.replicate 1024 0)
      loopEnd := .eof
      chmodReplied := true
      postCheck := true
      modTime := 0
      xfertime := 1
      date := ⟨1, 1, 1, 2014⟩ }

def exampleDownload (uid : UserID) (path : String) (size : Nat) : Command :=
  .retr uid path.toList (exampleCalls size true [(size, size)] .eof)

def exampleDelete (uid : UserID) (path : String) : Command :=
  .dele uid path.toList { unlinkError := none, date := ⟨1, 1, 1, 2014⟩ }

/-- Two uploads, of which the uploader deletes one and another user the other. -/
def exampleSequence : List Command :=
  [exampleUpload 1 "/mp3/a" 2, exampleUpload 1 "/mp3/b" 1, exampleDownload 2 "/mp3/b" 1024,
    exampleDelete 1 "/mp3/a", exampleDelete 2 "/mp3/b"]

theorem upload_ledger_two_users :
    ∃ site', run (step exampleHost) exampleStart exampleSequence = some site' ∧
      site'.balance 1 [] = 3 ∧ site'.balance 2 [] = 99 := by
  have hrun : (run (step exampleHost) exampleStart exampleSequence).isSome = true := by decide +kernel
  obtain ⟨site', hsite⟩ := Option.isSome_iff_exists.mp hrun
  have hmeets : Meets (step exampleHost) (Admits exampleHost) exampleStart exampleSequence := by
    decide +kernel
  obtain ⟨hbalance, -, -⟩ := upload_ledger hsite hmeets
  have hgranted : ∀ u, granted exampleHost site' u [] = 0 := by
    have hempty : (run (step exampleHost) exampleStart exampleSequence).map (·.files.entries) =
        some [] := by decide +kernel
    rw [hsite, Option.map_some, Option.some.injEq] at hempty
    intro u
    simp [granted, tally, hempty]
  refine ⟨site', hsite, ?_, ?_⟩
  · rw [hbalance, hgranted]
    decide +kernel
  · rw [hbalance, hgranted]
    decide +kernel

/-- The balance of the first user is that of the ledger without what is left granted. -/
def exampleBalances (cmds : List Command) (site' : Site) : Prop :=
  Balances exampleHost exampleStart cmds site' 1 []

instance (cmds : List Command) (site' : Site) : Decidable (exampleBalances cmds site') :=
  inferInstanceAs (Decidable (Balances _ _ _ _ _ _))

def deletedByOther : List Command := [exampleUpload 1 "/mp3/a" 2, exampleDelete 2 "/mp3/a"]

def deletedWhenSpent : List Command :=
  [exampleUpload 2 "/mp3/b" 6, exampleUpload 1 "/mp3/a" 2, exampleDownload 1 "/mp3/b" 6144,
    exampleDelete 1 "/mp3/a"]

def overwritten : List Command := [exampleUpload 1 "/mp3/a" 2, exampleUpload 1 "/mp3/a" 1]

/-- Another user deletes a file: its uploader keeps the grant, and the statistics of the other one go
down. The uploader spends the grant and then deletes the file: nothing is taken. An upload is
overwritten: both grants stay. -/
theorem ledger_grants_remain :
    (∃ site', run (step exampleHost) exampleStart deletedByOther = some site' ∧
        ¬ exampleBalances deletedByOther site' ∧ site'.balance 1 [] = 6 ∧
        uploaded .files site'.transfers 1 "MP3".toList = 1 ∧
        uploaded .files site'.transfers 2 "MP3".toList = -1) ∧
      (∃ site', run (step exampleHost) exampleStart deletedWhenSpent = some site' ∧
        ¬ exampleBalances deletedWhenSpent site' ∧ site'.balance 1 [] = 0) ∧
      ∃ site', run (step exampleHost) exampleStart overwritten = some site' ∧
        ¬ exampleBalances overwritten site' ∧ site'.balance 1 [] = 9 :=
  ⟨run_ends (by decide +kernel), run_ends (by decide +kernel), run_ends (by decide +kernel)⟩

end Ledger
end Cmd
end Ebftpd
