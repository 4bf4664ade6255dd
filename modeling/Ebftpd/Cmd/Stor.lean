import Ebftpd.Cmd.Retr
import Ebftpd.Db.Stats
import Ebftpd.Fs.File

/-!
# Ebftpd.Cmd.Stor

`STOR` (`src/cmd/rfc/stor.cpp`). The file is created, overwritten or appended to, the buffers of the
data connection are written to it, and at the end the uploader gets the credits for what was
received. Two scope guards settle the other exits: one deletes the file unless it is to be kept, one
counts what was received.

`StorCalls` holds what the calls of one `STOR` return, in their order; `stor` is `Execute` on them.
The commands of the database succeed and the task of an increment runs to its end.

* `storLoop_size`: what a transfer that came to its end wrote is what it counted.
* `stor_finished`: the site behind a completed upload.
* `openUpload_entitled`, `stor_frame`: who touches a file that is there, and that no other is touched.
-/

namespace Ebftpd
namespace Cmd

open Util Lib Lib.Cells Acl Acl.Path Db Db.Stats Fs

/-- The files, and what the database holds of the users: their credits and their statistics. No two
credits of a user are for one section. -/
structure Site where
  files : Files
  credits : UserID → Credits
  distinct : ∀ uid, Distinct (credits uid)
  transfers : Transfers

namespace Site

def setCredits (site : Site) (uid : UserID) (credits : Credits) (h : Distinct credits) : Site :=
  { site with
    credits := Function.update site.credits uid credits
    distinct := by
      intro u
      by_cases hu : u = uid
      · subst hu
        rw [Function.update_self]
        exact h
      · rw [Function.update_of_ne hu]
        exact site.distinct u }

def incrSectionCredits (site : Site) (uid : UserID) (sec : Str) (kBytes : Int) : Site :=
  site.setCredits uid (incrCredits (site.credits uid) sec kBytes)
    (incrCredits_distinct (site.distinct uid) sec kBytes)

/-- `DecrSectionCredits`; what it returns is not looked at where it is used here. -/
def decrSectionCredits (site : Site) (uid : UserID) (sec : Str) (kBytes : Int) : Site :=
  site.setCredits uid (decrCredits true (site.credits uid) sec kBytes false).2
    (decrCredits_distinct (site.distinct uid) true sec kBytes false)

def balance (site : Site) (uid : UserID) (sec : Str) : Int := value (site.credits uid) sec

theorem setCredits_balance (site : Site) (uid : UserID) {credits : Credits} (h : Distinct credits)
    (u : UserID) (j : Str) :
    (site.setCredits uid credits h).balance u j =
      if u = uid then value credits j else site.balance u j := by
  unfold balance setCredits
  by_cases hu : u = uid
  · subst hu
    simp
  · simp [hu]

theorem incrSectionCredits_balance (site : Site) (uid : UserID) (sec : Str) (kBytes : Int)
    (u : UserID) (j : Str) :
    (site.incrSectionCredits uid sec kBytes).balance u j =
      site.balance u j + if u = uid ∧ j = sec then kBytes else 0 := by
  unfold incrSectionCredits
  rw [setCredits_balance, incrCredits_value]
  by_cases hu : u = uid
  · subst hu
    simp [balance]
  · simp [hu]

/-- A decrement that the balance of the section covers. -/
theorem decrSectionCredits_balance (site : Site) (uid : UserID) {sec : Str} {kBytes : Int}
    (hk : llongMin < kBytes ∧ kBytes ≤ llongMax)
    (hcovered : kBytes = 0 ∨ sec ∈ keys (site.credits uid) ∧ kBytes ≤ site.balance uid sec)
    (u : UserID) (j : Str) :
    (site.decrSectionCredits uid sec kBytes).balance u j =
      site.balance u j - if u = uid ∧ j = sec then kBytes else 0 := by
  unfold decrSectionCredits
  rw [setCredits_balance, decrCredits_covered (site.distinct uid) hk hcovered]
  by_cases hu : u = uid
  · subst hu
    simp [balance]
  · simp [hu]

end Site

/-! ## The transfer -/

/-- How the transfer loop ends; the last buffer was counted, and `written` bytes of it written. -/
inductive StorLoopEnd where
  | eof
  | aborted
  | networkError
  | diskError (buffer : List UInt8) (written : Nat)
  | controlError
  | tooSlow (buffer : List UInt8)
  | interrupted

/-- `State().Bytes()`, and what was written to the file. -/
structure Received where
  bytes : Nat := 0
  content : List UInt8 := []

def Received.buffer (r : Received) (buffer : List UInt8) (written : Nat) : Received :=
  { bytes := r.bytes + buffer.length, content := r.content ++ buffer.take written }

/-- The transfer loop over the buffers as they are written, in ASCII mode behind the transcoder. -/
def storLoop : Received → List (List UInt8) → StorLoopEnd → Received
  | r, buffer :: buffers, e => storLoop (r.buffer buffer buffer.length) buffers e
  | r, [], .diskError buffer written => r.buffer buffer written
  | r, [], .tooSlow buffer => r.buffer buffer buffer.length
  | r, [], .eof => r
  | r, [], .aborted => r
  | r, [], .networkError => r
  | r, [], .controlError => r
  | r, [], .interrupted => r

/-- A transfer that came to its end wrote what it counted. -/
theorem storLoop_size (buffers : List (List UInt8)) :
    ∀ r : Received, r.content.length = r.bytes →
      (storLoop r buffers .eof).content.length = (storLoop r buffers .eof).bytes := by
  induction buffers with
  | nil => exact fun _ h => h
  | cons buffer buffers ih =>
    intro r h
    refine ih (r.buffer buffer buffer.length) ?_
    simp only [Received.buffer, List.take_length, List.length_append, h]

/-- What the calls of one `STOR` return. -/
structure StorCalls where
  -- `acl::path::Filter` lets the name pass
  filtered : Bool
  ascii : Bool
  offset : Nat
  preCheck : Bool
  -- `Counter::Upload().Start`
  counted : Bool
  asciiAllowed : Bool
  opening : OpenCalls
  -- the 150 reply is written
  replied : Bool
  -- `data.Open`
  connected : Bool
  protectionOkay : Bool
  buffers : List (List UInt8)
  loopEnd : StorLoopEnd
  -- no `chmod` fails whose reply is not written
  chmodReplied : Bool
  postCheck : Bool
  modTime : Int
  xfertime : Int
  date : Date

inductive StorEnd where
  | badName | asciiResume | preCheckFail | counterFail | asciiRefused
  -- with `EEXIST` the reply says who uploads the file, or did
  | openFailed (e : Exn)
  | replyFailed | noConnection | tlsRefused
  | networkError | diskError | controlError | interrupted | aborted | postCheckFail | finished
  deriving DecidableEq

def StorCalls.received (calls : StorCalls) : Received := storLoop {} calls.buffers calls.loopEnd

/-! ## The command -/

variable (env : Env) (sys : Sys) (path : Str)

/-- `Execute` up to the open file. -/
def openUpload (calls : StorCalls) (files : Files) : Except StorEnd Files :=
  if !calls.filtered then .error .badName
  else if calls.offset > 0 && calls.ascii then .error .asciiResume
  else if !calls.preCheck then .error .preCheckFail
  else if !calls.counted then .error .counterFail
  else if calls.ascii && !calls.asciiAllowed then .error .asciiRefused
  else if calls.offset > 0 then
    match appendFile env sys files path calls.offset calls.opening with
    | .error e => .error (.openFailed e)
    | .ok files => .ok files
  else
    match createFile env sys files path calls.opening with
    | .error e => .error (.openFailed (.systemError e))
    | .ok files => .ok files

/-- The bytes written behind what is in the open file. -/
def writeFile (files : Files) (content : List UInt8) (modTime : Int) : Files :=
  match files.lookup path with
  | some file => files.insert path { file with content := file.content ++ content, modTime := modTime }
  | none => files

/-- The guard that deletes the file unless `fileOkay`. -/
def fileGuard (fileOkay : Bool) (site : Site) : Site :=
  if fileOkay then site else { site with files := unlink site.files path }

/-- The guard that counts what was received when the data connection is still open. -/
def uploadGuard (calls : StorCalls) (site : Site) : Site :=
  if calls.received.bytes > 0 then
    { site with
      transfers :=
        upload calls.date env.user.id (calls.received.bytes / 1024 : Nat) calls.xfertime []
          site.transfers }
  else site

def nostats : Bool :=
  (env.cfg.sectionMatch path false).isNone || (fileAllowed env sys .Nostats path).isOk

/-- The section an upload counts for. -/
def uploadSection : Str :=
  match env.cfg.sectionMatch path false with
  | some sec => if nostats env sys path then [] else sec.name
  | none => []

/-- The credits for `bytes` bytes at a path: `bytes / 1024 * UploadRatio`. -/
def uploadCredits (bytes : Nat) : Int :=
  (bytes : Int) / 1024 * Stats.uploadRatio env path (env.cfg.sectionMatch path false)

/-- What a completed upload adds to the statistics and the credits. -/
def credited (calls : StorCalls) (site : Site) : Site :=
  let bytes := calls.received.bytes
  { site with
    transfers :=
      upload calls.date env.user.id (bytes / 1024 : Nat) calls.xfertime (uploadSection env sys path)
        site.transfers }.incrSectionCredits env.user.id
    (creditSection (env.cfg.sectionMatch path false)) (wrap64 (uploadCredits env path bytes))

/-- `Execute` from the transfer on. -/
def receive (calls : StorCalls) (site : Site) : StorEnd × Site :=
  let site :=
    { site with files := writeFile path site.files calls.received.content calls.modTime }
  let deleted := fileGuard path false site
  let failed := fileGuard path false (uploadGuard env calls site)
  match calls.loopEnd with
  | .networkError => (.networkError, failed)
  | .diskError _ _ => (.diskError, failed)
  | .controlError => (.controlError, failed)
  | .interrupted => (.interrupted, failed)
  | .aborted => (if calls.chmodReplied then .aborted else .replyFailed, deleted)
  | .tooSlow _ => (if calls.chmodReplied then .aborted else .replyFailed, deleted)
  | .eof =>
    if !calls.chmodReplied then (.replyFailed, deleted)
    else if !calls.postCheck then (.postCheckFail, deleted)
    else (.finished, credited env sys path calls site)

/-- `STORCommand::Execute`. Before the transfer the file is kept only where it was appended to. -/
def stor (calls : StorCalls) (site : Site) : StorEnd × Site :=
  match openUpload env sys path calls site.files with
  | .error ending => (ending, site)
  | .ok files =>
    let site := { site with files := files }
    let guarded := fileGuard path (calls.offset > 0) site
    if !calls.replied then (.replyFailed, guarded)
    else if !calls.connected then (.noConnection, guarded)
    else if !calls.protectionOkay then (.tlsRefused, guarded)
    else receive env sys path calls site

/-! ## A completed upload -/

/-- The file behind a completed upload, where `old` was there before. -/
def StorCalls.file (calls : StorCalls) (uid : UserID) (old : Option File) : File :=
  match old with
  | some file =>
    if calls.offset > 0 then
      { file with
        content := file.content.take calls.offset ++ calls.received.content
        modTime := calls.modTime }
    else { content := calls.received.content, owner := uid, modTime := calls.modTime }
  | none => { content := calls.received.content, owner := uid, modTime := calls.modTime }

section Finished

variable {env sys path} {calls : StorCalls}

/-- What is written to an open file, on the files before it was opened. -/
theorem openUpload_write {files files' : Files}
    (h : openUpload env sys path calls files = .ok files') :
    writeFile path files' calls.received.content calls.modTime =
      files.insert path (calls.file env.user.id (files.lookup path)) := by
  unfold openUpload at h
  repeat' split at h
  all_goals cases h
  · rename_i hoffset _ happend
    obtain ⟨file, hfile, rfl⟩ := appendFile_ok happend
    simp [writeFile, StorCalls.file, hfile, hoffset]
  · rename_i hoffset _ hcreate
    obtain rfl := createFile_ok hcreate
    cases hold : files.lookup path with
    | none => simp [writeFile, StorCalls.file]
    | some old => simp [writeFile, StorCalls.file, hoffset]

theorem openUpload_refused {files : Files} {ending : StorEnd}
    (h : openUpload env sys path calls files = .error ending) : ending ≠ .finished := by
  unfold openUpload at h
  repeat' split at h
  all_goals cases h
  all_goals simp

theorem receive_finished {site site' : Site}
    (h : receive env sys path calls site = (.finished, site')) :
    calls.loopEnd = .eof ∧
      site' = credited env sys path calls
        { site with files := writeFile path site.files calls.received.content calls.modTime } := by
  unfold receive at h
  cases hend : calls.loopEnd with
  | eof =>
    simp only [hend] at h
    split at h
    · cases h
    · split at h
      · cases h
      · cases h
        exact ⟨rfl, rfl⟩
  | aborted =>
    simp only [hend] at h
    split at h
    · cases h
    · cases h
  | tooSlow buffer =>
    simp only [hend] at h
    split at h
    · cases h
    · cases h
  | networkError => simp [hend] at h
  | diskError buffer written => simp [hend] at h
  | controlError => simp [hend] at h
  | interrupted => simp [hend] at h

/-- A completed upload: the transfer came to its end, the file is there, and what was received is
counted and credited. -/
theorem stor_finished {site site' : Site} (h : stor env sys path calls site = (.finished, site')) :
    calls.loopEnd = .eof ∧
      site' = credited env sys path calls
        { site with files := site.files.insert path (calls.file env.user.id (site.files.lookup path)) } := by
  unfold stor at h
  split at h
  · rename_i ending hopen
    cases h
    exact absurd rfl (openUpload_refused hopen)
  · rename_i files hopen
    split at h
    · cases h
    · split at h
      · cases h
      · split at h
        · cases h
        · obtain ⟨hend, rfl⟩ := receive_finished h
          exact ⟨hend, by rw [openUpload_write hopen]⟩

end Finished

/-! ## The other files -/

section Frame

variable {env sys path} {calls : StorCalls} {site : Site} {files files' : Files} {p : Str}

/-- An upload that opens a file which is there may overwrite it, or resume it. -/
theorem openUpload_entitled {file : File} (hfile : files.lookup path = some file)
    (h : openUpload env sys path calls files = .ok files') :
    (fileAllowed env (asked env sys files path) (if calls.offset > 0 then .Resume else .Overwrite)
      path).isOk = true := by
  unfold openUpload at h
  repeat' split at h
  all_goals cases h
  · rename_i hoffset _ happend
    rw [if_pos hoffset]
    exact appendFile_resume happend
  · rename_i hoffset _ hcreate
    rw [if_neg hoffset]
    exact createFile_overwrite hfile hcreate

theorem openUpload_frame (hp : p ≠ path) (h : openUpload env sys path calls files = .ok files') :
    files'.lookup p = files.lookup p := by
  unfold openUpload at h
  repeat' split at h
  all_goals cases h
  · rename_i happend
    obtain ⟨file, -, rfl⟩ := appendFile_ok happend
    exact AList.lookup_insert_ne hp
  · rename_i hcreate
    obtain rfl := createFile_ok hcreate
    exact AList.lookup_insert_ne hp

theorem writeFile_frame (hp : p ≠ path) (files : Files) (content : List UInt8) (modTime : Int) :
    (writeFile path files content modTime).lookup p = files.lookup p := by
  unfold writeFile
  split
  · exact AList.lookup_insert_ne hp
  · rfl

theorem fileGuard_frame (hp : p ≠ path) (fileOkay : Bool) (site : Site) :
    (fileGuard path fileOkay site).files.lookup p = site.files.lookup p := by
  unfold fileGuard
  split
  · rfl
  · exact AList.lookup_erase_ne hp

theorem uploadGuard_files (site : Site) : (uploadGuard env calls site).files = site.files := by
  unfold uploadGuard
  split
  · rfl
  · rfl

theorem receive_frame (hp : p ≠ path) :
    (receive env sys path calls site).2.files.lookup p = site.files.lookup p := by
  have hwritten := writeFile_frame hp site.files calls.received.content calls.modTime
  have hdeleted := (fileGuard_frame hp false
    { site with files := writeFile path site.files calls.received.content calls.modTime }).trans hwritten
  have hfailed := (fileGuard_frame hp false (uploadGuard env calls
    { site with files := writeFile path site.files calls.received.content calls.modTime })).trans
      ((congrArg (AList.lookup p) (uploadGuard_files _)).trans hwritten)
  unfold receive
  simp only
  split
  · exact hfailed
  · exact hfailed
  · exact hfailed
  · exact hfailed
  · exact hdeleted
  · exact hdeleted
  · split
    · exact hdeleted
    · split
      · exact hdeleted
      · exact hwritten

/-- An upload touches no file but the one at its path. -/
theorem stor_frame (hp : p ≠ path) :
    (stor env sys path calls site).2.files.lookup p = site.files.lookup p := by
  unfold stor
  split
  · rfl
  · rename_i files hopen
    have hopened : files.lookup p = site.files.lookup p := openUpload_frame hp hopen
    have hguarded := fileGuard_frame hp (decide (calls.offset > 0)) { site with files := files }
    simp only
    split
    · exact hguarded.trans hopened
    · split
      · exact hguarded.trans hopened
      · split
        · exact hguarded.trans hopened
        · exact (receive_frame hp).trans hopened

end Frame

/-- An upload of which every call succeeds. -/
def exampleStor (offset : Nat) (buffers : List (List UInt8)) : StorCalls where
  filtered := true
  ascii := false
  offset := offset
  preCheck := true
  counted := true
  asciiAllowed := true
  opening := { freeBytes := .ok 0, createError := none, writeError := none, time := 0 }
  replied := true
  connected := true
  protectionOkay := true
  buffers := buffers
  loopEnd := .eof
  chmodReplied := true
  postCheck := true
  modTime := 0
  xfertime := 1
  date := ⟨1, 1, 1, 2014⟩

end Cmd
end Ebftpd
