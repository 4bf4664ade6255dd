import Ebftpd.Cmd.Stor

/-!
# Ebftpd.Cmd.Resume

What a `STOR` at a restart offset leaves of the file it resumes (`src/cmd/rfc/stor.cpp`). Up to the
transfer `fileOkay` holds for a file that was appended to, so that a refusal or a data connection
that does not open keeps it. In front of the transfer loop the flag is reset whatever the offset
was, and every end but a completed transfer then deletes the file.

* `stor_before`: up to the transfer the first bytes stay.
* `receive_deletes`: from there on a failure deletes the file.
* `resume_survives`: exactly when a failed resume keeps what was uploaded.
-/

namespace Ebftpd
namespace Cmd

open Util Acl Acl.Path Db Fs

/-- The file is there, and its first bytes are those of `file`. -/
def Survives (path : Str) (offset : Nat) (file : File) (files : Files) : Prop :=
  ∃ file', files.lookup path = some file' ∧ file'.content.take offset = file.content.take offset

/-- A `STOR` at an offset comes as far as the transfer loop. -/
def resumes (env : Env) (sys : Sys) (path : Str) (calls : StorCalls) (files : Files) : Bool :=
  calls.filtered && !calls.ascii && calls.preCheck && calls.counted &&
    (appendFile env sys files path calls.offset calls.opening).isOk &&
    calls.replied && calls.connected && calls.protectionOkay

section

variable {env : Env} {sys : Sys} {path : Str} {calls : StorCalls} {site : Site} {file : File}

theorem openUpload_resume (hoffset : 0 < calls.offset) (files : Files) :
    (openUpload env sys path calls files).isOk =
      (calls.filtered && !calls.ascii && calls.preCheck && calls.counted &&
        (appendFile env sys files path calls.offset calls.opening).isOk) := by
  unfold openUpload
  cases calls.filtered with
  | false => rfl
  | true =>
    cases calls.ascii with
    | true => simp [hoffset, Except.isOk, Except.toBool]
    | false =>
      cases calls.preCheck with
      | false => simp [Except.isOk, Except.toBool]
      | true =>
        cases calls.counted with
        | false => simp [Except.isOk, Except.toBool]
        | true =>
          cases appendFile env sys files path calls.offset calls.opening with
          | error e => simp [hoffset, Except.isOk, Except.toBool]
          | ok files' => simp [hoffset, Except.isOk, Except.toBool]

/-- A file opened at an offset is cut off there. -/
theorem openUpload_survives {files' : Files} (hfile : site.files.lookup path = some file)
    (hoffset : 0 < calls.offset) (h : openUpload env sys path calls site.files = .ok files') :
    Survives path calls.offset file files' := by
  unfold openUpload at h
  repeat' split at h
  all_goals cases h
  rename_i happend
  obtain ⟨old, hold, rfl⟩ := appendFile_ok happend
  rw [hfile] at hold
  cases hold
  exact ⟨_, AList.lookup_insert _, by simp⟩

theorem stor_before (hfile : site.files.lookup path = some file) (hoffset : 0 < calls.offset)
    (h : resumes env sys path calls site.files = false) :
    Survives path calls.offset file (stor env sys path calls site).2.files := by
  have hopen := @openUpload_resume env sys path calls hoffset site.files
  unfold resumes at h
  rw [← hopen] at h
  unfold stor
  cases hupload : openUpload env sys path calls site.files with
  | error e => exact ⟨file, hfile, rfl⟩
  | ok files =>
    have hsurvives := openUpload_survives hfile hoffset hupload
    have hkept : fileGuard path (decide (calls.offset > 0)) { site with files := files } =
        { site with files := files } := by simp [fileGuard, hoffset]
    simp only [hkept]
    split
    · exact hsurvives
    · split
      · exact hsurvives
      · split
        · exact hsurvives
        · simp_all [Except.isOk, Except.toBool]

/-- From the transfer on, what ends the command before the transfer is finished deletes the file. -/
theorem receive_deletes (hend : (receive env sys path calls site).1 ≠ .finished) :
    (receive env sys path calls site).2.files.lookup path = none := by
  have hdeleted : ∀ site : Site, (fileGuard path false site).files.lookup path = none := by
    intro site
    simp [fileGuard, unlink]
  unfold receive at hend ⊢
  cases hloop : calls.loopEnd with
  | eof =>
    simp only [hloop] at hend ⊢
    split
    · exact hdeleted _
    · split
      · exact hdeleted _
      · simp_all
  | aborted => exact hdeleted _
  | tooSlow buffer => exact hdeleted _
  | networkError => exact hdeleted _
  | diskError buffer written => exact hdeleted _
  | controlError => exact hdeleted _
  | interrupted => exact hdeleted _

theorem stor_receive (hoffset : 0 < calls.offset) (h : resumes env sys path calls site.files = true) :
    ∃ site', stor env sys path calls site = receive env sys path calls site' := by
  have hopen := @openUpload_resume env sys path calls hoffset site.files
  unfold resumes at h
  rw [← hopen] at h
  simp only [Bool.and_eq_true] at h
  obtain ⟨⟨⟨hupload, hreplied⟩, hconnected⟩, hprotection⟩ := h
  unfold stor
  cases hfiles : openUpload env sys path calls site.files with
  | error e =>
    rw [hfiles] at hupload
    cases hupload
  | ok files => exact ⟨{ site with files := files }, by simp [hreplied, hconnected, hprotection]⟩

/-- A resume that fails keeps the bytes in front of its offset exactly where it fails before the
transfer. -/
theorem resume_survives (hfile : site.files.lookup path = some file) (hoffset : 0 < calls.offset)
    (hfinished : (stor env sys path calls site).1 ≠ .finished) :
    Survives path calls.offset file (stor env sys path calls site).2.files ↔
      resumes env sys path calls site.files = false := by
  constructor
  · rintro ⟨file', hfile', -⟩
    cases hresumes : resumes env sys path calls site.files with
    | false => rfl
    | true =>
      obtain ⟨site', hstor⟩ := stor_receive hoffset hresumes
      rw [hstor] at hfinished hfile'
      rw [receive_deletes hfinished] at hfile'
      cases hfile'
  · exact stor_before hfile hoffset

end

/-- A site where everybody may resume. -/
def resumableSite : Env :=
  { exampleDownloader with
    cfg :=
      { exampleDownloader.cfg with
        rights
          | .Resume => [⟨"*".toList, ACL.fromString "*".toList, false⟩]
          | _ => []
        freeSpace := 0
        wildcardMatch := fun _ _ => true } }

/-- Four bytes of a file that was uploaded before. -/
def partFile : File := { content := [1, 2, 3, 4], owner := 1, modTime := 0 }

def partSite : Site where
  files := AList.insert "/f".toList partFile ∅
  credits _ := []
  distinct _ := List.nodup_nil
  transfers := []

theorem resume_survives_no_connection :
    Survives "/f".toList 4 partFile (stor resumableSite exampleDisk "/f".toList
      { exampleStor 4 [] with connected := false } partSite).2.files :=
  (resume_survives (by decide) (by decide) (by decide)).mpr (by decide)

/-- A resume at the end of the file, aborted by the client: the file is gone. -/
theorem resume_aborted_deletes :
    let r := stor resumableSite exampleDisk "/f".toList
      { exampleStor 4 [[5, 6]] with loopEnd := .aborted } partSite
    partSite.files.lookup "/f".toList = some partFile ∧ r.1 = .aborted ∧
      r.2.files.lookup "/f".toList = none ∧ ¬Survives "/f".toList 4 partFile r.2.files := by
  have hgone : (stor resumableSite exampleDisk "/f".toList
      { exampleStor 4 [[5, 6]] with loopEnd := .aborted } partSite).2.files.lookup "/f".toList =
      none := by decide
  refine ⟨by decide, by decide, hgone, ?_⟩
  rintro ⟨file', hfile', -⟩
  rw [hgone] at hfile'
  cases hfile'

end Cmd
end Ebftpd
