import Ebftpd.Acl.Path
import Mathlib.Data.List.AList

/-!
# Ebftpd.Fs.File

Creating, appending to and deleting files (`src/fs/file.cpp`), and who owns them
(`src/fs/owner.cpp`). Regular files lie under their virtual paths, which `MakeReal` maps one to one.
The owner is an attribute of the file, and writing it succeeds. What the operating system answers
beyond that, the free space and why a call fails, comes with `OpenCalls`; a path without a file may
still be that of a directory.

* `createFile_ok`, `appendFile_ok`, `deleteFile_ok`: the files behind a call that succeeds.
-/

namespace Ebftpd
namespace Fs

open Util Acl Acl.Path

structure File where
  content : List UInt8
  owner : UserID
  modTime : Int
  deriving DecidableEq

def File.size (file : File) : Nat := file.content.length

abbrev Files := AList fun _ : Str => File

structure OpenCalls where
  -- `FreeDiskSpace`
  freeBytes : Except Errno Nat
  -- why a file that is not there is not created
  createError : Option Errno
  -- why a file that is there is not opened for writing, or not cut off
  writeError : Option Errno
  time : Int

variable (env : Env) (sys : Sys)

/-- `GetOwner(MakeReal(path)).UID()`. -/
def getOwner (files : Files) (path : Str) : UserID :=
  match files.lookup path with
  | some file => file.owner
  | none => sys.ownerUID (makeReal env.cfg.sitepath path)

/-- The operating system as `FileAllowed` asks it about one path. -/
def asked (files : Files) (path : Str) : Sys :=
  { sys with
    ownerUID :=
      Function.update sys.ownerUID (makeReal env.cfg.sitepath path) (getOwner env sys files path) }

/-- `static_cast<unsigned long long>(FreeSpace()) > freeBytes / 1024`. -/
def outOfSpace (freeBytes : Nat) : Bool := decide (env.cfg.freeSpace % 2 ^ 64 > (freeBytes / 1024 : Nat))

/-- The first `open` of `CreateFile`: why it fails. -/
def openExcl (files : Files) (path : Str) (calls : OpenCalls) : Option Errno :=
  if (files.lookup path).isSome then some .EEXIST else calls.createError

/-- The second one; a directory is not opened for writing. -/
def openTrunc (files : Files) (path : Str) (calls : OpenCalls) : Except Errno Files :=
  match files.lookup path with
  | some file =>
    match calls.writeError with
    | some e => .error e
    | none =>
      .ok (files.insert path { file with content := [], owner := env.user.id, modTime := calls.time })
  | none => .error (calls.writeError.getD (.other 21))

def createFile (files : Files) (path : Str) (calls : OpenCalls) : Except Errno Files :=
  match fileAllowed env (asked env sys files path) .Upload path with
  | .error e => .error e
  | .ok () =>
    match calls.freeBytes with
    | .error e => .error e
    | .ok freeBytes =>
      if outOfSpace env freeBytes then .error .ENOSPC
      else
        match openExcl files path calls with
        | none =>
          .ok (files.insert path { content := [], owner := env.user.id, modTime := calls.time })
        | some .EEXIST =>
          if (fileAllowed env (asked env sys files path) .Overwrite path).isOk then
            openTrunc env files path calls
          else .error .EEXIST
        | some e => .error e

def appendFile (files : Files) (path : Str) (offset : Nat) (calls : OpenCalls) : Except Exn Files :=
  match fileAllowed env (asked env sys files path) .Resume path with
  | .error e => .error (.systemError e)
  | .ok () =>
    match files.lookup path with
    | none =>
      match sys.status (makeReal env.cfg.sitepath path) with
      | .error e => .error (.systemError e)
      | .ok _ => .error (.runtimeError "Not a regular file")
    | some file =>
      match calls.freeBytes with
      | .error e => .error (.systemError e)
      | .ok freeBytes =>
        if outOfSpace env freeBytes then .error (.systemError .ENOSPC)
        else
          match calls.writeError with
          | some e => .error (.systemError e)
          | none => .ok (files.insert path { file with content := file.content.take offset })

/-- `DeleteFile(const RealPath&)`, where `unlink` succeeds. -/
def unlink (files : Files) (path : Str) : Files := files.erase path

/-- `DeleteFile(user, path, size, modTime)`: the files left, and the size and time of the one
deleted. -/
def deleteFile (files : Files) (path : Str) (unlinkError : Option Errno) :
    Except Errno (Files × Nat × Int) :=
  match fileAllowed env (asked env sys files path) .Delete path with
  | .error e => .error e
  | .ok () =>
    match files.lookup path with
    | none => .error (unlinkError.getD .ENOENT)
    | some file =>
      match unlinkError with
      | some e => .error e
      | none => .ok (unlink files path, file.size, file.modTime)

section Ok

variable {env sys} {files files' : Files} {path : Str}

theorem openTrunc_ok {calls : OpenCalls} (h : openTrunc env files path calls = .ok files') :
    files' = files.insert path { content := [], owner := env.user.id, modTime := calls.time } := by
  unfold openTrunc at h
  split at h
  · split at h
    · cases h
    · cases h
      rfl
  · cases h

/-- A file that was created or overwritten is empty and belongs to the user. -/
theorem createFile_ok {calls : OpenCalls} (h : createFile env sys files path calls = .ok files') :
    files' = files.insert path { content := [], owner := env.user.id, modTime := calls.time } := by
  unfold createFile at h
  split at h
  · cases h
  · split at h
    · cases h
    · split at h
      · cases h
      · split at h
        · cases h
          rfl
        · split at h
          · exact openTrunc_ok h
          · cases h
        · cases h

/-- Who creates a file where there is one may overwrite it. -/
theorem createFile_overwrite {calls : OpenCalls} {file : File} (hfile : files.lookup path = some file)
    (h : createFile env sys files path calls = .ok files') :
    (fileAllowed env (asked env sys files path) .Overwrite path).isOk = true := by
  have hexcl : openExcl files path calls = some .EEXIST := by simp [openExcl, hfile]
  unfold createFile at h
  split at h
  · cases h
  · split at h
    · cases h
    · split at h
      · cases h
      · rw [hexcl] at h
        simp only at h
        split at h
        · assumption
        · cases h

theorem appendFile_resume {offset : Nat} {calls : OpenCalls}
    (h : appendFile env sys files path offset calls = .ok files') :
    (fileAllowed env (asked env sys files path) .Resume path).isOk = true := by
  unfold appendFile at h
  split at h
  · cases h
  · rename_i hresume
    rw [hresume]
    rfl

/-- A file that is appended to keeps its owner. -/
theorem appendFile_ok {offset : Nat} {calls : OpenCalls}
    (h : appendFile env sys files path offset calls = .ok files') :
    ∃ file, files.lookup path = some file ∧
      files' = files.insert path { file with content := file.content.take offset } := by
  unfold appendFile at h
  split at h
  · cases h
  · split at h
    · split at h
      · cases h
      · cases h
    · rename_i file hfile
      split at h
      · cases h
      · split at h
        · cases h
        · split at h
          · cases h
          · cases h
            exact ⟨file, hfile, rfl⟩

theorem deleteFile_ok {unlinkError : Option Errno} {size : Nat} {modTime : Int}
    (h : deleteFile env sys files path unlinkError = .ok (files', size, modTime)) :
    ∃ file, files.lookup path = some file ∧ files' = files.erase path ∧ size = file.size ∧
      modTime = file.modTime := by
  unfold deleteFile at h
  split at h
  · cases h
  · split at h
    · cases h
    · rename_i file hfile
      split at h
      · cases h
      · cases h
        exact ⟨file, hfile, rfl, rfl, rfl⟩

theorem getOwner_of_lookup {file : File} (h : files.lookup path = some file) :
    getOwner env sys files path = file.owner := by
  simp [getOwner, h]

end Ok

end Fs
end Ebftpd
