import Ebftpd.Cmd.Channel

/-!
# Ebftpd.Cmd.Overwrite

Which commands touch a file that is already there, and what the user may do where they do
(`src/cmd/rfc/stor.cpp`, `src/cmd/rfc/commands.cpp`, `src/fs/file.cpp`). An upload asks for
`Overwrite`, or for `Resume` at an offset. `RNTO` asks for `Rename` or `Move` at its source, and at
its destination for `Upload` only, as if there were no file.

* `execute_protects`: what one command does to the file at a path.
* `overwrite_guarded`: over every sequence of commands, no file is replaced, cut off or destroyed
  without the right to it, where no `RNTO` hits a file without the right to overwrite it.
-/

namespace Ebftpd
namespace Cmd
namespace Channel

open Util Util.Path Lib Acl Acl.Path Db Fs Ftp

/-- `FileAllowed` at a path, asked of the files as they are. -/
def mayTouch (m : Moment) (files : Files) (type : AccessType) (path : Str) : Bool :=
  (fileAllowed m.env (asked m.env m.sys files path) type path).isOk

/-- `Allowed` at the source of a rename. -/
def mayRename (m : Moment) (files : Files) (path : Str) : Bool :=
  let sys := askedAt m.env m.sys files path
  (allowed m.env sys .Rename path).isOk || (allowed m.env sys .Move path).isOk

/-- The user of the command passes the check that an upload makes of a file that is there. -/
def mayUpload (m : Moment) (s : Session) (path : Str) : Bool :=
  mayTouch m s.site.files (if s.data.restartOffset.toNat > 0 then .Resume else .Overwrite) path

/-- The user of a command has the right to the file at a path: the right to overwrite or to resume it,
or to rename or to move it where the path is that of the source. -/
def Entitled (s : Session) (path : Str) : Command → Prop
  | .stor m p _ _ => p = path ∧ mayUpload m s path = true
  | .stou m workDirectory names _ _ =>
    uniqueFile m.env m.sys s.site.files workDirectory names = .ok (some path) ∧ mayUpload m s path = true
  | .rnto m newPath _ =>
    (newPath.str = path ∧ mayTouch m s.site.files .Overwrite path = true) ∨
      ∃ oldPath, s.renameFrom = some oldPath ∧ oldPath.str = path ∧ mayRename m s.site.files path = true
  -- what others do
  | .elsewhere _ => True
  | _ => False

/-- The file is where it was, or where the directory that it lies in was renamed to. -/
def Kept (s s' : Session) (path : Str) (file : File) (c : Command) : Prop :=
  s'.site.files.lookup path = some file ∨
    ∃ m oldPath newPath calls, c = .rnto m newPath calls ∧ s.renameFrom = some oldPath ∧
      below oldPath path = true ∧ s'.site.files.lookup (rebase oldPath newPath path) = some file

/-- The command keeps every file that its user has no right to. -/
def Protects (s : Session) (c : Command) : Prop :=
  ∀ s', step s c = some s' → ∀ path file, s.site.files.lookup path = some file →
    Kept s s' path file c ∨ Entitled s path c

/-- The checks of an `RNTO` pass and `rename(2)` does what it is asked to. -/
def Renames (m : Moment) (files : Files) (oldPath newPath : AbsPath) (calls : RntoCalls) : Prop :=
  calls.filtered = true ∧ sourceAllowed m files oldPath newPath = .ok () ∧
    destinationAllowed m files oldPath newPath = .ok () ∧ calls.renameError = none

/-- An `RNTO` that renames a file to where another file is may overwrite that one. -/
def SparesTarget (s : Session) (c : Command) : Prop :=
  ∀ m newPath calls oldPath, c = .rnto m newPath calls → s.renameFrom = some oldPath →
    oldPath.str ≠ newPath.str → (s.site.files.lookup oldPath.str).isSome = true →
    (s.site.files.lookup newPath.str).isSome = true →
    Renames m s.site.files oldPath newPath calls →
    mayTouch m s.site.files .Overwrite newPath.str = true

section

variable {s : Session} {m : Moment} {path : Str} {file : File}

theorem storCommand_protects {p : Str} {channel : Data.OpenCalls} {calls : StorCalls}
    (hfile : s.site.files.lookup path = some file) :
    (storCommand m p channel calls s).site.files.lookup path = some file ∨
      p = path ∧ mayTouch m s.site.files (if calls.offset > 0 then .Resume else .Overwrite) path = true := by
  by_cases hp : path = p
  · subst hp
    unfold storCommand
    split
    · exact .inl hfile
    · rename_i hopen
      exact .inr ⟨rfl, openUpload_entitled hfile hopen⟩
  · refine .inl ?_
    have hstored : ∀ connected : Bool,
        (stor m.env m.sys p { calls with connected := connected } s.site).2.files.lookup path =
          some file := fun connected => (stor_frame hp).trans hfile
    unfold storCommand
    split
    · exact hfile
    · rename_i files hopen
      simp only
      split
      · exact hstored false
      · split
        · exact (openUpload_frame hp hopen).trans hfile
        · exact hstored false
        · exact hstored true

theorem retrCommand_files {p : Str} {channel : Data.OpenCalls} {calls : RetrCalls} :
    (retrCommand m p channel calls s).site.files = s.site.files := by
  unfold retrCommand
  simp only
  split
  · rfl
  · split
    · rfl
    · split
      · rfl
      · rfl
      · rfl

theorem listCommand_site (calls : ListCalls) (s : Session) : (listCommand calls s).site = s.site := by
  unfold listCommand
  repeat' split
  all_goals rfl

theorem rnfrCommand_site (m : Moment) (path : AbsPath) (s : Session) :
    (rnfrCommand m path s).site = s.site := by
  simp only [rnfrCommand]
  split
  · rfl
  · split
    · rfl
    · rfl

/-- Who renames a path to another one passed a check at its source. -/
theorem sourceAllowed_mayRename {files : Files} {oldPath newPath : AbsPath}
    (hne : oldPath.str ≠ newPath.str) (h : sourceAllowed m files oldPath newPath = .ok ()) :
    mayRename m files oldPath.str = true := by
  unfold sourceAllowed at h
  unfold mayRename
  simp only [Bool.or_eq_true] at h ⊢
  by_cases hdir : dirname oldPath.str = dirname newPath.str
  · have hbase : basename oldPath.str ≠ basename newPath.str :=
      fun hbase => hne (str_eq_of_parts hdir hbase)
    simp only [hdir, ne_eq, not_true_eq_false, if_false, hbase, not_false_eq_true, if_true] at h
    exact .inl (by rw [h]; rfl)
  · right
    simp only [ne_eq, hdir, not_false_eq_true, if_true] at h
    split at h
    · cases h
    · rename_i hmove
      rw [hmove]
      rfl

theorem rename_called {files files' : Files} {env : Env} {sys : Sys} {oldPath newPath : AbsPath}
    {renameError : Option Errno} (h : Fs.rename env sys files oldPath newPath renameError = .ok files') :
    renameError = none := by
  unfold Fs.rename at h
  split at h
  · cases h
  · rfl

theorem renamed_inv {files files' : Files} {oldPath newPath : AbsPath} {calls : RntoCalls}
    (h : renamed m files oldPath newPath calls = some files') :
    Renames m files oldPath newPath calls ∧
      Fs.rename m.env m.sys files oldPath newPath calls.renameError = .ok files' := by
  unfold renamed at h
  split at h
  · cases h
  · rename_i hfiltered
    split at h
    · cases h
    · rename_i hsource
      split at h
      · cases h
      · rename_i hdestination
        split at h
        · cases h
        · rename_i hrename
          cases h
          exact ⟨⟨by simpa using hfiltered, hsource, hdestination, rename_called hrename⟩, hrename⟩

theorem rntoCommand_protects {newPath : AbsPath} {calls : RntoCalls}
    (hfile : s.site.files.lookup path = some file) (hspares : SparesTarget s (.rnto m newPath calls)) :
    Kept s (rntoCommand m newPath calls s) path file (.rnto m newPath calls) ∨
      Entitled s path (.rnto m newPath calls) := by
  cases hfrom : s.renameFrom with
  | none =>
    refine .inl (.inl ?_)
    simp only [rntoCommand, hfrom]
    exact hfile
  | some oldPath =>
    cases hrenamed : renamed m s.site.files oldPath newPath calls with
    | none =>
      refine .inl (.inl ?_)
      simp only [rntoCommand, hfrom, hrenamed]
      exact hfile
    | some files' =>
      have hsite : (rntoCommand m newPath calls s).site.files = files' := by
        simp only [rntoCommand, hfrom, hrenamed]
      obtain ⟨hrenames, hrename⟩ := renamed_inv hrenamed
      unfold Kept
      rw [hsite]
      rcases rename_ok hfile hrename with hkept | ⟨hbelow, hmoved⟩ | ⟨hold, hne, rfl | rfl⟩
      · exact .inl (.inl hkept)
      · exact .inl (.inr ⟨m, oldPath, newPath, calls, rfl, hfrom, hbelow, hmoved⟩)
      · exact .inr (.inr ⟨oldPath, hfrom, rfl, sourceAllowed_mayRename hne hrenames.2.1⟩)
      · refine .inr (.inl ⟨rfl, ?_⟩)
        exact hspares m newPath calls oldPath rfl hfrom hne hold (by rw [hfile]; rfl)
          hrenames

end

/-- What one command does to the files that are there. -/
theorem execute_protects {s : Session} {c : Command} (hspares : SparesTarget s c) : Protects s c := by
  intro s' hstep path file hfile
  obtain ⟨-, rfl⟩ := step_running hstep
  have hsame : ∀ {s' : Session}, s'.site.files = s.site.files → Kept s s' path file c := by
    intro s' h
    exact .inl (by rw [h, hfile])
  cases c with
  | stor m p channel calls =>
    exact (storCommand_protects hfile).imp .inl id
  | stou m workDirectory names channel calls =>
    simp only [execute, stouCommand]
    split
    · exact .inl (hsame rfl)
    · exact .inl (hsame rfl)
    · rename_i p hunique
      refine (storCommand_protects hfile).imp .inl ?_
      rintro ⟨rfl, hentitled⟩
      exact ⟨hunique, hentitled⟩
  | retr m p channel calls => exact .inl (hsame retrCommand_files)
  | list calls => exact .inl (hsame (congrArg Site.files (listCommand_site calls s)))
  | port calls => exact .inl (hsame (by cases calls <;> rfl))
  | eprt calls => exact .inl (hsame (by cases calls <;> rfl))
  | lprt calls => exact .inl (hsame (by cases calls <;> rfl))
  | rnfr m p => exact .inl (hsame (congrArg Site.files (rnfrCommand_site m p s)))
  | rnto m newPath calls => exact rntoCommand_protects hfile hspares
  | elsewhere site => exact .inr trivial
  | pasv calls => exact .inl (hsame rfl)
  | epsv calls => exact .inl (hsame rfl)
  | epsvMode mode => exact .inl (hsame rfl)
  | lpsv calls => exact .inl (hsame rfl)
  | cpsv calls => exact .inl (hsame rfl)
  | type ascii => exact .inl (hsame rfl)
  | prot protection => exact .inl (hsame rfl)
  | rest arg => exact .inl (hsame rfl)

/-- From every session and over every sequence of commands: where no `RNTO` renames a file onto one that
its user may not overwrite, each command keeps every file that its user has no right to. -/
theorem overwrite_guarded {s : Session} {commands : List Command}
    (h : Meets step SparesTarget s commands) : Meets step Protects s commands :=
  h.mono fun _ _ => execute_protects

/-- A user who may upload anywhere and rename his own files; with `overwrite` he may overwrite. -/
def exampleRenamer (overwrite : Bool) : Moment where
  env :=
    { exampleDownloader with
      cfg :=
        { exampleDownloader.cfg with
          rights
            | .Upload => [⟨"*".toList, ACL.fromString "*".toList, false⟩]
            | .Renameown => [⟨"*".toList, ACL.fromString "*".toList, false⟩]
            | .Overwrite => if overwrite then [⟨"*".toList, ACL.fromString "*".toList, false⟩] else []
            | _ => []
          wildcardMatch := fun _ _ => true } }
  sys := exampleDisk

def ownFile : File := { content := [1], owner := 1, modTime := 0 }

def otherFile : File := { content := [2, 3], owner := 2, modTime := 0 }

def exampleOwn : AbsPath := ⟨["a".toList], by decide⟩

def exampleOther : AbsPath := ⟨["b".toList], by decide⟩

/-- The first file is the user's own, the second that of somebody else. -/
def exampleFiles : Site :=
  { bareSite with
    files := AList.insert exampleOwn.str ownFile (AList.insert exampleOther.str otherFile ∅) }

def renameOntoOther (overwrite : Bool) : List Command :=
  [.rnfr (exampleRenamer overwrite) exampleOwn,
    .rnto (exampleRenamer overwrite) exampleOther ⟨true, none⟩]

theorem overwrite_guarded_entitled :
    Meets step Protects (.start .Extended exampleFiles) (renameOntoOther true) := by
  have hspares : Meets step SparesTarget (.start .Extended exampleFiles) (renameOntoOther true) := by
    refine And.intro ?_ fun s hs => And.intro ?_ fun _ _ => trivial
    · intro _ _ _ _ h
      cases h
    · intro m newPath calls oldPath h _ _ _ _ _
      cases h
      obtain ⟨-, rfl⟩ := step_running hs
      decide
  exact overwrite_guarded hspares

/-- A user renames a file of his own onto one of another user, which he may neither overwrite nor
rename, move or delete: that one is gone. -/
theorem rename_onto_other_destroys :
    ∃ s s', run step (.start .Extended exampleFiles)
          [.rnfr (exampleRenamer false) exampleOwn] = some s ∧
      step s (.rnto (exampleRenamer false) exampleOther ⟨true, none⟩) = some s' ∧
      s.site.files.lookup exampleOther.str = some otherFile ∧
      s'.site.files.lookup exampleOther.str = some ownFile ∧
      (∀ type ∈ [AccessType.Overwrite, .Resume, .Delete, .Rename, .Move],
        mayTouch (exampleRenamer false) s.site.files type exampleOther.str = false) ∧
      ¬Protects s (.rnto (exampleRenamer false) exampleOther ⟨true, none⟩) := by
  let s := execute (.start .Extended exampleFiles) (.rnfr (exampleRenamer false) exampleOwn)
  let s' := execute s (.rnto (exampleRenamer false) exampleOther ⟨true, none⟩)
  have hfrom : s.renameFrom = some exampleOwn := by
    have hallowed : allowed (exampleRenamer false).env (askedAt (exampleRenamer false).env
        (exampleRenamer false).sys exampleFiles.files exampleOwn.str) .Rename exampleOwn.str = .ok () := by
      decide
    simp only [s, execute, rnfrCommand, Session.start, hallowed]
  have hfile : s.site.files.lookup exampleOther.str = some otherFile := by decide
  have hgone : s'.site.files.lookup exampleOther.str = some ownFile := by decide
  have hdenied : mayTouch (exampleRenamer false) s.site.files .Overwrite exampleOther.str = false := by
    decide
  have hstep : step s (.rnto (exampleRenamer false) exampleOther ⟨true, none⟩) = some s' := by
    rw [step, if_pos (by decide)]
  refine ⟨s, s', by rw [run, step]; rfl, hstep, hfile, hgone, by decide, fun h => ?_⟩
  rcases h s' hstep exampleOther.str otherFile hfile with hkept | ⟨-, hentitled⟩ | ⟨oldPath, hold, hpath, -⟩
  · rcases hkept with hkept | ⟨m, oldPath, newPath, calls, -, hold, hbelow, -⟩
    · rw [hgone] at hkept
      exact absurd hkept (by decide)
    · rw [hfrom] at hold
      cases hold
      exact absurd hbelow (by decide)
  · rw [hdenied] at hentitled
    cases hentitled
  · rw [hfrom] at hold
    cases hold
    exact absurd hpath (by decide)

end Channel
end Cmd
end Ebftpd
