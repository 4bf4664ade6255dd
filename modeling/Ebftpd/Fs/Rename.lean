import Ebftpd.Fs.File

/-!
# Ebftpd.Fs.Rename

`Rename` and `UniqueFile` (`src/fs/file.cpp`), and how `rename(2)` treats the files: a regular file
takes the place of whatever file is at its new path; a directory moves everything below it, and only
to where nothing is. What the operating system refuses beyond that comes with the call.

* `moveEntries_rebase`: a file below a directory that is renamed is found at its new path.
* `rename_ok`: what becomes of the file at a path.
-/

namespace Ebftpd
namespace Fs

open Util Util.Path Lib.Seg Acl Acl.Path

variable (env : Env) (sys : Sys)

/-- `util::path::Status`. -/
def statusAt (files : Files) (path : Str) : Except Errno Status :=
  match files.lookup path with
  | some _ => .ok { isDirectory := false, isExecutable := false }
  | none => sys.status (makeReal env.cfg.sitepath path)

/-- The operating system as `Allowed` asks it about one path. -/
def askedAt (files : Files) (path : Str) : Sys :=
  { asked env sys files path with
    status :=
      Function.update sys.status (makeReal env.cfg.sitepath path) (statusAt env sys files path) }

/-- The path lies below the directory. -/
def below (dir : AbsPath) (path : Str) : Bool := startsWith path (glue '/' dir.segs ++ ['/'])

/-- Where a path below `old` is found once `old` is called `new`. -/
def rebase (old new : AbsPath) (path : Str) : Str :=
  glue '/' new.segs ++ path.drop (glue '/' old.segs).length

def moveEntry (old new : AbsPath) (files : Files) (entry : Sigma fun _ : Str => File) : Files :=
  if below old entry.1 then (files.erase entry.1).insert (rebase old new entry.1) entry.2 else files

def renameDirectory (files : Files) (old new : AbsPath) : Except Errno Files :=
  if old.str = new.str then .ok files
  else if below old new.str then .error .EINVAL
  else if (files.lookup new.str).isSome then .error .ENOTDIR
  -- `ENOTEMPTY`
  else if files.keys.any (below new) then .error (.other 39)
  else .ok (files.entries.foldl (moveEntry old new) files)

def renameFile (files : Files) (file : File) (old new : AbsPath) : Except Errno Files :=
  if old.str = new.str then .ok files
  else
    match statusAt env sys files new.str with
    | .ok stat =>
      -- `EISDIR`
      if stat.isDirectory then .error (.other 21)
      else .ok ((files.erase old.str).insert new.str file)
    | .error _ => .ok ((files.erase old.str).insert new.str file)

def rename (files : Files) (old new : AbsPath) (renameError : Option Errno) : Except Errno Files :=
  match renameError with
  | some e => .error e
  | none =>
    match files.lookup old.str with
    | some file => renameFile env sys files file old new
    | none => renameDirectory files old new

/-- The loop over the random names. -/
def uniqueName (files : Files) (dir : Str) : List Str → Except Errno (Option Str)
  | [] => .ok none
  | name :: names =>
    match statusAt env sys files (join dir name) with
    | .ok _ => uniqueName files dir names
    | .error .ENOENT => .ok (some (join dir name))
    | .error e => .error e

/-- `UniqueFile`: the exception, or the path, if one is found. -/
def uniqueFile (files : Files) (dir : Str) (names : List Str) : Except Exn (Option Str) :=
  match fileAllowed env (asked env sys files (join dir "dummyfile".toList)) .Upload
      (join dir "dummyfile".toList) with
  | .error e => .error (.systemError e)
  | .ok () =>
    match uniqueName env sys files dir (names.take 1000) with
    | .ok found => .ok found
    | .error _ => .ok none

section Ok

variable {env sys} {files files' : Files} {old new : AbsPath}

theorem rebase_below (path : Str) (h : below old path = true) : below new (rebase old new path) = true := by
  unfold below startsWith at *
  rw [List.isPrefixOf_iff_prefix] at *
  obtain ⟨t, ht⟩ := h
  refine ⟨t, ?_⟩
  rw [rebase, ← ht, List.append_assoc, List.append_assoc, List.drop_left]

theorem moveEntry_lookup {entry : Sigma fun _ : Str => File} {path : Str} (hold : below old path = false)
    (hnew : below new path = false) : (moveEntry old new files entry).lookup path = files.lookup path := by
  unfold moveEntry
  split
  · rename_i hentry
    have h₁ : path ≠ rebase old new entry.1 := by
      rintro rfl
      rw [rebase_below entry.1 hentry] at hnew
      cases hnew
    have h₂ : path ≠ entry.1 := by
      rintro rfl
      rw [hentry] at hold
      cases hold
    rw [AList.lookup_insert_ne h₁, AList.lookup_erase_ne h₂]
  · rfl

theorem moveEntries_lookup (entries : List (Sigma fun _ : Str => File)) {path : Str}
    (hold : below old path = false) (hnew : below new path = false) :
    ∀ files : Files, (entries.foldl (moveEntry old new) files).lookup path = files.lookup path := by
  induction entries with
  | nil => exact fun _ => rfl
  | cons entry entries ih =>
    intro files
    rw [List.foldl_cons, ih, moveEntry_lookup hold hnew]

theorem mem_keys_of_lookup {path : Str} {file : File} (h : files.lookup path = some file) :
    path ∈ files.keys := by
  have : path ∈ files := AList.lookup_isSome.mp (by rw [h]; rfl)
  exact AList.mem_keys.mp this

theorem rebase_inj {path path' : Str} (h : below old path = true) (h' : below old path' = true)
    (heq : rebase old new path = rebase old new path') : path = path' := by
  unfold below startsWith at h h'
  rw [List.isPrefixOf_iff_prefix] at h h'
  obtain ⟨t, rfl⟩ := h
  obtain ⟨t', rfl⟩ := h'
  simp only [rebase, List.append_assoc, List.drop_left] at heq
  rw [List.append_assoc, List.append_assoc, List.append_cancel_left heq]

theorem rebase_ne {path path' : Str} (h : below old path = true) (h' : below new path' = false) :
    rebase old new path ≠ path' := by
  rintro rfl
  rw [rebase_below path h] at h'
  cases h'

/-- The entry of another path moves: what is at the new path of this one stays. -/
theorem moveEntry_rebase_ne {entry : Sigma fun _ : Str => File} {path : Str} (hold : below old path = true)
    (hentry : below new entry.1 = false) (hne : entry.1 ≠ path) :
    (moveEntry old new files entry).lookup (rebase old new path) =
      files.lookup (rebase old new path) := by
  unfold moveEntry
  split
  · rename_i hbelow
    have h₁ : rebase old new path ≠ rebase old new entry.1 :=
      fun heq => hne (rebase_inj hold hbelow heq).symm
    rw [AList.lookup_insert_ne h₁, AList.lookup_erase_ne (rebase_ne hold hentry)]
  · rfl

/-- A file below the directory is found at its new path, where nothing lay below the new name. -/
theorem moveEntries_rebase {path : Str} {file : File} (hold : below old path = true)
    (entries : List (Sigma fun _ : Str => File)) (hnodup : (entries.map (·.1)).Nodup)
    (hnew : ∀ entry ∈ entries, below new entry.1 = false) :
    ∀ files : Files, (⟨path, file⟩ ∈ entries ∨
        path ∉ entries.map (·.1) ∧ files.lookup (rebase old new path) = some file) →
      (entries.foldl (moveEntry old new) files).lookup (rebase old new path) = some file := by
  induction entries with
  | nil =>
    rintro files (hmem | ⟨-, hmoved⟩)
    · cases hmem
    · exact hmoved
  | cons entry entries ih =>
    rw [List.map_cons, List.nodup_cons] at hnodup
    intro files hfiles
    refine ih hnodup.2 (fun e he => hnew e (List.mem_cons_of_mem _ he)) _ ?_
    by_cases hentry : entry.1 = path
    · subst hentry
      rcases hfiles with hmem | ⟨hnot, -⟩
      · rcases List.mem_cons.mp hmem with heq | hmem
        · refine .inr ⟨hnodup.1, ?_⟩
          rw [← heq, moveEntry, if_pos hold, AList.lookup_insert]
        · exact absurd (List.mem_map_of_mem hmem) hnodup.1
      · exact absurd List.mem_cons_self hnot
    · rcases hfiles with hmem | ⟨hnot, hmoved⟩
      · rcases List.mem_cons.mp hmem with rfl | hmem
        · exact absurd rfl hentry
        · exact .inl hmem
      · refine .inr ⟨fun h => hnot (List.mem_cons_of_mem _ h), ?_⟩
        rw [moveEntry_rebase_ne hold (hnew entry List.mem_cons_self) hentry, hmoved]

/-- A directory takes along what is below it and touches no other file. -/
theorem renameDirectory_ok {path : Str} {file : File} (hfile : files.lookup path = some file)
    (h : renameDirectory files old new = .ok files') :
    files'.lookup path = some file ∨
      below old path = true ∧ files'.lookup (rebase old new path) = some file := by
  unfold renameDirectory at h
  split at h
  · cases h
    exact .inl hfile
  · split at h
    · cases h
    · split at h
      · cases h
      · split at h
        · cases h
        · rename_i hempty
          cases h
          have hnew : ∀ p ∈ files.keys, below new p = false := by
            intro p hp
            rw [Bool.eq_false_iff]
            exact fun hbelow => hempty (List.any_eq_true.mpr ⟨p, hp, hbelow⟩)
          cases hold : below old path with
          | true =>
            refine .inr ⟨rfl, ?_⟩
            exact moveEntries_rebase hold files.entries files.nodupKeys
              (fun entry hentry => hnew _ (List.mem_map_of_mem hentry)) files
              (.inl (AList.mem_lookup_iff.mp hfile))
          | false =>
            refine .inl ?_
            rw [moveEntries_lookup files.entries hold (hnew path (mem_keys_of_lookup hfile)), hfile]

/-- A regular file leaves its old path and takes the new one, and touches no third. -/
theorem renameFile_ok {path : Str} {file moved : File} (hfile : files.lookup path = some file)
    (h : renameFile env sys files moved old new = .ok files') :
    files'.lookup path = some file ∨ (old.str ≠ new.str ∧ (path = old.str ∨ path = new.str)) := by
  have hmoved : old.str ≠ new.str → files' = (files.erase old.str).insert new.str moved →
      files'.lookup path = some file ∨ (old.str ≠ new.str ∧ (path = old.str ∨ path = new.str)) := by
    rintro hne rfl
    by_cases hnew : path = new.str
    · exact .inr ⟨hne, .inr hnew⟩
    · by_cases hold : path = old.str
      · exact .inr ⟨hne, .inl hold⟩
      · rw [AList.lookup_insert_ne hnew, AList.lookup_erase_ne hold]
        exact .inl hfile
  unfold renameFile at h
  split at h
  · cases h
    exact .inl hfile
  · rename_i hne
    split at h
    · split at h
      · cases h
      · exact hmoved hne (Except.ok.inj h).symm
    · exact hmoved hne (Except.ok.inj h).symm

/-- What a rename does to the file at a path: nothing, or it goes along with its directory, or the path
is one of the two of a regular file that is renamed. -/
theorem rename_ok {renameError : Option Errno} {path : Str} {file : File}
    (hfile : files.lookup path = some file) (h : rename env sys files old new renameError = .ok files') :
    files'.lookup path = some file ∨
      (below old path = true ∧ files'.lookup (rebase old new path) = some file) ∨
      ((files.lookup old.str).isSome = true ∧ old.str ≠ new.str ∧ (path = old.str ∨ path = new.str)) := by
  unfold rename at h
  split at h
  · cases h
  · split at h
    · rename_i hold
      rcases renameFile_ok hfile h with hkept | hpath
      · exact .inl hkept
      · exact .inr (.inr ⟨by simp [hold], hpath⟩)
    · exact (renameDirectory_ok hfile h).imp_right .inl

end Ok

end Fs
end Ebftpd
