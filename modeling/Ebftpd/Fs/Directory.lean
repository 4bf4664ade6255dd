import Ebftpd.Acl.Path

/-!
# Ebftpd.Fs.Directory

The work directory of a client (`src/fs/directory.cpp`), the listing that `ChangeMatch` searches
(`src/fs/iteratorutil.hpp`, `util/util/path/diriterator.cpp`, `util/util/path/dircontainer.hpp`).

`SetWorkDirectory` is called at the end of `ChangeDirectory` and nowhere else, so a success carries
the new work directory, and every other outcome leaves it as it was.

* `Confined`: the work directory is a normalised path, the home directory or below it, and not
  private.
* `changeDirectory_confined`, `changeAlias_confined`, `changeMatch_confined`,
  `changeCdpath_confined`: the four ways to change it keep it so.
-/

namespace Ebftpd
namespace Fs

open Util Util.Path Lib Lib.Seg Acl Acl.Path

/-- The system at every call a command makes. Calls are numbered; a call that makes calls of its
own has a world below its number. The file system may change between any two of them. -/
abbrev World := List Nat → Sys

def World.at (w : World) (n : Nat) : Sys := w [n]

def World.sub (w : World) (n : Nat) : World := fun l => w (n :: l)

variable (env : Env)

def changeDirectory (sys : Sys) (path : Str) : Except Errno Str :=
  match dirAllowed env sys .View path with
  | .error e => .error e
  | .ok () =>
    match sys.status (makeReal env.cfg.sitepath path) with
    | .error e => .error e
    | .ok stat =>
      if !stat.isDirectory then .error .ENOTDIR
      else if !stat.isExecutable then .error .EACCES
      else .ok path

/-- `ChangeAlias`; `match` is the new work directory. -/
def changeAlias (sys : Sys) (path : Str) : Except Errno Str :=
  if basename path ≠ path then .error .ENOENT
  else
    match env.cfg.aliases.find? (·.name = toLowerCopy path) with
    | some a => changeDirectory env sys a.path
    | none => .error .ENOENT

/-- `fs::Filter`: whether an entry is left out of a listing. -/
def filter (sys : Sys) (path : Str) : Except Exn Bool :=
  match makeVirtual env.cfg.sitepath path with
  | .error e => .error e
  | .ok virt => .ok (!(allowed env sys .View virt).isOk)

/-- `fs::PreFilter`: the real directory to list. -/
def preFilter (w : World) (workDirectory path : Str) : Except Exn Str :=
  let real := makeRealPath env.cfg.sitepath (w.at 0).realpath workDirectory path
  match filter env (w.at 1) real with
  | .error e => .error e
  | .ok true => .error (.systemError .ENOENT)
  | .ok false => .ok real

def openDirectory (sys : Sys) (real : Str) : Except Exn (List Str) :=
  match sys.readdir real with
  | .error e => .error (.systemError e)
  | .ok entries => .ok entries

/-- The loop in the constructor of `DirIterator`: it runs to the first entry that is not filtered,
and may throw on the way. -/
def skipFiltered (w : World) (path : Str) : Nat → List Str → Except Exn Unit
  | _, [] => .ok ()
  | n, entry :: entries =>
    match filter env (w.at n) (join (makeReal env.cfg.sitepath path) entry) with
    | .error e => .error e
    | .ok true => skipFiltered w path (n + 1) entries
    | .ok false => .ok ()

/-- `DirContainer(user, path)` and its `begin()`. `begin` opens the directory again, so what the
constructor skipped stands at the front once more. -/
def dirContainer (w : World) (workDirectory path : Str) : Except Exn (List Str) :=
  match preFilter env (w.sub 0) workDirectory path with
  | .error e => .error e
  | .ok real =>
    match openDirectory (w.at 1) real with
    | .error e => .error e
    | .ok entries =>
      match skipFiltered env (w.sub 2) path 0 entries with
      | .error e => .error e
      | .ok () => openDirectory (w.at 3) real

/-- The loop of `ChangeMatch`. The iterator filters as it moves on, so the first entry is not
filtered and every later one is; entry `n` sees the system `w.sub n`. -/
def matchLoop (w : World) (workDirectory path : Str) : Nat → List Str → Except Exn (Except Errno Str)
  | _, [] => .ok (.error .ENOENT)
  | n, entry :: entries =>
    let w' := w.sub n
    match if n = 0 then .ok false
      else filter env (w'.at 0) (join (makeReal env.cfg.sitepath (dirname path)) entry) with
    | .error e => .error e
    | .ok true => matchLoop w workDirectory path (n + 1) entries
    | .ok false =>
      if !startsWith (toLowerCopy entry) (toLowerCopy (basename path)) then
        matchLoop w workDirectory path (n + 1) entries
      else
        match makeVirtualPath env.cfg.sitepath (w'.at 1).realpath workDirectory
            (join (dirname path) entry) with
        | .error e => .error e
        | .ok found =>
          match changeDirectory env (w'.at 2) found with
          | .ok dir => .ok (.ok dir)
          | .error e =>
            if e ≠ .ENOENT ∧ e ≠ .ENOTDIR then .ok (.error e)
            else matchLoop w workDirectory path (n + 1) entries

/-- `ChangeMatch`. A `SystemError` becomes its `errno`; what `MakeVirtual` throws goes through. -/
def changeMatch (w : World) (workDirectory path : Str) : Except Exn (Except Errno Str) :=
  match dirAllowed env (w.at 0) .View path with
  | .error e => .ok (.error e)
  | .ok () =>
    let body : Except Exn (Except Errno Str) :=
      match dirContainer env (w.sub 1) workDirectory (dirname path) with
      | .error e => .error e
      | .ok entries => matchLoop env (w.sub 2) workDirectory path 0 entries
    match body with
    | .error (.systemError e) => .ok (.error e)
    | r => r

/-- The loop of `ChangeCdpath`; entry `n` sees the system `w.sub n`. -/
def cdpathLoop (w : World) (workDirectory path : Str) :
    Nat → List Str → Except Exn (Except Errno Str)
  | _, [] => .ok (.error .ENOENT)
  | n, cdpath :: cdpaths =>
    match makeVirtualPath env.cfg.sitepath ((w.sub n).at 0).realpath workDirectory (join cdpath path) with
    | .error e => .error e
    | .ok virt =>
      match changeMatch env ((w.sub n).sub 1) workDirectory virt with
      | .ok (.error .ENOENT) => cdpathLoop w workDirectory path (n + 1) cdpaths
      | r => r

def changeCdpath (w : World) (workDirectory path : Str) : Except Exn (Except Errno Str) :=
  if basename path ≠ path then .ok (.error .ENOENT)
  else cdpathLoop env w workDirectory path 0 env.cfg.cdpath

/-! ## Confinement -/

/-- Every `Realpath` outcome of the world is canonical. -/
def World.Canonical (w : World) : Prop := ∀ l, (w l).realpath.Canonical

theorem World.Canonical.sub {w : World} (h : w.Canonical) (n : Nat) : (w.sub n).Canonical :=
  fun l => h (n :: l)

variable {env}

structure Confined (env : Env) (workDirectory : Str) : Prop where
  below : ∃ home p : AbsPath, env.user.homeDir = home.str ∧ workDirectory = p.str ∧ home.Above p
  notPrivate : privatePath env (slashed workDirectory) = false

theorem Confined.normalised {wd : Str} (h : Confined env wd) : Normalised wd := by
  obtain ⟨_, p, _, hp, _⟩ := h.below
  exact ⟨p, hp⟩

section HomeDir

variable (hhome : Normalised env.user.homeDir)

include hhome

theorem changeDirectory_confined {sys : Sys} {path dir : Str} (hpath : Normalised path)
    (h : changeDirectory env sys path = .ok dir) : Confined env dir := by
  obtain ⟨home, hhome⟩ := hhome
  obtain ⟨p, rfl⟩ := hpath
  simp only [changeDirectory] at h
  split at h
  · cases h
  · rename_i hallowed
    obtain ⟨habove, hpriv⟩ := dirAllowed_below hhome hallowed
    split at h
    · cases h
    · split at h
      · cases h
      · split at h
        · cases h
        · cases h
          exact ⟨⟨home, p, hhome, rfl, habove⟩, hpriv⟩

theorem changeAlias_confined (halias : ∀ a ∈ env.cfg.aliases, Normalised a.path) {sys : Sys}
    {path dir : Str} (h : changeAlias env sys path = .ok dir) : Confined env dir := by
  simp only [changeAlias] at h
  split at h
  · cases h
  · split at h
    · rename_i a hfind
      exact changeDirectory_confined hhome (halias a (List.mem_of_find?_eq_some hfind)) h
    · cases h

theorem matchLoop_confined {w : World} (hw : w.Canonical) {wd : Str} (hwd : Normalised wd)
    {path dir : Str} : ∀ {entries : List Str} {n : Nat},
      matchLoop env w wd path n entries = .ok (.ok dir) → Confined env dir := by
  intro entries
  induction entries with
  | nil => intro n h; cases h
  | cons entry entries ih =>
    intro n h
    simp only [matchLoop] at h
    split at h
    · cases h
    · exact ih h
    · split at h
      · exact ih h
      · split at h
        · cases h
        · rename_i found hfound
          have hnorm : Normalised found := makeVirtualPath_normalised (hw _) hwd hfound
          split at h
          · rename_i hdir
            cases h
            exact changeDirectory_confined hhome hnorm hdir
          · split at h
            · cases h
            · exact ih h

theorem changeMatch_confined {w : World} (hw : w.Canonical) {wd : Str} (hwd : Normalised wd)
    {path dir : Str} (h : changeMatch env w wd path = .ok (.ok dir)) : Confined env dir := by
  simp only [changeMatch] at h
  split at h
  · cases h
  · split at h
    · cases h
    · split at h
      · cases h
      · exact matchLoop_confined hhome (hw.sub 2) hwd h

theorem changeCdpath_confined {w : World} (hw : w.Canonical) {wd : Str} (hwd : Normalised wd)
    {path dir : Str} (h : changeCdpath env w wd path = .ok (.ok dir)) : Confined env dir := by
  have hloop : ∀ {cdpaths : List Str} {n : Nat},
      cdpathLoop env w wd path n cdpaths = .ok (.ok dir) → Confined env dir := by
    intro cdpaths
    induction cdpaths with
    | nil => intro n h; cases h
    | cons cdpath cdpaths ih =>
      intro n h
      simp only [cdpathLoop] at h
      split at h
      · cases h
      · split at h
        · exact ih h
        · exact changeMatch_confined hhome ((hw.sub n).sub 1) hwd h
  simp only [changeCdpath] at h
  split at h
  · cases h
  · exact hloop h

end HomeDir

end Fs
end Ebftpd
