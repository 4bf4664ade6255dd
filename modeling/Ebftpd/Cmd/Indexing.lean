import Ebftpd.Acl.Path
import Ebftpd.Fs.Tree
import Ebftpd.Lib.Deferred
import Ebftpd.Lib.Run

/-!
# Ebftpd.Cmd.Indexing

The index of the directories (`src/db/index/index.cpp`) and the commands that keep it: `MKD`, `RMD` and `RNTO`
(`src/cmd/rfc/commands.cpp`), `SITE WIPE` (`src/cmd/site/wipe.cpp`), `SITE UPDATE`, `SITE NEW` and `SITE SEARCH`
(`src/cmd/site/commands.cpp`). Clients take their steps in any order, and a change of the tree is one step, its
write to the index another. Paths are without links, as `MakeVirtual` gives them. The database takes what is
written, and nothing else changes the tree, the index or the settings.

* `run_mirrored`: what the index says of a path no write is pending for.
-/

namespace Ebftpd
namespace Cmd
namespace Indexing

open Util Util.Path Lib Lib.Deferred Acl Acl.Path Cfg Fs

/-! ## The index -/

/-- A document of the collection `index`, but for the date in its `_id`. -/
structure Row where
  path : List Seg
  sectionName : Str

/-- The last that was added is in front. -/
abbrev Rows := List Row

/-- `db::index::Add` and `db::index::Delete`. -/
inductive Write where
  | add (row : Row)
  | delete (path : List Seg)

namespace Write

def path : Write → List Seg
  | .add row => row.path
  | .delete path => path

def adds : Write → Bool
  | .add _ => true
  | .delete _ => false

def perform : Write → Rows → Rows
  | .add row, rows => row :: rows
  | .delete path, rows => rows.filter (·.path ≠ path)

end Write

/-- `db::index::Search`; `Newest` has no terms. -/
def search (found : List Seg → Bool) (limit : Nat) (rows : Rows) : Rows := (rows.filter (found ·.path)).take limit

def holds (rows : Rows) (path : List Seg) : Bool := rows.any (·.path = path)

theorem holds_perform (w : Write) (rows : Rows) (path : List Seg) :
    holds (w.perform rows) path = if w.path = path then w.adds else holds rows path := by
  cases w with
  | add row =>
    by_cases hpath : row.path = path
    · simp [holds, Write.perform, Write.path, Write.adds, hpath]
    · simp [holds, Write.perform, Write.path, hpath]
  | delete gone =>
    by_cases hpath : gone = path
    · subst hpath
      simp [holds, Write.perform, Write.path, Write.adds, List.any_filter]
    · have hkey : (Write.delete gone).path ≠ path := hpath
      rw [if_neg hkey]
      simp only [holds, Write.perform, List.any_filter]
      refine congrArg (List.any rows) (funext fun row => ?_)
      by_cases hrow : row.path = path
      · simp [hrow, Ne.symm hpath]
      · simp [hrow]

def writing : Writing Rows (List Seg) Write where
  holds := holds
  perform := Write.perform
  key := Write.path
  sets := Write.adds
  holds_perform := holds_perform

/-! ## The tree of directories -/

abbrev Dirs := List (List Seg)

/-- `q` is below `p`. -/
def Above (p q : List Seg) : Prop := p <+: q ∧ p ≠ q

instance (p q : List Seg) : Decidable (Above p q) := inferInstanceAs (Decidable (_ ∧ _))

abbrev ENOTEMPTY : Errno := .other 39

/-- `mkdir(2)`; `refuses` is what else it may fail for. -/
def mkdir (refuses : Option Errno) (path : List Seg) (dirs : Dirs) : Except Errno Dirs :=
  match refuses with
  | some e => .error e
  | none =>
    if path ∈ dirs then .error .EEXIST
    else if path.dropLast ∉ dirs then .error .ENOENT
    else .ok (path :: dirs)

/-- `fs::RemoveDirectory` of a real path, and `rmdir(2)`. -/
def rmdir (refuses : Option Errno) (path : List Seg) (dirs : Dirs) : Except Errno Dirs :=
  match refuses with
  | some e => .error e
  | none =>
    if path ∉ dirs then .error .ENOENT
    else if dirs.any (Above path ·) then .error ENOTEMPTY
    else .ok (dirs.filter (· ≠ path))

/-- Where a directory is found once `old` is called `new`. -/
def rebase (old new path : List Seg) : List Seg := if old <+: path then new ++ path.drop old.length else path

/-- `rename(2)` of a directory. -/
def rename (refuses : Option Errno) (old new : List Seg) (dirs : Dirs) : Except Errno Dirs :=
  match refuses with
  | some e => .error e
  | none =>
    if old = new then .ok dirs
    else if Above old new then .error .EINVAL
    else if new.dropLast ∉ dirs then .error .ENOENT
    else if dirs.any (Above new ·) then .error ENOTEMPTY
    else .ok (dirs.map (rebase old new))

/-! ## Commands -/

/-- The settings. -/
structure Settings where
  cfg : Config
  -- `indexed`
  indexpath : List Str
  dirSizeDepth : Int

variable (site : Settings)

/-- `IsIndexed`. -/
def Settings.isIndexed (path : List Seg) : Bool :=
  let path := text path
  if path.isEmpty then false
  else site.indexpath.any (site.cfg.wildcardMatch · (path ++ (if path.getLast? ≠ some '/' then ['/'] else [])))

/-- The row of a directory. -/
def Settings.row (path : List Seg) : Row :=
  ⟨path, ((site.cfg.sectionMatch (text path) true).map Section.name).getD []⟩

/-- The loops and the single steps that the commands consist of. -/
inductive Task where
  | mkdir (path : List Seg)
  | rmdir (path : List Seg)
  | rename (old new : List Seg)
  -- one entry of `SITE UPDATE`
  | visit (path : List Seg)
  | search (found : List Seg → Bool) (limit : Nat)
  -- one result of the search
  | result (path : List Seg)

/-- What a step asks for. -/
structure Answers where
  user : User
  gidToName : GroupID → Str
  sys : Sys
  -- `acl::path::Filter` and `exec::PreDirCheck`
  filtered : Bool
  preDirCheck : Bool
  -- why the system call fails, beside what is in the tree
  refuses : Option Errno
  -- a directory that cannot be opened, and a file where there is no directory
  unreadable : Bool
  occupied : Bool

def Settings.env (a : Answers) : Env := ⟨site.cfg, a.user, a.gidToName⟩

/-- The rights that `RNTO` of a directory asks for. -/
def Settings.renameAllowed (a : Answers) (old new : List Seg) : Bool :=
  (old.dropLast = new.dropLast ∨ (allowed (site.env a) a.sys .Move (text old)).isOk) ∧
    (old.getLast? = new.getLast? ∨ (allowed (site.env a) a.sys .Rename (text old)).isOk) ∧
      (dirAllowed (site.env a) a.sys .Makedir (text new)).isOk

/-- The `errno` of `DirectorySize`, 0 being `none`. -/
def Settings.directorySize (a : Answers) (path : List Seg) (dirs : Dirs) : Option Errno :=
  if site.dirSizeDepth < 0 then some .EINVAL
  else if site.dirSizeDepth = 0 then none
  else if path ∈ dirs then if a.unreadable then some .EACCES else none
  else if a.occupied then some .ENOTDIR
  else some .ENOENT

/-- A directory that was renamed. -/
structure Move where
  old : List Seg
  new : List Seg

/-- What a task leaves. -/
structure Done where
  dirs : Dirs
  writes : List Write := []
  tasks : List Task := []
  moves : List Move := []

def Task.run (a : Answers) (dirs : Dirs) (rows : Rows) : Task → Done
  | .mkdir path =>
    if a.filtered ∧ a.preDirCheck ∧ (dirAllowed (site.env a) a.sys .Makedir (text path)).isOk then
      match Indexing.mkdir a.refuses path dirs with
      | .error _ => { dirs }
      | .ok dirs => { dirs, writes := if site.isIndexed path then [.add (site.row path)] else [] }
    else { dirs }
  | .rmdir path =>
    if (dirAllowed (site.env a) a.sys .Delete (text path)).isOk then
      match Indexing.rmdir a.refuses path dirs with
      | .error _ => { dirs }
      | .ok dirs => { dirs, writes := if site.isIndexed path then [.delete path] else [] }
    else { dirs }
  | .rename old new =>
    if a.filtered ∧ site.renameAllowed a old new ∧ old ∈ dirs then
      match Indexing.rename a.refuses old new dirs with
      | .error _ => { dirs }
      | .ok dirs =>
        { dirs
          writes := (if site.isIndexed old then [.delete old] else []) ++
            if site.isIndexed new then [.add (site.row new)] else []
          moves := [⟨old, new⟩] }
    else { dirs }
  | .visit path =>
    { dirs, writes := if site.isIndexed path ∧ path ∈ dirs then [.add (site.row path)] else [] }
  | .search found limit => { dirs, tasks := (Indexing.search found limit rows).map fun row => .result row.path }
  | .result path =>
    { dirs, writes := if site.directorySize a path dirs = some .ENOENT then [.delete path] else [] }

/-- A command, as `RNTO` is one of a directory. -/
inductive Command where
  | MKD (path : List Seg)
  | RMD (path : List Seg)
  | RNTO (old new : List Seg)
  -- the directories that `Process` comes to, those in them first
  | WIPE (paths : List (List Seg))
  -- the entries that the mask matches
  | UPDATE (entries : List (List Seg))
  | NEW (number : Nat)
  -- whether the terms are in a path
  | SEARCH (found : List Seg → Bool) (number : Nat)

def Command.tasks : Command → List Task
  | .MKD path => [.mkdir path]
  | .RMD path => [.rmdir path]
  | .RNTO old new => [.rename old new]
  | .WIPE paths => paths.map .rmdir
  | .UPDATE entries => entries.map .visit
  | .NEW number => [.search (fun _ => true) number]
  | .SEARCH found number => [.search found number]

/-! ## Clients -/

variable {ι : Type} [DecidableEq ι]

structure System (ι : Type) where
  dirs : Dirs
  rows : Rows
  tasks : ι → List Task
  -- what a client has still to write to the index
  writes : ι → List Write
  -- all renames, the last in front
  moves : List Move

def start (dirs : Dirs) (rows : Rows) : System ι := ⟨dirs, rows, fun _ => [], fun _ => [], []⟩

inductive Input (ι : Type) where
  | command (i : ι) (c : Command)
  | next (i : ι) (a : Answers)

/-- A client writes to the index what a task has left before it goes on to the next. -/
def step (s : System ι) : Input ι → Option (System ι)
  | .command i c =>
    if s.tasks i = [] ∧ s.writes i = [] then some { s with tasks := Function.update s.tasks i c.tasks } else none
  | .next i a =>
    match s.writes i with
    | w :: ws => some { s with rows := w.perform s.rows, writes := Function.update s.writes i ws }
    | [] =>
      match s.tasks i with
      | [] => none
      | task :: tasks =>
        let done := task.run site a s.dirs s.rows
        some ⟨done.dirs, s.rows, Function.update s.tasks i (done.tasks ++ tasks),
          Function.update s.writes i (s.writes i ++ done.writes), done.moves ++ s.moves⟩

/-! ## What the index says -/

/-- Nobody else has a write pending for a path that a task has written about. -/
def Apart (s : System ι) : Input ι → Prop
  | .command _ _ => True
  | .next i a => s.writes i = [] → ∀ task ∈ (s.tasks i).head?, ∀ w ∈ (task.run site a s.dirs s.rows).writes,
      writing.Alone s.writes i w.path

instance [Fintype ι] (s : System ι) (input : Input ι) : Decidable (Apart site s input) :=
  match input with
  | .command _ _ => .isTrue trivial
  | .next i a => inferInstanceAs (Decidable (s.writes i = [] → ∀ task ∈ (s.tasks i).head?,
      ∀ w ∈ (task.run site a s.dirs s.rows).writes, writing.Alone s.writes i w.path))

/-- A path has a row exactly if it is an indexed directory, but for what a rename has moved from below `old` to
below `new`. -/
structure Mirrored (dirs : Dirs) (moves : List Move) (path : List Seg) (b : Bool) : Prop where
  sound : b = true → site.isIndexed path = true ∧ (path ∈ dirs ∨ ∃ m ∈ moves, Above m.old path)
  complete : path ∈ dirs → site.isIndexed path = true → b = true ∨ ∃ m ∈ moves, Above m.new path

section Mirror

variable {site} {a : Answers} {dirs dirs' : Dirs} {rows : Rows} {moves : List Move} {path : List Seg} {b : Bool}
  {refuses : Option Errno} {old new q : List Seg}

theorem mkdir_ok (h : mkdir refuses q dirs = .ok dirs') : dirs' = q :: dirs := by
  unfold mkdir at h
  split at h
  · cases h
  · split at h
    · cases h
    · split at h
      · cases h
      · cases h
        rfl

theorem rmdir_ok (h : rmdir refuses q dirs = .ok dirs') : dirs' = dirs.filter (· ≠ q) := by
  unfold rmdir at h
  split at h
  · cases h
  · split at h
    · cases h
    · split at h
      · cases h
      · cases h
        rfl

theorem rename_ok (h : rename refuses old new dirs = .ok dirs') : (old = new ∧ dirs' = dirs) ∨
    (old ≠ new ∧ (∀ p ∈ dirs, ¬ Above new p) ∧ dirs' = dirs.map (rebase old new)) := by
  unfold rename at h
  split at h
  · cases h
  · split at h
    · rename_i heq
      cases h
      exact .inl ⟨heq, rfl⟩
    · rename_i hne
      split at h
      · cases h
      · split at h
        · cases h
        · split at h
          · cases h
          · rename_i hany
            cases h
            refine .inr ⟨hne, fun p hp habove => hany ?_, rfl⟩
            exact List.any_eq_true.mpr ⟨p, hp, decide_eq_true habove⟩

theorem after_add : writing.after path (if site.isIndexed q then [.add (site.row q)] else []) b =
    if path = q then (if site.isIndexed path then true else b) else b := by
  by_cases hpath : path = q
  · subst hpath
    rw [if_pos rfl]
    cases site.isIndexed path with
    | true => exact if_pos rfl
    | false => rfl
  · rw [if_neg hpath]
    cases site.isIndexed q with
    | true => exact if_neg (Ne.symm hpath)
    | false => rfl

theorem after_delete : writing.after path (if site.isIndexed q then [.delete q] else []) b =
    if path = q then (if site.isIndexed path then false else b) else b := by
  by_cases hpath : path = q
  · subst hpath
    rw [if_pos rfl]
    cases site.isIndexed path with
    | true => exact if_pos rfl
    | false => rfl
  · rw [if_neg hpath]
    cases site.isIndexed q with
    | true => exact if_neg (Ne.symm hpath)
    | false => rfl

theorem Mirrored.indexed (h : Mirrored site dirs moves path b) (hb : b = true) : site.isIndexed path = true :=
  (h.sound hb).1

/-- The rows of a path that is no longer a directory are deleted, if there can be any. -/
theorem Mirrored.gone (h : Mirrored site dirs moves path b) (hnot : path ∉ dirs') :
    Mirrored site dirs' moves path (if site.isIndexed path then false else b) := by
  refine ⟨fun hb => ?_, fun hmem => absurd hmem hnot⟩
  cases hindexed : site.isIndexed path with
  | true =>
    rw [if_pos hindexed] at hb
    cases hb
  | false =>
    rw [if_neg (Bool.eq_false_iff.mp hindexed)] at hb
    exact absurd (h.indexed hb) (Bool.eq_false_iff.mp hindexed)

/-- A directory gets a row, if it should have one. -/
theorem Mirrored.there (h : Mirrored site dirs moves path b) (hmem : path ∈ dirs') :
    Mirrored site dirs' moves path (if site.isIndexed path then true else b) := by
  cases hindexed : site.isIndexed path with
  | true => exact ⟨fun _ => ⟨hindexed, .inl hmem⟩, fun _ _ => .inl rfl⟩
  | false =>
    have hnone : b ≠ true := fun hb => Bool.eq_false_iff.mp hindexed (h.indexed hb)
    exact ⟨fun hb => absurd hb hnone, fun _ hyes => absurd hyes (Bool.eq_false_iff.mp hindexed)⟩

/-- Nothing happens to a path. -/
theorem Mirrored.other (h : Mirrored site dirs moves path b) (hsame : path ∈ dirs' ↔ path ∈ dirs) :
    Mirrored site dirs' moves path b :=
  ⟨fun hb => ⟨h.indexed hb, (h.sound hb).2.imp_left hsame.mpr⟩, fun hmem => h.complete (hsame.mp hmem)⟩

theorem rebase_append (r : List Seg) : rebase old new (old ++ r) = new ++ r := by
  rw [rebase, if_pos (List.prefix_append _ _), List.drop_left]

/-- A directory that was renamed is not where it was. -/
theorem old_notMem (hold : old ∈ dirs) (hne : old ≠ new) (hempty : ∀ p ∈ dirs, ¬ Above new p) :
    old ∉ dirs.map (rebase old new) := by
  intro hmem
  obtain ⟨p, hp, heq⟩ := List.mem_map.mp hmem
  by_cases hpre : old <+: p
  · obtain ⟨r, rfl⟩ := hpre
    rw [rebase_append] at heq
    exact hempty old hold ⟨⟨r, heq⟩, Ne.symm hne⟩
  · rw [rebase, if_neg hpre] at heq
    exact hpre (heq ▸ List.prefix_rfl)

/-- What a rename leaves of a path that is neither its old nor its new one. -/
theorem Mirrored.moved (h : Mirrored site dirs moves path b) (hold : path ≠ old) (hnew : path ≠ new) :
    Mirrored site (dirs.map (rebase old new)) (⟨old, new⟩ :: moves) path b := by
  constructor
  · intro hb
    refine ⟨h.indexed hb, ?_⟩
    by_cases hpre : old <+: path
    · exact .inr ⟨⟨old, new⟩, List.mem_cons_self, hpre, Ne.symm hold⟩
    · rcases (h.sound hb).2 with hmem | ⟨m, hm, habove⟩
      · refine .inl (List.mem_map.mpr ⟨path, hmem, ?_⟩)
        rw [rebase, if_neg hpre]
      · exact .inr ⟨m, List.mem_cons_of_mem _ hm, habove⟩
  · intro hmem hindexed
    obtain ⟨p, hp, heq⟩ := List.mem_map.mp hmem
    by_cases hpre : old <+: p
    · obtain ⟨r, rfl⟩ := hpre
      rw [rebase_append] at heq
      exact .inr ⟨⟨old, new⟩, List.mem_cons_self, ⟨r, heq⟩, Ne.symm hnew⟩
    · rw [rebase, if_neg hpre] at heq
      subst heq
      rcases h.complete hp hindexed with hb | ⟨m, hm, habove⟩
      · exact .inl hb
      · exact .inr ⟨m, List.mem_cons_of_mem _ hm, habove⟩

theorem Mirrored.more (h : Mirrored site dirs moves path b) (m : Move) : Mirrored site dirs (m :: moves) path b := by
  constructor
  · intro hb
    refine ⟨h.indexed hb, (h.sound hb).2.imp_right ?_⟩
    rintro ⟨m', hm', habove⟩
    exact ⟨m', List.mem_cons_of_mem _ hm', habove⟩
  · intro hmem hindexed
    refine (h.complete hmem hindexed).imp_right ?_
    rintro ⟨m', hm', habove⟩
    exact ⟨m', List.mem_cons_of_mem _ hm', habove⟩

theorem Mirrored.mkdir (h : Mirrored site dirs moves path b) (hmkdir : Indexing.mkdir refuses q dirs = .ok dirs') :
    Mirrored site dirs' moves path
      (writing.after path (if site.isIndexed q then [.add (site.row q)] else []) b) := by
  rw [mkdir_ok hmkdir, after_add]
  by_cases hpath : path = q
  · subst hpath
    rw [if_pos rfl]
    exact h.there List.mem_cons_self
  · rw [if_neg hpath]
    exact h.other (by simp [hpath])

theorem Mirrored.rmdir (h : Mirrored site dirs moves path b) (hrmdir : Indexing.rmdir refuses q dirs = .ok dirs') :
    Mirrored site dirs' moves path (writing.after path (if site.isIndexed q then [.delete q] else []) b) := by
  rw [rmdir_ok hrmdir, after_delete]
  by_cases hpath : path = q
  · subst hpath
    rw [if_pos rfl]
    exact h.gone (by simp)
  · rw [if_neg hpath]
    exact h.other (by simp [hpath])

theorem Mirrored.rename (h : Mirrored site dirs moves path b) (hold : old ∈ dirs)
    (hrename : Indexing.rename refuses old new dirs = .ok dirs') :
    Mirrored site dirs' (⟨old, new⟩ :: moves) path (writing.after path
      ((if site.isIndexed old then [.delete old] else []) ++ if site.isIndexed new then [.add (site.row new)] else [])
      b) := by
  rw [Writing.after_append, after_add, after_delete]
  rcases rename_ok hrename with ⟨rfl, rfl⟩ | ⟨hne, hempty, rfl⟩
  · refine Mirrored.more ?_ _
    by_cases hpath : path = old
    · subst hpath
      have hthere := h.there hold
      rw [if_pos rfl, if_pos rfl]
      cases hindexed : site.isIndexed path with
      | true => rwa [hindexed] at hthere
      | false => rwa [hindexed] at hthere
    · rw [if_neg hpath, if_neg hpath]
      exact h
  · have hmem : new ∈ dirs.map (rebase old new) := by
      refine List.mem_map.mpr ⟨old, hold, ?_⟩
      rw [rebase, if_pos List.prefix_rfl, List.drop_length, List.append_nil]
    by_cases hpath : path = new
    · subst hpath
      rw [if_pos rfl, if_neg (Ne.symm hne)]
      exact (h.there hmem).more _
    · rw [if_neg hpath]
      by_cases hpath' : path = old
      · subst hpath'
        rw [if_pos rfl]
        exact (h.gone (old_notMem hold hne hempty)).more _
      · rw [if_neg hpath']
        exact h.moved hpath' hpath

theorem Mirrored.visit (h : Mirrored site dirs moves path b) : Mirrored site dirs moves path
    (writing.after path (if site.isIndexed q ∧ q ∈ dirs then [.add (site.row q)] else []) b) := by
  by_cases hmem : q ∈ dirs
  · simp only [hmem, and_true]
    rw [after_add]
    by_cases hpath : path = q
    · subst hpath
      rw [if_pos rfl]
      exact h.there hmem
    · rw [if_neg hpath]
      exact h
  · rw [if_neg (fun hboth => hmem hboth.2)]
    exact h

theorem directorySize_gone (h : site.directorySize a q dirs = some .ENOENT) : q ∉ dirs := by
  intro hmem
  unfold Settings.directorySize at h
  rw [if_pos hmem] at h
  split at h
  · cases h
  · split at h
    · cases h
    · split at h <;> cases h

theorem Mirrored.result (h : Mirrored site dirs moves path b) (hnot : q ∉ dirs) :
    Mirrored site dirs moves path (writing.after path [.delete q] b) := by
  by_cases hpath : path = q
  · subst hpath
    have hfalse : writing.after path [.delete path] b = false := if_pos rfl
    rw [hfalse]
    exact ⟨fun hb => (Bool.false_ne_true hb).elim, fun hmem => absurd hmem hnot⟩
  · have hsame : writing.after path [.delete q] b = b := if_neg (Ne.symm hpath)
    rw [hsame]
    exact h

/-- A task leaves to be written what it has changed in the tree. -/
theorem Mirrored.run (h : Mirrored site dirs moves path b) (task : Task) :
    Mirrored site (task.run site a dirs rows).dirs ((task.run site a dirs rows).moves ++ moves) path
      (writing.after path (task.run site a dirs rows).writes b) := by
  cases task with
  | mkdir q =>
    rw [Task.run]
    split
    · split
      · exact h
      · rename_i hmkdir
        exact h.mkdir hmkdir
    · exact h
  | rmdir q =>
    rw [Task.run]
    split
    · split
      · exact h
      · rename_i hrmdir
        exact h.rmdir hrmdir
    · exact h
  | rename old new =>
    rw [Task.run]
    split
    · rename_i hchecks
      split
      · exact h
      · rename_i hrename
        exact h.rename hchecks.2.2 hrename
    · exact h
  | visit q => exact h.visit
  | search found limit => exact h
  | result q =>
    rw [Task.run]
    by_cases hgone : site.directorySize a q dirs = some .ENOENT
    · rw [if_pos hgone]
      exact h.result (directorySize_gone hgone)
    · rw [if_neg hgone]
      exact h

end Mirror

/-! ## Runs -/

/-- Every path is settled, and as the tree has it. -/
def Consistent (s : System ι) : Prop :=
  ∀ path, ∃ b, writing.Settles s.rows s.writes path b ∧ Mirrored site s.dirs s.moves path b

section Runs

variable {site} {s s' : System ι} {i : ι} {a : Answers} {task : Task} {tasks : List Task} {w : Write}
  {ws : List Write} {input : Input ι}

theorem Consistent.perform (h : Consistent site s) (hw : s.writes i = w :: ws) :
    Consistent site { s with rows := w.perform s.rows, writes := Function.update s.writes i ws } := by
  intro path
  obtain ⟨b, hsettles, hmirrored⟩ := h path
  exact ⟨b, hsettles.perform hw, hmirrored⟩

theorem Consistent.run (h : Consistent site s)
    (hapart : ∀ w ∈ (task.run site a s.dirs s.rows).writes, writing.Alone s.writes i w.path) :
    Consistent site ⟨(task.run site a s.dirs s.rows).dirs, s.rows,
      Function.update s.tasks i ((task.run site a s.dirs s.rows).tasks ++ tasks),
      Function.update s.writes i (s.writes i ++ (task.run site a s.dirs s.rows).writes),
      (task.run site a s.dirs s.rows).moves ++ s.moves⟩ := by
  intro path
  obtain ⟨b, hsettles, hmirrored⟩ := h path
  refine ⟨_, hsettles.post ?_, hmirrored.run task⟩
  intro w hw hpath
  exact hpath ▸ hapart w hw

theorem step_consistent (s : System ι) (input : Input ι) (s' : System ι) (h : Consistent site s)
    (hapart : Apart site s input) (hstep : step site s input = some s') : Consistent site s' := by
  cases input with
  | command i c =>
    rw [step] at hstep
    split at hstep
    · cases hstep
      exact h
    · cases hstep
  | next i a =>
    rw [step] at hstep
    split at hstep
    · rename_i hw
      cases hstep
      exact h.perform hw
    · rename_i hnone
      split at hstep
      · cases hstep
      · rename_i htasks
        cases hstep
        refine h.run (hapart hnone _ ?_)
        rw [htasks]
        rfl

/-- Where no client writes about a path that another one has still to write about, a path that nobody has still
to write about has a row exactly if it is an indexed directory, whatever the order of the steps. Only a rename of a
directory above it may have made it otherwise. -/
theorem run_mirrored [Inhabited ι] {dirs : Dirs} {rows : Rows}
    (hstart : ∀ path, holds rows path = true ↔ site.isIndexed path = true ∧ path ∈ dirs) (inputs : List (Input ι))
    (hapart : Meets (step site) (Apart site) (start dirs rows) inputs)
    (hrun : Lib.run (step site) (start dirs rows) inputs = some s) {path : List Seg}
    (hquiet : writing.Quiet s.writes path) : Mirrored site s.dirs s.moves path (holds s.rows path) := by
  have hconsistent : Consistent site (start dirs rows : System ι) := by
    intro path
    refine ⟨holds rows path, Writing.settles_nil rows path, ?_⟩
    exact ⟨fun hb => ⟨((hstart path).mp hb).1, .inl ((hstart path).mp hb).2⟩,
      fun hmem hindexed => .inl ((hstart path).mpr ⟨hindexed, hmem⟩)⟩
  obtain ⟨b, hsettles, hmirrored⟩ :=
    run_invariant_of_meets step_consistent inputs hconsistent hapart hrun path
  have hheld : holds s.rows path = b := hsettles.held hquiet
  rw [hheld]
  exact hmirrored

/-! ## Two clients -/

theorem goodSeg_a : GoodSeg "a".toList := by decide

private def segA : Seg := ⟨"a".toList, goodSeg_a⟩

/-- Everybody may do everything, and all but the root is indexed. -/
private def openSite : Settings where
  cfg :=
    { sitepath := "/site".toList
      rights := fun _ => [⟨[], ACL.fromString "*".toList, false⟩]
      tlsControl := ACL.fromString "!*".toList
      maxOnline := ⟨10, 0⟩
      wildcardMatch := fun _ path => path ≠ "/".toList }
  indexpath := ["/*".toList]
  dirSizeDepth := 2

private def agreed : Answers where
  user := { id := 1, name := "alice".toList }
  gidToName := fun _ => "site".toList
  sys := ⟨fun _ => none, fun _ => .error .ENOENT, fun _ => .error .ENOENT, fun _ => 0⟩
  filtered := true
  preDirCheck := true
  refuses := none
  unreadable := false
  occupied := false

private def bothMake : List (Input Bool) :=
  [.command false (.MKD [segA]), .next false agreed, .command true (.MKD [segA, segA]), .next true agreed,
    .next true agreed, .next false agreed]

theorem run_mirrored_both : ∃ s, Lib.run (step openSite) (start [[]] []) bothMake = some s ∧
    Mirrored openSite s.dirs s.moves [segA] (holds s.rows [segA]) := by
  have hapart : Meets (step openSite) (Apart openSite) (start [[]] []) bothMake := by decide
  refine ⟨_, rfl, run_mirrored ?_ bothMake hapart rfl (by decide)⟩
  intro path
  constructor
  · intro hheld
    cases hheld
  · rintro ⟨hindexed, hmem⟩
    obtain rfl := List.mem_singleton.mp hmem
    cases hindexed

/-- `RMD` between the two steps of an `MKD` leaves a row without a directory. -/
example : (Lib.run (step openSite) (start [[]] [])
    [.command false (.MKD [segA]), .next false agreed, .command true (.RMD [segA]), .next true agreed,
      .next true agreed, .next false agreed]).map (fun s => (s.rows.map Row.path, s.dirs)) =
    some ([[segA]], [[]]) := by decide

end Runs

end Indexing
end Cmd
end Ebftpd
