import Mathlib.Logic.Function.Basic
import Ebftpd.Acl.Path
import Ebftpd.Ftp.Reply
import Ebftpd.Lib.Run
import Ebftpd.Util.Time

/-!
# Ebftpd.Cmd.FileTimes

`MFMT` and `MDTM` (`src/cmd/rfc/commands.cpp`) and `SITE UTIME` (`src/cmd/site/commands.cpp`): the times of
files, set and shown as the fourteen digits of a date and a time of day.

The disk is what `util::path::Status` finds at a real path. `PathFromUser` has followed the links on the way;
that two paths are the same file is left out, and so is a change of the disk in the middle of a command.

* `shown_iff`: which texts `MDTM` shows again, behind any run that leaves the file alone.
* `copied_iff`: which times are the same on a file that is given the text that `MDTM` showed of another.
-/

namespace Ebftpd
namespace Cmd
namespace FileTimes

open Util Util.Time Lib Lib.Calendar Acl Acl.Path Fs Ftp.Control

structure Stat where
  isRegularFile : Bool
  -- in seconds
  accessTime : Int
  modTime : Int

abbrev Disk := Str → Except Errno Stat

structure Request where
  env : Env
  sys : Sys
  workDirectory : Str
  argStr : Str
  -- `args[1]`, which the factories see to
  arg : Str
  errnoMessage : Errno → Str
  -- what `utimes` fails with
  utimes : Option Errno

inductive Outcome where
  | replied (code : ReplyCode) (text : Str)
  -- the contents of a buffer that `strftime` did not fill
  | undefined (code : ReplyCode)
  | syntaxError
  | outOfRange
  | threw (e : Exn)
  deriving DecidableEq

/-- `std::string::substr`. -/
def substr (s : Str) (pos : Nat) : Option Str :=
  if s.length < pos then none else some (s.drop pos)

namespace Request

variable (r : Request)

def pathFromUser (pathStr : Str) : Except Exn Str :=
  Fs.pathFromUser r.env.cfg.sitepath r.sys.realpath r.workDirectory pathStr

def makeReal (path : Str) : Str := Fs.makeReal r.env.cfg.sitepath path

def failed (pathStr : Str) (e : Errno) : Outcome :=
  .replied .ActionNotOkay (pathStr ++ ": ".toList ++ r.errnoMessage e)

def notPlain (pathStr : Str) : Outcome := .replied .ActionNotOkay (pathStr ++ ": Not a plain file.".toList)

/-- What `MFMT` and `SITE UTIME` do once they have the path and the times. -/
def setTimes (disk : Disk) (pathStr path : Str) (accessTime modTime : Int) (done : Str) : Outcome × Disk :=
  match fileAllowed r.env r.sys .Modify path with
  | .error e => (r.failed pathStr e, disk)
  | .ok () =>
    match disk (r.makeReal path) with
    | .error e => (r.failed pathStr e, disk)
    | .ok stat =>
      if !stat.isRegularFile then (notPlain pathStr, disk)
      else
        match r.utimes with
        | some e => (r.failed pathStr e, disk)
        | none =>
          (.replied .FileStatus done,
            Function.update disk (r.makeReal path) (.ok { stat with accessTime, modTime }))

def mfmt (disk : Disk) : Outcome × Disk :=
  match substr r.argStr (r.arg.length + 1) with
  | none => (.outOfRange, disk)
  | some rest =>
    match r.pathFromUser (trimCopy rest) with
    | .error e => (.threw e, disk)
    | .ok path =>
      match strptime r.arg with
      | none => (.syntaxError, disk)
      | some tm =>
        r.setTimes disk (trimCopy rest) path (timegm tm) (timegm tm)
          ("Modify=".toList ++ r.arg ++ "; ".toList ++ trimCopy rest)

def mdtm (disk : Disk) : Outcome :=
  match r.pathFromUser r.argStr with
  | .error e => .threw e
  | .ok path =>
    match fileAllowed r.env r.sys .View path with
    | .error e => r.failed r.argStr e
    | .ok () =>
      match disk (r.makeReal path) with
      | .error e => r.failed r.argStr e
      | .ok stat =>
        if !stat.isRegularFile then notPlain r.argStr
        else
          match strftime 15 (gmtime stat.modTime) with
          | some timestamp => .replied .FileStatus timestamp
          | none => .undefined .FileStatus

end Request

structure Utime where
  path : Str
  atime : Str
  mtime : Str

/-- `(.+) (\d{14}) (\d{14}) \d{14} UTC`, in either case: all but the path has 49 characters. -/
def style1 (argStr : Str) : Option Utime :=
  let path := argStr.take (argStr.length - 49)
  let rest := argStr.drop (argStr.length - 49)
  let atime := (rest.drop 1).take 14
  let mtime := (rest.drop 16).take 14
  let ctime := (rest.drop 31).take 14
  if path ≠ [] ∧ (atime ++ mtime ++ ctime).all Char.isDigit = true ∧
      rest.take 1 ++ (rest.drop 15).take 1 ++ (rest.drop 30).take 1 ++ toUpperCopy (rest.drop 45) =
        "    UTC".toList then
    some ⟨path, atime, mtime⟩
  else none

/-- Without the seconds the text has twelve characters. -/
def style2 (argStr arg : Str) : Except Outcome Utime :=
  match substr argStr (arg.length + 1) with
  | none => .error .outOfRange
  | some rest =>
    if arg.length = 14 then .ok ⟨trimCopy rest, arg, arg⟩
    else if arg.length = 12 then .ok ⟨trimCopy rest, arg ++ "00".toList, arg ++ "00".toList⟩
    else .error .syntaxError

namespace Request

variable (r : Request)

def style : Except Outcome Utime :=
  match style1 r.argStr with
  | some u => .ok u
  | none => style2 r.argStr r.arg

def utime (disk : Disk) : Outcome × Disk :=
  match r.style with
  | .error outcome => (outcome, disk)
  | .ok u =>
    match strptime u.atime with
    | none => (.syntaxError, disk)
    | some atm =>
      match strptime u.mtime with
      | none => (.syntaxError, disk)
      | some mtm =>
        match r.pathFromUser u.path with
        | .error e => (.threw e, disk)
        | .ok path => r.setTimes disk u.path path (timegm atm) (timegm mtm) "UTIME OK".toList

end Request

inductive Command where
  | MFMT
  | MDTM
  | UTIME

def Command.execute (c : Command) (r : Request) (disk : Disk) : Outcome × Disk :=
  match c with
  | .MFMT => r.mfmt disk
  | .MDTM => (r.mdtm disk, disk)
  | .UTIME => r.utime disk

inductive Event where
  | command (c : Command) (r : Request)
  -- anything else that happens to a path
  | change (path : Str) (stat : Except Errno Stat)

def step (disk : Disk) : Event → Option Disk
  | .command c r => some (c.execute r disk).2
  | .change path stat => some (Function.update disk path stat)

/-! ## What a command is about -/

/-- The path and the modification time that a command is to set. -/
def Command.text (c : Command) (r : Request) : Option (Str × Str) :=
  match c with
  | .MFMT => (substr r.argStr (r.arg.length + 1)).map fun rest => (trimCopy rest, r.arg)
  | .MDTM => none
  | .UTIME => r.style.toOption.map fun u => (u.path, u.mtime)

/-- That a command is to set the time of the file to the text. -/
def Command.Sets (c : Command) (r : Request) (file text : Str) : Prop :=
  ∃ pathStr path, c.text r = some (pathStr, text) ∧ r.pathFromUser pathStr = .ok path ∧ r.makeReal path = file

def Event.Concerns (file : Str) : Event → Prop
  | .command c r => ∃ text, c.Sets r file text
  | .change path _ => path = file

/-- That `MDTM` gets to see the file. -/
def Request.Views (r : Request) (file : Str) : Prop :=
  ∃ path, r.pathFromUser r.argStr = .ok path ∧ fileAllowed r.env r.sys .View path = .ok () ∧ r.makeReal path = file

/-- Fourteen digits of a date and a time of day that there are, not before the year 1000. -/
def Canonical (text : Str) : Prop :=
  ∃ tm, format tm = text ∧ Proper tm ∧ 1000 ≤ tm.year ∧ tm.year ≤ 9999

/-! ## What a command does -/

section Steps

variable {r : Request} {c : Command} {disk disk' : Disk} {file text done : Str}

theorem setTimes_cases (r : Request) (disk : Disk) (pathStr path : Str) (accessTime modTime : Int) (done : Str) :
    (∃ stat, disk (r.makeReal path) = .ok stat ∧ stat.isRegularFile = true ∧
      r.setTimes disk pathStr path accessTime modTime done = (.replied .FileStatus done,
        Function.update disk (r.makeReal path) (.ok { stat with accessTime, modTime }))) ∨
    ∃ text, r.setTimes disk pathStr path accessTime modTime done = (.replied .ActionNotOkay text, disk) := by
  unfold Request.setTimes
  split
  · exact .inr ⟨_, rfl⟩
  · split
    · exact .inr ⟨_, rfl⟩
    · rename_i stat hstat
      split
      · exact .inr ⟨_, rfl⟩
      · rename_i hregular
        split
        · exact .inr ⟨_, rfl⟩
        · exact .inl ⟨stat, hstat, by simpa using hregular, rfl⟩

/-- That a command leads from a disk to an outcome and a disk by setting the time of `text` at `pathStr`. -/
def Applied (r : Request) (disk : Disk) (result : Outcome × Disk) (pathStr text : Str) : Prop :=
  ∃ path tm stat accessTime done, r.pathFromUser pathStr = .ok path ∧ strptime text = some tm ∧
    disk (r.makeReal path) = .ok stat ∧ stat.isRegularFile = true ∧
    result = (.replied .FileStatus done,
      Function.update disk (r.makeReal path) (.ok { stat with accessTime, modTime := timegm tm }))

/-- That it does nothing and says so. -/
def Rejected (disk : Disk) (result : Outcome × Disk) : Prop :=
  result.2 = disk ∧ ∀ done, result.1 ≠ .replied .FileStatus done

theorem rejected_of {outcome : Outcome} (h : ∀ done, outcome ≠ .replied .FileStatus done) :
    Rejected disk (outcome, disk) := ⟨rfl, h⟩

theorem setTimes_applied {pathStr path : Str} {accessTime : Int} {tm : Tm}
    (hpath : r.pathFromUser pathStr = .ok path) (htm : strptime text = some tm) :
    Applied r disk (r.setTimes disk pathStr path accessTime (timegm tm) done) pathStr text ∨
      Rejected disk (r.setTimes disk pathStr path accessTime (timegm tm) done) := by
  obtain ⟨stat, hstat, hregular, h⟩ | ⟨text, h⟩ := setTimes_cases r disk pathStr path accessTime (timegm tm) done
  · exact .inl ⟨path, tm, stat, accessTime, done, hpath, htm, hstat, hregular, h⟩
  · rw [h]
    exact .inr (rejected_of (by simp))

theorem mfmt_cases (r : Request) (disk : Disk) :
    (∃ rest, substr r.argStr (r.arg.length + 1) = some rest ∧
      Applied r disk (r.mfmt disk) (trimCopy rest) r.arg) ∨ Rejected disk (r.mfmt disk) := by
  unfold Request.mfmt
  split
  · exact .inr (rejected_of (by simp))
  · rename_i rest hrest
    split
    · exact .inr (rejected_of (by simp))
    · rename_i path hpath
      split
      · exact .inr (rejected_of (by simp))
      · rename_i tm htm
        exact (setTimes_applied hpath htm).imp_left fun h => ⟨rest, hrest, h⟩

theorem style_rejected {outcome : Outcome} (h : r.style = .error outcome) (done : Str) :
    outcome ≠ .replied .FileStatus done := by
  unfold Request.style at h
  split at h
  · cases h
  · unfold style2 at h
    split at h
    · cases h
      simp
    · split at h
      · cases h
      · split at h
        · cases h
        · cases h
          simp

theorem utime_cases (r : Request) (disk : Disk) :
    (∃ u, r.style = .ok u ∧ Applied r disk (r.utime disk) u.path u.mtime) ∨ Rejected disk (r.utime disk) := by
  unfold Request.utime
  split
  · rename_i outcome hstyle
    exact .inr (rejected_of (style_rejected hstyle))
  · rename_i u hstyle
    split
    · exact .inr (rejected_of (by simp))
    · split
      · exact .inr (rejected_of (by simp))
      · rename_i mtm hmtm
        split
        · exact .inr (rejected_of (by simp))
        · rename_i path hpath
          exact (setTimes_applied hpath hmtm).imp_left fun h => ⟨u, hstyle, h⟩

/-- A command sets the time that its text stands for, or it changes nothing. -/
theorem execute_cases (c : Command) (r : Request) (disk : Disk) :
    (∃ pathStr text, c.text r = some (pathStr, text) ∧ Applied r disk (c.execute r disk) pathStr text) ∨
      (c.text r = none ∧ (c.execute r disk).2 = disk) ∨ Rejected disk (c.execute r disk) := by
  cases c with
  | MDTM => exact .inr (.inl ⟨rfl, rfl⟩)
  | MFMT =>
    obtain ⟨rest, hrest, h⟩ | h := mfmt_cases r disk
    · exact .inl ⟨trimCopy rest, r.arg, by rw [Command.text, hrest]; rfl, h⟩
    · exact .inr (.inr h)
  | UTIME =>
    obtain ⟨u, hstyle, h⟩ | h := utime_cases r disk
    · exact .inl ⟨u.path, u.mtime, by rw [Command.text, hstyle]; rfl, h⟩
    · exact .inr (.inr h)

theorem execute_other (hother : ∀ text, ¬ c.Sets r file text) : (c.execute r disk).2 file = disk file := by
  obtain ⟨pathStr, text, htext, path, tm, stat, accessTime, done, hpath, -, -, -, h⟩ | ⟨-, h⟩ | ⟨h, -⟩ :=
    execute_cases c r disk
  · have hne : file ≠ r.makeReal path := by
      rintro rfl
      exact hother text ⟨pathStr, path, htext, hpath, rfl⟩
    rw [h]
    exact Function.update_of_ne hne _ _
  · rw [h]
  · rw [h]

theorem execute_sets (hsets : c.Sets r file text) (hdone : (c.execute r disk).1 = .replied .FileStatus done) :
    ∃ tm stat, strptime text = some tm ∧ (c.execute r disk).2 file = .ok stat ∧ stat.isRegularFile = true ∧
      stat.modTime = timegm tm := by
  obtain ⟨pathStr, path, htext, hpath, rfl⟩ := hsets
  obtain ⟨pathStr', text', htext', h⟩ | ⟨h, -⟩ | ⟨-, h⟩ := execute_cases c r disk
  · rw [htext] at htext'
    cases htext'
    obtain ⟨path', tm, stat, accessTime, done', hpath', htm, -, hregular, h⟩ := h
    rw [hpath] at hpath'
    cases hpath'
    refine ⟨tm, { stat with accessTime, modTime := timegm tm }, htm, ?_, hregular, rfl⟩
    rw [h]
    exact Function.update_self _ _ _
  · rw [h] at htext
    cases htext
  · exact absurd hdone (h done)

theorem step_other {e : Event} (hother : ¬ e.Concerns file) (h : step disk e = some disk') :
    disk' file = disk file := by
  cases e with
  | command c r =>
    cases h
    exact execute_other fun text hsets => hother ⟨text, hsets⟩
  | change path stat =>
    cases h
    exact Function.update_of_ne (fun heq => hother heq.symm) _ _

/-- What no event of a run concerns stays as it is. -/
theorem run_other {l : List Event} (hother : ∀ e ∈ l, ¬ e.Concerns file) (hrun : run step disk l = some disk') :
    disk' file = disk file :=
  run_invariant_of_forall (P := fun d => d file = disk file)
    (fun _ _ _ hd he h => (step_other he h).trans hd) l rfl hother hrun

theorem mdtm_iff {stat : Stat} (hviews : r.Views file) (hstat : disk file = .ok stat) :
    r.mdtm disk = .replied .FileStatus text ↔
      stat.isRegularFile = true ∧ strftime 15 (gmtime stat.modTime) = some text := by
  obtain ⟨path, hpath, hallowed, rfl⟩ := hviews
  simp only [Request.mdtm, hpath, hallowed, hstat]
  cases hregular : stat.isRegularFile with
  | false => simp [Request.notPlain]
  | true =>
    cases hshown : strftime 15 (gmtime stat.modTime) with
    | none => simp
    | some timestamp => simp

end Steps

/-! ## Texts and times that come back -/

theorem canonical_iff {text : Str} {tm : Tm} (htm : strptime text = some tm) :
    Canonical text ↔ format tm = text ∧ Proper tm ∧ 1000 ≤ tm.year := by
  constructor
  · rintro ⟨tm', rfl, hproper, hlow, hhigh⟩
    rw [strptime_format hproper hlow hhigh] at htm
    cases htm
    exact ⟨rfl, hproper, hlow⟩
  · rintro ⟨hformat, hproper, hlow⟩
    exact ⟨tm, hformat, hproper, hlow, (strptime_inv htm).2.1⟩

/-- `MDTM` shows the text that `MFMT` or `SITE UTIME` was given, whatever else has happened since, if and only if
it is the fourteen digits of a date and time that there are, of the year 1000 or later. -/
theorem shown_iff {c : Command} {r q : Request} {disk disk' : Disk} {file text done : Str} {l : List Event}
    (hsets : c.Sets r file text) (hdone : (c.execute r disk).1 = .replied .FileStatus done)
    (hother : ∀ e ∈ l, ¬ e.Concerns file) (hrun : run step (c.execute r disk).2 l = some disk')
    (hviews : q.Views file) : q.mdtm disk' = .replied .FileStatus text ↔ Canonical text := by
  obtain ⟨tm, stat, htm, hstat, hregular, hmod⟩ := execute_sets hsets hdone
  have hkept := (run_other hother hrun).trans hstat
  rw [mdtm_iff hviews hkept, canonical_iff htm, hmod, strftime_strptime_iff htm]
  exact and_iff_right hregular

private def exampleRequest (argStr arg : String) : Request where
  env :=
    { cfg :=
        { sitepath := "/site".toList
          rights := fun _ => [⟨[], ACL.fromString "*".toList, false⟩]
          tlsControl := ACL.fromString "!*".toList
          maxOnline := ⟨10, 0⟩
          wildcardMatch := fun _ _ => true }
      user := { id := 1, name := "alice".toList }
      gidToName := fun _ => "site".toList }
  sys := ⟨some, fun _ => .error .ENOENT, fun _ => .error .ENOENT, fun _ => 0⟩
  workDirectory := "/".toList
  argStr := argStr.toList
  arg := arg.toList
  errnoMessage := fun _ => []
  utimes := none

private def plainFiles : Disk := fun _ => .ok ⟨true, 0, 0⟩

private def removed : Event := .change "/site/b".toList (.error .ENOENT)

private theorem removed_elsewhere {file : Str} (hne : "/site/b".toList ≠ file) :
    ∀ e ∈ [removed], ¬ e.Concerns file := by
  intro e he
  rw [List.mem_singleton.mp he]
  exact hne

private def toA : Request := exampleRequest "20200229120000 a" "20200229120000"

private def ofA : Request := exampleRequest "a" ""

private theorem ofA_views : ofA.Views "/site/a".toList := ⟨"/a".toList, rfl, by decide, rfl⟩

/-- The last day of a February, and a file that is removed in between. -/
theorem shown_leapDay :
    ofA.mdtm (Function.update (toA.mfmt plainFiles).2 "/site/b".toList (.error .ENOENT)) =
      .replied .FileStatus "20200229120000".toList ↔ Canonical "20200229120000".toList := by
  have hsets : Command.MFMT.Sets toA "/site/a".toList "20200229120000".toList :=
    ⟨"a".toList, "/a".toList, by decide, rfl, rfl⟩
  have hdone : (Command.MFMT.execute toA plainFiles).1 =
      .replied .FileStatus "Modify=20200229120000; a".toList := by decide
  exact shown_iff hsets hdone (removed_elsewhere (by decide)) rfl ofA_views

/-- The year 1000 begins. -/
theorem year_iff (t : Int) : 1000 ≤ (gmtime t).year ↔ -30610224000 ≤ t := by
  obtain ⟨hlow, hhigh⟩ := yearOf_bounds (t / 86400 + epoch)
  have hthousand : newYear 1000 = 364877 := by decide
  have hepoch : epoch = 719163 := rfl
  change 1000 ≤ yearOf (t / 86400 + epoch) ↔ _
  constructor
  · intro h
    have hmono := newYear_mono h
    omega
  · intro h
    by_contra hlt
    have hmono := newYear_mono (show yearOf (t / 86400 + epoch) + 1 ≤ 1000 by omega)
    omega

/-- A file that is given the text `MDTM` showed of another one has the time of that one, however the two commands
lie among others, if and only if that time is not before the year 1000. -/
theorem copied_iff {c : Command} {q r : Request} {disk disk₁ disk₂ : Disk} {source file text done : Str}
    {stat : Stat} {l : List Event} (hviews : q.Views source) (hstat : disk source = .ok stat)
    (hshown : q.mdtm disk = .replied .FileStatus text) (hsets : c.Sets r file text)
    (hdone : (c.execute r disk₁).1 = .replied .FileStatus done) (hother : ∀ e ∈ l, ¬ e.Concerns file)
    (hrun : run step (c.execute r disk₁).2 l = some disk₂) :
    ∃ copy, disk₂ file = .ok copy ∧ (copy.modTime = stat.modTime ↔ -30610224000 ≤ stat.modTime) := by
  obtain ⟨-, htext⟩ := (mdtm_iff hviews hstat).mp hshown
  obtain ⟨tm, copy, htm, hcopy, -, hmod⟩ := execute_sets hsets hdone
  refine ⟨copy, (run_other hother hrun).trans hcopy, ?_⟩
  rw [hmod, ← year_iff]
  constructor
  · intro hsame
    rw [← hsame] at htext ⊢
    obtain ⟨-, hproper, hlow⟩ := (strftime_strptime_iff htm).mp htext
    rw [gmtime_timegm hproper]
    exact hlow
  · intro hlow
    have hproper := gmtime_proper stat.modTime
    unfold strftime at htext
    split at htext
    · rename_i hfits
      cases htext
      obtain ⟨year, hyear⟩ := Int.eq_ofNat_of_zero_le (show 0 ≤ (gmtime stat.modTime).year by omega)
      have hhigh := (format_fits hyear).mp hfits
      rw [strptime_format hproper hlow (by omega)] at htm
      cases htm
      exact timegm_gmtime stat.modTime
    · cases htext

private def toC : Request := exampleRequest "19700101000000 c" "19700101000000"

theorem copied_epoch :
    ∃ copy, Function.update (toC.mfmt plainFiles).2 "/site/b".toList (.error .ENOENT) "/site/c".toList = .ok copy ∧
      (copy.modTime = (⟨true, 0, 0⟩ : Stat).modTime ↔ -30610224000 ≤ (⟨true, 0, 0⟩ : Stat).modTime) := by
  have hshown : ofA.mdtm plainFiles = .replied .FileStatus "19700101000000".toList := by decide
  have hsets : Command.MFMT.Sets toC "/site/c".toList "19700101000000".toList :=
    ⟨"c".toList, "/c".toList, by decide, rfl, rfl⟩
  have hdone : (Command.MFMT.execute toC plainFiles).1 =
      .replied .FileStatus "Modify=19700101000000; c".toList := by decide
  exact copied_iff ofA_views rfl hshown hsets hdone (removed_elsewhere (by decide)) rfl

end FileTimes
end Cmd
end Ebftpd
