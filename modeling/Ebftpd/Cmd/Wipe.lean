import Ebftpd.Fs.Removal
import Ebftpd.Lib.Run

/-!
# Ebftpd.Cmd.Wipe

`SITE WIPE` (`src/cmd/site/wipe.cpp`): what it deletes from a tree of directories and symbolic links, in a
session in which every recursive command has to be repeated (`ClientImpl::ConfirmCommand`).

* `process_accounted`: what one command deletes is at or below an entry that the mask matches, where links and
  patterns lead to nothing else.
* `step_rightful`: then a command deletes what was asked for and confirmed.
-/

namespace Ebftpd
namespace Cmd
namespace Wipe

open Util Util.Path Lib Lib.Seg Lib.FileTree Fs Fs.Glob Acl Acl.Path

/-- The command, and the client that it runs for. -/
structure Call where
  env : Env
  kernel : Kernel
  site : List Seg
  sitepath : env.cfg.sitepath = text site
  nonroot : site ≠ []
  workDirectory : List Seg
  argStr : Str
  -- behind `args[0]`
  arguments : List Str
  fuel : Nat

inductive Halt where
  | thrown (e : Exn)
  | glob (stop : Glob.Stop)

variable (c : Call)

/-! ## Deleting -/

/-- `fs::GlobIterator`, at its first entry. -/
def Call.globIterator (t : Disk) (pathmask : Str) : Except Halt GlobIterator :=
  let sys := c.kernel.sys t
  match preFilter c.env (fun _ => sys) (text c.workDirectory) pathmask with
  | .error e => .error (.thrown e)
  | .ok real =>
    let it := GlobIterator.of [] real (fun path => (filter c.env sys path).toOption == some true) false
    match it.openDirectory t c.fuel with
    | .error stop => .error (.glob stop)
    | .ok it => .ok it

/-- What `Process` does with an entry; `recurse` is `Process`. -/
def Call.processEntry (recurse : Str → Progress → Progress × Except Halt Unit) (entryPath : Str) (p : Progress) :
    Progress × Except Halt Unit :=
  match p.disk.status (makeReal c.env.cfg.sitepath entryPath) with
  | none => (p, .ok ())
  | some status =>
    if status.isDirectory then
      match recurse (join entryPath "*".toList) p with
      | (p, .error e) => (p, .error e)
      | (p, .ok ()) => ((removeDirectory c.env c.kernel entryPath p).1, .ok ())
    else ((Kernel.deleteFile c.env c.kernel entryPath p).1, .ok ())

/-- The loop of `Process`; `body` is called for each entry. -/
def Call.processLoop (body : Str → Progress → Progress × Except Halt Unit) (pathmask : Str) :
    Nat → GlobIterator → Progress → Progress × Except Halt Unit
  | 0, _, p => (p, .error (.glob .outOfFuel))
  | n + 1, it, p =>
    match current it.frames with
    | none => (p, .ok ())
    | some q =>
      match makeVirtual c.env.cfg.sitepath (text q) with
      | .error e => (p, .error (.thrown e))
      | .ok entry =>
        match body (join (dirname pathmask) entry) p with
        | (p, .error e) => (p, .error e)
        | (p, .ok ()) =>
          match it.next p.disk c.fuel with
          | .error stop => (p, .error (.glob stop))
          | .ok it => Call.processLoop body pathmask n it p

/-- `Process`; what is not deleted is only counted. -/
def Call.process : Nat → Str → Progress → Progress × Except Halt Unit
  | 0, _, p => (p, .error (.glob .outOfFuel))
  | n + 1, pathmask, p =>
    match c.globIterator p.disk pathmask with
    | .error (.thrown (.systemError _)) => (p, .ok ())
    | .error e => (p, .error e)
    | .ok it => c.processLoop (c.processEntry (Call.process n)) pathmask c.fuel it p

/-! ## The session -/

/-- `ParseArgs`. -/
def Call.recursive : Bool := toLowerCopy (c.arguments.headD []) == "-r".toList

def Call.patharg : Except Exn Str :=
  if c.recursive then
    if c.argStr.length < 2 then .error (.logicError "basic_string::substr")
    else .ok (trimCopy (c.argStr.drop 2))
  else .ok (trimCopy c.argStr)

/-- What `Execute` does once the command is confirmed, or need not be. -/
def Call.run (patharg : Str) (t : Disk) : Progress :=
  match pathFromUser c.env.cfg.sitepath t.realpath (text c.workDirectory) patharg with
  | .error _ => ⟨t, []⟩
  | .ok path => (c.process c.fuel path ⟨t, []⟩).1

/-- A command that has come to `ConfirmCommand`, or to where it would: a `SITE WIPE`, with the trees before and
after it, or a recursive `SITE CHMOD` or `SITE CHOWN`, which share the stored command. -/
inductive Event where
  | wipe (c : Call) (executed : Bool) (before : Disk) (after : Progress)
  | other (argStr : Str) (executed : Bool)

structure Session where
  disk : Disk
  confirmCommand : Str
  -- the last in front
  history : List Event

/-- `ClientImpl::ConfirmCommand`. -/
def Session.confirm (s : Session) (argStr : Str) : Bool × Session :=
  let command := compressWhitespaceCopy argStr
  if command ≠ s.confirmCommand then (false, { s with confirmCommand := command })
  else (true, { s with confirmCommand := [] })

def Session.wipe (s : Session) : Session :=
  match c.patharg with
  | .error _ => s
  | .ok patharg =>
    let (confirmed, s) := if c.recursive then s.confirm c.argStr else (true, s)
    let after := if confirmed then c.run patharg s.disk else ⟨s.disk, []⟩
    { s with disk := after.disk, history := .wipe c confirmed s.disk after :: s.history }

/-- `change` is what anybody else does to the tree. -/
inductive Input where
  | wipe (c : Call)
  | other (argStr : Str)
  | change (t : Disk)

def step (s : Session) : Input → Option Session
  | .wipe c => some (s.wipe c)
  | .other argStr =>
    let (confirmed, s) := s.confirm argStr
    some { s with history := .other argStr confirmed :: s.history }
  | .change t => some { s with disk := t }

def start (t : Disk) : Session := ⟨t, [], []⟩

/-! ## What is asked for -/

/-- The path that the argument stands for, its links not followed. -/
def Call.asked : Str :=
  unresolved c.env.cfg.sitepath (text c.workDirectory) (c.patharg.toOption.getD [])

/-- The mask: the links on the way to its last name are followed, and that name is not. -/
def Call.mask (t : Disk) : Str :=
  match t.place true (dirname c.asked) with
  | some d => join (text d) (basename c.asked)
  | none => c.asked

def Call.Matched (t : Disk) (q : List Seg) : Prop := Glob.Matches t (AbsPath.named (c.mask t)).segs false q

/-- At or below an entry that matches. -/
def Call.Region (t : Disk) (q : List Seg) : Prop := ∃ m, c.Matched t m ∧ m <+: q

/-- An entry whose own virtual path passed the check of `Delete`. -/
def Call.Passed (d : Deletion) : Prop :=
  ∃ v, d.path = c.site ++ v ∧ allowed c.env (c.kernel.sys d.found) .Delete (text v) = .ok ()

/-- The text of a command that has to be confirmed. -/
def Event.command : Event → Option Str
  | .wipe c _ _ _ => if c.recursive then some (compressWhitespaceCopy c.argStr) else none
  | .other argStr _ => some (compressWhitespaceCopy argStr)

def Event.executed : Event → Bool
  | .wipe _ executed _ _ => executed
  | .other _ executed => executed

/-- The last command that had to be confirmed. -/
def lastCommand (history : List Event) : Option Event := history.find? (·.command.isSome)

/-- The last command that had to be confirmed was the same one, and was not executed. -/
def Call.Confirmed (older : List Event) : Prop :=
  ∃ c' t p, lastCommand older = some (.wipe c' false t p) ∧
    compressWhitespaceCopy c'.argStr = compressWhitespaceCopy c.argStr

/-- Every entry that goes passed its check, and matches or is inside a directory that matches; the command was
confirmed if it was recursive, and was recursive if the entry was inside. -/
def Call.Wanted (older : List Event) (t : Disk) (p : Progress) : Prop :=
  ∀ q, (t.find q).isSome → p.disk.find q = none →
    (∃ d ∈ p.deletions, d.path = q ∧ c.Passed d) ∧ (c.recursive = true → c.Confirmed older) ∧
      (c.Matched t q ∨ c.recursive = true ∧ ∃ m, c.Matched t m ∧ t.IsDir m ∧ m <+: q ∧ m ≠ q)

def Rightful : List Event → Prop
  | [] => True
  | .other _ _ :: older => Rightful older
  | .wipe c _ before after :: older => c.Wanted older before after ∧ Rightful older

/-! ## Where nothing else is reached -/

/-- No link that leads anywhere. -/
def Stays (t : Disk) (q : List Seg) : Prop :=
  ∀ target, t.shapeAt q = some (.link target) → t.place true (text q) = none

def segStar : Seg := ⟨"*".toList, by decide⟩

/-- What keeps a command to what it was asked to delete. -/
structure Call.Safe (t : Disk) : Prop where
  /-- The argument is no link that leads anywhere. -/
  argument : ∀ q, t.place false c.asked = some q → Stays t q
  /-- No entry at or below a match is a link to a directory. -/
  links : ∀ q, c.Region t q → ∀ target, t.shapeAt q = some (.link target) →
    ∀ r, t.place true (text q) = some r → ¬ t.IsDir r
  /-- No entry of the name `*` in a directory at or below a match is a link that leads anywhere. -/
  star : ∀ q, c.Region t q → t.IsDir q → Stays t (q ++ [segStar])
  /-- The path of a directory at or below a match, taken as a mask, matches no other directory with entries. -/
  masks : ∀ q, c.Region t q → t.IsDir q → ∀ x s, (t.find (x ++ [s])).isSome → Fits (q.map Seg.val) x →
    c.Region t x
  /-- A directory that matches is empty, unless the command is recursive. -/
  empty : c.recursive = false → ∀ q, c.Matched t q → names t q = []
  /-- Who may delete a directory at or below a match may delete the entries with a dot in front of their names,
  also when others have gone. -/
  dots : ∀ v s, c.Region t (c.site ++ v) → s.val.head? = some '.' → ∀ t', t'.Within t →
    (t'.find (c.site ++ (v ++ [s]))).isSome → ¬ t'.IsDir (c.site ++ (v ++ [s])) →
    dirAllowed c.env (c.kernel.sys t') .Delete (text v) = .ok () →
    fileAllowed c.env (c.kernel.sys t') .Delete (text (v ++ [s])) = .ok ()

/-- The command is executed, if it is recursive as one that is confirmed. -/
def Session.runs (s : Session) : Prop := c.recursive = true → compressWhitespaceCopy c.argStr = s.confirmCommand

/-- The text is not blank, and it is not another command that would be confirmed. -/
def Session.Own (s : Session) : Prop :=
  compressWhitespaceCopy c.argStr ≠ [] ∧ ∀ argStr executed, lastCommand s.history ≠ some (.other argStr executed)

def Asked (s : Session) : Input → Prop
  | .wipe c => s.runs c → (c.recursive = true → s.Own c) ∧ c.Safe s.disk
  | .other _ => True
  | .change _ => True

/-! ## Masks -/

theorem join_text_left (path : Str) (v : List Seg) : join path (text v) = text v := by
  have hhead : (text v).head? = some '/' := str_head (absPath v)
  have hne : ¬ (text v).isEmpty = true := Bool.eq_false_iff.mp (str_isEmpty (absPath v))
  rw [join, if_neg hne, if_pos hhead, ite_self]

theorem resolve_text (v : List Seg) : resolve (text v) = text v := by
  rw [text_eq, resolve_named (str_head _), AbsPath.str, named_str]
  rfl

theorem named_text (m : List Seg) : (AbsPath.named (text m)).segs = m.map Seg.val := named_str (absPath m)

theorem dirname_text (M : List Seg) (b : Seg) : dirname (text (M ++ [b])) = text M := by
  have hgood : ∀ s ∈ M.map Seg.val ++ [b.val], GoodSeg s := by
    have := (absPath (M ++ [b])).good
    simpa [absPath] using this
  rw [text_of_ne_nil (by simp), List.map_append]
  exact dirname_glue hgood

theorem basename_text (M : List Seg) (b : Seg) : basename (text (M ++ [b])) = b.val := by
  have hgood : ∀ s ∈ M.map Seg.val ++ [b.val], GoodSeg s := by
    have := (absPath (M ++ [b])).good
    simpa [absPath] using this
  rw [text_of_ne_nil (by simp), List.map_append]
  exact basename_glue hgood

section Mask

variable {t : Disk} {site : List Seg}

section Resolved

variable {sitepath wd path : Str} {M d : List Seg} {b : Seg}
  (happend : append sitepath (resolve (join wd path)) = text (M ++ [b]))

include happend

/-- A name in a directory that is there, which leads nowhere else. -/
theorem makeRealPath_name (hdir : t.place true (text M) = some d)
    (hlast : ∀ r, t.place true (text (M ++ [b])) = some r → r = d ++ [b]) :
    makeRealPath sitepath t.realpath wd path = text (d ++ [b]) := by
  simp only [makeRealPath, happend, Disk.realpath]
  cases hplace : t.place true (text (M ++ [b])) with
  | some r => simp only [Option.map_some, hlast r hplace]
  | none => simp only [Option.map_none, dirname_text, basename_text, hdir, Option.map_some, join_text]

theorem makeRealPath_nowhere (hdir : t.place true (text M) = none) :
    makeRealPath sitepath t.realpath wd path = text (M ++ [b]) := by
  have hnone : t.place true (text (M ++ [b])) = none := by rw [place_child, hdir, Option.bind_none]
  simp only [makeRealPath, happend, Disk.realpath, hnone, Option.map_none, dirname_text, hdir]

end Resolved

/-- A path stands for itself where no link is on it. -/
theorem makeRealPath_self (hsite : site ≠ []) (wd : Str) {v M : List Seg} {b : Seg} (hv : site ++ v = M ++ [b])
    (hdir : ∀ d, t.place true (text M) = some d → d = M)
    (hlast : ∀ r, t.place true (text (M ++ [b])) = some r → r = M ++ [b]) :
    makeRealPath (text site) t.realpath wd (text v) = text (site ++ v) := by
  have happend : append (text site) (resolve (join wd (text v))) = text (M ++ [b]) := by
    rw [join_text_left, resolve_text, ← hv]
    exact makeReal_text hsite v
  rw [hv]
  cases hplace : t.place true (text M) with
  | some d =>
    obtain rfl := hdir d hplace
    exact makeRealPath_name happend hplace hlast
  | none => exact makeRealPath_nowhere happend hplace

/-- The name behind a directory: what it leads to is itself, or it is a link. -/
theorem place_name {M d r : List Seg} {b : Seg} (hdir : t.place true (text M) = some d)
    (h : t.place true (text (M ++ [b])) = some r) :
    r = d ++ [b] ∨ t.place false (text (M ++ [b])) = some (d ++ [b]) ∧
      (∃ target, t.shapeAt (d ++ [b]) = some (.link target)) ∧ t.place true (text (d ++ [b])) = some r := by
  have hagain : t.place true (text (d ++ [b])) = some r := by
    rw [place_child, hdir] at h
    rw [place_child, place_again hdir, h]
  rw [place_child, hdir, Option.bind_some] at h
  rw [place_child, hdir, Option.bind_some]
  split at h
  · rename_i hd
    rw [if_pos hd]
    rcases walk_follow h with hr | ⟨hwalk, hlink⟩
    · exact .inl hr
    · exact .inr ⟨hwalk, hlink, hagain⟩
  · cases h

end Mask

section Command

variable {c} {t₀ : Disk}

/-- The mask that the user asked for is the one that the command starts with. -/
theorem mask_text (hsafe : c.Safe t₀) : ∃ m, c.mask t₀ = text m ∧
    (∀ patharg, c.patharg = .ok patharg →
      makeRealPath c.env.cfg.sitepath t₀.realpath (text c.workDirectory) patharg = text m) ∧
    ∀ v, m = c.site ++ v →
      makeRealPath c.env.cfg.sitepath t₀.realpath (text c.workDirectory) (text v) = text m := by
  obtain ⟨w, hw⟩ := unresolved_text c.nonroot c.workDirectory (c.patharg.toOption.getD [])
  obtain ⟨M, b, hM⟩ : ∃ M b, c.site ++ w = M ++ [b] := by
    rcases List.eq_nil_or_concat (c.site ++ w) with hnil | ⟨M, b, hM⟩
    · exact absurd (List.append_eq_nil_iff.mp hnil).1 c.nonroot
    · exact ⟨M, b, by rw [hM, List.concat_eq_append]⟩
  rw [← c.sitepath, hM] at hw
  have hasked : c.asked = text (M ++ [b]) := hw
  have happend : ∀ patharg, c.patharg = .ok patharg →
      append c.env.cfg.sitepath (resolve (join (text c.workDirectory) patharg)) = text (M ++ [b]) := by
    intro patharg hpatharg
    rw [← hw, hpatharg]
    rfl
  cases hdir : t₀.place true (text M) with
  | some d =>
    have hlast : ∀ r, t₀.place true (text (M ++ [b])) = some r → r = d ++ [b] := by
      intro r hr
      rcases place_name hdir hr with h | ⟨hname, ⟨target, hlink⟩, hagain⟩
      · exact h
      · rw [hsafe.argument _ (hasked ▸ hname) target hlink] at hagain
        cases hagain
    refine ⟨d ++ [b], ?_, fun patharg hpatharg => ?_, fun v hv => ?_⟩
    · simp only [Call.mask, hasked, dirname_text, basename_text, hdir, join_text]
    · exact makeRealPath_name (happend patharg hpatharg) hdir hlast
    · rw [c.sitepath, hv]
      refine makeRealPath_self c.nonroot _ hv.symm (fun r hr => ?_) fun r hr => ?_
      · exact Option.some.inj (hr.symm.trans (place_again hdir))
      · rw [place_child, place_again hdir, ← hdir, ← place_child] at hr
        exact hlast r hr
  | none =>
    refine ⟨M ++ [b], ?_, fun patharg hpatharg => ?_, fun v hv => ?_⟩
    · simp only [Call.mask, hasked, dirname_text, hdir]
    · exact makeRealPath_nowhere (happend patharg hpatharg) hdir
    · rw [c.sitepath, hv]
      refine makeRealPath_self c.nonroot _ hv.symm (fun r hr => ?_) fun r hr => ?_
      · rw [hdir] at hr
        cases hr
      · rw [place_child, hdir] at hr
        cases hr

variable (hsafe : c.Safe t₀)

/-- A deletion at or below a match, of an entry that passed its check. -/
def Call.Right (c : Call) (t₀ : Disk) (d : Deletion) : Prop := c.Region t₀ d.path ∧ c.Passed d

theorem Call.Region.below {q r : List Seg} (h : c.Region t₀ q) (hpre : q <+: r) : c.Region t₀ r := by
  obtain ⟨m, hm, hq⟩ := h
  exact ⟨m, hm, hq.trans hpre⟩

theorem isDirectory_sys (kernel : Kernel) (t : Disk) {path : Str} {status : Fs.Status}
    (h : t.status path = some status) : (kernel.sys t).isDirectory path = status.isDirectory := by
  simp only [Sys.isDirectory, Kernel.sys, h]

theorem status_entry {t : Disk} {q : List Seg} {n : Node Seg Attr Str} (hn : t.find q = some n)
    {status : Fs.Status} (h : t.status (text q) = some status) :
    status = statusOf n ((t.place true (text q)).bind t.shapeAt) :=
  (Option.some.inj ((status_text hn).symm.trans h)).symm

theorem isDirectory_of_isDir {t : Disk} {q : List Seg} (hdir : t.IsDir q) {status : Fs.Status}
    (h : t.status (text q) = some status) : status.isDirectory = true := by
  obtain ⟨n, hn, hshape⟩ := find_of_shapeAt hdir
  rw [status_entry hn h]
  exact (isDir_status_iff.mpr hshape).1

theorem passed_dir {t : Disk} {v : List Seg} (hdir : t.IsDir (c.site ++ v))
    (h : dirAllowed c.env (c.kernel.sys t) .Delete (text v) = .ok ()) : c.Passed ⟨c.site ++ v, t⟩ := by
  refine ⟨v, rfl, ?_⟩
  obtain ⟨n, hn, -⟩ := find_of_shapeAt hdir
  rw [allowed, c.sitepath, makeReal_text c.nonroot, isDirectory_sys _ _ (status_text hn),
    isDirectory_of_isDir hdir (status_text hn), if_pos rfl, h]

theorem passed_file {t : Disk} {v : List Seg} {status : Fs.Status}
    (hstatus : t.status (text (c.site ++ v)) = some status) (hdir : status.isDirectory = false)
    (h : fileAllowed c.env (c.kernel.sys t) .Delete (text v) = .ok ()) : c.Passed ⟨c.site ++ v, t⟩ := by
  refine ⟨v, rfl, ?_⟩
  rw [allowed, c.sitepath, makeReal_text c.nonroot, isDirectory_sys _ _ hstatus, hdir,
    if_neg Bool.false_ne_true, h]

include hsafe

/-- What `Process` takes for a directory is one. -/
theorem isDir_of_region {t : Disk} (hwithin : t.Within t₀) {q : List Seg} (hregion : c.Region t₀ q)
    (hq : (t₀.find q).isSome) {status : Fs.Status} (hstatus : t.status (text q) = some status)
    (hdir : status.isDirectory = true) : t.IsDir q := by
  obtain ⟨n, hn⟩ : ∃ n, t.find q = some n := by
    rw [Disk.status] at hstatus
    obtain ⟨n, hn, -⟩ := Option.map_eq_some_iff.mp hstatus
    obtain ⟨r, hr, hfind⟩ := Option.bind_eq_some_iff.mp hn
    exact ⟨n, place_entry hwithin hq hr ▸ hfind⟩
  rw [status_entry hn hstatus, statusOf] at hdir
  cases hshape : n.shape with
  | leaf regular => simp [hshape] at hdir
  | dir => exact Option.map_eq_some_iff.mpr ⟨n, hn, hshape⟩
  | link target =>
    simp only [hshape, decide_eq_true_eq] at hdir
    obtain ⟨r, hr, hlinked⟩ := Option.bind_eq_some_iff.mp hdir
    have hlink : t.shapeAt q = some (.link target) := Option.map_eq_some_iff.mpr ⟨n, hn, hshape⟩
    exact absurd (hwithin.isDir hlinked)
      (hsafe.links q hregion target (hwithin.shapeAt hlink) r (walk_within hwithin maxSymLinks hr))

/-- The mask for what is in a directory stands for itself. -/
theorem makeRealPath_star {t : Disk} (hwithin : t.Within t₀) {v : List Seg} (hregion : c.Region t₀ (c.site ++ v))
    (hdir : t.IsDir (c.site ++ v)) :
    makeRealPath c.env.cfg.sitepath t.realpath (text c.workDirectory) (text (v ++ [segStar])) =
      text (c.site ++ (v ++ [segStar])) := by
  have hself : t.place true (text (c.site ++ v)) = some (c.site ++ v) := place_text hdir fun _ => dir_ne_link
  rw [c.sitepath]
  refine makeRealPath_self c.nonroot _ (List.append_assoc _ _ _).symm (fun r hr => ?_) fun r hr => ?_
  · exact Option.some.inj (hr.symm.trans hself)
  · rcases place_name hself hr with h | ⟨-, ⟨target, hlink⟩, hagain⟩
    · exact h
    · have hbefore := walk_within hwithin maxSymLinks hagain
      have hnone := hsafe.star _ hregion (hwithin.isDir hdir) target (hwithin.shapeAt hlink)
      cases hnone.symm.trans hbefore

theorem processEntry_accounted {recurse : Str → Progress → Progress × Except Halt Unit} {v : List Seg}
    (hregion : c.Region t₀ (c.site ++ v)) (hv : (t₀.find (c.site ++ v)).isSome)
    (hrecurse : ∀ p, p.disk.IsDir (c.site ++ v) → Accounted t₀ (c.Right t₀) p →
      Accounted t₀ (c.Right t₀) (recurse (text (v ++ [segStar])) p).1)
    {p : Progress} (h : Accounted t₀ (c.Right t₀) p) :
    Accounted t₀ (c.Right t₀) (c.processEntry recurse (text v) p).1 := by
  have hmask : join (text v) "*".toList = text (v ++ [segStar]) := join_text v segStar
  rw [Call.processEntry, c.sitepath, makeReal_text c.nonroot, hmask]
  cases hstatus : p.disk.status (text (c.site ++ v)) with
  | none => exact h
  | some status =>
    simp only
    by_cases hdirectory : status.isDirectory = true
    · have hdir := isDir_of_region hsafe h.within hregion hv hstatus hdirectory
      have hinner := hrecurse p hdir h
      rw [if_pos hdirectory]
      split
      · rename_i heq
        rw [heq] at hinner
        exact hinner
      · rename_i p' heq
        rw [heq] at hinner
        refine removeDirectory_accounted c.sitepath c.nonroot hinner (h.within.isDir hdir) fun hleft hallowed => ?_
        refine ⟨⟨hregion, passed_dir hleft hallowed⟩, fun s hdot hs hentry => ?_⟩
        obtain ⟨status', hstatus', hfile⟩ := hentry
        have hnot : ¬ p'.disk.IsDir (c.site ++ (v ++ [s])) := by
          intro hd
          rw [isDirectory_of_isDir hd hstatus'] at hfile
          cases hfile
        refine ⟨hregion.below ⟨[s], List.append_assoc _ _ _⟩, passed_file hstatus' hfile ?_⟩
        exact hsafe.dots v s hregion hdot p'.disk hinner.within hs hnot hallowed
    · rw [if_neg hdirectory]
      refine deleteFile_accounted c.sitepath c.nonroot h hv fun hallowed => ?_
      exact ⟨hregion, passed_file hstatus (Bool.not_eq_true _ ▸ hdirectory) hallowed⟩

omit hsafe in
theorem processLoop_accounted {body : Str → Progress → Progress × Except Halt Unit} {pathmask : Str}
    {tokens : List Str} (hmask : ∀ q, (t₀.find q).isSome → Fits tokens q → c.Region t₀ q)
    (hbody : ∀ v, c.Region t₀ (c.site ++ v) → (t₀.find (c.site ++ v)).isSome → ∀ p,
      Accounted t₀ (c.Right t₀) p → Accounted t₀ (c.Right t₀) (body (text v) p).1)
    (n : Nat) {it : GlobIterator} (hit : Tracks t₀ it) (htokens : it.pathTokens = tokens)
    (hcurrent : ∀ q, current it.frames = some q → (t₀.find q).isSome ∧ Fits tokens q)
    {p : Progress} (h : Accounted t₀ (c.Right t₀) p) :
    Accounted t₀ (c.Right t₀) (c.processLoop body pathmask n it p).1 := by
  induction n generalizing it p with
  | zero => exact h
  | succ n ih =>
    rw [Call.processLoop]
    split
    · exact h
    · rename_i q hq
      obtain ⟨hsome, hfits⟩ := hcurrent q hq
      split
      · exact h
      · rename_i entry hentry
        rw [c.sitepath] at hentry
        obtain ⟨v, rfl, rfl⟩ := makeVirtual_text_inv c.nonroot hentry
        rw [join_text_left]
        have hone := hbody v (hmask _ hsome hfits) hsome p h
        split
        · rename_i heq
          rw [heq] at hone
          exact hone
        · rename_i p' heq
          rw [heq] at hone
          split
          · exact hone
          · rename_i it' hnext
            obtain ⟨hit', htokens', hcurrent'⟩ := next_tracked hone.within c.fuel hit hnext
            rw [htokens] at htokens' hcurrent'
            exact ih hit' htokens' hcurrent' hone

omit hsafe in
theorem globIterator_ok {t : Disk} {v : List Seg}
    (hreal : makeRealPath c.env.cfg.sitepath t.realpath (text c.workDirectory) (text v) = text (c.site ++ v))
    {it : GlobIterator} (h : c.globIterator t (text v) = .ok it) :
    ∃ it₀ : GlobIterator, it₀.pathTokens = (c.site ++ v).map Seg.val ∧ it₀.recursive = false ∧
      it₀.openDirectory t c.fuel = .ok it := by
  have hsegs : (AbsPath.named (text (c.site ++ v))).segs ≠ [] := by
    rw [named_text]
    simp [c.nonroot]
  rw [Call.globIterator] at h
  split at h
  · cases h
  · rename_i real hpre
    have hpath : real = text (c.site ++ v) := by
      have hworld : (World.at (fun _ => c.kernel.sys t) 0).realpath = t.realpath := rfl
      rw [preFilter, hworld, hreal] at hpre
      split at hpre
      · cases hpre
      · cases hpre
      · exact (Except.ok.inj hpre).symm
    subst hpath
    simp only at h
    split at h
    · cases h
    · rename_i it' hopen
      obtain rfl : it' = it := Except.ok.inj h
      have htokens : tokenizePath [] (text (c.site ++ v)) = _ :=
        tokenizePath_absolute (str_head (absPath (c.site ++ v))) hsegs
      exact ⟨_, htokens.trans (named_text _), rfl, hopen⟩

/-- What the mask for a directory matches is below a match. -/
theorem mask_star {v : List Seg} (hregion : c.Region t₀ (c.site ++ v)) (hdir : t₀.IsDir (c.site ++ v)) :
    ∀ q, (t₀.find q).isSome → Fits ((c.site ++ (v ++ [segStar])).map Seg.val) q → c.Region t₀ q := by
  intro q hq hfits
  rw [← List.append_assoc, List.map_append] at hfits
  obtain ⟨x, s, rfl, hx⟩ := fits_concat_inv hfits
  exact (hsafe.masks _ hregion hdir x s hq hx).below (List.prefix_append x [s])

/-- What `Process` deletes is at or below an entry that matches, and passed its check. -/
theorem process_accounted (n : Nat) {v : List Seg} {p : Progress}
    (hreal : makeRealPath c.env.cfg.sitepath p.disk.realpath (text c.workDirectory) (text v) = text (c.site ++ v))
    (hmask : ∀ q, (t₀.find q).isSome → Fits ((c.site ++ v).map Seg.val) q → c.Region t₀ q)
    (h : Accounted t₀ (c.Right t₀) p) : Accounted t₀ (c.Right t₀) (c.process n (text v) p).1 := by
  induction n generalizing v p with
  | zero => exact h
  | succ n ih =>
    rw [Call.process]
    split
    · exact h
    · exact h
    · rename_i it hit
      obtain ⟨it₀, htokens, hflat, hopen⟩ := globIterator_ok hreal hit
      have hne : it₀.pathTokens ≠ [] := by
        rw [htokens]
        simp [c.nonroot]
      obtain ⟨htracks, htokens', hcurrent⟩ := openDirectory_tracked h.within hflat hne hopen
      rw [htokens] at htokens' hcurrent
      refine processLoop_accounted hmask (fun u hregion hu p' h' => ?_) c.fuel htracks htokens' hcurrent h
      refine processEntry_accounted hsafe hregion hu (fun p'' hdir h'' => ?_) h'
      exact ih (makeRealPath_star hsafe h''.within hregion hdir)
        (mask_star hsafe hregion (h''.within.isDir hdir)) h''

/-- What a command deletes is at or below an entry that matches, and passed its check. -/
theorem run_accounted {patharg : Str} (hpatharg : c.patharg = .ok patharg) :
    Accounted t₀ (c.Right t₀) (c.run patharg t₀) := by
  obtain ⟨m, hmask, hfirst, hagain⟩ := mask_text hsafe
  rw [Call.run]
  split
  · exact accounted_start
  · rename_i path hpath
    rw [pathFromUser, makeVirtualPath, hfirst patharg hpatharg, c.sitepath] at hpath
    obtain ⟨v, rfl, rfl⟩ := makeVirtual_text_inv c.nonroot hpath
    refine process_accounted hsafe c.fuel (hagain v rfl) (fun q hq hfits => ?_) accounted_start
    refine ⟨q, ⟨hq, ?_, .inl ?_⟩, List.prefix_rfl⟩
    · rw [hmask, named_text, hfits.length_eq, List.take_length]
      exact hfits
    · rw [hmask, named_text, hfits.length_eq]

/-- An entry that a command deletes is one that was asked for. -/
theorem run_wanted {older : List Event} (hconfirmed : c.recursive = true → c.Confirmed older) {patharg : Str}
    (hpatharg : c.patharg = .ok patharg) : c.Wanted older t₀ (c.run patharg t₀) := by
  intro q hq hgone
  obtain ⟨d, hd, rfl, ⟨m, hm, hpre⟩, hpassed⟩ := (run_accounted hsafe hpatharg).gone q hq hgone
  refine ⟨⟨d, hd, rfl, hpassed⟩, hconfirmed, ?_⟩
  by_cases heq : m = d.path
  · exact .inl (heq ▸ hm)
  · obtain ⟨r, hr⟩ := hpre
    have hne : r ≠ [] := by
      rintro rfl
      exact heq (by simpa using hr)
    have hdir : t₀.IsDir m := Tree.isDir_of_below hne (hr ▸ hq)
    refine .inr ⟨?_, m, hm, hdir, ⟨r, hr⟩, heq⟩
    by_contra hflat
    obtain ⟨s, r, rfl⟩ := List.exists_cons_of_ne_nil hne
    have hs : s ∈ names t₀ m := by
      refine mem_names.mpr (Tree.isSome_of_prefix ⟨r, ?_⟩ hq)
      rw [← hr, List.append_assoc, List.singleton_append]
    rw [hsafe.empty (Bool.not_eq_true _ ▸ hflat) m hm] at hs
    cases hs

end Command

/-! ## Sessions -/

/-- What is stored is the text of the last command that had to be confirmed and was not executed. -/
def Stored (s : Session) : Prop :=
  s.confirmCommand ≠ [] → ∃ e, lastCommand s.history = some e ∧ e.command = some s.confirmCommand ∧
    e.executed = false

/-- How a command leaves the session: rejected, stored to be confirmed, or executed. -/
inductive Wiped (c : Call) (s : Session) : Session → Prop where
  | rejected : Wiped c s s
  | stored (hrecursive : c.recursive = true) (hother : compressWhitespaceCopy c.argStr ≠ s.confirmCommand) :
      Wiped c s ⟨s.disk, compressWhitespaceCopy c.argStr, .wipe c false s.disk ⟨s.disk, []⟩ :: s.history⟩
  | executed (hruns : s.runs c) (patharg : Str) (hpatharg : c.patharg = .ok patharg) :
      Wiped c s ⟨(c.run patharg s.disk).disk, if c.recursive then [] else s.confirmCommand,
        .wipe c true s.disk (c.run patharg s.disk) :: s.history⟩

theorem confirm_same {s : Session} {argStr : Str} (h : compressWhitespaceCopy argStr = s.confirmCommand) :
    s.confirm argStr = (true, { s with confirmCommand := [] }) := if_neg (not_not.mpr h)

theorem confirm_other {s : Session} {argStr : Str} (h : compressWhitespaceCopy argStr ≠ s.confirmCommand) :
    s.confirm argStr = (false, { s with confirmCommand := compressWhitespaceCopy argStr }) := if_pos h

theorem wipe_wiped (s : Session) : Wiped c s (s.wipe c) := by
  unfold Session.wipe
  cases hpatharg : c.patharg with
  | error e => exact .rejected
  | ok patharg =>
    cases hrecursive : c.recursive with
    | false =>
      have hruns : s.runs c := fun h => by simp [hrecursive] at h
      have hexecuted := Wiped.executed hruns patharg hpatharg
      rw [hrecursive] at hexecuted
      exact hexecuted
    | true =>
      by_cases hsame : compressWhitespaceCopy c.argStr = s.confirmCommand
      · have hexecuted := Wiped.executed (fun _ => hsame) patharg hpatharg
        rw [hrecursive] at hexecuted
        simp only [if_true, confirm_same hsame]
        exact hexecuted
      · simp only [if_true, confirm_other hsame]
        exact .stored hrecursive hsame

variable {c}

theorem lastCommand_cons (e : Event) (older : List Event) :
    lastCommand (e :: older) = if e.command.isSome then some e else lastCommand older := by
  rw [lastCommand, List.find?_cons]
  cases e.command.isSome <;> rfl

/-- A command that is executed was confirmed. -/
theorem confirmed_of_stored {s : Session} (hstored : Stored s) (hown : s.Own c) (hruns : s.runs c)
    (hrecursive : c.recursive = true) : c.Confirmed s.history := by
  have htext := hruns hrecursive
  obtain ⟨e, he, hcommand, hexecuted⟩ := hstored (htext ▸ hown.1)
  cases e with
  | other argStr executed => exact absurd he (hown.2 argStr executed)
  | wipe c' executed t p =>
    cases hexecuted
    refine ⟨c', t, p, he, ?_⟩
    rw [Event.command] at hcommand
    split at hcommand
    · rw [htext]
      exact Option.some.inj hcommand
    · cases hcommand

theorem stored_cons {t : Disk} {command : Str} {e : Event} {older : List Event}
    (h : command ≠ [] → e.command = some command ∧ e.executed = false) : Stored ⟨t, command, e :: older⟩ := by
  intro hne
  obtain ⟨hcommand, hexecuted⟩ := h hne
  refine ⟨e, ?_, hcommand, hexecuted⟩
  rw [lastCommand_cons, hcommand, Option.isSome_some, if_pos rfl]

theorem wiped_stored {s s' : Session} (h : Stored s) (hwiped : Wiped c s s') : Stored s' := by
  cases hwiped with
  | rejected => exact h
  | stored hrecursive hother =>
    refine stored_cons fun _ => ⟨?_, rfl⟩
    rw [Event.command, if_pos hrecursive]
  | executed hruns patharg hpatharg =>
    cases hrecursive : c.recursive with
    | true => exact stored_cons fun hne => absurd rfl hne
    | false =>
      intro hne
      obtain ⟨e, he, hcommand⟩ := h hne
      refine ⟨e, ?_, hcommand⟩
      rw [lastCommand_cons, Event.command, hrecursive]
      exact he

theorem step_stored {s s' : Session} {i : Input} (h : Stored s) (hstep : step s i = some s') : Stored s' := by
  cases i with
  | wipe c =>
    cases hstep
    exact wiped_stored h (wipe_wiped c s)
  | other argStr =>
    by_cases hsame : compressWhitespaceCopy argStr = s.confirmCommand
    · simp only [step, confirm_same hsame, Option.some.injEq] at hstep
      subst hstep
      exact stored_cons fun hne => absurd rfl hne
    · simp only [step, confirm_other hsame, Option.some.injEq] at hstep
      subst hstep
      exact stored_cons fun _ => ⟨rfl, rfl⟩
  | change t =>
    cases hstep
    exact h

/-- Nothing goes where a tree stays as it is. -/
theorem wanted_same (older : List Event) (t : Disk) : c.Wanted older t ⟨t, []⟩ := by
  intro q hq hgone
  rw [show t.find q = none from hgone] at hq
  cases hq

/-- What a step deletes was asked for and confirmed. -/
theorem step_rightful {s s' : Session} {i : Input} (hstored : Stored s) (h : Rightful s.history)
    (hasked : Asked s i) (hstep : step s i = some s') : Rightful s'.history := by
  cases i with
  | wipe c =>
    cases hstep
    have hwiped := wipe_wiped c s
    generalize s.wipe c = s' at hwiped ⊢
    cases hwiped with
    | rejected => exact h
    | stored hrecursive hother => exact ⟨wanted_same s.history s.disk, h⟩
    | executed hruns patharg hpatharg =>
      obtain ⟨hown, hsafe⟩ := hasked hruns
      refine ⟨run_wanted hsafe (fun hrecursive => ?_) hpatharg, h⟩
      exact confirmed_of_stored hstored (hown hrecursive) hruns hrecursive
  | other argStr =>
    by_cases hsame : compressWhitespaceCopy argStr = s.confirmCommand
    · simp only [step, confirm_same hsame, Option.some.injEq] at hstep
      exact hstep ▸ h
    · simp only [step, confirm_other hsame, Option.some.injEq] at hstep
      exact hstep ▸ h
  | change t =>
    cases hstep
    exact h

/-- A session deletes only what was asked for and confirmed, where every command that is executed keeps to it:
its argument is no link, nothing that it comes to is a link to a directory or is reached through a name taken as
a pattern, directories that it matches are empty unless it is recursive, and no entry with a dot in front of its
name goes without the right to delete it. -/
theorem wipe_rightful (t : Disk) (l : List Input) (s : Session) (hasked : Meets step Asked (start t) l)
    (hrun : run step (start t) l = some s) : Rightful s.history := by
  have hinv := run_invariant_of_meets (P := fun s => Stored s ∧ Rightful s.history)
    (fun s i s' hs hi hstep => ⟨step_stored hs.1 hstep, step_rightful hs.1 hs.2 hi hstep⟩) l
    (s := start t) ⟨fun hne => absurd rfl hne, trivial⟩ hasked hrun
  exact hinv.2

/-! ## A directory with a file -/

/-- A user who may delete the paths that pass a test. -/
def exampleEnv (may : Str → Bool) : Env where
  cfg :=
    { sitepath := "/site".toList
      rights := fun _ => [⟨[], ACL.fromString "*".toList, false⟩]
      tlsControl := ACL.fromString "!*".toList
      maxOnline := ⟨10, 0⟩
      wildcardMatch := fun _ path => may path }
  user := { id := 1, name := "alice".toList }
  gidToName := fun _ => "site".toList

/-- The command `SITE WIPE` with some text, whose first word is `arg`. -/
def exampleCall (may : Str → Bool) (argStr arg : Str) : Call where
  env := exampleEnv may
  kernel := ⟨fun _ _ => none, fun _ => true, fun _ => true⟩
  site := [segSite]
  sitepath := rfl
  nonroot := List.cons_ne_nil segSite []
  workDirectory := []
  argStr := argStr
  arguments := [arg]
  fuel := 8

def everything (_ : Str) : Bool := true

theorem goodSeg_d : GoodSeg "d".toList := by decide

theorem goodSeg_x : GoodSeg ".x".toList := by decide

theorem goodSeg_l : GoodSeg "l".toList := by decide

def segD : Seg := ⟨"d".toList, goodSeg_d⟩

def segX : Seg := ⟨".x".toList, goodSeg_x⟩

def segL : Seg := ⟨"l".toList, goodSeg_l⟩

/-- A site with a directory `d`, and some entries beside it. -/
def siteWith (inside beside : List (Seg × Node Seg Attr Str)) : Disk :=
  ⟨⟨493, 4, 4096, 0, 0, 0⟩, [(segBin, .dir ⟨493, 2, 4096, 0, 0, 0⟩ []),
    (segSite, .dir ⟨493, 2, 4096, 0, 0, 0⟩ ((segD, .dir ⟨493, 2, 4096, 0, 0, 0⟩ inside) :: beside))]⟩

def exampleFile : Node Seg Attr Str := .leaf true ⟨420, 1, 1, 0, 0, 0⟩

def exampleDir : Disk := siteWith [(segA, exampleFile)] []

/-- There is a link to the directory beside it. -/
def exampleLink : Disk := siteWith [(segA, exampleFile)] [(segL, .link ⟨511, 1, 1, 0, 0, 0⟩ "d".toList)]

/-- The file in the directory has a dot in front of its name. -/
def exampleDot : Disk := siteWith [(segX, exampleFile)] []

/-- A recursive command for the directory. -/
def wipeD : Call := exampleCall everything "-r d".toList "-r".toList

/-- What is below a node is at or below one of its entries. -/
theorem entry_of_find {n : Node Seg Attr Str} {s : Seg} {q : List Seg} (h : (n.find (s :: q)).isSome) :
    ∃ e ∈ n.entries, e.1 = s ∧ (e.2.find q).isSome := by
  obtain ⟨m, hm⟩ := Option.isSome_iff_exists.mp h
  obtain ⟨child, hchild, hfind⟩ := Option.bind_eq_some_iff.mp hm
  obtain ⟨e, he, rfl⟩ := Option.map_eq_some_iff.mp hchild
  refine ⟨e, List.mem_of_find?_eq_some he, by simpa using List.find?_some he, ?_⟩
  rw [hfind]
  rfl

theorem exampleDir_nodes {q : List Seg} (h : (exampleDir.find q).isSome) :
    q = [] ∨ q = [segBin] ∨ q = [segSite] ∨ q = [segSite, segD] ∨ q = [segSite, segD, segA] := by
  cases q with
  | nil => exact .inl rfl
  | cons s q =>
    obtain ⟨e₁, he₁, rfl, h₁⟩ := entry_of_find h
    simp only [exampleDir, siteWith, Tree.root, Node.entries, List.mem_cons, List.not_mem_nil, or_false] at he₁
    cases q with
    | nil => rcases he₁ with rfl | rfl <;> simp
    | cons s q =>
      obtain ⟨e₂, he₂, rfl, h₂⟩ := entry_of_find h₁
      rcases he₁ with rfl | rfl
      · cases he₂
      · obtain rfl := List.mem_singleton.mp he₂
        cases q with
        | nil => simp
        | cons s q =>
          obtain ⟨e₃, he₃, rfl, h₃⟩ := entry_of_find h₂
          obtain rfl := List.mem_singleton.mp he₃
          cases q with
          | nil => simp
          | cons s q =>
            obtain ⟨e₄, he₄, -⟩ := entry_of_find h₃
            cases he₄

theorem exampleDir_free : exampleDir.LinkFree := Tree.linkFree_of_root _ (by decide)

theorem wipeD_tokens : (AbsPath.named (wipeD.mask exampleDir)).segs = ["site".toList, "d".toList] := by decide

theorem wipeD_matched {q : List Seg} (h : wipeD.Matched exampleDir q) : q = [segSite, segD] := by
  have hlength := h.depth.resolve_right Bool.false_ne_true
  have hsegs := h.segs
  rw [wipeD_tokens] at hlength hsegs
  rcases exampleDir_nodes h.isSome with rfl | rfl | rfl | rfl | rfl
  · cases hlength
  · cases hlength
  · cases hlength
  · rfl
  · cases hlength

/-- A command for a directory without links, patterns and names with a dot in front keeps to it. -/
theorem wipeD_safe : wipeD.Safe exampleDir where
  argument := fun q _ target h => absurd h (exampleDir_free q target)
  links := fun q _ target h => absurd h (exampleDir_free q target)
  star := fun q _ _ target h => absurd h (exampleDir_free (q ++ [segStar]) target)
  masks := by
    rintro q ⟨m, hm, hpre⟩ hdir x s hx hfits
    have hq : q = [segSite, segD] := by
      obtain rfl := wipeD_matched hm
      rcases exampleDir_nodes (Tree.isSome_of_shapeAt hdir) with rfl | rfl | rfl | rfl | rfl
      · cases hpre.length_le
      · exact absurd hpre.length_le (by decide)
      · exact absurd hpre.length_le (by decide)
      · rfl
      · cases hdir
    have hx' : x = [segSite, segD] := by
      have hlength := hfits.length_eq
      rw [hq] at hlength
      rcases exampleDir_nodes (Tree.isSome_of_prefix (List.prefix_append x [s]) hx) with
        rfl | rfl | rfl | rfl | rfl
      · cases hlength
      · cases hlength
      · cases hlength
      · rfl
      · cases hlength
    rw [hx', ← hq]
    exact ⟨m, hm, hpre⟩
  empty := fun h => nomatch h
  dots := by
    intro v s _ hdot t' hwithin hs
    have hlast : (wipeD.site ++ (v ++ [s])).getLast? = some s := by simp
    rcases exampleDir_nodes (hwithin.isSome hs) with h | h | h | h | h
    · rw [h] at hlast
      cases hlast
    all_goals
      rw [h] at hlast
      cases hlast
      exact absurd hdot (by decide)

/-- Commands for what matches `l*`, and by a user who may delete no file with a dot in its path. -/
def wipeL : Call := exampleCall everything "-r l*".toList "-r".toList

def wipeDotless : Call := exampleCall (fun path => !path.contains '.') "-r d".toList "-r".toList

theorem wipeL_tokens : (AbsPath.named (wipeL.mask exampleLink)).segs = ["site".toList, "l*".toList] := by decide

/-- The file in the directory was deleted against the check. -/
theorem wipeDotless_unchecked : (wipeDotless.run "d".toList exampleDot).deletions.all (fun d =>
    decide (d.path ≠ [segSite, segD, segX]) ||
      !(allowed wipeDotless.env (wipeDotless.kernel.sys d.found) .Delete (text [segD, segX])).isOk) = true := rfl

/-- A file goes with its directory though the command is not recursive; what a link leads to is emptied; a file
goes that the user may not delete. -/
theorem wipe_unasked :
    (∃ s, run step (start exampleDir) [.wipe (exampleCall everything "d".toList "d".toList)] = some s ∧
      ¬ Rightful s.history) ∧
    (∃ s, run step (start exampleLink) [.wipe wipeL, .wipe wipeL] = some s ∧ ¬ Rightful s.history) ∧
    ∃ s, run step (start exampleDot) [.wipe wipeDotless, .wipe wipeDotless] = some s ∧ ¬ Rightful s.history := by
  refine ⟨⟨_, rfl, fun h => ?_⟩, ⟨_, rfl, fun h => ?_⟩, ⟨_, rfl, fun h => ?_⟩⟩
  · obtain ⟨-, -, hmatched | ⟨hrecursive, -⟩⟩ := h.1 [segSite, segD, segA] rfl rfl
    · cases hmatched.depth.resolve_right Bool.false_ne_true
    · cases hrecursive
  · have hwanted := h.1 [segSite, segD, segA] rfl (Option.isNone_iff_eq_none.mp (by decide +kernel))
    obtain ⟨-, -, hmatched | ⟨-, m, hm, -, hpre, -⟩⟩ := hwanted
    · cases hmatched.depth.resolve_right Bool.false_ne_true
    · -- the directory is no match
      have hmatched : wipeL.Matched exampleLink m := hm
      have hlength := hmatched.depth.resolve_right Bool.false_ne_true
      have hsegs := hmatched.segs
      rw [wipeL_tokens] at hlength hsegs
      rw [List.prefix_iff_eq_take.mp hpre, hlength] at hsegs
      revert hsegs
      decide
  · obtain ⟨⟨d, hd, hpath, v, hv, hallowed⟩, -⟩ := h.1 [segSite, segD, segX] rfl rfl
    have hpaths : [segSite] ++ [segD, segX] = [segSite] ++ v := hpath.symm.trans hv
    obtain rfl : [segD, segX] = v := List.append_cancel_left hpaths
    have hnot := List.all_eq_true.mp wipeDotless_unchecked d hd
    rw [hpath, hallowed] at hnot
    cases hnot

theorem wipeD_asked : Meets step Asked (start exampleDir) [.wipe wipeD, .wipe wipeD] := by
  refine ⟨fun hruns => absurd (hruns rfl) (by decide), fun s hs => ⟨fun _ => ?_, fun _ _ => trivial⟩⟩
  cases hs
  exact ⟨fun _ => ⟨by decide, fun argStr executed h => nomatch h⟩, wipeD_safe⟩

/-- The directory goes, and the file in it, when the command is repeated. -/
theorem wipe_rightful_repeated : ∃ s, run step (start exampleDir) [.wipe wipeD, .wipe wipeD] = some s ∧
    s.disk.find [segSite, segD] = none ∧ Rightful s.history :=
  ⟨_, rfl, rfl, wipe_rightful exampleDir [.wipe wipeD, .wipe wipeD] _ wipeD_asked rfl⟩

end Wipe
end Cmd
end Ebftpd
