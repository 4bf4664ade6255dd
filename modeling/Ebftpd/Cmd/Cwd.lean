import Ebftpd.Fs.Directory
import Ebftpd.Lib.Run

/-!
# Ebftpd.Cmd.Cwd

The commands that move a client's work directory: `CWD` (`src/cmd/rfc/cwd.cpp`), `CDUP`
(`src/cmd/rfc/commands.cpp`) and the part of `PASS` that enters the site (`src/cmd/rfc/pass.cpp`).
The messages shown on the way are left out.

`CWD` tries the path itself, then an alias, then a match by the start of the name, then the search
path; only `ENOENT` leads on to the next of them. A session is a run of these commands from the
directory `PASS` left; what a command throws ends the session.

* `execute_confined`: a command leaves a confined work directory confined.
* `session_confined`: so does every session, and a file that may be accessed from it lies below
  the home directory.
-/

namespace Ebftpd
namespace Cmd

open Util Util.Path Lib Acl Acl.Path Fs

/-- What `CWD` and `CDUP` reply: code 250, with the directory an alias or a match led to, or 550. -/
inductive CwdReply where
  | successful
  | alias (found : Str)
  | matched (found : Str)
  | notOkay (arg : Str) (e : Errno)

variable (env : Env)

/-- The reply and the work directory after a command that changed it or failed to. -/
def cwdFinish (workDirectory : Str) (reply : Str → CwdReply) (arg : Str) :
    Except Errno Str → CwdReply × Str
  | .ok dir => (reply dir, dir)
  | .error e => (.notOkay arg e, workDirectory)

/-- `CWDCommand::Execute`. -/
def cwd (w : World) (workDirectory argStr : Str) : Except Exn (CwdReply × Str) :=
  match pathFromUser env.cfg.sitepath (w.at 0).realpath workDirectory argStr with
  | .error e => .error e
  | .ok path =>
    match changeDirectory env (w.at 1) path with
    | .error .ENOENT =>
      match changeAlias env (w.at 2) argStr with
      | .error .ENOENT =>
        match changeMatch env (w.sub 3) workDirectory path with
        | .error e => .error e
        | .ok (.error .ENOENT) =>
          match changeCdpath env (w.sub 4) workDirectory argStr with
          | .error e => .error e
          | .ok r => .ok (cwdFinish workDirectory .matched argStr r)
        | .ok r => .ok (cwdFinish workDirectory .matched argStr r)
      | r => .ok (cwdFinish workDirectory .alias argStr r)
    | r => .ok (cwdFinish workDirectory (fun _ => .successful) argStr r)

/-- `CDUPCommand::Execute`. -/
def cdup (w : World) (workDirectory : Str) : Except Exn (CwdReply × Str) :=
  match makeVirtualPath env.cfg.sitepath (w.at 0).realpath workDirectory "..".toList with
  | .error e => .error e
  | .ok virt =>
    .ok (cwdFinish workDirectory (fun _ => .successful) "..".toList
      (changeDirectory env (w.at 1) (resolve virt)))

/-- Where `PASS` puts a client: its start directory, else its home directory, else nowhere. -/
def enter (w : World) : Except Errno Str :=
  match changeDirectory env (w.at 0) env.user.startUpDir with
  | .ok dir => .ok dir
  | .error _ => changeDirectory env (w.at 1) env.user.homeDir

inductive CwdCommand where
  | CWD (argStr : Str) (w : World)
  | CDUP (w : World)

def CwdCommand.world : CwdCommand → World
  | .CWD _ w => w
  | .CDUP w => w

def CwdCommand.execute (workDirectory : Str) : CwdCommand → Except Exn (CwdReply × Str)
  | .CWD argStr w => cwd env w workDirectory argStr
  | .CDUP w => cdup env w workDirectory

/-- One command of a session. An exception here is not caught before it ends the client. -/
def cwdStep (workDirectory : Str) (c : CwdCommand) : Option Str :=
  match c.execute env workDirectory with
  | .ok (_, dir) => some dir
  | .error _ => none

variable {env}

theorem cwdFinish_confined {wd arg : Str} {reply : Str → CwdReply} {r : Except Errno Str}
    (hwd : Confined env wd) (hr : ∀ dir, r = .ok dir → Confined env dir) :
    Confined env (cwdFinish wd reply arg r).2 := by
  cases r with
  | ok dir => exact hr dir rfl
  | error e => exact hwd

section HomeDir

variable (hhome : Normalised env.user.homeDir)
  (halias : ∀ a ∈ env.cfg.aliases, Normalised a.path)

include hhome halias

theorem cwd_confined {w : World} (hw : w.Canonical) {wd argStr : Str} (hwd : Confined env wd)
    {r : CwdReply × Str} (h : cwd env w wd argStr = .ok r) : Confined env r.2 := by
  have hn := hwd.normalised
  simp only [cwd] at h
  split at h
  · cases h
  · rename_i path hpath
    have hp : Normalised path := makeVirtualPath_normalised (hw _) hn hpath
    split at h
    · split at h
      · split at h
        · cases h
        · split at h
          · cases h
          · rename_i hcd
            cases h
            exact cwdFinish_confined hwd fun dir hd =>
              changeCdpath_confined hhome (hw.sub 4) hn (hd ▸ hcd)
        · rename_i hm
          cases h
          exact cwdFinish_confined hwd fun dir hd =>
            changeMatch_confined hhome (hw.sub 3) hn (hd ▸ hm)
      · cases h
        exact cwdFinish_confined hwd fun dir hd => changeAlias_confined hhome halias hd
    · cases h
      exact cwdFinish_confined hwd fun dir hd => changeDirectory_confined hhome hp hd

omit halias in
theorem cdup_confined {w : World} (hw : w.Canonical) {wd : Str} (hwd : Confined env wd)
    {r : CwdReply × Str} (h : cdup env w wd = .ok r) : Confined env r.2 := by
  simp only [cdup] at h
  split at h
  · cases h
  · rename_i virt hvirt
    obtain ⟨p, rfl⟩ := makeVirtualPath_normalised (hw _) hwd.normalised hvirt
    cases h
    exact cwdFinish_confined hwd fun dir hd =>
      changeDirectory_confined hhome (resolve_normalised (str_head p)) hd

theorem execute_confined {c : CwdCommand} (hc : c.world.Canonical) {wd dir : Str}
    (hwd : Confined env wd) (h : cwdStep env wd c = some dir) : Confined env dir := by
  simp only [cwdStep] at h
  split at h
  · rename_i hr
    cases h
    cases c with
    | CWD argStr w => exact cwd_confined hhome halias hc hwd hr
    | CDUP w => exact cdup_confined hhome hc hwd hr
  · cases h

omit halias in
theorem enter_confined (hstart : Normalised env.user.startUpDir) {w : World} {dir : Str}
    (h : enter env w = .ok dir) : Confined env dir := by
  simp only [enter] at h
  split at h
  · rename_i hd
    cases h
    exact changeDirectory_confined hhome hstart hd
  · exact changeDirectory_confined hhome hhome h

end HomeDir

/-- From the directory `PASS` enters, every sequence of `CWD` and `CDUP` commands leaves the work
directory a normalised path that is the home directory or lies below it, segment by segment, and
that is not private; the exception is an entry of `privpath` written as the directory with a slash
behind it. A path from the user's text that any kind of file access is granted for lies strictly
below the home directory, or both are the root. -/
theorem session_confined {env : Env} (hhome : Normalised env.user.homeDir)
    (hstart : Normalised env.user.startUpDir)
    (halias : ∀ a ∈ env.cfg.aliases, Normalised a.path) :
    (∀ w start, enter env w = .ok start →
      ∀ cmds : List CwdCommand, (∀ c ∈ cmds, c.world.Canonical) →
      ∀ dir, run (cwdStep env) start cmds = some dir →
        Normalised dir ∧
        (∃ home p : AbsPath, env.user.homeDir = home.str ∧ dir = p.str ∧ home.Above p) ∧
        privatePath env (slashed dir) = false ∧
        ((∀ pp ∈ env.cfg.privpath, pp.path ≠ dir ++ ['/']) → privatePath env dir = false)) ∧
    (∀ (realpath : Realpath) sys type dir text path, realpath.Canonical → Normalised dir →
      pathFromUser env.cfg.sitepath realpath dir text = .ok path →
      fileAllowed env sys type path = .ok () →
        ∃ home p : AbsPath, env.user.homeDir = home.str ∧ path = p.str ∧ home.Above p ∧
          (p.segs = home.segs → home.segs = [])) := by
  constructor
  · intro w start hstart' cmds hcmds dir hrun
    have hstep : ∀ wd c wd', Confined env wd → c.world.Canonical →
        cwdStep env wd c = some wd' → Confined env wd' :=
      fun wd c wd' hwd hc h => execute_confined hhome halias hc hwd h
    have hconf : Confined env dir :=
      run_invariant_of_forall hstep cmds (enter_confined hhome hstart hstart') hcmds hrun
    exact ⟨hconf.normalised, hconf.below, hconf.notPrivate,
      privatePath_of_slashed hconf.notPrivate⟩
  · intro realpath sys type dir text path hreal hdir hpath hallowed
    obtain ⟨home, hhome⟩ := hhome
    obtain ⟨p, rfl⟩ := makeVirtualPath_normalised hreal hdir hpath
    exact ⟨home, p, hhome, rfl, fileAllowed_below hhome hallowed⟩

/-- A site of directories only: those of `dirs`, under `/site`. -/
def exampleSys (dirs : List Str) : Sys where
  realpath path := if dirs.contains path then some path else none
  status path := if dirs.contains path then .ok ⟨true, true⟩ else .error .ENOENT
  readdir _ := .ok []
  ownerUID _ := 0

def exampleEnv (home : Str) (aliases : List Cfg.Alias) (privpath : List Cfg.Privpath) : Env where
  cfg :=
    { sitepath := "/site".toList
      aliases := aliases
      privpath := privpath
      tlsControl := ACL.fromString "!*".toList
      maxOnline := ⟨10, 0⟩
      wildcardMatch := fun _ _ => false }
  user := { id := 1, name := "alice".toList, homeDir := home, startUpDir := home }
  gidToName := fun _ => []

/-- A session in `/home`: up is refused, the alias `pub` leads to `/home/pub`. -/
theorem session_home :
    let env := exampleEnv "/home".toList [⟨"pub".toList, "/home/pub".toList⟩] []
    let w : World := fun _ => exampleSys ["/site".toList, "/site/home".toList, "/site/home/pub".toList]
    let cmds := [CwdCommand.CDUP w, .CWD "PUB".toList w]
    run (cwdStep env) "/home".toList cmds = some "/home/pub".toList ∧
      Normalised "/home/pub".toList ∧ privatePath env "/home/pub".toList = false := by
  intro env w cmds
  have hw : w.Canonical := by
    intro l path dest h
    simp only [w, exampleSys] at h
    split at h
    · rename_i hmem
      cases h
      simp only [List.contains_eq_mem, List.mem_cons, List.not_mem_nil, or_false, decide_eq_true_eq] at hmem
      rcases hmem with rfl | rfl | rfl
      · exact normalised_of_segs ["site".toList] (by decide)
      · exact normalised_of_segs ["site".toList, "home".toList] (by decide)
      · exact normalised_of_segs ["site".toList, "home".toList, "pub".toList] (by decide)
    · cases h
  have hhome : Normalised "/home".toList := normalised_of_segs ["home".toList] (by decide)
  have hpub : Normalised "/home/pub".toList := normalised_of_segs ["home".toList, "pub".toList] (by decide)
  have halias : ∀ a ∈ env.cfg.aliases, Normalised a.path := by
    intro a ha
    simp only [env, exampleEnv, List.mem_singleton] at ha
    rw [ha]
    exact hpub
  have hrun : run (cwdStep env) "/home".toList cmds = some "/home/pub".toList := by decide
  have hcmds : ∀ c ∈ cmds, c.world.Canonical := by
    intro c hc
    simp only [cmds, List.mem_cons, List.not_mem_nil, or_false] at hc
    rcases hc with rfl | rfl
    · exact hw
    · exact hw
  have h := (@session_confined env hhome hhome halias).1 w "/home".toList (by decide) cmds
    hcmds "/home/pub".toList hrun
  exact ⟨hrun, h.1, h.2.2.2 (by intro pp hpp; cases hpp)⟩

/-- With `/` for a home directory, a file check admits the home directory itself. And with the
`privpath` entries `/a/` (open) and `/a` (closed), in this order, `CWD /a` succeeds although `/a` is
private. -/
theorem session_root_private :
    let sys := exampleSys ["/site".toList, "/site/a".toList]
    let root := exampleEnv "/".toList [] []
    let priv := exampleEnv "/".toList []
      [⟨"/a/".toList, ACL.fromString "*".toList⟩, ⟨"/a".toList, ACL.fromString "!*".toList⟩]
    (pathFromUser "/site".toList sys.realpath "/".toList "/".toList = .ok "/".toList ∧
      fileAllowed root sys .View "/".toList = .ok ()) ∧
    (enter priv (fun _ => sys) = .ok "/".toList ∧
      run (cwdStep priv) "/".toList [.CWD "/a".toList fun _ => sys] = some "/a".toList ∧
      privatePath priv "/a".toList = true) := by
  decide

end Cmd
end Ebftpd
