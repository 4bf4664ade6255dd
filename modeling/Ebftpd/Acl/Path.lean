import Mathlib.Data.List.Find
import Ebftpd.Acl.User
import Ebftpd.Cfg.Config
import Ebftpd.Fs.Path

/-!
# Ebftpd.Acl.Path

What a user may do to a path (`src/acl/path.cpp`). Every check goes through `InnerAllowed`: the
path must lie inside the home directory and not be private, and then the rights of the access type
decide. `DirAllowed` runs that check on the path with a slash behind it.

The ACLs of the configuration are asked as they stand and not updated: for one user that makes no
difference (`Acl.evaluate_again`).

* `insideHomeDir_str`, `insideHomeDir_slash`: on normalised paths the prefix test is a test on
  segments.
* `fileAllowed_below`, `dirAllowed_below`: where an allowed path lies.
* `privatePath_slash`: a directory that is not private in the form `DirAllowed` asks about is not
  private, unless an entry is written as exactly that form.
-/

namespace Ebftpd
namespace Acl
namespace Path

open Util Util.Path Lib Lib.Seg Cfg

inductive AccessType where
  | Upload | Resume | Overwrite | Makedir | Download | Rename | Move | Nuke | Delete | View
  | Hideinwho | Freefile | Nostats | Hideowner | Modify

/-- What `util::path::Status` tells about a path. -/
structure Status where
  isDirectory : Bool
  isExecutable : Bool

/-- The answers of the operating system at one moment. -/
structure Sys where
  realpath : Fs.Realpath
  -- `util::path::Status`, or the `errno` it throws
  status : Str → Except Errno Status
  -- the names in a directory, or the `errno` of opening it
  readdir : Str → Except Errno (List Str)
  -- the `user.ebftpd.uid` attribute, 0 where there is none
  ownerUID : Str → UserID

def Sys.isDirectory (sys : Sys) (path : Str) : Bool :=
  match sys.status path with
  | .ok stat => stat.isDirectory
  | .error _ => false

/-- The user a client works as, with the configuration of its thread. -/
structure Env where
  cfg : Config
  user : User
  gidToName : GroupID → Str

def Env.info (env : Env) : ACLInfo := env.user.aclInfo env.gidToName

/-- `boost::replace_all`: from left to right, `skip` being the rest of the last occurrence. -/
def replaceAllLoop (search fmt : Str) : Nat → Str → Str
  | _, [] => []
  | skip + 1, _ :: cs => replaceAllLoop search fmt skip cs
  | 0, c :: cs =>
    if search.isPrefixOf (c :: cs) then fmt ++ replaceAllLoop search fmt (search.length - 1) cs
    else c :: replaceAllLoop search fmt 0 cs

def replaceAll (input search fmt : Str) : Str := replaceAllLoop search fmt 0 input

variable (env : Env)

def hiddenFile (path : Str) : Bool :=
  let dirname := dirname path
  let dirname := if dirname.getLast? = some '/' then dirname else dirname ++ ['/']
  env.cfg.hiddenFiles.any fun hf =>
    env.cfg.wildcardMatch hf.path dirname && hf.masks.any (env.cfg.wildcardMatch · (basename path))

/-- The mask of a right with its special variables filled in. -/
def specialPath (right : Right) : Str :=
  let specialPath := replaceAll right.path "[:username:]".toList env.user.name
  let group := if env.user.primaryGid ≠ -1 then env.user.primaryGroup env.gidToName else []
  if group.isEmpty then specialPath else replaceAll specialPath "[:groupname:]".toList group

/-- `Evaluate`: the first right whose mask matches the path decides. -/
def evaluate : List Right → Str → Bool
  | [], _ => false
  | right :: rights, path =>
    if env.cfg.wildcardMatch (if right.specialVar then specialPath env right else right.path) path then
      (right.acl.evaluate env.info).1
    else evaluate rights path

/-- The answer of every `Allowed` that asks one list of rights. -/
def evaluateAllowed (rights : RightsOf) (path : Str) : Except Errno Unit :=
  if evaluate env (env.cfg.rights rights) path then .ok () else .error .EACCES

/-- The answer of every `Allowed` that asks one list for the owner and another for the rest. -/
def ownerAllowed (sys : Sys) (allowedOwner allowedOther : Str → Except Errno Unit) (path : Str) :
    Except Errno Unit :=
  if sys.ownerUID (Fs.makeReal env.cfg.sitepath path) = env.user.id ∧ (allowedOwner path).isOk then .ok ()
  else allowedOther path

def checkNoretrieve (path : Str) : Except Errno Unit :=
  if env.cfg.noretrieve.any (env.cfg.wildcardMatch · (basename path)) then .error .EACCES else .ok ()

/-- `AllowedOwner` and `AllowedOther` of `Traits<Download>`. -/
def downloadAllowed (rights : RightsOf) (path : Str) : Except Errno Unit :=
  if evaluate env (env.cfg.rights rights) path then checkNoretrieve env path else .error .EACCES

/-- `Traits<type>::Allowed`. -/
def allowedTraits (sys : Sys) (path : Str) : AccessType → Except Errno Unit
  | .Upload => evaluateAllowed env .Upload path
  | .Resume => ownerAllowed env sys (evaluateAllowed env .Resumeown) (evaluateAllowed env .Resume) path
  | .Overwrite =>
    ownerAllowed env sys (evaluateAllowed env .Overwriteown) (evaluateAllowed env .Overwrite) path
  | .Makedir => evaluateAllowed env .Makedir path
  | .Download => ownerAllowed env sys (downloadAllowed env .Downloadown) (downloadAllowed env .Download) path
  | .Rename => ownerAllowed env sys (evaluateAllowed env .Renameown) (evaluateAllowed env .Rename) path
  | .Move => ownerAllowed env sys (evaluateAllowed env .Moveown) (evaluateAllowed env .Move) path
  | .Modify => ownerAllowed env sys (evaluateAllowed env .Modifyown) (evaluateAllowed env .Modify) path
  | .Nuke => evaluateAllowed env .Nuke path
  | .Delete => ownerAllowed env sys (evaluateAllowed env .Deleteown) (evaluateAllowed env .Delete) path
  | .View => if hiddenFile env path then .error .ENOENT else .ok ()
  | .Hideinwho => evaluateAllowed env .Hideinwho path
  | .Freefile => evaluateAllowed env .Freefile path
  | .Nostats => evaluateAllowed env .Nostats path
  | .Hideowner => evaluateAllowed env .Hideowner path

/-- The first entry of `privpath` that the path starts with, as text, decides. -/
def privatePath (path : Str) : Bool :=
  match env.cfg.privpath.find? (·.path.isPrefixOf path) with
  | some pp => !(pp.acl.evaluate env.info).1
  | none => false

def insideHomeDir (path : Str) : Bool :=
  if env.user.homeDir.isEmpty then false
  else if env.user.homeDir.getLast? = some '/' then startsWith path env.user.homeDir
  else startsWith path (env.user.homeDir ++ ['/'])

def innerAllowed (sys : Sys) (type : AccessType) (path : Str) : Except Errno Unit :=
  if !insideHomeDir env path then .error .EACCES
  else if !insideHomeDir env path then .error .ENOENT
  else if privatePath env path then .error .ENOENT
  else allowedTraits env sys path type

def fileAllowed (sys : Sys) (type : AccessType) (path : Str) : Except Errno Unit :=
  innerAllowed env sys type path

def dirAllowed (sys : Sys) (type : AccessType) (path : Str) : Except Errno Unit :=
  if path.isEmpty then .error .EINVAL
  else if path.getLast? ≠ some '/' then innerAllowed env sys type (path ++ ['/'])
  else innerAllowed env sys type path

def allowed (sys : Sys) (type : AccessType) (path : Str) : Except Errno Unit :=
  if sys.isDirectory (Fs.makeReal env.cfg.sitepath path) then dirAllowed env sys type path
  else fileAllowed env sys type path

/-! ## Directories as textual prefixes -/

/-- The form in which `DirAllowed` checks a path. -/
def slashed (path : Str) : Str := if path.getLast? = some '/' then path else path ++ ['/']

theorem slashed_str (p : AbsPath) : slashed p.str = glue '/' p.segs ++ ['/'] := by
  by_cases h : p.segs = []
  · simp [slashed, AbsPath.str, h, rooted]
  · obtain ⟨t, c, hg, _, hc⟩ := glue_last p.good h
    simp [slashed, AbsPath.str, rooted_of_ne_nil h, hg, hc]

theorem slash_prefix_slashed {d p : AbsPath} :
    glue '/' d.segs ++ ['/'] <+: glue '/' p.segs ++ ['/'] ↔ d.Above p := by
  constructor
  · rintro ⟨r, hr⟩
    obtain ⟨hfree, hslash⟩ := glue_slash p
    have hglue : glue '/' (p.segs ++ [[]]) = glue '/' d.segs ++ '/' :: r := by
      rw [hslash, ← hr]
      simp
    obtain ⟨hpre, hne⟩ := prefix_of_glue_append d.sepFree hfree hglue
    rcases List.prefix_concat_iff.mp hpre with heq | hpre
    · exact absurd heq hne
    · exact hpre
  · rintro ⟨below, hbelow⟩
    rw [← hbelow, glue_append, List.append_assoc]
    refine (List.prefix_append_right_inj _).mpr ?_
    cases below with
    | nil => exact List.prefix_rfl
    | cons s below => exact ⟨_, rfl⟩

/-- With a slash behind it a directory other than the root is no prefix of its own path. -/
theorem slash_prefix_str {d p : AbsPath} :
    glue '/' d.segs ++ ['/'] <+: p.str ↔ d.Above p ∧ (d.segs = p.segs → d.segs = []) := by
  by_cases hp : p.segs = []
  · have hstr : p.str = glue '/' p.segs ++ ['/'] := by simp [AbsPath.str, hp, rooted]
    rw [hstr, slash_prefix_slashed]
    exact ⟨fun h => ⟨h, fun heq => heq.trans hp⟩, fun h => h.1⟩
  · rw [AbsPath.str, rooted_of_ne_nil hp]
    constructor
    · rintro ⟨r, hr⟩
      obtain ⟨hpre, hne⟩ := prefix_of_glue_append d.sepFree p.sepFree (r := r) (by simp [← hr])
      exact ⟨hpre, fun heq => absurd heq hne⟩
    · rintro ⟨⟨below, hbelow⟩, hown⟩
      cases below with
      | nil =>
        rw [List.append_nil] at hbelow
        exact absurd (hbelow ▸ hown hbelow) hp
      | cons s below =>
        rw [← hbelow, glue_append]
        exact (List.prefix_append_right_inj _).mpr ⟨_, rfl⟩

/-! ## Inside the home directory -/

section HomeDir

variable {env} {home : AbsPath} (hhome : env.user.homeDir = home.str)

include hhome

/-- The home directory with one slash behind it is the prefix `InsideHomeDir` tests for, also where
the home directory is the root. -/
theorem insideHomeDir_iff (path : Str) :
    insideHomeDir env path = true ↔ glue '/' home.segs ++ ['/'] <+: path := by
  simp only [insideHomeDir, hhome, str_isEmpty, startsWith, Bool.false_eq_true, if_false]
  by_cases h : home.segs = []
  · simp [AbsPath.str, h, rooted]
  · obtain ⟨t, c, hg, _, hc⟩ := glue_last home.good h
    have hlast : home.str.getLast? ≠ some '/' := by
      simp [AbsPath.str, rooted_of_ne_nil h, hg, hc]
    rw [if_neg hlast, AbsPath.str, rooted_of_ne_nil h, List.isPrefixOf_iff_prefix]

/-- A path without a slash behind it is inside only strictly below the home directory; the root is
inside the root. -/
theorem insideHomeDir_str {p : AbsPath} (h : insideHomeDir env p.str = true) :
    home.Above p ∧ (p.segs = home.segs → home.segs = []) := by
  obtain ⟨habove, hown⟩ := slash_prefix_str.mp ((insideHomeDir_iff hhome _).mp h)
  exact ⟨habove, fun heq => hown heq.symm⟩

/-- With a slash behind it the home directory itself is inside as well. -/
theorem insideHomeDir_slash {p : AbsPath} (h : insideHomeDir env (glue '/' p.segs ++ ['/']) = true) :
    home.Above p :=
  slash_prefix_slashed.mp ((insideHomeDir_iff hhome _).mp h)

end HomeDir

variable {env}

theorem innerAllowed_ok {sys : Sys} {type : AccessType} {path : Str}
    (h : innerAllowed env sys type path = .ok ()) :
    insideHomeDir env path = true ∧ privatePath env path = false ∧
      allowedTraits env sys path type = .ok () := by
  simp only [innerAllowed] at h
  split at h
  · cases h
  · split at h
    · cases h
    · rename_i hin hpriv
      exact ⟨by simpa using hin, by simpa using hpriv, h⟩

theorem dirAllowed_eq {sys : Sys} {type : AccessType} {path : Str} (hne : path ≠ []) :
    dirAllowed env sys type path = innerAllowed env sys type (slashed path) := by
  simp only [dirAllowed, slashed, List.isEmpty_eq_false_iff.mpr hne, Bool.false_eq_true, if_false]
  by_cases h : path.getLast? = some '/'
  · simp [h]
  · simp [h]

theorem fileAllowed_below {home p : AbsPath} (hhome : env.user.homeDir = home.str) {sys : Sys}
    {type : AccessType} (h : fileAllowed env sys type p.str = .ok ()) :
    home.Above p ∧ (p.segs = home.segs → home.segs = []) :=
  insideHomeDir_str hhome (innerAllowed_ok h).1

theorem dirAllowed_below {home p : AbsPath} (hhome : env.user.homeDir = home.str) {sys : Sys}
    {type : AccessType} (h : dirAllowed env sys type p.str = .ok ()) :
    home.Above p ∧ privatePath env (slashed p.str) = false := by
  rw [dirAllowed_eq (List.isEmpty_eq_false_iff.mp (str_isEmpty p))] at h
  obtain ⟨hin, hpriv, _⟩ := innerAllowed_ok h
  rw [slashed_str] at hin
  exact ⟨insideHomeDir_slash hhome hin, hpriv⟩

/-! ## Private paths -/

/-- Only an entry written as exactly the path and a slash can tell the two forms apart. -/
theorem privatePath_slash {path : Str} (hentry : ∀ pp ∈ env.cfg.privpath, pp.path ≠ path ++ ['/']) :
    privatePath env (path ++ ['/']) = privatePath env path := by
  have hfind : env.cfg.privpath.find? (·.path.isPrefixOf (path ++ ['/'])) =
      env.cfg.privpath.find? (·.path.isPrefixOf path) := by
    apply List.find?_congr
    intro pp hpp
    rw [Bool.eq_iff_iff, List.isPrefixOf_iff_prefix, List.isPrefixOf_iff_prefix,
      List.prefix_concat_iff]
    exact or_iff_right (hentry pp hpp)
  simp only [privatePath, hfind]

theorem privatePath_of_slashed {path : Str} (h : privatePath env (slashed path) = false)
    (hentry : ∀ pp ∈ env.cfg.privpath, pp.path ≠ path ++ ['/']) : privatePath env path = false := by
  unfold slashed at h
  split at h
  · exact h
  · rw [← privatePath_slash hentry]
    exact h

end Path
end Acl
end Ebftpd
