import Ebftpd.Acl.Acl

/-!
# Ebftpd.Cfg.Config

The settings of `cfg/setting.hpp`, `cfg/section.hpp` and `cfg/config.hpp` that the modelled code
reads, as they are after parsing. `cfg::Get()` is one copy per thread; an ACL in it is an object
that remembers (`Acl.Acl`).

`WildcardMatch` is `fnmatch(3)`; it comes with the configuration, so that whatever matches paths
against settings takes one argument.
-/

namespace Ebftpd
namespace Cfg

open Util

structure Alias where
  name : Str
  path : Str

/-- `Right`: a path mask, possibly with `[:username:]` or `[:groupname:]` in it, and an ACL. -/
structure Right where
  path : Str
  acl : Acl.ACL
  specialVar : Bool

structure Privpath where
  path : Str
  acl : Acl.ACL

structure HiddenFiles where
  path : Str
  masks : List Str

structure Creditloss where
  path : Str
  ratio : Int
  acl : Acl.ACL

structure Creditcheck where
  path : Str
  ratio : Int
  acl : Acl.ACL

/-- `NukeStyle::Action`. -/
inductive NukeAction where
  | DeleteAll | KeepDir | Keep
  deriving DecidableEq

theorem defaultPenalty_bounds : llongMin ≤ 1048576 ∧ 1048576 ≤ llongMax := by decide

/-- `NukeStyle`, whose sizes are what `ParseSize` returned. -/
structure NukeStyle where
  format : Str := "NUKED-%N".toList
  action : NukeAction := .Keep
  emptyKBytes : Int := 1024
  emptyPenalty : Int := 1048576
  emptyPenalty_bounds : llongMin ≤ emptyPenalty ∧ emptyPenalty ≤ llongMax := by
    exact Ebftpd.Cfg.defaultPenalty_bounds

structure Section where
  name : Str
  paths : List Str := []
  separateCredits : Bool := false
  ratio : Int := -1

structure MaxUsers where
  users : Int
  exemptUsers : Int

/-- The lists of `Right`s of the configuration, each under the name of its setting. -/
inductive RightsOf where
  | Upload | Resumeown | Resume | Overwriteown | Overwrite | Makedir
  | Downloadown | Download | Renameown | Rename | Moveown | Move
  | Modifyown | Modify | Nuke | Deleteown | Delete
  | Hideinwho | Freefile | Nostats | Hideowner

structure Config where
  sitepath : Str
  aliases : List Alias := []
  cdpath : List Str := []
  privpath : List Privpath := []
  hiddenFiles : List HiddenFiles := []
  noretrieve : List Str := []
  rights : RightsOf → List Right := fun _ => []
  creditloss : List Creditloss := []
  creditcheck : List Creditcheck := []
  nukeStyle : NukeStyle := {}
  -- in kilobytes
  freeSpace : Int := 1048576
  -- the map of sections, in the order of their names
  sections : List Section := []
  commandACLs : List (Str × Acl.ACL) := []
  tlsControl : Acl.ACL
  maxOnline : MaxUsers
  -- `fnmatch(mask, text, 0) == 0`
  wildcardMatch : Str → Str → Bool

def Section.isMatch (wildcardMatch : Str → Str → Bool) (sec : Section) (path : Str) : Bool :=
  sec.paths.any (wildcardMatch · path)

def Config.sectionMatch (cfg : Config) (path : Str) (isDir : Bool) : Option Section :=
  if path.isEmpty then none
  else
    let path := if isDir && path.getLast? != some '/' then path ++ ['/'] else path
    cfg.sections.find? (·.isMatch cfg.wildcardMatch path)

end Cfg
end Ebftpd
