import Ebftpd.Acl.Misc

/-!
# Ebftpd.Stats.Util

The ratios at which an upload is credited and a download is charged (`src/stats/util.cpp`). That of
a download is never negative: the settings that could be are only used where they are not.
-/

namespace Ebftpd
namespace Stats

open Util Acl Acl.Path

variable (env : Env)

def uploadRatio (path : Str) (sec : Option Cfg.Section) : Int :=
  match sec.filter fun s => env.user.sectionRatio s.name ≥ 0 with
  | some s => env.user.sectionRatio s.name
  | none =>
    match (creditCheck env path).filter (·.ratio ≥ 0) with
    | some cc => cc.ratio
    | none =>
      match sec.filter (·.ratio ≥ 0) with
      | some s => s.ratio
      | none => env.user.defaultRatio

def downloadRatio (sys : Sys) (path : Str) (sec : Option Cfg.Section) : Int :=
  if (fileAllowed env sys .Freefile path).isOk then 0
  else if sec.any fun s => env.user.sectionRatio s.name == 0 then 0
  else
    match (creditLoss env path).filter (·.ratio ≥ 0) with
    | some cl => cl.ratio
    | none =>
      match sec.filter (·.ratio ≥ 0) with
      | some s => s.ratio
      | none => if env.user.defaultRatio = 0 then 0 else 1

theorem downloadRatio_nonneg (sys : Sys) (path : Str) (sec : Option Cfg.Section) :
    0 ≤ downloadRatio env sys path sec := by
  unfold downloadRatio
  split
  · exact le_refl 0
  · split
    · exact le_refl 0
    · split
      · rename_i h
        have := (Option.filter_eq_some_iff.mp h).2
        simpa using this
      · split
        · rename_i h
          have := (Option.filter_eq_some_iff.mp h).2
          simpa using this
        · split <;> decide

end Stats
end Ebftpd
