import Ebftpd.Acl.Acl
import Ebftpd.Cfg.Util

/-!
# Ebftpd.Cfg.Setting

Settings with a constructor that reads the words of a configuration line (`src/cfg/setting.cpp`):
the port ranges, the speed limits and the FXP permissions. Behind the name of the setting a line has
at least as many words as `ParameterCheck` of `src/cfg/config.cpp` asks for.

* `speedLimit_columns`, `allowFxp_columns`: which word of the line each member is read from.
-/

namespace Ebftpd
namespace Cfg

open Util

/-- What the constructor of a setting throws: `std::bad_cast`, or a `ConfigError`. -/
inductive SettingError where
  | badCast
  | config (message : String)

/-- `PortRange`, between the bounds that `Ports::Ports` checks. -/
structure PortRange where
  fromPort : Nat
  toPort : Nat
  fromPort_ge : 1024 ≤ fromPort
  fromPort_le : fromPort ≤ toPort
  toPort_le : toPort ≤ 65535

def PortRange.check (fromPort toPort : Int) : Except SettingError PortRange :=
  if hle : toPort < fromPort then .error (.config "To port lower than from port in port range.")
  else if h : toPort < 1024 ∨ fromPort < 1024 ∨ toPort > 65535 ∨ fromPort > 65535 then .error .badCast
  else .ok ⟨fromPort.toNat, toPort.toNat, by omega, by omega, by omega⟩

def portRange (token : Str) : Except SettingError PortRange :=
  let temp := split token "-".toList false
  if temp.length > 2 then .error (.config "Invalid port range.")
  else
    match strToInt (temp.headD []) with
    | none => .error .badCast
    | some fromPort =>
      match temp[1]?.elim (some fromPort) strToInt with
      | none => .error .badCast
      | some toPort => PortRange.check fromPort toPort

/-- `Ports::Ports`. -/
def ports (toks : List Str) : Except SettingError (List PortRange) := toks.mapM portRange

/-- `ParameterCheck` without a maximum. -/
def parameterCheck (opt : String) (toks : List Str) (minimum : Nat) : Except SettingError Unit :=
  if toks.length < minimum then .error (.config ("Wrong numer of parameters for " ++ opt)) else .ok ()

def join (toks : List Str) (delim : Str) : Str := delim.intercalate toks

def yesNoToBoolean (s : Str) : Option Bool :=
  let s := toLowerCopy s
  if s = "yes".toList then some true
  else if s = "no".toList then some false
  else none

structure SpeedLimit where
  path : Str
  downloads : Int
  uploads : Int
  acl : Acl.ACL

namespace SpeedLimit

/-- `Uploads()` returns the member `downloads`. -/
def uploadsOf (limit : SpeedLimit) : Int := limit.downloads

/-- `Downloads()` returns the member `uploads`. -/
def downloadsOf (limit : SpeedLimit) : Int := limit.uploads

end SpeedLimit

/-- `SpeedLimit::SpeedLimit` of the words of a line. -/
def speedLimit (opt : String) (toks : List Str) : Except SettingError SpeedLimit :=
  match parameterCheck opt toks 4 with
  | .error e => .error e
  | .ok () =>
    match parseSize (toks.getD 1 []), parseSize (toks.getD 2 []) with
    | some downloads, some uploads =>
      .ok ⟨toks.getD 0 [], downloads, uploads, Acl.ACL.fromString (join (toks.drop 3) " ".toList)⟩
    | _, _ => .error .badCast

structure AllowFxp where
  downloads : Bool
  uploads : Bool
  logging : Bool
  acl : Acl.ACL

/-- `AllowFxp::AllowFxp` of the words of a line. -/
def allowFxp (toks : List Str) : Except SettingError AllowFxp :=
  match parameterCheck "allow_fxp" toks 4 with
  | .error e => .error e
  | .ok () =>
    match yesNoToBoolean (toks.getD 0 []), yesNoToBoolean (toks.getD 1 []), yesNoToBoolean (toks.getD 2 []) with
    | some downloads, some uploads, some logging =>
      .ok ⟨downloads, uploads, logging, Acl.ACL.fromString (join (toks.drop 3) " ".toList)⟩
    | _, _, _ => .error .badCast

def defaultAllowFxp : AllowFxp := ⟨true, true, false, Acl.ACL.fromString "*".toList⟩

theorem parameterCheck_inv {opt : String} {toks : List Str} (h : parameterCheck opt toks 4 = .ok ()) :
    ∃ tok₁ tok₂ tok₃ rest, toks = tok₁ :: tok₂ :: tok₃ :: rest := by
  unfold parameterCheck at h
  split at h
  · cases h
  · rename_i hlen
    match toks, hlen with
    | tok₁ :: tok₂ :: tok₃ :: rest, _ => exact ⟨tok₁, tok₂, tok₃, rest, rfl⟩
    | [_, _], hlen => exact absurd (by simp) hlen
    | [_], hlen => exact absurd (by simp) hlen
    | [], hlen => exact absurd (by simp) hlen

/-- `maximum_speed <path mask> <down> <up> <acls>`, and `minimum_speed` alike. -/
theorem speedLimit_columns {opt : String} {toks : List Str} {limit : SpeedLimit}
    (h : speedLimit opt toks = .ok limit) :
    toks[0]? = some limit.path ∧ toks[1]?.bind parseSize = some limit.downloads ∧
      toks[2]?.bind parseSize = some limit.uploads := by
  unfold speedLimit at h
  split at h
  · cases h
  · rename_i hcheck
    obtain ⟨path, down, up, acl, rfl⟩ := parameterCheck_inv hcheck
    split at h
    · rename_i hdown hup
      cases h
      exact ⟨rfl, hdown, hup⟩
    · cases h

/-- `allow_fxp <down> <up> <logging> <acls>`. -/
theorem allowFxp_columns {toks : List Str} {af : AllowFxp} (h : allowFxp toks = .ok af) :
    toks[0]?.bind yesNoToBoolean = some af.downloads ∧ toks[1]?.bind yesNoToBoolean = some af.uploads ∧
      toks[2]?.bind yesNoToBoolean = some af.logging := by
  unfold allowFxp at h
  split at h
  · cases h
  · rename_i hcheck
    obtain ⟨down, up, logging, acl, rfl⟩ := parameterCheck_inv hcheck
    split at h
    · rename_i hdown hup hlogging
      cases h
      exact ⟨hdown, hup, hlogging⟩
    · cases h

end Cfg
end Ebftpd
