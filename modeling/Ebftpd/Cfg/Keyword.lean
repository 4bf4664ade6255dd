import Ebftpd.Acl.IPStrength
import Ebftpd.Acl.Path
import Ebftpd.Cfg.Setting
import Ebftpd.Fs.Mode
import Ebftpd.Lib.Positional

/-!
# Ebftpd.Cfg.Keyword

The settings as they are constructed from the words of a line (`src/cfg/setting.cpp`), and the keywords
of a line outside of a section, each with the number of words that `ParameterCheck` asks for
(`Config::ParseGlobal` of `src/cfg/config.cpp`). A constructor reads words by their positions; a position
behind the last word is a fault.

* `within_…`: how many words a constructor needs.
-/

namespace Ebftpd
namespace Cfg

open Util
open Lib Lib.Positional

/-- A constructor of a setting. -/
abbrev Toks := Positional Str SettingError

/-- What the word at `i` reads as, or `std::bad_cast`. -/
def column {α : Type} (i : Nat) (parse : Str → Option α) : Toks α := value .badCast i parse

/-- `StrToInt`, and `std::bad_cast` below the least value. -/
def numberFrom (least : Int) (tok : Str) : Option Int := (strToInt tok).filter (least ≤ ·)

/-- `acl::ACL(util::Join(toks, " "))`. -/
def aclOf (toks : List Str) : Acl.ACL := Acl.ACL.fromString (join toks " ".toList)

/-- What is not in the repository: which texts are regular expressions, and the durations that are made
of seconds. -/
structure Boost where
  isRegex : Str → Bool
  seconds : Int → Int
  totalSeconds : Int → Int

/-! ## Settings -/

structure AsciiDownloads where
  kBytes : Int
  masks : List Str

def AsciiDownloads.ofToks : Toks AsciiDownloads := do
  let tok ← word 0
  let kBytes := (parseSize tok).getD (-1)
  let masks ← rest 1
  return ⟨if kBytes = 0 then -1 else kBytes, masks⟩

structure SecureIp where
  strength : Acl.IPStrength
  acl : Acl.ACL

def SecureIp.ofToks : Toks SecureIp := do
  let numOctets ← column 0 (numberFrom 0)
  let isHostname ← column 1 yesNoToBoolean
  let hasIdent ← column 2 yesNoToBoolean
  let acls ← rest 3
  return ⟨⟨numOctets.toNat, isHostname, hasIdent⟩, aclOf acls⟩

structure PasswdStrength where
  upperCase : Nat
  lowerCase : Nat
  length : Nat
  digits : Nat
  others : Nat

def PasswdStrength.ofPassword (password : Str) : PasswdStrength where
  upperCase := password.countP Char.isUpper
  lowerCase := password.countP Char.isLower
  length := password.length
  digits := password.countP Char.isDigit
  others := password.countP fun ch => !ch.isDigit && !isAlpha ch && ch != '.'

structure SecurePass where
  strength : PasswdStrength
  acl : Acl.ACL

def SecurePass.ofToks : Toks SecurePass := do
  let strength := PasswdStrength.ofPassword (← word 0)
  let acls ← rest 1
  return ⟨strength, aclOf acls⟩

def SpeedLimit.ofToks : Toks SpeedLimit := do
  let path ← word 0
  let downloads ← column 1 parseSize
  let uploads ← column 2 parseSize
  let acls ← rest 3
  return ⟨path, downloads, uploads, aclOf acls⟩

structure SimXfers where
  maxDownloads : Int
  maxUploads : Int

def SimXfers.ofToks : Toks SimXfers := do
  let maxDownloads ← column 0 (numberFrom (-1))
  let maxUploads ← column 1 (numberFrom (-1))
  return ⟨maxDownloads, maxUploads⟩

def Ports.ofToks : Toks (List PortRange) := do
  let toks ← rest 0
  ofResult (ports toks)

def AllowFxp.ofToks : Toks AllowFxp := do
  let downloads ← column 0 yesNoToBoolean
  let uploads ← column 1 yesNoToBoolean
  let logging ← column 2 yesNoToBoolean
  let acls ← rest 3
  return ⟨downloads, uploads, logging, aclOf acls⟩

def Alias.ofToks : Toks Alias := do
  let name ← word 0
  let path ← word 1
  return ⟨toLowerCopy name, path⟩

/-- Whether a path has one of the variables in it. -/
def isSpecialVar (path : Str) : Bool :=
  decide ("[:username:]".toList <:+: path) || decide ("[:groupname:]".toList <:+: path)

def Right.ofToks : Toks Right := do
  let path ← word 0
  let acls ← rest 1
  return ⟨path, aclOf acls, isSpecialVar path⟩

structure PathFilter where
  regex : Str
  acl : Acl.ACL

def PathFilter.ofToks (boost : Boost) : Toks PathFilter := do
  let regex ← word 0
  let acls ← rest 1
  if boost.isRegex regex then return ⟨regex, aclOf acls⟩
  else refuse (.config "Invalid regular expression.")

def MaxUsers.ofToks : Toks MaxUsers := do
  let users ← column 0 (numberFrom 0)
  let exemptUsers ← column 1 (numberFrom 0)
  return ⟨users, exemptUsers⟩

structure ACLInt where
  arg : Int
  acl : Acl.ACL

def ACLInt.ofToks : Toks ACLInt := do
  let arg ← column 0 strToInt
  let acls ← rest 1
  return ⟨arg, aclOf acls⟩

/-- `Lslong`; one word leaves the recursion unset. -/
structure Lslong where
  options : Str
  maxRecursion : Option Int

def Lslong.ofToks : Toks Lslong := do
  let options ← word 0
  let options := if options.head? = some '-' then options.drop 1 else options
  match ← wordIfAny 1 with
  | none => return ⟨options, none⟩
  | some tok =>
    let maxRecursion ← ofOption .badCast (numberFrom 0 tok)
    return ⟨options, some maxRecursion⟩

def HiddenFiles.ofToks : Toks HiddenFiles := do
  let path ← word 0
  let masks ← rest 1
  return ⟨path, masks⟩

def Creditcheck.ofToks : Toks Creditcheck := do
  let path ← word 0
  let ratio ← column 1 (numberFrom 0)
  let acls ← rest 2
  return ⟨path, ratio, aclOf acls⟩

def Creditloss.ofToks : Toks Creditloss := do
  let path ← word 0
  let ratio ← column 1 (numberFrom 0)
  let acls ← rest 2
  return ⟨path, ratio, aclOf acls⟩

def nukeAction (tok : Str) : Option NukeAction :=
  let action := toLowerCopy tok
  if action = "deleteall".toList then some .DeleteAll
  else if action = "keepdir".toList then some .KeepDir
  else if action = "keep".toList then some .Keep
  else none

/-- A size, which is a `long long`. -/
def boundedSize (tok : Str) : Option { z : Int // llongMin ≤ z ∧ z ≤ llongMax } :=
  (parseSize tok).pmap (fun z h => ⟨z, h⟩) fun _ h => parseSize_bounds h

/-- A local variable `action` hides the member, which keeps what is in the memory: `fresh`. -/
def NukeStyle.ofToks (fresh : NukeAction) : Toks NukeStyle := do
  let format ← word 0
  let _ ← column 1 nukeAction
  let emptyKBytes ← column 2 parseSize
  let emptyPenalty ← column 3 boundedSize
  return {
    format := format
    action := fresh
    emptyKBytes := emptyKBytes
    emptyPenalty := emptyPenalty.1
    emptyPenalty_bounds := emptyPenalty.2 }

structure Msgpath where
  path : Str
  filepath : Str
  acl : Acl.ACL

/-- The ACL is made of all the words. -/
def Msgpath.ofToks : Toks Msgpath := do
  let path ← word 0
  let filepath ← word 1
  let toks ← rest 0
  return ⟨path, filepath, aclOf toks⟩

def Privpath.ofToks : Toks Privpath := do
  let path ← word 0
  let acls ← rest 1
  return ⟨path, aclOf acls⟩

namespace SiteCmd

/-- `SiteCmd::Type`. -/
inductive Kind where
  | Exec | Text | Alias

def kindOf (tok : Str) : Option Kind :=
  let typeStr := toUpperCopy tok
  if typeStr = "EXEC".toList then some .Exec
  else if typeStr = "TEXT".toList then some .Text
  else if typeStr = "ALIAS".toList then some .Alias
  else none

end SiteCmd

structure SiteCmd where
  command : Str
  syntaxText : Str
  kind : SiteCmd.Kind
  description : Str
  target : Str
  arguments : Str

/-- The first word of the syntax, in upper case, and the syntax with it. -/
def SiteCmd.commandOf (tok : Str) : Str × Str :=
  match split tok " ".toList true with
  | [] => ([], [])
  | command :: args => (toUpperCopy command, join (toUpperCopy command :: args) " ".toList)

/-- The target is brought to upper case before it is set. -/
def SiteCmd.ofToks : Toks SiteCmd := do
  let (command, syntaxText) := commandOf (← word 0)
  let description ← word 1
  let kind ← column 2 kindOf
  let target ← word 3
  let arguments ← wordOf 5 4
  return ⟨command, syntaxText, kind, description, target, arguments.getD []⟩

inductive CscriptType where
  | Pre | Post
  deriving DecidableEq

structure Cscript where
  command : Str
  type : CscriptType
  path : Str

def cscriptType (tok : Str) : Option CscriptType :=
  let when' := toLowerCopy tok
  if when' = "pre".toList then some .Pre
  else if when' = "post".toList then some .Post
  else none

def Cscript.ofToks : Toks Cscript := do
  let command ← word 0
  let type ← column 1 cscriptType
  let path ← word 2
  return ⟨toUpperCopy command, type, path⟩

/-- `IdleTimeout`, in durations. -/
structure IdleTimeout where
  maximum : Int
  minimum : Int
  timeout : Int

def IdleTimeout.check (boost : Boost) (t : IdleTimeout) : Except SettingError IdleTimeout :=
  if boost.totalSeconds t.timeout < 1 ∨ boost.totalSeconds t.minimum < 1 ∨ boost.totalSeconds t.maximum < 1 then
    .error .badCast
  else if t.minimum ≥ t.maximum then
    .error (.config "Mnimum must be smaller than maximum in idle_timeout")
  else if t.timeout < t.minimum ∨ t.timeout > t.maximum then
    .error (.config ("Default timeout must be larger than or equal to minimum " ++
      "and smaller than or equal to maximum in idle_timeout"))
  else .ok t

def IdleTimeout.ofToks (boost : Boost) : Toks IdleTimeout := do
  let maximum ← column 0 strToLLong
  let minimum ← column 1 strToLLong
  let timeout ← column 2 strToLLong
  ofResult (check boost ⟨boost.seconds maximum, boost.seconds minimum, boost.seconds timeout⟩)

structure CheckScript where
  path : Str
  mask : Str
  disabled : Bool

def CheckScript.ofToks : Toks CheckScript := do
  let path ← word 0
  let mask ← wordOf 2 1
  return ⟨path, mask.getD ['*'], decide (path = "none".toList)⟩

structure Log where
  name : Str
  console : Bool
  file : Bool
  database : Int

def Log.ofToks (name : Str) : Toks Log := do
  let console ← column 0 yesNoToBoolean
  let file ← column 1 yesNoToBoolean
  let tok ← wordIfAny 2
  let database ← ofOption .badCast ((tok.elim (some 0) strToLLong).filter (0 ≤ ·))
  return ⟨name, console, file, database⟩

structure TransferLog extends Log where
  uploads : Bool
  downloads : Bool

def TransferLog.ofToks (name : Str) : Toks TransferLog := do
  let log ← Log.ofToks name
  let uploads ← column 3 yesNoToBoolean
  let downloads ← column 4 yesNoToBoolean
  return ⟨log, uploads, downloads⟩

structure NukeMax where
  multiplier : Int
  percent : Int

def NukeMax.ofToks : Toks NukeMax := do
  let multiplier ← column 0 (numberFrom 0)
  let percent ← column 1 fun tok => (numberFrom 0 tok).filter (· ≤ 100)
  return ⟨multiplier, percent⟩

inductive EPSVFxp where
  | Allow | Deny | Force

def epsvFxp (tok : Str) : Except SettingError EPSVFxp :=
  let tok := toLowerCopy tok
  if tok = "allow".toList then .ok .Allow
  else if tok = "deny".toList then .ok .Deny
  else if tok = "force".toList then .ok .Force
  else .error (.config "epsv_fxp must be allow, deny or force")

inductive LogAddresses where
  | Never | Errors | Always

/-- `EnumFromString`, which compares with `strcasecmp`. -/
def logAddresses (tok : Str) : Option LogAddresses :=
  let tok := toLowerCopy (cStr tok)
  if tok = "never".toList then some .Never
  else if tok = "errors".toList then some .Errors
  else if tok = "always".toList then some .Always
  else none

/-- A host and a port of `db_host`. -/
def hostPair (tok : Str) : Option (Str × Int) :=
  match split tok ":".toList false with
  | [host, port] => ((strToInt port).filter fun port => 0 ≤ port ∧ port ≤ 65535).map (host, ·)
  | _ => none

/-- What a line stores. -/
inductive Setting where
  | text (value : Str)
  | texts (values : List Str)
  | number (value : Int)
  | yesNo (value : Bool)
  | acl (value : Acl.ACL)
  | hosts (value : List (Str × Int))
  | auth (login password : Str)
  | asciiDownloads (value : AsciiDownloads)
  | nukeMax (value : NukeMax)
  | log (value : Log)
  | transferLog (value : TransferLog)
  | speedLimit (value : SpeedLimit)
  | simXfers (value : SimXfers)
  | secureIp (value : SecureIp)
  | securePass (value : SecurePass)
  | ports (value : List PortRange)
  | allowFxp (value : AllowFxp)
  | alias (value : Alias)
  | right (value : Right)
  | pathFilter (value : PathFilter)
  | maxUsers (value : MaxUsers)
  | aclInt (value : ACLInt)
  | cscript (value : Cscript)
  | lslong (value : Lslong)
  | hiddenFiles (value : HiddenFiles)
  | creditcheck (value : Creditcheck)
  | creditloss (value : Creditloss)
  | nukeStyle (value : NukeStyle)
  | msgpath (value : Msgpath)
  | privpath (value : Privpath)
  | siteCmd (value : SiteCmd)
  | idleTimeout (value : IdleTimeout)
  | checkScript (value : CheckScript)
  | epsvFxp (value : EPSVFxp)
  | logAddresses (value : LogAddresses)
  | umask (value : Fs.Mode.ModeT)

/-! ## Keywords -/

/-- A keyword, the least and the greatest number of words behind it if they are counted, and what it
stores. -/
structure Keyword where
  name : Str
  parameters : Option (Nat × Option Nat)
  ofToks : Toks Setting

def exactly (n : Nat) : Option (Nat × Option Nat) := some (n, some n)

def atLeast (n : Nat) : Option (Nat × Option Nat) := some (n, none)

def accepts : Option (Nat × Option Nat) → Nat → Bool
  | none, _ => true
  | some (minimum, none), n => minimum ≤ n
  | some (minimum, some maximum), n => minimum ≤ n && n ≤ maximum

def wrongNumber (opt : Str) : SettingError :=
  .config ("Wrong numer of parameters for " ++ String.ofList opt)

/-- `ParameterCheck`, and then the constructor. -/
def Keyword.read (k : Keyword) : Toks Setting := checked (accepts k.parameters) (wrongNumber k.name) k.ofToks

def stores {α : Type} (f : α → Setting) (x : Toks α) : Toks Setting := do
  let value ← x
  return f value

def textKeywords : List String :=
  ["db_name", "db_replicaset", "sitepath", "pidfile", "tls_certificate", "tls_ciphers", "datapath", "banner",
   "sitename_long", "sitename_short", "login_prompt", "nat_addr"]

def textsKeywords : List String :=
  ["master", "bouncer_ip", "calc_crc", "xdupe", "valid_ip", "active_addr", "banned_users", "noretrieve",
   "pasv_addr", "cdpath", "event_path", "dupe_path", "index_path"]

/-- The least value with each. -/
def numberKeywords : List (String × Int) :=
  [("total_users", -1), ("max_sitecmd_lines", -1), ("maximum_ratio", 0), ("dir_size_depth", 0),
   ("log_lines", 0), ("data_buffer_size", 0)]

def yesNoKeywords : List String := ["dl_incomplete", "bouncer_only", "async_crc", "ident_lookup", "dns_lookup"]

/-- The name of each log, and the number of its words. -/
def logKeywords : List (String × String × Nat) :=
  [("security_log", "security", 3), ("database_log", "database", 2), ("event_log", "events", 3),
   ("debug_log", "debug", 3), ("error_log", "errors", 3), ("siteop_log", "siteop", 3)]

def rightKeywords : List String :=
  ["welcome_msg", "goodbye_msg", "delete", "deleteown", "overwrite", "overwriteown", "resume", "resumeown",
   "rename", "renameown", "move", "moveown", "makedir", "upload", "download", "downloadown", "modify",
   "modifyown", "nuke", "hideinwho", "freefile", "nostats", "hideowner", "show_diz"]

def speedKeywords : List String := ["maximum_speed", "minimum_speed"]

def aclIntKeywords : List String := ["max_ustats", "max_gstats"]

def checkKeywords : List String := ["pre_check", "pre_dir_check", "post_check"]

/-- Their words are not counted. -/
def tlsKeywords : List String := ["tls_control", "tls_listing", "tls_data", "tls_fxp"]

section Table

variable (boost : Boost) (fresh : NukeAction)

def misreadKeywords : List Keyword :=
  [⟨"ascii_downloads".toList, none, stores .asciiDownloads AsciiDownloads.ofToks⟩,
   ⟨"msg_path".toList, atLeast 1, stores .msgpath Msgpath.ofToks⟩,
   ⟨"nuke_style".toList, exactly 4, stores .nukeStyle (NukeStyle.ofToks fresh)⟩]

def ruleKeywords : List Keyword :=
  [⟨"secure_ip".toList, atLeast 4, stores .secureIp SecureIp.ofToks⟩,
   ⟨"creditcheck".toList, atLeast 3, stores .creditcheck Creditcheck.ofToks⟩,
   ⟨"creditloss".toList, atLeast 3, stores .creditloss Creditloss.ofToks⟩,
   ⟨"privpath".toList, atLeast 1, stores .privpath Privpath.ofToks⟩,
   ⟨"site_cmd".toList, some (4, some 5), stores .siteCmd SiteCmd.ofToks⟩]

def plainKeywords : List Keyword :=
  [⟨"db_host".toList, atLeast 1, stores .hosts (do ofOption .badCast ((← rest 0).mapM hostPair))⟩,
   ⟨"db_auth".toList, exactly 2, do return .auth (← word 0) (← word 1)⟩,
   ⟨"port".toList, exactly 1, stores .number (column 0 fun tok => (numberFrom 0 tok).filter (· ≤ 65535))⟩,
   ⟨"ascii_uploads".toList, none, stores .texts (rest 0)⟩,
   ⟨"free_space".toList, exactly 1, stores .number (column 0 parseSize)⟩,
   ⟨"nuke_max".toList, exactly 2, stores .nukeMax NukeMax.ofToks⟩,
   ⟨"transfer_log".toList, exactly 5, stores .transferLog (TransferLog.ofToks "transfer".toList)⟩,
   ⟨"idle_commands".toList, atLeast 1, stores (fun toks => .texts (toks.map toUpperCopy)) (rest 0)⟩,
   ⟨"sim_xfers".toList, exactly 2, stores .simXfers SimXfers.ofToks⟩,
   ⟨"secure_pass".toList, atLeast 2, stores .securePass SecurePass.ofToks⟩,
   ⟨"active_ports".toList, atLeast 1, stores .ports Ports.ofToks⟩,
   ⟨"pasv_ports".toList, none, stores .ports Ports.ofToks⟩,
   ⟨"allow_fxp".toList, atLeast 4, stores .allowFxp AllowFxp.ofToks⟩,
   ⟨"alias".toList, exactly 2, stores .alias Alias.ofToks⟩,
   ⟨"path_filter".toList, atLeast 2, stores .pathFilter (PathFilter.ofToks boost)⟩,
   ⟨"max_users".toList, exactly 2, stores .maxUsers MaxUsers.ofToks⟩,
   ⟨"cscript".toList, exactly 3, stores .cscript Cscript.ofToks⟩,
   ⟨"lslong".toList, exactly 2, stores .lslong Lslong.ofToks⟩,
   ⟨"hidden_files".toList, atLeast 2, stores .hiddenFiles HiddenFiles.ofToks⟩,
   ⟨"idle_timeout".toList, exactly 3, stores .idleTimeout (IdleTimeout.ofToks boost)⟩,
   ⟨"epsv_fxp".toList, exactly 1, stores .epsvFxp (do ofResult (epsvFxp (← word 0)))⟩,
   ⟨"log_addresses".toList, exactly 1, stores .logAddresses (column 0 logAddresses)⟩,
   ⟨"umask".toList, exactly 1, stores .umask (column 0 Fs.Mode.numericModeFromString)⟩]

def familyKeywords : List Keyword :=
  textKeywords.map (fun name => ⟨name.toList, exactly 1, stores .text (word 0)⟩) ++
  textsKeywords.map (fun name => ⟨name.toList, atLeast 1, stores .texts (rest 0)⟩) ++
  numberKeywords.map (fun (name, least) =>
    ⟨name.toList, exactly 1, stores .number (column 0 (numberFrom least))⟩) ++
  yesNoKeywords.map (fun name => ⟨name.toList, exactly 1, stores .yesNo (column 0 yesNoToBoolean)⟩) ++
  logKeywords.map (fun (name, log, n) => ⟨name.toList, exactly n, stores .log (Log.ofToks log.toList)⟩) ++
  aclIntKeywords.map (fun name => ⟨name.toList, atLeast 2, stores .aclInt ACLInt.ofToks⟩) ++
  checkKeywords.map (fun name => ⟨name.toList, some (1, some 2), stores .checkScript CheckScript.ofToks⟩) ++
  tlsKeywords.map (fun name => ⟨name.toList, none, stores (fun toks => .acl (aclOf toks)) (rest 0)⟩)

def rightRows : List Keyword :=
  rightKeywords.map fun name => ⟨name.toList, atLeast 2, stores .right Right.ofToks⟩

def speedRows : List Keyword :=
  speedKeywords.map fun name => ⟨name.toList, atLeast 4, stores .speedLimit SpeedLimit.ofToks⟩

/-- The keywords of `ParseGlobal`, but for those that look at what has been read before. -/
def keywords : List Keyword :=
  misreadKeywords fresh ++ ruleKeywords ++ rightRows ++ speedRows ++ plainKeywords boost ++ familyKeywords

end Table

/-! ## Columns -/

section Columns

variable {toks : List Str}

@[simp] theorem column_ok {α : Type} {i : Nat} {parse : Str → Option α} {a : α} :
    column i parse toks = .ok a ↔ toks[i]?.bind parse = some a := value_ok

theorem numberFrom_ge {least z : Int} {tok : Str} (h : numberFrom least tok = some z) : least ≤ z := by
  obtain ⟨-, hle⟩ := Option.filter_eq_some_iff.mp h
  simpa using hle

theorem secureIp_columns {value : SecureIp} (h : SecureIp.ofToks toks = .ok value) :
    toks[0]?.bind (numberFrom 0) = some (value.strength.numOctets : Int) ∧
      toks[1]?.bind yesNoToBoolean = some value.strength.isHostname ∧
      toks[2]?.bind yesNoToBoolean = some value.strength.hasIdent ∧ value.acl = aclOf (toks.drop 3) := by
  simp only [SecureIp.ofToks, bind_ok, column_ok, rest_ok, pure_ok] at h
  obtain ⟨numOctets, hoctets, isHostname, hhost, hasIdent, hident, acls, ⟨-, rfl⟩, rfl⟩ := h
  obtain ⟨tok, -, hnumber⟩ := Option.bind_eq_some_iff.mp hoctets
  have hnat : (numOctets.toNat : Int) = numOctets := Int.toNat_of_nonneg (numberFrom_ge hnumber)
  exact ⟨hoctets.trans (congrArg some hnat.symm), hhost, hident, rfl⟩

theorem speedLimit_read {value : SpeedLimit} (h : SpeedLimit.ofToks toks = .ok value) :
    toks[0]? = some value.path ∧ toks[1]?.bind parseSize = some value.downloads ∧
      toks[2]?.bind parseSize = some value.uploads ∧ value.acl = aclOf (toks.drop 3) := by
  simp only [SpeedLimit.ofToks, bind_ok, word_ok, column_ok, rest_ok, pure_ok] at h
  obtain ⟨path, hpath, downloads, hdown, uploads, hup, acls, ⟨-, rfl⟩, rfl⟩ := h
  exact ⟨hpath, hdown, hup, rfl⟩

theorem right_columns {value : Right} (h : Right.ofToks toks = .ok value) :
    toks[0]? = some value.path ∧ value.acl = aclOf (toks.drop 1) ∧ value.specialVar = isSpecialVar value.path := by
  simp only [Right.ofToks, bind_ok, word_ok, rest_ok, pure_ok] at h
  obtain ⟨path, hpath, acls, ⟨-, rfl⟩, rfl⟩ := h
  exact ⟨hpath, rfl, rfl⟩

theorem privpath_columns {value : Privpath} (h : Privpath.ofToks toks = .ok value) :
    toks[0]? = some value.path ∧ value.acl = aclOf (toks.drop 1) := by
  simp only [Privpath.ofToks, bind_ok, word_ok, rest_ok, pure_ok] at h
  obtain ⟨path, hpath, acls, ⟨-, rfl⟩, rfl⟩ := h
  exact ⟨hpath, rfl⟩

theorem creditcheck_columns {value : Creditcheck} (h : Creditcheck.ofToks toks = .ok value) :
    toks[0]? = some value.path ∧ toks[1]?.bind (numberFrom 0) = some value.ratio ∧
      value.acl = aclOf (toks.drop 2) := by
  simp only [Creditcheck.ofToks, bind_ok, word_ok, column_ok, rest_ok, pure_ok] at h
  obtain ⟨path, hpath, ratio, hratio, acls, ⟨-, rfl⟩, rfl⟩ := h
  exact ⟨hpath, hratio, rfl⟩

theorem creditloss_columns {value : Creditloss} (h : Creditloss.ofToks toks = .ok value) :
    toks[0]? = some value.path ∧ toks[1]?.bind (numberFrom 0) = some value.ratio ∧
      value.acl = aclOf (toks.drop 2) := by
  simp only [Creditloss.ofToks, bind_ok, word_ok, column_ok, rest_ok, pure_ok] at h
  obtain ⟨path, hpath, ratio, hratio, acls, ⟨-, rfl⟩, rfl⟩ := h
  exact ⟨hpath, hratio, rfl⟩

/-- The ACL is not that of the words behind the paths. -/
theorem msgpath_iff {value : Msgpath} : Msgpath.ofToks toks = .ok value ↔
    toks[0]? = some value.path ∧ toks[1]? = some value.filepath ∧ value.acl = aclOf toks := by
  simp only [Msgpath.ofToks, bind_ok, word_ok, rest_ok, pure_ok, Nat.zero_le, true_and, List.drop_zero]
  constructor
  · rintro ⟨path, hpath, filepath, hfile, _, rfl, rfl⟩
    exact ⟨hpath, hfile, rfl⟩
  · rintro ⟨hpath, hfile, hacl⟩
    exact ⟨_, hpath, _, hfile, _, rfl, by rw [← hacl]⟩

theorem boundedSize_eq {tok : Str} {z : { z : Int // llongMin ≤ z ∧ z ≤ llongMax }} :
    boundedSize tok = some z ↔ parseSize tok = some z.1 := by
  rw [boundedSize, Option.pmap_eq_some_iff]
  constructor
  · rintro ⟨a, h, ha, rfl⟩
    exact ha
  · exact fun h => ⟨z.1, parseSize_bounds h, h, rfl⟩

/-- The action is only looked at. -/
theorem nukeStyle_iff {fresh : NukeAction} {value : NukeStyle} : NukeStyle.ofToks fresh toks = .ok value ↔
    toks[0]? = some value.format ∧ (toks[1]?.bind nukeAction).isSome = true ∧ value.action = fresh ∧
      toks[2]?.bind parseSize = some value.emptyKBytes ∧ toks[3]?.bind parseSize = some value.emptyPenalty := by
  have hpenalty : ∀ z : { z : Int // llongMin ≤ z ∧ z ≤ llongMax },
      toks[3]?.bind boundedSize = some z ↔ toks[3]?.bind parseSize = some z.1 := fun z => by
    simp only [Option.bind_eq_some_iff, boundedSize_eq]
  simp only [NukeStyle.ofToks, bind_ok, word_ok, column_ok, pure_ok, hpenalty]
  constructor
  · rintro ⟨format, hformat, action, haction, kBytes, hkBytes, penalty, hpen, rfl⟩
    exact ⟨hformat, Option.isSome_iff_exists.mpr ⟨action, haction⟩, rfl, hkBytes, hpen⟩
  · rintro ⟨hformat, haction, rfl, hkBytes, hpen⟩
    obtain ⟨action, haction⟩ := Option.isSome_iff_exists.mp haction
    exact ⟨_, hformat, action, haction, _, hkBytes, ⟨_, value.emptyPenalty_bounds⟩, hpen, rfl⟩

theorem SiteCmd.commandOf_eq (tok : Str) : SiteCmd.commandOf tok =
    (toUpperCopy ((split tok " ".toList true).headD []),
      join (toUpperCopy ((split tok " ".toList true).headD []) :: (split tok " ".toList true).tail) " ".toList) := by
  obtain ⟨command, args, hsplit⟩ := List.exists_cons_of_ne_nil (split_ne_nil tok " ".toList true)
  rw [SiteCmd.commandOf, hsplit]
  rfl

theorem siteCmd_columns {value : SiteCmd} (hlen : toks.length ≤ 5) (h : SiteCmd.ofToks toks = .ok value) :
    (∃ tok, toks[0]? = some tok ∧ value.command = toUpperCopy ((split tok " ".toList true).headD []) ∧
        value.syntaxText = join (value.command :: (split tok " ".toList true).tail) " ".toList) ∧
      toks[1]? = some value.description ∧ toks[2]?.bind SiteCmd.kindOf = some value.kind ∧
      toks[3]? = some value.target ∧ value.arguments = toks[4]?.getD [] := by
  simp only [SiteCmd.ofToks, bind_ok, word_ok, column_ok, wordOf_ok, pure_ok] at h
  obtain ⟨tok, htok, description, hdescription, kind, hkind, target, htarget, arguments, harguments, rfl⟩ := h
  have harg : arguments.getD [] = toks[4]?.getD [] := by
    split at harguments
    · obtain ⟨arg, harg, rfl⟩ := harguments
      rw [harg]
    · rename_i hne
      have hnone : toks[4]? = none := List.getElem?_eq_none (by omega)
      rw [← harguments, hnone]
  exact ⟨⟨tok, htok, by rw [SiteCmd.commandOf_eq], by rw [SiteCmd.commandOf_eq]⟩, hdescription, hkind, htarget, harg⟩

/-- A line gives the speed limit that `speedLimit` gives. -/
theorem speedLimit_ofToks {opt : String} {limit : SpeedLimit} : speedLimit opt toks = .ok limit ↔
    4 ≤ toks.length ∧ SpeedLimit.ofToks toks = .ok limit := by
  simp only [SpeedLimit.ofToks, bind_ok, word_ok, column_ok, rest_ok, pure_ok]
  by_cases hlen : toks.length < 4
  · rw [speedLimit, parameterCheck, if_pos hlen]
    exact ⟨fun h => (by cases h), fun h => absurd h.1 (Nat.not_le.mpr hlen)⟩
  · have hcheck : parameterCheck opt toks 4 = .ok () := by rw [parameterCheck, if_neg hlen]
    obtain ⟨path, down, up, acls, rfl⟩ := parameterCheck_inv hcheck
    simp only [speedLimit, hcheck, List.getD_cons_zero, List.getD_cons_succ]
    constructor
    · intro h
      split at h
      · rename_i downloads uploads hdown hup
        cases h
        exact ⟨Nat.not_lt.mp hlen, path, rfl, downloads, hdown, uploads, hup, acls, ⟨by simp, rfl⟩, rfl⟩
      · cases h
    · rintro ⟨-, _, hpath, downloads, hdown, uploads, hup, _, ⟨-, rfl⟩, rfl⟩
      cases hpath
      have hdown : parseSize down = some downloads := hdown
      have hup : parseSize up = some uploads := hup
      rw [hdown, hup]
      rfl

/-- And `allow_fxp` the rule that `allowFxp` gives. -/
theorem allowFxp_ofToks {rule : AllowFxp} : allowFxp toks = .ok rule ↔
    4 ≤ toks.length ∧ AllowFxp.ofToks toks = .ok rule := by
  simp only [AllowFxp.ofToks, bind_ok, column_ok, rest_ok, pure_ok]
  by_cases hlen : toks.length < 4
  · rw [allowFxp, parameterCheck, if_pos hlen]
    exact ⟨fun h => (by cases h), fun h => absurd h.1 (Nat.not_le.mpr hlen)⟩
  · have hcheck : parameterCheck "allow_fxp" toks 4 = .ok () := by rw [parameterCheck, if_neg hlen]
    obtain ⟨down, up, log, acls, rfl⟩ := parameterCheck_inv hcheck
    simp only [allowFxp, hcheck, List.getD_cons_zero, List.getD_cons_succ]
    constructor
    · intro h
      split at h
      · rename_i downloads uploads logging hdown hup hlogging
        cases h
        exact ⟨Nat.not_lt.mp hlen, downloads, hdown, uploads, hup, logging, hlogging, acls, ⟨by simp, rfl⟩, rfl⟩
      · cases h
    · rintro ⟨-, downloads, hdown, uploads, hup, logging, hlogging, _, ⟨-, rfl⟩, rfl⟩
      have hdown : yesNoToBoolean down = some downloads := hdown
      have hup : yesNoToBoolean up = some uploads := hup
      have hlogging : yesNoToBoolean log = some logging := hlogging
      rw [hdown, hup, hlogging]
      rfl

end Columns

/-! ## Words enough -/

variable {n : Nat}

theorem within_column {α : Type} {i : Nat} {parse : Str → Option α} (h : i < n) : Within n (column i parse) :=
  within_value h

theorem within_stores {α : Type} {f : α → Setting} {x : Toks α} (h : Within n x) : Within n (stores f x) :=
  within_bind h fun _ => within_pure _

/-- The last columns are the ACL, or whatever else takes all that is left. -/
theorem within_rest_pure {α : Type} {i : Nat} {f : List Str → α} (h : i ≤ n) :
    Within n (rest i >>= fun toks => (pure (f toks) : Toks α)) :=
  within_bind (within_rest h) fun _ => within_pure _

theorem within_column_pure {α β : Type} {i : Nat} {parse : Str → Option α} {f : α → β} (h : i < n) :
    Within n (column i parse >>= fun a => (pure (f a) : Toks β)) :=
  within_bind (within_column h) fun _ => within_pure _

theorem within_word_pure {β : Type} {i : Nat} {f : Str → β} (h : i < n) :
    Within n (word i >>= fun a => (pure (f a) : Toks β)) :=
  within_bind (within_word h) fun _ => within_pure _

theorem within_asciiDownloads : Within 1 AsciiDownloads.ofToks :=
  within_bind (within_word (by omega)) fun _ => within_rest_pure (by omega)

theorem within_secureIp : Within 3 SecureIp.ofToks :=
  within_bind (within_column (by omega)) fun _ => within_bind (within_column (by omega)) fun _ =>
    within_bind (within_column (by omega)) fun _ => within_rest_pure (by omega)

theorem within_securePass : Within 1 SecurePass.ofToks :=
  within_bind (within_word (by omega)) fun _ => within_rest_pure (by omega)

theorem within_speedLimit : Within 3 SpeedLimit.ofToks :=
  within_bind (within_word (by omega)) fun _ => within_bind (within_column (by omega)) fun _ =>
    within_bind (within_column (by omega)) fun _ => within_rest_pure (by omega)

theorem within_simXfers : Within 2 SimXfers.ofToks :=
  within_bind (within_column (by omega)) fun _ => within_column_pure (by omega)

theorem within_ports : Within 0 Ports.ofToks :=
  within_bind (within_rest (by omega)) fun _ => within_ofResult _

theorem within_allowFxp : Within 3 AllowFxp.ofToks :=
  within_bind (within_column (by omega)) fun _ => within_bind (within_column (by omega)) fun _ =>
    within_bind (within_column (by omega)) fun _ => within_rest_pure (by omega)

theorem within_alias : Within 2 Alias.ofToks :=
  within_bind (within_word (by omega)) fun _ => within_word_pure (by omega)

theorem within_right : Within 1 Right.ofToks :=
  within_bind (within_word (by omega)) fun _ => within_rest_pure (by omega)

theorem within_pathFilter (boost : Boost) : Within 1 (PathFilter.ofToks boost) :=
  within_bind (within_word (by omega)) fun _ => within_bind (within_rest (by omega)) fun _ =>
    within_ite (within_pure _) (within_refuse _)

theorem within_maxUsers : Within 2 MaxUsers.ofToks :=
  within_bind (within_column (by omega)) fun _ => within_column_pure (by omega)

theorem within_aclInt : Within 1 ACLInt.ofToks :=
  within_bind (within_column (by omega)) fun _ => within_rest_pure (by omega)

theorem within_lslong : Within 1 Lslong.ofToks := by
  refine within_bind (within_word (by omega)) fun options => within_bind (within_wordIfAny 1) fun tok => ?_
  cases tok with
  | none => exact within_pure _
  | some tok => exact within_bind (within_ofOption _ _) fun _ => within_pure _

theorem within_hiddenFiles : Within 1 HiddenFiles.ofToks :=
  within_bind (within_word (by omega)) fun _ => within_rest_pure (by omega)

theorem within_creditcheck : Within 2 Creditcheck.ofToks :=
  within_bind (within_word (by omega)) fun _ => within_bind (within_column (by omega)) fun _ =>
    within_rest_pure (by omega)

theorem within_creditloss : Within 2 Creditloss.ofToks :=
  within_bind (within_word (by omega)) fun _ => within_bind (within_column (by omega)) fun _ =>
    within_rest_pure (by omega)

theorem within_nukeStyle (fresh : NukeAction) : Within 4 (NukeStyle.ofToks fresh) :=
  within_bind (within_word (by omega)) fun _ => within_bind (within_column (by omega)) fun _ =>
    within_bind (within_column (by omega)) fun _ => within_column_pure (by omega)

theorem within_msgpath : Within 2 Msgpath.ofToks :=
  within_bind (within_word (by omega)) fun _ => within_bind (within_word (by omega)) fun _ =>
    within_rest_pure (by omega)

theorem within_privpath : Within 1 Privpath.ofToks :=
  within_bind (within_word (by omega)) fun _ => within_rest_pure (by omega)

theorem within_siteCmd : Within 4 SiteCmd.ofToks :=
  within_bind (within_word (by omega)) fun _ => within_bind (within_word (by omega)) fun _ =>
    within_bind (within_column (by omega)) fun _ => within_bind (within_word (by omega)) fun _ =>
      within_bind (within_wordOf (by omega)) fun _ => within_pure _

theorem within_cscript : Within 3 Cscript.ofToks :=
  within_bind (within_word (by omega)) fun _ => within_bind (within_column (by omega)) fun _ =>
    within_word_pure (by omega)

theorem within_idleTimeout (boost : Boost) : Within 3 (IdleTimeout.ofToks boost) :=
  within_bind (within_column (by omega)) fun _ => within_bind (within_column (by omega)) fun _ =>
    within_bind (within_column (by omega)) fun _ => within_ofResult _

theorem within_checkScript : Within 1 CheckScript.ofToks :=
  within_bind (within_word (by omega)) fun _ => within_bind (within_wordOf (by omega)) fun _ => within_pure _

theorem within_log (name : Str) : Within 2 (Log.ofToks name) :=
  within_bind (within_column (by omega)) fun _ => within_bind (within_column (by omega)) fun _ =>
    within_bind (within_wordIfAny 2) fun _ => within_bind (within_ofOption _ _) fun _ => within_pure _

theorem within_transferLog (name : Str) : Within 5 (TransferLog.ofToks name) :=
  within_bind ((within_log name).mono (by omega)) fun _ => within_bind (within_column (by omega)) fun _ =>
    within_column_pure (by omega)

theorem within_nukeMax : Within 2 NukeMax.ofToks :=
  within_bind (within_column (by omega)) fun _ => within_column_pure (by omega)

/-! ## Keywords that are safe -/

/-- No line with the keyword goes wrong. -/
def Keyword.Safe (k : Keyword) : Prop := ∀ toks, k.read toks ≠ .error .outOfRange

namespace Keyword

variable {name : Str} {x : Toks Setting} {m : Nat}

theorem safe_exactly (h : Within m x) (hle : m ≤ n) : Safe ⟨name, exactly n, x⟩ := fun _ =>
  checked_safe h fun k hk => by
    simp only [accepts, exactly, Bool.and_eq_true, decide_eq_true_eq] at hk
    omega

theorem safe_atLeast (h : Within m x) (hle : m ≤ n) : Safe ⟨name, atLeast n, x⟩ := fun _ =>
  checked_safe h fun k hk => by
    simp only [accepts, atLeast, decide_eq_true_eq] at hk
    omega

theorem safe_between {maximum : Nat} (h : Within n x) : Safe ⟨name, some (n, some maximum), x⟩ := fun _ =>
  checked_safe h fun k hk => by
    simp only [accepts, Bool.and_eq_true, decide_eq_true_eq] at hk
    exact hk.1

theorem safe_unchecked (h : Within 0 x) : Safe ⟨name, none, x⟩ := fun _ => checked_safe h fun k _ => Nat.zero_le k

variable (boost : Boost)

theorem safe_ruleKeywords : ∀ k ∈ ruleKeywords, k.Safe := by
  simp only [ruleKeywords, List.forall_mem_cons, List.not_mem_nil, false_implies, implies_true, and_true]
  exact ⟨safe_atLeast (within_stores within_secureIp) (by omega),
    safe_atLeast (within_stores within_creditcheck) (by omega),
    safe_atLeast (within_stores within_creditloss) (by omega),
    safe_atLeast (within_stores within_privpath) (by omega),
    safe_between (within_stores within_siteCmd)⟩

theorem safe_plainKeywords : ∀ k ∈ plainKeywords boost, k.Safe := by
  simp only [plainKeywords, List.forall_mem_cons, List.not_mem_nil, false_implies, implies_true, and_true]
  have hrest : Within 0 (rest 0 : Toks (List Str)) := within_rest (by omega)
  have hauth : Within 2 (do return .auth (← word 0) (← word 1) : Toks Setting) :=
    within_bind (within_word (by omega)) fun _ => within_word_pure (by omega)
  have hepsv : Within 1 (do ofResult (epsvFxp (← word 0)) : Toks EPSVFxp) :=
    within_bind (within_word (by omega)) fun _ => within_ofResult _
  exact ⟨safe_atLeast (within_stores (within_bind hrest fun _ => within_ofOption _ _)) (by omega),
    safe_exactly hauth (by omega),
    safe_exactly (within_stores (within_column (n := 1) (by omega))) (by omega),
    safe_unchecked (within_stores hrest),
    safe_exactly (within_stores (within_column (n := 1) (by omega))) (by omega),
    safe_exactly (within_stores within_nukeMax) (by omega),
    safe_exactly (within_stores (within_transferLog _)) (by omega),
    safe_atLeast (within_stores hrest) (by omega),
    safe_exactly (within_stores within_simXfers) (by omega),
    safe_atLeast (within_stores within_securePass) (by omega),
    safe_atLeast (within_stores within_ports) (by omega),
    safe_unchecked (within_stores within_ports),
    safe_atLeast (within_stores within_allowFxp) (by omega),
    safe_exactly (within_stores within_alias) (by omega),
    safe_atLeast (within_stores (within_pathFilter boost)) (by omega),
    safe_exactly (within_stores within_maxUsers) (by omega),
    safe_exactly (within_stores within_cscript) (by omega),
    safe_exactly (within_stores within_lslong) (by omega),
    safe_atLeast (within_stores within_hiddenFiles) (by omega),
    safe_exactly (within_stores (within_idleTimeout boost)) (by omega),
    safe_exactly (within_stores hepsv) (by omega),
    safe_exactly (within_stores (within_column (n := 1) (by omega))) (by omega),
    safe_exactly (within_stores (within_column (n := 1) (by omega))) (by omega)⟩

theorem safe_familyKeywords : ∀ k ∈ familyKeywords, k.Safe := by
  simp only [familyKeywords, List.forall_mem_append, List.forall_mem_map]
  have hrest : Within 0 (rest 0 : Toks (List Str)) := within_rest (by omega)
  have hcolumn : ∀ {α : Type} (parse : Str → Option α), Within 1 (column 0 parse) := fun _ => within_column (by omega)
  refine ⟨⟨⟨⟨⟨⟨⟨?_, ?_⟩, ?_⟩, ?_⟩, ?_⟩, ?_⟩, ?_⟩, ?_⟩
  · exact fun _ _ => safe_exactly (within_stores (within_word (n := 1) (by omega))) (by omega)
  · exact fun _ _ => safe_atLeast (within_stores hrest) (by omega)
  · exact fun _ _ => safe_exactly (within_stores (hcolumn _)) (by omega)
  · exact fun _ _ => safe_exactly (within_stores (hcolumn _)) (by omega)
  · intro row hrow
    have hcount : ∀ row ∈ logKeywords, 2 ≤ row.2.2 := by decide
    exact safe_exactly (within_stores (within_log _)) (hcount row hrow)
  · exact fun _ _ => safe_atLeast (within_stores within_aclInt) (by omega)
  · exact fun _ _ => safe_between (within_stores within_checkScript)
  · exact fun _ _ => safe_unchecked (within_stores hrest)

theorem safe_rightRows : ∀ k ∈ rightRows, k.Safe := by
  simp only [rightRows, List.forall_mem_map]
  exact fun _ _ => safe_atLeast (within_stores within_right) (by omega)

theorem safe_speedRows : ∀ k ∈ speedRows, k.Safe := by
  simp only [speedRows, List.forall_mem_map]
  exact fun _ _ => safe_atLeast (within_stores within_speedLimit) (by omega)

end Keyword

end Cfg
end Ebftpd
