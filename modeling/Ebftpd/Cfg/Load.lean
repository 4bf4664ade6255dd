import Ebftpd.Cfg.Parse

/-!
# Ebftpd.Cfg.Load

A configuration file (the constructor and `SanityCheck` in `src/cfg/config.cpp`): its lines are parsed one
after another behind the removal of comments, and what is missing then is an error or gets its default.

* `load_located`: an error names the first line that is refused, whatever comes behind it.
* `load_wellFormed`: what holds of a file that is accepted.
-/

namespace Ebftpd
namespace Cfg

open Util Lib Lib.Positional

namespace Parser

/-- What is left of a line behind its comment; nothing of an empty one. -/
def uncomment (line : Str) : Option Str :=
  let line := line.takeWhile (· ≠ '#')
  if line.isEmpty then none else some (Acl.Path.replaceAll line "[:hash:]".toList "#".toList)

section Lines

variable (boost : Boost) (fresh : Nat → NukeAction)

/-- The message for a line that is refused; `outOfRange` is undefined. -/
def located (i : Nat) : Fault SettingError → Fault SettingError
  | .outOfRange => .outOfRange
  | .thrown (.config message) => .thrown (.config s!"Error in config at line {i}: {message}")
  | .thrown .badCast => .thrown (.config s!"Error in config at line {i}: Invalid value")

def parseLine (i : Nat) (p : Parser) (line : Str) : Except (Fault SettingError) Parser :=
  match uncomment line with
  | none => .ok p
  | some line => p.parse boost (fresh i) line

/-- The lines of the file from line `i` on. -/
def parseLines : Nat → Parser → List Str → Except (Fault SettingError) Parser
  | _, p, [] => .ok p
  | i, p, line :: lines =>
    match p.parseLine boost fresh i line with
    | .error e => .error (located i e)
    | .ok p => parseLines (i + 1) p lines

end Lines

/-! ## What the settings come to -/

def requiredSettings : List String := ["sitepath", "datapath", "port", "valid_ip"]

def checkSetting (p : Parser) (name : String) : Bool := decide (0 < p.settingsCache name.toList)

/-- All that the lines with a keyword stored. -/
def values (p : Parser) (name : String) : List Setting :=
  p.stored.filterMap fun (opt, setting) => if opt = name.toList then some setting else none

/-- A member that is assigned. -/
def lastText (p : Parser) (name : String) (initial : Str) : Str :=
  match (p.values name).getLast? with
  | some (.text value) => value
  | _ => initial

/-- A member that is appended to. -/
def hosts (p : Parser) : List (Str × Int) :=
  (p.values "db_host").flatMap fun
    | .hosts value => value
    | _ => []

/-- The hosts, or the default where there is no setting of them. -/
def databaseHosts (p : Parser) : List (Str × Int) :=
  p.hosts ++ if p.checkSetting "db_host" then [] else [("localhost".toList, 27017)]

def lastNumber (p : Parser) (name : String) (initial : Int) : Int :=
  match (p.values name).getLast? with
  | some (.number value) => value
  | _ => initial

def allowFxps (p : Parser) : List AllowFxp :=
  (p.values "allow_fxp").filterMap fun
    | .allowFxp value => some value
    | _ => none

def pathFilters (p : Parser) : List PathFilter :=
  (p.values "path_filter").filterMap fun
    | .pathFilter value => some value
    | _ => none

end Parser

/-- The members that `SanityCheck` completes, beside all that the lines stored. -/
structure Loaded where
  parser : Parser
  loginPrompt : Str
  allowFxp : List AllowFxp
  pathFilter : List PathFilter
  databaseName : Str
  databaseHosts : List (Str × Int)

def defaultPathFilter : PathFilter :=
  ⟨"^[[\\]A-Za-z0-9_'()[:space:]][[\\]A-Za-z0-9_.'()[:space:]-]+$".toList, Acl.ACL.fromString "*".toList⟩

def missing (setting : String) : Fault SettingError := .thrown (.config ("Missing required setting: " ++ setting))

namespace Parser

/-- `SanityCheck`. -/
def sanityCheck (p : Parser) : Except (Fault SettingError) Loaded :=
  match requiredSettings.find? fun setting => !p.checkSetting setting with
  | some setting => .error (missing setting)
  | none =>
    let loginPrompt := p.lastText "login_prompt" []
    if p.databaseHosts.length > 1 ∧ !p.checkSetting "db_replicaset" then .error (missing "db_replicaset")
    else
      .ok {
        parser := p
        loginPrompt :=
          if loginPrompt.isEmpty then p.lastText "sitename_long" "EBFTPD".toList ++ ": ebftpd connected.".toList
          else loginPrompt
        allowFxp := if p.allowFxps.isEmpty then [defaultAllowFxp] else p.allowFxps
        pathFilter := if p.pathFilters.isEmpty then [defaultPathFilter] else p.pathFilters
        databaseName :=
          if p.checkSetting "db_name" then p.lastText "db_name" [] else "ebftpd".toList
        databaseHosts := p.databaseHosts }

/-- `Config::Config`, of a file that is there. -/
def load (boost : Boost) (fresh : Nat → NukeAction) (p : Parser) (lines : List Str) :
    Except (Fault SettingError) Loaded :=
  match p.parseLines boost fresh 1 lines with
  | .error e => .error e
  | .ok p => p.sanityCheck

/-! ## What a line can do -/

/-- The settings that `SanityCheck` asks for. -/
def watched : List Str := (requiredSettings ++ ["db_name", "db_host", "db_replicaset"]).map String.toList

/-- The keyword of an ACL of a command there is, where it is read. -/
def Known (p : Parser) (key : Str) : Prop :=
  p.tool = true ∨ key ∈ p.aclKeywords ∨
    ∃ opt, startsWith opt "custom-".toList = true ∧ key = toLowerCopy opt ∧ toUpperCopy (opt.drop 7) ∈ p.siteCommands

inductive Read (boost : Boost) (fresh : NukeAction) (p : Parser) : Parser → Prop
  | blank : Read boost fresh p p
  | stored {k : Keyword} {toks : List Str} {setting : Setting} (mem : k ∈ keywords boost fresh)
      (read : k.read toks = .ok setting) : Read boost fresh p ((p.countSetting k.name).store k.name setting)
  | acl {opt key : Str} (acl : Acl.ACL) (other : opt ∉ watched) (known : Known p key) :
      Read boost fresh p ((p.countSetting opt).insertACL key acl)
  | opened {opt name : Str} (other : opt ∉ watched) (new : name ∉ p.sections.map Section.name) :
      Read boost fresh p ((p.countSetting opt).openSection { name := name })
  | changed {opt : Str} (name : Str) (change : Section → Section) (other : opt ∉ watched)
      (ratio : ∀ sec, (change sec).ratio = sec.ratio ∨ 0 ≤ (change sec).ratio) :
      Read boost fresh p ((p.countSetting opt).changeSection name change)
  | closed {opt : Str} (other : opt ∉ watched) : Read boost fresh p (p.countSetting opt).endSection

section Inversion

variable {boost : Boost} {fresh : NukeAction} {p p' : Parser} {opt : Str} {toks : List Str}

theorem parseACL_inv {key : Str} {known : Bool} {message : String}
    (h : p.parseACL opt key known message toks = .ok p') :
    (known = true ∨ p.tool = true) ∧ ∃ acl, p' = p.insertACL key acl := by
  obtain ⟨-, hread⟩ := checked_ok.mp h
  obtain ⟨words, -, hwords⟩ := bind_ok.mp hread
  obtain ⟨hknown, hinsert⟩ := refuseIf_ok.mp hwords
  refine ⟨?_, aclOf words, (pure_ok.mp hinsert).symm⟩
  by_contra hneither
  obtain ⟨hno, htool⟩ := not_or.mp hneither
  exact hknown (by simp [hno, htool])

theorem parseSectionStart_inv (h : p.parseSectionStart opt toks = .ok p') :
    ∃ name, name ∉ p.sections.map Section.name ∧ p' = p.openSection { name := name } := by
  obtain ⟨-, hread⟩ := checked_ok.mp h
  obtain ⟨tok, -, htok⟩ := bind_ok.mp hread
  obtain ⟨hnew, hopen⟩ := refuseIf_ok.mp htok
  exact ⟨toUpperCopy tok, hnew, (pure_ok.mp hopen).symm⟩

theorem parseKeyword_inv (h : p.parseKeyword boost fresh opt toks = .ok p') :
    ∃ k ∈ keywords boost fresh, k.name = opt ∧ ∃ setting, k.read toks = .ok setting ∧ p' = p.store opt setting := by
  unfold parseKeyword at h
  cases hfind : (keywords boost fresh).find? (·.name = opt) with
  | none =>
    rw [hfind] at h
    cases h
  | some k =>
    rw [hfind] at h
    obtain ⟨hk, hname⟩ := find_keyword hfind
    obtain ⟨setting, hread, hstore⟩ := bind_ok.mp h
    exact ⟨k, hk, hname, setting, hread, (pure_ok.mp hstore).symm⟩

/-- An option that begins like none of the settings `SanityCheck` asks for. -/
theorem not_watched_of_head (h : opt.head? = some '-') : opt ∉ watched := by
  intro hopt
  have : ∀ name ∈ watched, name.head? ≠ some '-' := by decide
  exact this opt hopt h

theorem not_watched_of_custom (h : startsWith opt "custom-".toList = true) : opt ∉ watched := by
  intro hopt
  have : ∀ name ∈ watched, startsWith name "custom-".toList = false := by decide
  rw [this opt hopt] at h
  cases h

theorem parseGlobal_read (h : (p.countSetting opt).parseGlobal boost fresh opt toks = .ok p') :
    Read boost fresh p p' := by
  unfold parseGlobal at h
  split at h
  · rename_i hhead
    obtain ⟨hknown, acl, rfl⟩ := parseACL_inv h
    refine .acl acl (not_watched_of_head hhead) ?_
    obtain hknown | htool := hknown
    · exact .inr (.inl (of_decide_eq_true hknown))
    · exact .inl htool
  · split at h
    · rename_i hcustom
      obtain ⟨hknown, acl, rfl⟩ := parseACL_inv h
      refine .acl acl (not_watched_of_custom hcustom) ?_
      obtain hknown | htool := hknown
      · exact .inr (.inr ⟨opt, hcustom, rfl, of_decide_eq_true hknown⟩)
      · exact .inl htool
    · split at h
      · rename_i hsection
        obtain ⟨name, hname, rfl⟩ := parseSectionStart_inv h
        exact .opened (by rw [hsection]; decide) hname
      · obtain ⟨k, hk, rfl, setting, hread, rfl⟩ := parseKeyword_inv h
        exact .stored hk hread

theorem parseSection_read {name : Str} (h : (p.countSetting opt).parseSection name opt toks = .ok p') :
    Read boost fresh p p' := by
  unfold parseSection at h
  split at h
  · rename_i hopt
    obtain ⟨-, hread⟩ := checked_ok.mp h
    obtain ⟨words, -, hwords⟩ := bind_ok.mp hread
    rw [← pure_ok.mp hwords]
    exact .changed name _ (by rw [hopt]; decide) fun _ => .inl rfl
  · split at h
    · rename_i hopt
      obtain ⟨-, hread⟩ := checked_ok.mp h
      obtain ⟨separate, -, hwords⟩ := bind_ok.mp hread
      rw [← pure_ok.mp hwords]
      exact .changed name _ (by rw [hopt]; decide) fun _ => .inl rfl
    · split at h
      · rename_i hopt
        obtain ⟨-, hread⟩ := checked_ok.mp h
        obtain ⟨ratio, hratio, hwords⟩ := bind_ok.mp hread
        obtain ⟨tok, -, hnumber⟩ := Option.bind_eq_some_iff.mp (column_ok.mp hratio)
        rw [← pure_ok.mp hwords]
        exact .changed name _ (by rw [hopt]; decide) fun _ => .inr (numberFrom_ge hnumber)
      · split at h
        · rename_i hopt
          rw [← pure_ok.mp h]
          exact .closed (by rw [hopt]; decide)
        · cases h

/-- Everything a line that is accepted can do. -/
theorem parse_read {line : Str} (h : p.parse boost fresh line = .ok p') : Read boost fresh p p' := by
  unfold parse at h
  split at h
  · cases h
    exact .blank
  · simp only at h
    split at h
    · exact parseSection_read h
    · exact parseGlobal_read h

end Inversion

end Parser

/-! ## The ranges of what is stored -/

/-- What the constructor of a setting has checked. -/
def Setting.Valid (boost : Boost) : Setting → Prop
  | .hosts value => value ≠ [] ∧ ∀ host ∈ value, 0 ≤ host.2 ∧ host.2 ≤ 65535
  | .nukeMax value => 0 ≤ value.multiplier ∧ 0 ≤ value.percent ∧ value.percent ≤ 100
  | .simXfers value => -1 ≤ value.maxDownloads ∧ -1 ≤ value.maxUploads
  | .maxUsers value => 0 ≤ value.users ∧ 0 ≤ value.exemptUsers
  | .creditcheck value => 0 ≤ value.ratio
  | .creditloss value => 0 ≤ value.ratio
  | .log value => 0 ≤ value.database
  | .transferLog value => 0 ≤ value.database
  | .lslong value => ∀ depth, value.maxRecursion = some depth → 0 ≤ depth
  | .pathFilter value => boost.isRegex value.regex = true
  | .idleTimeout value => value.minimum < value.maximum ∧ value.minimum ≤ value.timeout ∧
      value.timeout ≤ value.maximum ∧ 1 ≤ boost.totalSeconds value.minimum
  | _ => True

section Ranges

variable {boost : Boost} {toks : List Str}

theorem stores_valid {α : Type} {f : α → Setting} {x : Toks α} {setting : Setting}
    (hvalid : ∀ value, x toks = .ok value → (f value).Valid boost) (h : stores f x toks = .ok setting) :
    setting.Valid boost := by
  obtain ⟨value, hvalue, rfl⟩ := Parser.stores_ok.mp h
  exact hvalid value hvalue

theorem column_ge {i : Nat} {least z : Int} (h : toks[i]?.bind (numberFrom least) = some z) : least ≤ z := by
  obtain ⟨tok, -, hnumber⟩ := Option.bind_eq_some_iff.mp h
  exact numberFrom_ge hnumber

theorem hostPair_range {tok : Str} {host : Str × Int} (h : hostPair tok = some host) :
    0 ≤ host.2 ∧ host.2 ≤ 65535 := by
  unfold hostPair at h
  split at h
  · obtain ⟨port, hport, rfl⟩ := Option.map_eq_some_iff.mp h
    simpa using (Option.filter_eq_some_iff.mp hport).2
  · cases h

theorem mapM_hostPair {value : List (Str × Int)} (h : toks.mapM hostPair = some value) :
    value.length = toks.length ∧ ∀ host ∈ value, 0 ≤ host.2 ∧ host.2 ≤ 65535 := by
  induction toks generalizing value with
  | nil =>
    cases h
    exact ⟨rfl, fun host hhost => absurd hhost List.not_mem_nil⟩
  | cons tok toks ih =>
    rw [List.mapM_cons] at h
    obtain ⟨host, hhost, hrest⟩ := Option.bind_eq_some_iff.mp h
    obtain ⟨hosts, hhosts, hcons⟩ := Option.bind_eq_some_iff.mp hrest
    cases hcons
    obtain ⟨hlength, hrange⟩ := ih hhosts
    refine ⟨congrArg Nat.succ hlength, fun other hother => ?_⟩
    obtain rfl | hother := List.mem_cons.mp hother
    · exact hostPair_range hhost
    · exact hrange other hother

theorem nukeMax_valid {value : NukeMax} (h : NukeMax.ofToks toks = .ok value) :
    Setting.Valid boost (.nukeMax value) := by
  simp only [NukeMax.ofToks, bind_ok, column_ok, pure_ok] at h
  obtain ⟨multiplier, hmultiplier, percent, hpercent, rfl⟩ := h
  obtain ⟨tok, -, hfilter⟩ := Option.bind_eq_some_iff.mp hpercent
  obtain ⟨hnumber, hle⟩ := Option.filter_eq_some_iff.mp hfilter
  exact ⟨column_ge hmultiplier, numberFrom_ge hnumber, of_decide_eq_true hle⟩

theorem simXfers_valid {value : SimXfers} (h : SimXfers.ofToks toks = .ok value) :
    Setting.Valid boost (.simXfers value) := by
  simp only [SimXfers.ofToks, bind_ok, column_ok, pure_ok] at h
  obtain ⟨downloads, hdownloads, uploads, huploads, rfl⟩ := h
  exact ⟨column_ge hdownloads, column_ge huploads⟩

theorem maxUsers_valid {value : MaxUsers} (h : MaxUsers.ofToks toks = .ok value) :
    Setting.Valid boost (.maxUsers value) := by
  simp only [MaxUsers.ofToks, bind_ok, column_ok, pure_ok] at h
  obtain ⟨users, husers, exempt, hexempt, rfl⟩ := h
  exact ⟨column_ge husers, column_ge hexempt⟩

theorem log_valid {name : Str} {value : Log} (h : Log.ofToks name toks = .ok value) : 0 ≤ value.database := by
  simp only [Log.ofToks, bind_ok, column_ok, ofOption_ok, pure_ok] at h
  obtain ⟨console, -, file, -, tok, -, database, hdatabase, rfl⟩ := h
  simpa using (Option.filter_eq_some_iff.mp hdatabase).2

theorem transferLog_valid {name : Str} {value : TransferLog} (h : TransferLog.ofToks name toks = .ok value) :
    Setting.Valid boost (.transferLog value) := by
  simp only [TransferLog.ofToks, bind_ok, pure_ok] at h
  obtain ⟨log, hlog, uploads, -, downloads, -, rfl⟩ := h
  exact log_valid hlog

theorem lslong_valid {value : Lslong} (h : Lslong.ofToks toks = .ok value) :
    Setting.Valid boost (.lslong value) := by
  intro depth hdepth
  simp only [Lslong.ofToks, bind_ok, word_ok] at h
  obtain ⟨options, -, tok, -, h⟩ := h
  cases tok with
  | none =>
    rw [← pure_ok.mp h] at hdepth
    cases hdepth
  | some tok =>
    obtain ⟨depth', hdepth', hvalue⟩ := bind_ok.mp h
    rw [← pure_ok.mp hvalue] at hdepth
    cases hdepth
    exact numberFrom_ge (ofOption_ok.mp hdepth')

theorem pathFilter_valid {value : PathFilter} (h : PathFilter.ofToks boost toks = .ok value) :
    Setting.Valid boost (.pathFilter value) := by
  simp only [PathFilter.ofToks, bind_ok, word_ok, rest_ok] at h
  obtain ⟨regex, -, acls, -, h⟩ := h
  by_cases hregex : boost.isRegex regex = true
  · rw [if_pos hregex] at h
    rw [← pure_ok.mp h]
    exact hregex
  · rw [if_neg hregex] at h
    cases h

theorem idleTimeout_check {value idle : IdleTimeout} (h : idle.check boost = .ok value) :
    Setting.Valid boost (.idleTimeout value) := by
  unfold IdleTimeout.check at h
  split at h
  · cases h
  split at h
  · cases h
  split at h
  · cases h
  · rename_i hseconds hbounds htimeout
    cases h
    refine ⟨?_, ?_, ?_, ?_⟩
    all_goals omega

theorem idleTimeout_valid {value : IdleTimeout} (h : IdleTimeout.ofToks boost toks = .ok value) :
    Setting.Valid boost (.idleTimeout value) := by
  simp only [IdleTimeout.ofToks, bind_ok] at h
  obtain ⟨maximum, -, minimum, -, timeout, -, hcheck⟩ := h
  cases hidle : IdleTimeout.check boost ⟨boost.seconds maximum, boost.seconds minimum, boost.seconds timeout⟩ with
  | error e =>
    rw [hidle] at hcheck
    cases hcheck
  | ok idle =>
    rw [hidle] at hcheck
    rw [← pure_ok.mp hcheck]
    exact idleTimeout_check hidle

theorem plain_valid {k : Keyword} {setting : Setting} (hk : k ∈ plainKeywords boost) (h : k.read toks = .ok setting) :
    setting.Valid boost := by
  obtain ⟨hcount, h⟩ := Parser.read_ok.mp h
  simp only [plainKeywords, List.mem_cons, List.not_mem_nil, or_false] at hk
  rcases hk with rfl | rfl | rfl | rfl | rfl | rfl | rfl | rfl | rfl | rfl | rfl | rfl | rfl | rfl | rfl | rfl | rfl |
    rfl | rfl | rfl | rfl | rfl | rfl
  case inl =>
    have hsome : toks ≠ [] := by
      rintro rfl
      cases hcount
    refine stores_valid (fun value hvalue => ?_) h
    obtain ⟨words, hwords, hvalue⟩ := bind_ok.mp hvalue
    obtain ⟨-, rfl⟩ := rest_ok.mp hwords
    obtain ⟨hlength, hrange⟩ := mapM_hostPair (ofOption_ok.mp hvalue)
    refine ⟨?_, hrange⟩
    rintro rfl
    exact hsome (List.eq_nil_of_length_eq_zero hlength.symm)
  case inr.inl =>
    simp only [bind_ok, word_ok, pure_ok] at h
    obtain ⟨login, -, password, -, rfl⟩ := h
    trivial
  all_goals refine stores_valid (fun value hvalue => ?_) h
  all_goals first
    | trivial
    | exact nukeMax_valid hvalue
    | exact transferLog_valid hvalue
    | exact simXfers_valid hvalue
    | exact pathFilter_valid hvalue
    | exact maxUsers_valid hvalue
    | exact lslong_valid hvalue
    | exact idleTimeout_valid hvalue

theorem family_valid {k : Keyword} {setting : Setting} (hk : k ∈ familyKeywords) (h : k.read toks = .ok setting) :
    setting.Valid boost := by
  obtain ⟨-, h⟩ := Parser.read_ok.mp h
  simp only [familyKeywords, List.mem_append, List.mem_map] at hk
  rcases hk with (((((((hk | hk) | hk) | hk) | hk) | hk) | hk) | hk)
  all_goals obtain ⟨row, -, rfl⟩ := hk
  all_goals refine stores_valid (fun value hvalue => ?_) h
  all_goals first
    | trivial
    | exact log_valid hvalue

/-- Whatever a keyword stores is within its range. -/
theorem read_valid {fresh : NukeAction} {k : Keyword} {setting : Setting} (hk : k ∈ keywords boost fresh)
    (h : k.read toks = .ok setting) : setting.Valid boost := by
  have hread := (Parser.read_ok.mp h).2
  simp only [keywords, List.mem_append] at hk
  rcases hk with ((((hk | hk) | hk) | hk) | hk) | hk
  · simp only [misreadKeywords, List.mem_cons, List.not_mem_nil, or_false] at hk
    rcases hk with rfl | rfl | rfl
    all_goals refine stores_valid (fun value _ => ?_) hread
    all_goals trivial
  · simp only [ruleKeywords, List.mem_cons, List.not_mem_nil, or_false] at hk
    rcases hk with rfl | rfl | rfl | rfl | rfl
    all_goals refine stores_valid (fun value hvalue => ?_) hread
    · trivial
    · exact column_ge (creditcheck_columns hvalue).2.1
    · exact column_ge (creditloss_columns hvalue).2.1
    · trivial
    · trivial
  · obtain ⟨name, -, rfl⟩ := List.mem_map.mp hk
    refine stores_valid (fun value _ => ?_) hread
    trivial
  · obtain ⟨name, -, rfl⟩ := List.mem_map.mp hk
    refine stores_valid (fun value _ => ?_) hread
    trivial
  · exact plain_valid hk h
  · exact family_valid hk h

/-- The rows of these names, which are not of a family. -/
theorem keywords_named (boost : Boost) (fresh : NukeAction) : ∀ k ∈ keywords boost fresh,
    (k.name = "port".toList → k =
      ⟨"port".toList, exactly 1, stores .number (column 0 fun tok => (numberFrom 0 tok).filter (· ≤ 65535))⟩) ∧
    (k.name = "db_host".toList → k =
      ⟨"db_host".toList, atLeast 1, stores .hosts (do ofOption .badCast ((← rest 0).mapM hostPair))⟩) := by
  simp only [keywords, misreadKeywords, ruleKeywords, rightRows, rightKeywords, speedRows, speedKeywords,
    plainKeywords, familyKeywords, textKeywords, textsKeywords, numberKeywords, yesNoKeywords, logKeywords,
    aclIntKeywords, checkKeywords, tlsKeywords, List.forall_mem_append, List.forall_mem_map, List.forall_mem_cons,
    String.toList_inj, String.reduceEq, false_imp_iff, List.not_mem_nil, implies_true, and_self]

theorem port_read {fresh : NukeAction} {k : Keyword} {setting : Setting} (hk : k ∈ keywords boost fresh)
    (hname : k.name = "port".toList) (h : k.read toks = .ok setting) :
    ∃ port, setting = .number port ∧ 0 ≤ port ∧ port ≤ 65535 := by
  rw [(keywords_named boost fresh k hk).1 hname] at h
  obtain ⟨-, hread⟩ := Parser.read_ok.mp h
  obtain ⟨port, hport, rfl⟩ := Parser.stores_ok.mp hread
  obtain ⟨tok, -, hfilter⟩ := Option.bind_eq_some_iff.mp (column_ok.mp hport)
  obtain ⟨hnumber, hle⟩ := Option.filter_eq_some_iff.mp hfilter
  exact ⟨port, rfl, numberFrom_ge hnumber, of_decide_eq_true hle⟩

theorem host_read {fresh : NukeAction} {k : Keyword} {setting : Setting} (hk : k ∈ keywords boost fresh)
    (hname : k.name = "db_host".toList) (h : k.read toks = .ok setting) : ∃ hosts, setting = .hosts hosts := by
  rw [(keywords_named boost fresh k hk).2 hname] at h
  obtain ⟨-, hread⟩ := Parser.read_ok.mp h
  obtain ⟨hosts, -, rfl⟩ := Parser.stores_ok.mp hread
  exact ⟨hosts, rfl⟩

end Ranges

/-! ## Between two lines -/

namespace Parser

theorem no_section : ∀ name, (none : Option Str) = some name → name ∈ ([] : List Section).map Section.name :=
  no_current

/-- A parser that has read nothing. -/
def new (tool : Bool) (aclKeywords : List Str) : Parser where
  tool := tool
  aclKeywords := aclKeywords
  current_mem := no_section

/-- What holds between any two lines. -/
structure Sound (boost : Boost) (tool : Bool) (aclKeywords : List Str) (p : Parser) : Prop where
  tool : p.tool = tool
  aclKeywords : p.aclKeywords = aclKeywords
  counted : ∀ name ∈ watched, p.settingsCache name = p.stored.countP (·.1 = name)
  read : ∀ row ∈ p.stored, ∃ fresh, ∃ k ∈ keywords boost fresh, k.name = row.1 ∧ ∃ toks, k.read toks = .ok row.2
  names : (p.sections.map Section.name).Nodup
  ratios : ∀ sec ∈ p.sections, sec.ratio = -1 ∨ 0 ≤ sec.ratio
  keys : (p.commandACLs.map Prod.fst).Nodup
  known : ∀ row ∈ p.commandACLs, p.Known row.1

section Invariant

variable {boost : Boost} {tool : Bool} {aclKeywords : List Str} {fresh : NukeAction} {p p' : Parser} {opt : Str}

theorem sound_new : (new tool aclKeywords).Sound boost tool aclKeywords where
  tool := rfl
  aclKeywords := rfl
  counted _ _ := rfl
  read _ hrow := absurd hrow List.not_mem_nil
  names := List.nodup_nil
  ratios _ hsec := absurd hsec List.not_mem_nil
  keys := List.nodup_nil
  known _ hrow := absurd hrow List.not_mem_nil

theorem countSetting_other {name : Str} (h : opt ≠ name) : (p.countSetting opt).settingsCache name = p.settingsCache name := by
  have hname : ¬ name = opt := fun heq => h heq.symm
  simp [countSetting, hname]

theorem counted_other {name : Str} (hp : p.Sound boost tool aclKeywords) (hother : opt ∉ watched) (hname : name ∈ watched) :
    (p.countSetting opt).settingsCache name = p.stored.countP (·.1 = name) := by
  have hne : opt ≠ name := by
    rintro rfl
    exact hother hname
  exact (countSetting_other hne).trans (hp.counted name hname)

theorem known_store {setting : Setting} {key : Str} (h : p.Known key) :
    ((p.countSetting opt).store opt setting).Known key := by
  obtain htool | hkey | ⟨custom, hcustom, hkey, hcommand⟩ := h
  · exact .inl htool
  · exact .inr (.inl hkey)
  · refine .inr (.inr ⟨custom, hcustom, hkey, ?_⟩)
    have hall : ((p.countSetting opt).store opt setting).siteCommands =
        p.siteCommands ++ [(opt, setting)].filterMap (Setting.siteCommand ·.2) := List.filterMap_append
    rw [hall]
    exact List.mem_append_left _ hcommand

theorem sound_read (h : Read boost fresh p p') (hp : p.Sound boost tool aclKeywords) :
    p'.Sound boost tool aclKeywords := by
  cases h with
  | blank => exact hp
  | @stored k toks setting hk hread =>
    refine { hp with counted := fun name hname => ?_, read := fun row hrow => ?_, known := fun row hrow => ?_ }
    · have hcount := hp.counted name hname
      by_cases heq : k.name = name
      · subst heq
        simp [countSetting, store, hcount]
      · have hstored : ((p.countSetting k.name).store k.name setting).settingsCache name = p.settingsCache name :=
          countSetting_other heq
        rw [hstored, hcount]
        simp [countSetting, store, heq]
    · obtain hrow | hrow := List.mem_append.mp hrow
      · exact hp.read row hrow
      · rw [List.mem_singleton.mp hrow]
        exact ⟨fresh, k, hk, rfl, toks, hread⟩
    · exact known_store (hp.known row hrow)
  | @acl opt key acl hother hknown =>
    refine { hp with counted := fun name hname => ?_, keys := ?_, known := fun row hrow => ?_ }
    · exact counted_other hp hother hname
    · unfold insertACL
      by_cases hkey : key ∈ (p.countSetting opt).commandACLs.map Prod.fst
      · rw [if_pos hkey]
        exact hp.keys
      · rw [if_neg hkey, List.map_append]
        exact List.Nodup.append hp.keys (List.nodup_singleton key) (by simpa using hkey)
    · unfold insertACL at hrow
      by_cases hkey : key ∈ (p.countSetting opt).commandACLs.map Prod.fst
      · rw [if_pos hkey] at hrow
        exact hp.known row hrow
      · rw [if_neg hkey] at hrow
        obtain hrow | hrow := List.mem_append.mp hrow
        · exact hp.known row hrow
        · rw [List.mem_singleton.mp hrow]
          exact hknown
  | @opened opt name hother hnew =>
    refine { hp with counted := fun other hname => ?_, names := ?_, ratios := fun sec hsec => ?_ }
    · exact counted_other hp hother hname
    · have hnames : ((p.countSetting opt).openSection { name := name }).sections.map Section.name =
          p.sections.map Section.name ++ [name] := List.map_append
      rw [hnames]
      exact List.Nodup.append hp.names (List.nodup_singleton name) (by simpa using hnew)
    · obtain hsec | hsec := List.mem_append.mp hsec
      · exact hp.ratios sec hsec
      · rw [List.mem_singleton.mp hsec]
        exact .inl rfl
  | @changed opt name change hother hratio =>
    refine { hp with counted := fun other hname => ?_, names := ?_, ratios := fun sec hsec => ?_ }
    · exact counted_other hp hother hname
    · have hsame : Section.name ∘ changed name change = Section.name := funext (changed_name name change)
      have hnames : (p.sections.map (changed name change)).map Section.name = p.sections.map Section.name := by
        rw [List.map_map, hsame]
      have hnodup := hp.names
      rw [← hnames] at hnodup
      exact hnodup
    · obtain ⟨old, hold, rfl⟩ := List.mem_map.mp hsec
      unfold changed
      by_cases hname : old.name = name
      · rw [if_pos hname]
        obtain hkept | hge := hratio old
        · exact hkept ▸ hp.ratios old hold
        · exact .inr hge
      · rw [if_neg hname]
        exact hp.ratios old hold
  | @closed opt hother =>
    exact { hp with counted := fun name hname => counted_other hp hother hname }

theorem parseLine_sound {fresh : Nat → NukeAction} {i : Nat} {line : Str} (hp : p.Sound boost tool aclKeywords)
    (h : p.parseLine boost fresh i line = .ok p') : p'.Sound boost tool aclKeywords := by
  unfold parseLine at h
  split at h
  · cases h
    exact hp
  · exact sound_read (parse_read h) hp

theorem parseLines_sound {fresh : Nat → NukeAction} {lines : List Str} (i : Nat)
    (hp : p.Sound boost tool aclKeywords) (h : p.parseLines boost fresh i lines = .ok p') :
    p'.Sound boost tool aclKeywords := by
  induction lines generalizing i p with
  | nil =>
    cases h
    exact hp
  | cons line lines ih =>
    rw [parseLines] at h
    cases hline : p.parseLine boost fresh i line with
    | error e =>
      rw [hline] at h
      cases h
    | ok next =>
      rw [hline] at h
      exact ih (i + 1) (parseLine_sound hp hline) h

/-- An error names the first line that is refused, whatever is behind it. -/
theorem load_located (boost : Boost) (fresh : Nat → NukeAction) (i : Nat) (p : Parser) (lines : List Str)
    (e : Fault SettingError) : p.parseLines boost fresh i lines = .error e ↔
      ∃ front line rest p' fault, lines = front ++ line :: rest ∧ p.parseLines boost fresh i front = .ok p' ∧
        p'.parseLine boost fresh (i + front.length) line = .error fault ∧ e = located (i + front.length) fault := by
  induction lines generalizing i p with
  | nil =>
    constructor
    · intro h
      cases h
    · rintro ⟨front, line, rest, -, -, hlines, -⟩
      exact absurd hlines (by simp)
  | cons line lines ih =>
    rw [parseLines]
    cases hline : p.parseLine boost fresh i line with
    | error fault =>
      constructor
      · intro h
        cases h
        exact ⟨[], line, lines, p, fault, rfl, rfl, hline, rfl⟩
      · rintro ⟨front, other, rest, p', fault', hlines, hfront, hother, rfl⟩
        cases front with
        | nil =>
          cases hlines
          cases hfront
          cases hline.symm.trans hother
          rfl
        | cons first front =>
          cases hlines
          rw [parseLines, hline] at hfront
          cases hfront
    | ok next =>
      refine (ih (i + 1) next).trans ⟨?_, ?_⟩
      · rintro ⟨front, other, rest, p', fault, rfl, hfront, hother, rfl⟩
        have hlength : i + 1 + front.length = i + (line :: front).length := by
          rw [List.length_cons]
          omega
        rw [hlength] at hother ⊢
        refine ⟨line :: front, other, rest, p', fault, rfl, ?_, hother, rfl⟩
        rw [parseLines, hline]
        exact hfront
      · rintro ⟨front, other, rest, p', fault, hlines, hfront, hother, rfl⟩
        cases front with
        | nil =>
          cases hlines
          cases hfront
          cases hline.symm.trans hother
        | cons first front =>
          cases hlines
          rw [parseLines, hline] at hfront
          have hlength : i + (line :: front).length = i + 1 + front.length := by
            rw [List.length_cons]
            omega
          rw [hlength] at hother ⊢
          exact ⟨front, other, rest, p', fault, rfl, hfront, hother, rfl⟩

/-! ## A file that is accepted -/

theorem mem_values {name : String} {setting : Setting} (h : setting ∈ p.values name) :
    (name.toList, setting) ∈ p.stored := by
  obtain ⟨⟨opt, stored⟩, hrow, hsome⟩ := List.mem_filterMap.mp h
  dsimp only at hsome
  by_cases hopt : opt = name.toList
  · rw [if_pos hopt] at hsome
    cases hsome
    rw [← hopt]
    exact hrow
  · rw [if_neg hopt] at hsome
    cases hsome

/-- What `SanityCheck` finds in its counts has been stored. -/
theorem values_of_checkSetting {name : String} (hp : p.Sound boost tool aclKeywords) (hname : name.toList ∈ watched)
    (h : p.checkSetting name = true) : p.values name ≠ [] := by
  have hpos : 0 < p.settingsCache name.toList := of_decide_eq_true h
  rw [hp.counted _ hname] at hpos
  obtain ⟨⟨opt, setting⟩, hrow, hopt⟩ := List.countP_pos_iff.mp hpos
  have hmem : setting ∈ p.values name := List.mem_filterMap.mpr ⟨(opt, setting), hrow, if_pos (of_decide_eq_true hopt)⟩
  exact List.ne_nil_of_mem hmem

theorem port_range (hp : p.Sound boost tool aclKeywords) (h : p.values "port" ≠ []) :
    0 ≤ p.lastNumber "port" (-1) ∧ p.lastNumber "port" (-1) ≤ 65535 := by
  obtain ⟨setting, hlast⟩ := Option.ne_none_iff_exists'.mp (mt List.getLast?_eq_none_iff.mp h)
  obtain ⟨fresh, k, hk, hname, toks, hread⟩ := hp.read _ (mem_values (List.mem_of_getLast? hlast))
  obtain ⟨port, rfl, hrange⟩ := port_read hk hname hread
  unfold lastNumber
  rw [hlast]
  exact hrange

theorem hosts_range (hp : p.Sound boost tool aclKeywords) : ∀ host ∈ p.hosts, 0 ≤ host.2 ∧ host.2 ≤ 65535 := by
  intro host hhost
  obtain ⟨setting, hsetting, hmem⟩ := List.mem_flatMap.mp hhost
  obtain ⟨fresh, k, hk, hname, toks, hread⟩ := hp.read _ (mem_values hsetting)
  obtain ⟨hosts, rfl⟩ := host_read hk hname hread
  exact (read_valid hk hread).2 host hmem

theorem hosts_ne_nil (hp : p.Sound boost tool aclKeywords) (h : p.values "db_host" ≠ []) : p.hosts ≠ [] := by
  obtain ⟨setting, hsetting⟩ := List.exists_mem_of_ne_nil _ h
  obtain ⟨fresh, k, hk, hname, toks, hread⟩ := hp.read _ (mem_values hsetting)
  obtain ⟨hosts, rfl⟩ := host_read hk hname hread
  obtain ⟨host, hhost⟩ := List.exists_mem_of_ne_nil _ (read_valid hk hread).1
  exact List.ne_nil_of_mem (List.mem_flatMap.mpr ⟨.hosts hosts, hsetting, hhost⟩)

theorem databaseHosts_range (hp : p.Sound boost tool aclKeywords) :
    ∀ host ∈ p.databaseHosts, 0 ≤ host.2 ∧ host.2 ≤ 65535 := by
  intro host hhost
  obtain hhost | hhost := List.mem_append.mp hhost
  · exact hosts_range hp host hhost
  · by_cases hset : p.checkSetting "db_host" = true
    · rw [if_pos hset] at hhost
      cases hhost
    · rw [if_neg hset] at hhost
      rw [List.mem_singleton.mp hhost]
      decide

theorem databaseHosts_ne_nil (hp : p.Sound boost tool aclKeywords) : p.databaseHosts ≠ [] := by
  unfold databaseHosts
  by_cases hset : p.checkSetting "db_host" = true
  · have hhosts := hosts_ne_nil hp (values_of_checkSetting hp (by decide) hset)
    exact List.append_ne_nil_of_left_ne_nil hhosts _
  · rw [if_neg hset]
    exact List.append_ne_nil_of_right_ne_nil _ (List.cons_ne_nil _ _)

end Invariant

end Parser

/-- What the rest of the server relies on. -/
structure Loaded.WellFormed (boost : Boost) (tool : Bool) (aclKeywords : List Str) (config : Loaded) : Prop where
  required : ∀ name ∈ Parser.requiredSettings, config.parser.values name ≠ []
  port : 0 ≤ config.parser.lastNumber "port" (-1) ∧ config.parser.lastNumber "port" (-1) ≤ 65535
  hosts : config.databaseHosts ≠ [] ∧ ∀ host ∈ config.databaseHosts, 0 ≤ host.2 ∧ host.2 ≤ 65535
  replicaSet : 1 < config.databaseHosts.length → config.parser.values "db_replicaset" ≠ []
  completed : config.loginPrompt ≠ [] ∧ config.allowFxp ≠ [] ∧ config.pathFilter ≠ []
  valid : ∀ row ∈ config.parser.stored, row.2.Valid boost
  names : (config.parser.sections.map Section.name).Nodup
  ratios : ∀ sec ∈ config.parser.sections, sec.ratio = -1 ∨ 0 ≤ sec.ratio
  keys : (config.parser.commandACLs.map Prod.fst).Nodup
  known : tool = false → ∀ key ∈ config.parser.commandACLs.map Prod.fst, key ∈ aclKeywords ∨
    ∃ opt, startsWith opt "custom-".toList = true ∧ key = toLowerCopy opt ∧
      toUpperCopy (opt.drop 7) ∈ config.parser.siteCommands

namespace Parser

section Invariant

variable {boost : Boost} {tool : Bool} {aclKeywords : List Str} {fresh : Nat → NukeAction} {p : Parser}
  {config : Loaded} {lines : List Str}

theorem sanityCheck_wellFormed (hp : p.Sound boost tool aclKeywords) (h : p.sanityCheck = .ok config) :
    config.WellFormed boost tool aclKeywords := by
  unfold sanityCheck at h
  cases hfind : requiredSettings.find? fun setting => !p.checkSetting setting with
  | some setting =>
    rw [hfind] at h
    cases h
  | none =>
    rw [hfind] at h
    dsimp only at h
    split at h
    · cases h
    rename_i hreplica
    cases h
    have hrequired : ∀ name ∈ requiredSettings, p.values name ≠ [] := by
      intro name hname
      have hwatched : name.toList ∈ watched := List.mem_map_of_mem (List.mem_append_left _ hname)
      have hset := List.find?_eq_none.mp hfind name hname
      exact values_of_checkSetting hp hwatched (by simpa using hset)
    refine ⟨hrequired, port_range hp (hrequired "port" (by simp [requiredSettings])), ⟨?_, ?_⟩, ?_, ⟨?_, ?_, ?_⟩, ?_,
      hp.names, hp.ratios, hp.keys, ?_⟩
    · exact databaseHosts_ne_nil hp
    · exact databaseHosts_range hp
    · intro hmany
      refine values_of_checkSetting hp (by decide) ?_
      by_contra hset
      exact hreplica ⟨hmany, by simpa using hset⟩
    · dsimp only
      split
      · simp
      · rename_i hprompt
        simpa using hprompt
    · dsimp only
      split
      · exact List.cons_ne_nil _ _
      · rename_i hrules
        simpa using hrules
    · dsimp only
      split
      · exact List.cons_ne_nil _ _
      · rename_i hfilters
        simpa using hfilters
    · intro row hrow
      obtain ⟨fresh, k, hk, -, toks, hread⟩ := hp.read row hrow
      exact read_valid hk hread
    · intro htool key hkey
      obtain ⟨row, hrow, rfl⟩ := List.mem_map.mp hkey
      obtain hyes | hkeyword | hcustom := hp.known row hrow
      · rw [hp.tool, htool] at hyes
        cases hyes
      · exact .inl (hp.aclKeywords ▸ hkeyword)
      · exact .inr hcustom

end Invariant

end Parser
end Cfg
end Ebftpd
