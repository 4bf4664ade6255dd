import Ebftpd.Cfg.Keyword

/-!
# Ebftpd.Cfg.Parse

A line of the configuration (`Config::Parse`, `ParseGlobal` and `ParseSection` of
`src/cfg/config.cpp`), from any state between two lines. What the lines store is kept in the order of
the lines, each with its keyword; a member that is assigned holds the last of it, a member that is
appended to all of it.

* `wellRead_iff`: a line is read within its words, and what it stores is what it says, if and only if it
  is not `ascii_downloads` without words, `msg_path`, or `nuke_style`.
-/

namespace Ebftpd
namespace Cfg

open Util
open Lib Lib.Positional

structure Parser where
  tool : Bool
  aclKeywords : List Str
  settingsCache : Str → Nat := fun _ => 0
  currentSection : Option Str := none
  -- the map of sections, by their names
  sections : List Section := []
  stored : List (Str × Setting) := []
  commandACLs : List (Str × Acl.ACL) := []
  current_mem : ∀ name, currentSection = some name → name ∈ sections.map Section.name

namespace Parser

theorem no_current {sections : List Section} : ∀ name, (none : Option Str) = some name →
    name ∈ sections.map Section.name := fun _ h => by cases h

theorem mem_open (sections : List Section) (sec : Section) : ∀ name, some sec.name = some name →
    name ∈ (sections ++ [sec]).map Section.name := by
  intro name h
  cases h
  simp

/-- A section with the name, changed but for its name. -/
def changed (name : Str) (change : Section → Section) (sec : Section) : Section :=
  if sec.name = name then { change sec with name := sec.name } else sec

theorem changed_name (name : Str) (change : Section → Section) (sec : Section) :
    (changed name change sec).name = sec.name := by
  unfold changed
  split <;> rfl

theorem mem_changed {current : Option Str} {sections : List Section} (name : Str) (change : Section → Section)
    (h : ∀ n, current = some n → n ∈ sections.map Section.name) :
    ∀ n, current = some n → n ∈ (sections.map (changed name change)).map Section.name := by
  intro n hcurrent
  have hsame : Section.name ∘ changed name change = Section.name := funext (changed_name name change)
  rw [List.map_map, hsame]
  exact h n hcurrent

/-- `settingsCache[opt]++`. -/
def countSetting (p : Parser) (opt : Str) : Parser :=
  { p with settingsCache := fun o => p.settingsCache o + if o = opt then 1 else 0 }

def store (p : Parser) (opt : Str) (setting : Setting) : Parser :=
  { p with stored := p.stored ++ [(opt, setting)] }

local instance : LawfulBEq Str := inferInstance

/-- `insert` into the map leaves an ACL that is there. -/
def insertACL (p : Parser) (keyword : Str) (acl : Acl.ACL) : Parser :=
  { p with commandACLs := if keyword ∈ p.commandACLs.map Prod.fst then p.commandACLs
                          else p.commandACLs ++ [(keyword, acl)] }

def openSection (p : Parser) (sec : Section) : Parser :=
  { p with
    sections := p.sections ++ [sec]
    currentSection := some sec.name
    current_mem := mem_open p.sections sec }

def endSection (p : Parser) : Parser := { p with currentSection := none, current_mem := no_current }

def changeSection (p : Parser) (name : Str) (change : Section → Section) : Parser :=
  { p with
    sections := p.sections.map (changed name change)
    current_mem := mem_changed name change p.current_mem }

def Setting.siteCommand : Setting → Option Str
  | .siteCmd cmd => some cmd.command
  | _ => none

/-- The custom commands so far. -/
def siteCommands (p : Parser) : List Str := p.stored.filterMap (Setting.siteCommand ·.2)

/-- `ParameterCheck`, and then the rest of the branch. -/
def parameterCheck {α : Type} (opt : Str) (parameters : Option (Nat × Option Nat)) (x : Toks α) : Toks α :=
  checked (accepts parameters) (wrongNumber opt) x

/-- A command ACL, behind `-` or `custom-`. -/
def parseACL (p : Parser) (opt key : Str) (known : Bool) (message : String) : Toks Parser :=
  parameterCheck opt (atLeast 1) do
    let toks ← rest 0
    if !known && !p.tool then refuse (.config message)
    else return p.insertACL key (aclOf toks)

def parseSectionStart (p : Parser) (opt : Str) : Toks Parser :=
  parameterCheck opt (exactly 1) do
    let tok ← word 0
    let name := toUpperCopy tok
    if name ∈ p.sections.map Section.name then
      refuse (.config ("Section " ++ String.ofList name ++ " already exists."))
    else return p.openSection { name := name }

section Lines

variable (boost : Boost) (fresh : NukeAction)

/-- The branches that store a setting. -/
def parseKeyword (p : Parser) (opt : Str) : Toks Parser :=
  match (keywords boost fresh).find? (·.name = opt) with
  | some k => do return p.store opt (← k.read)
  | none => refuse (.config ("Invalid global config option: " ++ String.ofList opt))

def parseGlobal (p : Parser) (opt : Str) : Toks Parser :=
  if opt.head? = some '-' then
    let keyword := opt.drop 1
    p.parseACL opt keyword (decide (keyword ∈ p.aclKeywords))
      ("Invalid command acl keyword: " ++ String.ofList keyword)
  else if startsWith opt "custom-".toList then
    let command := toUpperCopy (opt.drop 7)
    p.parseACL opt (toLowerCopy opt) (decide (command ∈ p.siteCommands))
      ("Invalid custom command acl keyword: " ++ String.ofList command)
  else if opt = "section".toList then p.parseSectionStart opt
  else p.parseKeyword boost fresh opt

def parseSection (p : Parser) (name opt : Str) : Toks Parser :=
  if opt = "path".toList then
    parameterCheck opt (atLeast 1) do
      let toks ← rest 0
      return p.changeSection name fun sec => { sec with paths := sec.paths ++ toks }
  else if opt = "separate_credits".toList then
    parameterCheck opt (exactly 1) do
      let separate ← column 0 yesNoToBoolean
      return p.changeSection name fun sec => { sec with separateCredits := separate }
  else if opt = "ratio".toList then
    parameterCheck opt (exactly 1) do
      let ratio ← column 0 (numberFrom 0)
      return p.changeSection name fun sec => { sec with ratio := ratio }
  else if opt = "endsection".toList then return p.endSection
  else refuse (.config ("Invalid section config option: " ++ String.ofList opt))

/-- The keyword of a line, and the words behind it. -/
def cut (line : Str) : Option (Str × List Str) :=
  match (split (trimCopy line) "\t ".toList true).map (Acl.Path.replaceAll · "[:space:]".toList " ".toList) with
  | [] => none
  | opt :: toks => if opt.isEmpty then none else some (toLowerCopy opt, toks)

def parse (p : Parser) (line : Str) : Except (Fault SettingError) Parser :=
  match cut line with
  | none => .ok p
  | some (opt, toks) =>
    let p := p.countSetting opt
    match p.currentSection with
    | some name => p.parseSection name opt toks
    | none => p.parseGlobal boost fresh opt toks

end Lines

/-! ## What a line says -/

/-- The keywords of the settings that have columns of their own, and those of rules. -/
def documentedKeywords : List String :=
  ["nuke_style", "msg_path", "privpath", "secure_ip", "creditcheck", "creditloss", "site_cmd"] ++
    rightKeywords ++ speedKeywords

/-- Each member is the word in its column, and the ACL is all the words behind the columns. -/
def Documented (opt : Str) (toks : List Str) : Setting → Prop
  -- nuke_style <format> <action> <empty kbytes> <empty penalty kbytes>
  | .nukeStyle style => opt = "nuke_style".toList ∧ toks[0]? = some style.format ∧
      toks[1]?.bind nukeAction = some style.action ∧ toks[2]?.bind parseSize = some style.emptyKBytes ∧
      toks[3]?.bind parseSize = some style.emptyPenalty
  -- msg_path <path mask> <path> <acls>
  | .msgpath msg => opt = "msg_path".toList ∧ toks[0]? = some msg.path ∧ toks[1]? = some msg.filepath ∧
      msg.acl = aclOf (toks.drop 2)
  -- privpath <path> <acls>
  | .privpath priv => opt = "privpath".toList ∧ toks[0]? = some priv.path ∧ priv.acl = aclOf (toks.drop 1)
  -- upload <path mask> <acls>, and the others alike
  | .right right => opt ∈ rightKeywords.map String.toList ∧ toks[0]? = some right.path ∧
      right.acl = aclOf (toks.drop 1) ∧ right.specialVar = isSpecialVar right.path
  -- maximum_speed <path mask> <down> <up> <acls>
  | .speedLimit limit => opt ∈ speedKeywords.map String.toList ∧ toks[0]? = some limit.path ∧
      toks[1]?.bind parseSize = some limit.downloads ∧ toks[2]?.bind parseSize = some limit.uploads ∧
      limit.acl = aclOf (toks.drop 3)
  -- secure_ip <num octets> <hostname> <ident> <acls>
  | .secureIp secure => opt = "secure_ip".toList ∧
      toks[0]?.bind (numberFrom 0) = some (secure.strength.numOctets : Int) ∧
      toks[1]?.bind yesNoToBoolean = some secure.strength.isHostname ∧
      toks[2]?.bind yesNoToBoolean = some secure.strength.hasIdent ∧ secure.acl = aclOf (toks.drop 3)
  -- creditcheck <path mask> <ratio> <acls>
  | .creditcheck credit => opt = "creditcheck".toList ∧ toks[0]? = some credit.path ∧
      toks[1]?.bind (numberFrom 0) = some credit.ratio ∧ credit.acl = aclOf (toks.drop 2)
  | .creditloss credit => opt = "creditloss".toList ∧ toks[0]? = some credit.path ∧
      toks[1]?.bind (numberFrom 0) = some credit.ratio ∧ credit.acl = aclOf (toks.drop 2)
  -- site_cmd <syntax> <description> <exec|text|alias> <target> [<arguments>]
  | .siteCmd cmd => opt = "site_cmd".toList ∧
      (∃ tok, toks[0]? = some tok ∧ cmd.command = toUpperCopy ((split tok " ".toList true).headD []) ∧
        cmd.syntaxText = join (cmd.command :: (split tok " ".toList true).tail) " ".toList) ∧
      toks[1]? = some cmd.description ∧ toks[2]?.bind SiteCmd.kindOf = some cmd.kind ∧
      toks[3]? = some cmd.target ∧ cmd.arguments = toks[4]?.getD []
  | _ => False

/-- The line is read within its words, and a line outside of a section with one of the keywords stores
what it says. -/
def WellRead (p : Parser) (line : Str) : Prop := ∀ boost fresh,
  p.parse boost fresh line ≠ .error .outOfRange ∧
    ∀ p' opt toks, p.parse boost fresh line = .ok p' → p.currentSection = none → cut line = some (opt, toks) →
      opt ∈ documentedKeywords.map String.toList →
      ∃ setting, p'.stored = p.stored ++ [(opt, setting)] ∧ Documented opt toks setting

/-- The words of `msg_path` that it reads one too many of, or makes another ACL of. The words of the two
paths go unnoticed if they are nothing but spaces, and the ACL begins with one. -/
def MisreadMsgpath : List Str → Prop
  | [] => False
  | [_] => True
  | path :: filepath :: acls =>
    ¬ ((∀ c ∈ path ++ filepath, c = ' ') ∧ (join acls " ".toList).head? = some ' ')

/-- The words of `nuke_style` that are accepted. -/
def AcceptedNukeStyle (toks : List Str) : Prop :=
  toks.length = 4 ∧ (toks[1]?.bind nukeAction).isSome = true ∧ (toks[2]?.bind parseSize).isSome = true ∧
    (toks[3]?.bind parseSize).isSome = true

def Misread (opt : Str) (toks : List Str) : Prop :=
  (opt = "ascii_downloads".toList ∧ toks = []) ∨ (opt = "msg_path".toList ∧ MisreadMsgpath toks) ∨
    (opt = "nuke_style".toList ∧ AcceptedNukeStyle toks)

/-! ## The ACL of all words -/

theorem flatten_splitLoop {delim : Char → Bool} (s : Str) : ∀ (prev : Bool) (cur : Str),
    (splitLoop delim true prev cur s).flatten = cur ++ s.filter fun c => !delim c := by
  induction s with
  | nil =>
    intro prev cur
    simp [splitLoop]
  | cons c s ih =>
    intro prev cur
    rw [splitLoop]
    by_cases hc : delim c = true
    · rw [if_pos hc, List.filter_cons_of_neg (by simp [hc])]
      split
      · exact ih true cur
      · rw [List.flatten_cons, ih, List.nil_append]
    · rw [if_neg hc, ih, List.filter_cons_of_pos (by simp [hc])]
      simp

/-- Spaces in front of a word make one empty piece. -/
theorem splitLoop_spaces {s : Str} (hs : ∀ c ∈ s, c = ' ') (rest : Str) :
    splitLoop (fun c => " ".toList.contains c) true true [] (s ++ rest) =
      splitLoop (fun c => " ".toList.contains c) true true [] rest := by
  induction s with
  | nil => rfl
  | cons c s ih =>
    have hc : c = ' ' := hs c List.mem_cons_self
    subst hc
    rw [List.cons_append, splitLoop, if_pos (by decide), if_pos (by decide)]
    exact ih fun d hd => hs d (List.mem_cons_of_mem _ hd)

theorem split_spaces {s : Str} (hs : ∀ c ∈ s, c = ' ') (rest : Str) :
    split (' ' :: (s ++ rest)) " ".toList true =
      [] :: splitLoop (fun c => " ".toList.contains c) true true [] rest := by
  rw [split, splitLoop, if_pos (by decide), if_neg (by decide), splitLoop_spaces hs]

/-- Words in front of a text make other pieces of it, unless they are spaces in front of spaces. -/
theorem split_append_iff {front rest : Str} (hfront : ' ' ∈ front) :
    split (front ++ rest) " ".toList true = split rest " ".toList true ↔
      (∀ c ∈ front, c = ' ') ∧ rest.head? = some ' ' := by
  have hspaces : (∀ c ∈ front, c = ' ') → ∃ s, front = ' ' :: s ∧ ∀ c ∈ s, c = ' ' := by
    intro hall
    obtain ⟨c, s, rfl⟩ := List.exists_cons_of_ne_nil (List.ne_nil_of_mem hfront)
    obtain rfl : c = ' ' := hall c List.mem_cons_self
    exact ⟨s, rfl, fun c hc => hall c (List.mem_cons_of_mem _ hc)⟩
  constructor
  · intro h
    have hall : ∀ c ∈ front, c = ' ' := by
      have hflat := congrArg List.flatten h
      rw [split, split, flatten_splitLoop, flatten_splitLoop, List.nil_append, List.nil_append,
        List.filter_append] at hflat
      have hnil := List.append_left_eq_self.mp hflat
      intro c hc
      simpa using List.filter_eq_nil_iff.mp hnil c hc
    refine ⟨hall, ?_⟩
    obtain ⟨s, rfl, hs⟩ := hspaces hall
    rw [List.cons_append, split_spaces hs] at h
    cases rest with
    | nil => simp [split, splitLoop] at h
    | cons c rest =>
      by_contra hc
      have hdelim : " ".toList.contains c = false := by simpa using hc
      have hlength := congrArg List.length h
      simp only [split, splitLoop, hdelim, Bool.false_eq_true, if_false, List.length_cons] at hlength
      omega
  · rintro ⟨hall, hrest⟩
    obtain ⟨s, rfl, hs⟩ := hspaces hall
    obtain ⟨rest, rfl⟩ := List.head?_eq_some_iff.mp hrest
    have hone : split (' ' :: rest) " ".toList true = [] :: splitLoop (fun c => " ".toList.contains c) true true [] rest :=
      split_spaces (s := []) (fun _ h => by cases h) rest
    have htwo := splitLoop_spaces (s := [' ']) (by simp) rest
    rw [List.cons_append, split_spaces hs, hone]
    exact congrArg _ htwo

def negation (negate : Bool) : Str := if negate then ['!'] else []

/-- The word of an ACL that a permission is made of. -/
def permissionText : Acl.Permission → Str
  | .flag flags negate => negation negate ++ flags
  | .user username negate => negation negate ++ '-' :: username
  | .group groupname negate => negation negate ++ '=' :: groupname

theorem permissionText_ofText (text : Str) (negate : Bool) : permissionText (.ofText text negate) = negation negate ++ text := by
  unfold Acl.Permission.ofText
  by_cases huser : text.head? = some '-'
  · obtain ⟨rest, rfl⟩ := List.head?_eq_some_iff.mp huser
    rfl
  · by_cases hgroup : text.head? = some '='
    · obtain ⟨rest, rfl⟩ := List.head?_eq_some_iff.mp hgroup
      rfl
    · rw [if_neg huser, if_neg hgroup]
      rfl

theorem permissionText_fromStringArg (arg : Str) : permissionText (Acl.fromStringArg arg) = arg := by
  unfold Acl.fromStringArg
  by_cases hnegate : arg.head? = some '!'
  · obtain ⟨rest, rfl⟩ := List.head?_eq_some_iff.mp hnegate
    rw [if_pos hnegate, permissionText_ofText]
    rfl
  · rw [if_neg hnegate, permissionText_ofText]
    rfl

theorem fromString_inj {s t : Str} :
    Acl.ACL.fromString s = Acl.ACL.fromString t ↔ split s " ".toList true = split t " ".toList true := by
  constructor
  · intro h
    have hinj : Function.Injective Acl.fromStringArg := Function.LeftInverse.injective permissionText_fromStringArg
    exact List.map_injective_iff.mpr hinj (congrArg Acl.ACL.perms h)
  · intro h
    rw [Acl.ACL.fromString, h, Acl.ACL.fromString]

theorem join_cons {tok : Str} {toks : List Str} (h : toks ≠ []) (delim : Str) :
    join (tok :: toks) delim = tok ++ (delim ++ join toks delim) := by
  obtain ⟨tok', toks, rfl⟩ := List.exists_cons_of_ne_nil h
  rfl

/-- The ACL of all the words of `msg_path` is that of the words behind the paths only where nothing but
spaces is in front of spaces. -/
theorem aclOf_msgpath {path filepath : Str} {acls : List Str} :
    aclOf (path :: filepath :: acls) = aclOf acls ↔
      (∀ c ∈ path ++ filepath, c = ' ') ∧ (join acls " ".toList).head? = some ' ' := by
  rw [aclOf, aclOf, fromString_inj]
  have hsep : " ".toList = [' '] := by decide
  by_cases hacls : acls = []
  · subst hacls
    have hjoin : join [path, filepath] " ".toList = (path ++ " ".toList ++ filepath) ++ [] := by
      simp [join, List.intercalate]
    have hempty : join [] " ".toList = [] := rfl
    rw [hjoin, hempty, split_append_iff (by simp [hsep])]
    simp [hsep]
  · have hjoin : join (path :: filepath :: acls) " ".toList =
        (path ++ " ".toList ++ filepath ++ " ".toList) ++ join acls " ".toList := by
      rw [join_cons (List.cons_ne_nil _ _), join_cons hacls]
      simp only [List.append_assoc]
    rw [hjoin, split_append_iff (by simp [hsep]), hsep]
    refine and_congr_left fun _ => ⟨fun h c hc => h c ?_, fun h c hc => ?_⟩
    · simp only [List.mem_append] at hc ⊢
      tauto
    · simp only [List.mem_append, List.mem_singleton] at h hc
      rcases hc with ((hc | hc) | hc) | hc
      · exact h c (.inl hc)
      · exact hc
      · exact h c (.inr hc)
      · exact hc

/-! ## Each keyword -/

section Keywords

variable {boost : Boost} {fresh : NukeAction} {k : Keyword} {toks : List Str} {setting : Setting}

theorem read_ok : k.read toks = .ok setting ↔
    accepts k.parameters toks.length = true ∧ k.ofToks toks = .ok setting := checked_ok

theorem stores_ok {α : Type} {f : α → Setting} {x : Toks α} :
    stores f x toks = .ok setting ↔ ∃ value, x toks = .ok value ∧ f value = setting := by
  simp [stores]

/-- Every keyword that is not read wrong stays within its words. -/
theorem safe_keyword (hk : k ∈ keywords boost fresh) (h : ¬ Misread k.name toks) :
    k.read toks ≠ .error .outOfRange := by
  simp only [keywords, List.mem_append] at hk
  rcases hk with ((((hk | hk) | hk) | hk) | hk) | hk
  · simp only [misreadKeywords, List.mem_cons, List.not_mem_nil, or_false] at hk
    rcases hk with rfl | rfl | rfl
    · have htoks : toks ≠ [] := fun htoks => h (.inl ⟨rfl, htoks⟩)
      have hlen : 1 ≤ toks.length := List.length_pos_iff.mpr htoks
      exact within_stores within_asciiDownloads toks hlen
    · intro hfault
      match toks with
      | [] => exact absurd hfault (by simp [Keyword.read, checked, accepts, atLeast])
      | [tok] => exact h (.inr (.inl ⟨rfl, trivial⟩))
      | path :: filepath :: acls =>
        have hread : (Keyword.read ⟨"msg_path".toList, atLeast 1, stores .msgpath Msgpath.ofToks⟩)
            (path :: filepath :: acls) = stores .msgpath Msgpath.ofToks (path :: filepath :: acls) := by
          rw [Keyword.read, checked, if_pos (by simp [accepts, atLeast])]
        rw [hread] at hfault
        exact within_stores within_msgpath _ (by simp) hfault
    · exact Keyword.safe_exactly (within_stores (within_nukeStyle fresh)) (by omega) toks
  · exact Keyword.safe_ruleKeywords k hk toks
  · exact Keyword.safe_rightRows k hk toks
  · exact Keyword.safe_speedRows k hk toks
  · exact Keyword.safe_plainKeywords boost k hk toks
  · exact Keyword.safe_familyKeywords k hk toks

theorem toList_mem_map {name : String} {names : List String} : name.toList ∈ names.map String.toList ↔ name ∈ names :=
  List.mem_map_of_injective fun _ _ => String.toList_injective

theorem not_documented (boost : Boost) : (∀ k ∈ plainKeywords boost, k.name ∉ documentedKeywords.map String.toList) ∧
    ∀ k ∈ familyKeywords, k.name ∉ documentedKeywords.map String.toList := by
  constructor
  · simp only [plainKeywords, List.forall_mem_cons, toList_mem_map, List.not_mem_nil, false_imp_iff, implies_true,
      and_true]
    and_intros <;> decide
  · simp only [familyKeywords, List.forall_mem_append, List.forall_mem_map, toList_mem_map]
    decide

theorem accepts_le {minimum maximum n : Nat} (h : accepts (some (minimum, some maximum)) n = true) :
    minimum ≤ n ∧ n ≤ maximum := by
  simpa [accepts] using h

/-- What a keyword stores, where it is read right, is what the line says. -/
theorem documented_keyword (hk : k ∈ keywords boost fresh) (hname : k.name ∈ documentedKeywords.map String.toList)
    (h : ¬ Misread k.name toks) (hread : k.read toks = .ok setting) : Documented k.name toks setting := by
  obtain ⟨hcount, hread⟩ := read_ok.mp hread
  simp only [keywords, List.mem_append] at hk
  rcases hk with ((((hk | hk) | hk) | hk) | hk) | hk
  · simp only [misreadKeywords, List.mem_cons, List.not_mem_nil, or_false] at hk
    rcases hk with rfl | rfl | rfl
    · exact absurd hname (by decide)
    · obtain ⟨value, hvalue, rfl⟩ := stores_ok.mp hread
      obtain ⟨hpath, hfile, hacl⟩ := msgpath_iff.mp hvalue
      refine ⟨rfl, hpath, hfile, ?_⟩
      match toks with
      | [] => cases hpath
      | [_] => cases hfile
      | path :: filepath :: acls =>
        refine hacl.trans (aclOf_msgpath.mpr ?_)
        by_contra hne
        exact h (.inr (.inl ⟨rfl, hne⟩))
    · obtain ⟨value, hvalue, rfl⟩ := stores_ok.mp hread
      obtain ⟨-, haction, -, hkBytes, hpenalty⟩ := nukeStyle_iff.mp hvalue
      obtain ⟨hge, hle⟩ := accepts_le hcount
      refine absurd (.inr (.inr ⟨rfl, Nat.le_antisymm hle hge, haction, ?_, ?_⟩)) h
      · rw [hkBytes]
        rfl
      · rw [hpenalty]
        rfl
  · simp only [ruleKeywords, List.mem_cons, List.not_mem_nil, or_false] at hk
    rcases hk with rfl | rfl | rfl | rfl | rfl
    all_goals obtain ⟨value, hvalue, rfl⟩ := stores_ok.mp hread
    · exact ⟨rfl, secureIp_columns hvalue⟩
    · exact ⟨rfl, creditcheck_columns hvalue⟩
    · exact ⟨rfl, creditloss_columns hvalue⟩
    · exact ⟨rfl, privpath_columns hvalue⟩
    · exact ⟨rfl, siteCmd_columns (accepts_le hcount).2 hvalue⟩
  · obtain ⟨name, hmem, rfl⟩ := List.mem_map.mp hk
    obtain ⟨value, hvalue, rfl⟩ := stores_ok.mp hread
    exact ⟨List.mem_map_of_mem hmem, right_columns hvalue⟩
  · obtain ⟨name, hmem, rfl⟩ := List.mem_map.mp hk
    obtain ⟨value, hvalue, rfl⟩ := stores_ok.mp hread
    exact ⟨List.mem_map_of_mem hmem, speedLimit_read hvalue⟩
  · exact absurd hname ((not_documented boost).1 k hk)
  · exact absurd hname ((not_documented boost).2 k hk)

end Keywords

/-! ## Each line -/

section Lines

variable {boost : Boost} {fresh : NukeAction} {p p' : Parser} {opt name line : Str} {toks : List Str}

theorem safe_parameterCheck {α : Type} {minimum : Nat} {maximum : Option Nat} {x : Toks α} (h : Within minimum x) :
    parameterCheck opt (some (minimum, maximum)) x toks ≠ .error .outOfRange := by
  refine checked_safe h fun n hn => ?_
  cases maximum with
  | none => simpa [accepts] using hn
  | some maximum => exact (accepts_le hn).1

theorem safe_parseSection : p.parseSection name opt toks ≠ .error .outOfRange := by
  unfold parseSection
  split
  · exact safe_parameterCheck (within_rest_pure (Nat.zero_le _))
  split
  · exact safe_parameterCheck (within_column_pure (by omega))
  split
  · exact safe_parameterCheck (within_column_pure (by omega))
  split
  · exact within_pure (n := 0) _ toks (Nat.zero_le _)
  · exact within_refuse (n := 0) _ toks (Nat.zero_le _)

theorem safe_parseACL {key : Str} {known : Bool} {message : String} :
    p.parseACL opt key known message toks ≠ .error .outOfRange :=
  safe_parameterCheck (within_bind (within_rest (Nat.zero_le _)) fun _ => within_ite (within_refuse _) (within_pure _))

theorem safe_parseSectionStart : p.parseSectionStart opt toks ≠ .error .outOfRange :=
  safe_parameterCheck (within_bind (within_word (by omega)) fun _ => within_ite (within_refuse _) (within_pure _))

theorem find_keyword {k : Keyword} (h : (keywords boost fresh).find? (·.name = opt) = some k) :
    k ∈ keywords boost fresh ∧ k.name = opt :=
  ⟨List.mem_of_find?_eq_some h, by simpa using List.find?_some h⟩

theorem safe_parseKeyword (h : ¬ Misread opt toks) : p.parseKeyword boost fresh opt toks ≠ .error .outOfRange := by
  unfold parseKeyword
  cases hfind : (keywords boost fresh).find? (·.name = opt) with
  | none => exact within_refuse (n := 0) _ toks (Nat.zero_le _)
  | some k =>
    obtain ⟨hk, rfl⟩ := find_keyword hfind
    exact fun hfault => safe_keyword hk h (bind_pure_error.mp hfault)

theorem safe_parseGlobal (h : ¬ Misread opt toks) : p.parseGlobal boost fresh opt toks ≠ .error .outOfRange := by
  unfold parseGlobal
  split
  · exact safe_parseACL
  split
  · exact safe_parseACL
  split
  · exact safe_parseSectionStart
  · exact safe_parseKeyword h

/-- The keywords of interest are in the table. -/
theorem parseGlobal_keyword (hopt : opt ∈ ("ascii_downloads" :: documentedKeywords).map String.toList) :
    p.parseGlobal boost fresh opt = p.parseKeyword boost fresh opt := by
  have hplain : ∀ opt ∈ ("ascii_downloads" :: documentedKeywords).map String.toList,
      opt.head? ≠ some '-' ∧ startsWith opt "custom-".toList = false ∧ opt ≠ "section".toList := by
    decide
  obtain ⟨hhead, hcustom, hsection⟩ := hplain opt hopt
  rw [parseGlobal, if_neg hhead, if_neg (by rw [hcustom]; decide), if_neg hsection]

theorem stored_keyword (hopt : opt ∈ documentedKeywords.map String.toList) (h : ¬ Misread opt toks)
    (hparse : p.parseKeyword boost fresh opt toks = .ok p') :
    ∃ setting, p'.stored = p.stored ++ [(opt, setting)] ∧ Documented opt toks setting := by
  unfold parseKeyword at hparse
  cases hfind : (keywords boost fresh).find? (·.name = opt) with
  | none =>
    rw [hfind] at hparse
    cases hparse
  | some k =>
    rw [hfind] at hparse
    obtain ⟨hk, rfl⟩ := find_keyword hfind
    obtain ⟨setting, hread, hstore⟩ := bind_ok.mp hparse
    cases hstore
    exact ⟨setting, rfl, documented_keyword hk hopt h hread⟩

theorem parse_global (hcurrent : p.currentSection = none) (hcut : cut line = some (opt, toks)) :
    p.parse boost fresh line = (p.countSetting opt).parseGlobal boost fresh opt toks := by
  have hsame : (p.countSetting opt).currentSection = none := hcurrent
  simp only [parse, hcut, hsame]

theorem wellRead_of_not_misread (h : p.currentSection = none → ∀ opt toks, cut line = some (opt, toks) →
    ¬ Misread opt toks) : WellRead p line := by
  intro boost fresh
  refine ⟨?_, fun p' opt toks hparse hcurrent hcut hopt => ?_⟩
  · cases hcut : cut line with
    | none =>
      simp only [parse, hcut]
      exact fun hfault => by cases hfault
    | some words =>
      obtain ⟨opt, toks⟩ := words
      cases hcurrent : p.currentSection with
      | none =>
        rw [parse_global hcurrent hcut]
        exact safe_parseGlobal (h hcurrent opt toks hcut)
      | some name =>
        have hsame : (p.countSetting opt).currentSection = some name := hcurrent
        simp only [parse, hcut, hsame]
        exact safe_parseSection
  · rw [parse_global hcurrent hcut, parseGlobal_keyword (List.mem_cons_of_mem _ hopt)] at hparse
    exact stored_keyword (p := p.countSetting opt) hopt (h hcurrent opt toks hcut) hparse

/-! ## Lines that are misread -/

theorem find_asciiDownloads : (keywords boost fresh).find? (·.name = "ascii_downloads".toList) =
    some ⟨"ascii_downloads".toList, none, stores .asciiDownloads AsciiDownloads.ofToks⟩ :=
  List.find?_cons_of_pos (by simp)

theorem find_msgpath : (keywords boost fresh).find? (·.name = "msg_path".toList) =
    some ⟨"msg_path".toList, atLeast 1, stores .msgpath Msgpath.ofToks⟩ := by
  exact (List.find?_cons_of_neg (by simp)).trans (List.find?_cons_of_pos (by simp))

theorem find_nukeStyle : (keywords boost fresh).find? (·.name = "nuke_style".toList) =
    some ⟨"nuke_style".toList, exactly 4, stores .nukeStyle (NukeStyle.ofToks fresh)⟩ := by
  exact (List.find?_cons_of_neg (by simp)).trans
    ((List.find?_cons_of_neg (by simp)).trans (List.find?_cons_of_pos (by simp)))

theorem parse_keyword {k : Keyword} (hcurrent : p.currentSection = none) (hcut : cut line = some (opt, toks))
    (hopt : opt ∈ ("ascii_downloads" :: documentedKeywords).map String.toList)
    (hfind : (keywords boost fresh).find? (·.name = opt) = some k) :
    p.parse boost fresh line = (k.read >>= fun setting => pure ((p.countSetting opt).store opt setting)) toks := by
  rw [parse_global hcurrent hcut, parseGlobal_keyword hopt, parseKeyword, hfind]

/-- A line that is read well stores what it says. -/
theorem documented_of_wellRead (boost : Boost) (fresh : NukeAction) {k : Keyword} {setting : Setting}
    (h : WellRead p line)
    (hcurrent : p.currentSection = none) (hcut : cut line = some (opt, toks))
    (hopt : opt ∈ documentedKeywords.map String.toList)
    (hfind : (keywords boost fresh).find? (·.name = opt) = some k) (hread : k.read toks = .ok setting) :
    Documented opt toks setting := by
  have hparse : p.parse boost fresh line = .ok ((p.countSetting opt).store opt setting) := by
    rw [parse_keyword hcurrent hcut (List.mem_cons_of_mem _ hopt) hfind]
    exact bind_ok.mpr ⟨setting, hread, rfl⟩
  obtain ⟨setting', hstored, hdocumented⟩ := (h boost fresh).2 _ opt toks hparse hcurrent hcut hopt
  have hsame : setting = setting' := by
    have hlast := List.append_cancel_left hstored
    simpa using hlast
  rw [hsame]
  exact hdocumented

end Lines

/-- Nothing is a regular expression, and durations are seconds. -/
def noBoost : Boost := ⟨fun _ => false, id, id⟩

variable {p : Parser} {line : Str} {toks : List Str}

theorem not_asciiDownloads (h : WellRead p line) (hcurrent : p.currentSection = none) :
    cut line ≠ some ("ascii_downloads".toList, []) := by
  intro hcut
  refine (h noBoost .Keep).1 ?_
  rw [parse_keyword hcurrent hcut List.mem_cons_self find_asciiDownloads]
  exact bind_pure_error.mpr rfl

theorem not_misreadMsgpath (h : WellRead p line) (hcurrent : p.currentSection = none)
    (hcut : cut line = some ("msg_path".toList, toks)) : ¬ MisreadMsgpath toks := by
  have hopt : "msg_path".toList ∈ documentedKeywords.map String.toList := List.mem_map_of_mem (by decide)
  intro hmsg
  match toks with
  | [] => exact hmsg
  | [path] =>
    refine (h noBoost .Keep).1 ?_
    rw [parse_keyword hcurrent hcut (List.mem_cons_of_mem _ hopt) find_msgpath]
    exact bind_pure_error.mpr rfl
  | path :: filepath :: acls =>
    have hread : (Keyword.read ⟨"msg_path".toList, atLeast 1, stores .msgpath Msgpath.ofToks⟩)
        (path :: filepath :: acls) = .ok (.msgpath ⟨path, filepath, aclOf (path :: filepath :: acls)⟩) :=
      read_ok.mpr ⟨by simp [accepts, atLeast], stores_ok.mpr ⟨_, msgpath_iff.mpr ⟨rfl, rfl, rfl⟩, rfl⟩⟩
    have hdocumented := documented_of_wellRead noBoost .Keep h hcurrent hcut hopt
      find_msgpath hread
    exact hmsg (aclOf_msgpath.mp hdocumented.2.2.2)

/-- What is in the memory of a `NukeStyle` may be another action than the one that is read. -/
theorem other_action (action : NukeAction) : ∃ fresh : NukeAction, fresh ≠ action := by
  cases action with
  | DeleteAll => exact ⟨.Keep, by decide⟩
  | KeepDir => exact ⟨.Keep, by decide⟩
  | Keep => exact ⟨.DeleteAll, by decide⟩

theorem not_acceptedNukeStyle (h : WellRead p line) (hcurrent : p.currentSection = none)
    (hcut : cut line = some ("nuke_style".toList, toks)) : ¬ AcceptedNukeStyle toks := by
  have hopt : "nuke_style".toList ∈ documentedKeywords.map String.toList := List.mem_map_of_mem (by decide)
  rintro ⟨hlen, haction, hkBytes, hpenalty⟩
  obtain ⟨action, hread⟩ := Option.isSome_iff_exists.mp haction
  obtain ⟨kBytes, hkBytes⟩ := Option.isSome_iff_exists.mp hkBytes
  obtain ⟨penalty, hpenalty⟩ := Option.isSome_iff_exists.mp hpenalty
  obtain ⟨fresh, hfresh⟩ := other_action action
  obtain ⟨format, hformat⟩ : ∃ format, toks[0]? = some format :=
    Option.isSome_iff_exists.mp (by simp [hlen])
  obtain ⟨tok, -, hsize⟩ := Option.bind_eq_some_iff.mp hpenalty
  let style : NukeStyle := {
    format := format
    action := fresh
    emptyKBytes := kBytes
    emptyPenalty := penalty
    emptyPenalty_bounds := parseSize_bounds hsize }
  have hstyle : NukeStyle.ofToks fresh toks = .ok style :=
    nukeStyle_iff.mpr ⟨hformat, haction, rfl, hkBytes, hpenalty⟩
  have hkeyword : (Keyword.read ⟨"nuke_style".toList, exactly 4, stores .nukeStyle (NukeStyle.ofToks fresh)⟩) toks =
      .ok (.nukeStyle style) := read_ok.mpr ⟨by simp [accepts, exactly, hlen], stores_ok.mpr ⟨_, hstyle, rfl⟩⟩
  have hdocumented := documented_of_wellRead noBoost fresh h hcurrent hcut hopt
    find_nukeStyle hkeyword
  have hsame : some action = some fresh := hread.symm.trans hdocumented.2.2.1
  exact hfresh (Option.some.inj hsame).symm

/-- A line is read within its words, and what it stores is what it says, if and only if it is in a section
or none of the three that are misread. -/
theorem wellRead_iff (p : Parser) (line : Str) : WellRead p line ↔
    (p.currentSection = none → ∀ opt toks, cut line = some (opt, toks) → ¬ Misread opt toks) := by
  constructor
  · rintro h hcurrent opt toks hcut (⟨rfl, rfl⟩ | ⟨rfl, hmsg⟩ | ⟨rfl, hnuke⟩)
    · exact not_asciiDownloads h hcurrent hcut
    · exact not_misreadMsgpath h hcurrent hcut hmsg
    · exact not_acceptedNukeStyle h hcurrent hcut hnuke
  · exact wellRead_of_not_misread

/-- A server that has read nothing. -/
def start : Parser where
  tool := false
  aclKeywords := []
  current_mem := no_current

/-- A size and a file that are not there, an ACL with the paths in it, and an action that is not kept. -/
theorem misread_lines :
    start.parse noBoost .Keep "ascii_downloads".toList = .error .outOfRange ∧
      start.parse noBoost .Keep "msg_path /mp3".toList = .error .outOfRange ∧
      ¬ WellRead start "msg_path /mp3 hello.msg *".toList ∧
      ¬ WellRead start "nuke_style NUKED-%N deleteall 10 20".toList := by
  have hascii : cut "ascii_downloads".toList = some ("ascii_downloads".toList, []) := by decide
  have hpath : cut "msg_path /mp3".toList = some ("msg_path".toList, ["/mp3".toList]) := by decide
  have hmsg : cut "msg_path /mp3 hello.msg *".toList =
      some ("msg_path".toList, ["/mp3".toList, "hello.msg".toList, ['*']]) := by decide
  have hnuke : cut "nuke_style NUKED-%N deleteall 10 20".toList =
      some ("nuke_style".toList, ["NUKED-%N".toList, "deleteall".toList, "10".toList, "20".toList]) := by
    decide
  have hopt : "msg_path".toList ∈ documentedKeywords.map String.toList := List.mem_map_of_mem (by decide)
  refine ⟨?_, ?_, fun h => not_misreadMsgpath h rfl hmsg ?_, fun h => not_acceptedNukeStyle h rfl hnuke ?_⟩
  · rw [parse_keyword rfl hascii List.mem_cons_self find_asciiDownloads]
    exact bind_pure_error.mpr rfl
  · rw [parse_keyword rfl hpath (List.mem_cons_of_mem _ hopt) find_msgpath]
    exact bind_pure_error.mpr rfl
  · exact fun hspaces => absurd (hspaces.1 '/' (by decide)) (by decide)
  · exact ⟨rfl, by decide, by decide, by decide⟩

end Parser
end Cfg
end Ebftpd
