import Mathlib.Data.List.DropRight
import Ebftpd.Acl.Misc
import Ebftpd.Ftp.Client

/-!
# Ebftpd.Cmd.SiteAlias

`SITE` and its custom commands (`SITECommand::Execute` in `src/cmd/rfc/commands.cpp`,
`src/cmd/site/factory.cpp`, `src/cmd/site/customcommand.cpp`). A command line is there twice, as text
and as a list of arguments. An alias puts the arguments of its target into the list and not into the
text, and looks its target up as it was configured, since the constructor of `SiteCmd` sets the
target behind the line that would bring it to upper case.

The built-in commands are a parameter. Of the class of a command the table holds what it does with its
own name and which of the two exceptions it throws. What runs is an `Invocation`; two invocations that
are equal have the same effect and the same replies. The command scripts go by the name that was
typed, and the security log is not a reply: both are left out.

* `splitArgs_weight`: `SplitArgs` loses characters that `Split` keeps, at least the braces.
* `sameArguments_iff`: text and list both come out as those of the target only if the target has no
  arguments.
* `alias_means_target_iff`: which aliases mean their target, and for which texts.
-/

namespace Ebftpd
namespace Cmd
namespace SiteAlias

open Util Acl Acl.Path Ftp

/-! ## Splitting a command line -/

/-- Between two arguments, in one with braces, or in one without; the latter two with what was read
of it. -/
inductive Mode where
  | skip
  | brace (acc : Str)
  | word (acc : Str)

/-- The loop of `SplitArgs`. An argument without its closing brace ends the loop and is dropped. -/
def splitArgsLoop : Mode → Str → List Str
  | .skip, [] => []
  | .skip, c :: cs =>
    if isSpace c then splitArgsLoop .skip cs
    else if c = '{' then splitArgsLoop (.brace []) cs
    else splitArgsLoop (.word [c]) cs
  | .brace _, [] => []
  | .brace acc, c :: cs =>
    if c = '}' then trimCopy acc :: splitArgsLoop .skip cs else splitArgsLoop (.brace (acc ++ [c])) cs
  | .word acc, [] => [trimCopy acc]
  | .word acc, c :: cs =>
    if c = ' ' then trimCopy acc :: splitArgsLoop .skip cs else splitArgsLoop (.word (acc ++ [c])) cs

def splitArgs (command : Str) : List Str := splitArgsLoop .skip command

/-- `util::Split(args, argStr, " ", true)`, which is not called for an empty text. -/
def splitWords (argStr : Str) : List Str := if argStr.isEmpty then [] else split argStr " ".toList true

def isASCIIOnly (s : Str) : Bool := s.all fun c => c.toNat ≤ 127

/-! ## The commands -/

/-- What the class of a command does besides its work. -/
structure Class where
  -- the name `args[0]` is compared with
  comparesName : Option Str
  throwsSyntax : Bool
  throwsPermission : Bool
  deriving DecidableEq

structure CommandDef where
  minimumArgs : Int
  maximumArgs : Int
  aclKeyword : Str
  -- `none` where there is no creator
  creator : Option Class
  syntaxText : Str
  deriving DecidableEq

def CommandDef.checkArgs (d : CommandDef) (args : List Str) : Bool :=
  let argsSize : Int := args.length - 1
  decide (argsSize ≥ d.minimumArgs) && (d.maximumArgs == -1 || decide (argsSize ≤ d.maximumArgs))

/-- The map of the built-in commands. Its keys are in upper case. -/
structure Factory where
  find : Str → Option CommandDef
  upper : ∀ name d, find name = some d → toUpperCopy name = name
  syntaxPrefix : ∀ name d, find name = some d → "Syntax: ".toList <+: d.syntaxText

inductive SiteCmdType where
  | Exec | Text | Alias
  deriving DecidableEq

structure SiteCmd where
  command : Str
  type : SiteCmdType
  target : Str
  arguments : Str
  deriving DecidableEq

/-- The constructor: syntax, type and target of a `site_cmd` line, and the arguments behind them. The
target is brought to upper case before it is set, so it stays as it is written. An unknown type throws
`std::bad_cast`. -/
def SiteCmd.ofToks (syntaxTok typeTok targetTok argumentsTok : Str) : Option SiteCmd :=
  let command := toUpperCopy ((split syntaxTok " ".toList true).headD [])
  let typeStr := toUpperCopy typeTok
  if typeStr = "EXEC".toList then some ⟨command, .Exec, targetTok, argumentsTok⟩
  else if typeStr = "TEXT".toList then some ⟨command, .Text, targetTok, argumentsTok⟩
  else if typeStr = "ALIAS".toList then some ⟨command, .Alias, targetTok, argumentsTok⟩
  else none

theorem SiteCmd.ofToks_target {syntaxTok typeTok targetTok argumentsTok : Str} {cmd : SiteCmd}
    (h : SiteCmd.ofToks syntaxTok typeTok targetTok argumentsTok = some cmd) : cmd.target = targetTok := by
  simp only [SiteCmd.ofToks] at h
  split at h
  · cases h
    rfl
  · split at h
    · cases h
      rfl
    · split at h
      · cases h
        rfl
      · cases h

structure Site where
  env : Env
  custom : List SiteCmd
  factory : Factory

/-- A command that runs, with the replies to its exceptions where it throws them. -/
structure Invocation where
  command : CommandDef
  argStr : Str
  -- behind `args[0]`
  arguments : List Str
  -- how its comparison of `args[0]` comes out
  named : Bool
  onSyntax : Option Reply
  onPermission : Option Reply
  deriving DecidableEq

inductive Outcome where
  | reply (r : Reply)
  | program (argv : List Str)
  | run (invocation : Invocation)
  deriving DecidableEq

def notUnderstood : Outcome := .reply ⟨500, "Command not understood".toList⟩

def notImplemented : Outcome := .reply ⟨502, "Command not implemented".toList⟩

def notASCII : Outcome :=
  .reply ⟨501, "SITE command arguments must contain ASCII characters only".toList⟩

def denied (name : Str) : Reply := ⟨550, "SITE ".toList ++ name ++ ": Permission denied".toList⟩

def aliasSyntax (name : Str) : Reply := ⟨501, "Syntax: ".toList ++ name ++ " [<arguments> ..]".toList⟩

def CommandDef.syntaxReply (d : CommandDef) : Reply := ⟨501, d.syntaxText⟩

def Class.named (cls : Class) (name : Str) : Bool :=
  match cls.comparesName with
  | some own => name == own
  | none => true

def invoke (d : CommandDef) (cls : Class) (argStr name : Str) (arguments : List Str)
    (onSyntax : Reply) : Outcome :=
  .run
    { command := d
      argStr := argStr
      arguments := arguments
      named := cls.named name
      onSyntax := if cls.throwsSyntax then some onSyntax else none
      onPermission := if cls.throwsPermission then some (denied name) else none }

variable (site : Site)

/-- `CustomALIASCommand::Execute`; `arguments` are those behind `args[0]`. -/
def executeAlias (custSiteCmd : SiteCmd) (argStr : Str) (arguments : List Str) : Outcome :=
  let tArgs := splitArgs custSiteCmd.target
  let arguments := tArgs.tail ++ arguments
  match site.factory.find (tArgs.headD []) with
  | none => notUnderstood
  | some d =>
    if !allowSiteCmd site.env d.aclKeyword then .reply (denied custSiteCmd.command)
    else if !d.checkArgs (custSiteCmd.command :: arguments) then .reply d.syntaxReply
    else
      match d.creator with
      | none => notImplemented
      | some cls =>
        invoke d cls argStr custSiteCmd.command arguments (aliasSyntax custSiteCmd.command)

/-- The arguments of the custom command with those of the user behind them. -/
def customArgStr (custSiteCmd : SiteCmd) (argStr : Str) : Str :=
  if argStr.isEmpty then custSiteCmd.arguments
  else if custSiteCmd.arguments.isEmpty then argStr
  else custSiteCmd.arguments ++ ' ' :: argStr

/-- `CustomCreator::Create`, and the command it creates executed. -/
def executeCustom (custSiteCmd : SiteCmd) (argStr : Str) : Outcome :=
  let cArgStr := customArgStr custSiteCmd argStr
  let cArgs := splitWords cArgStr
  match custSiteCmd.type with
  | .Exec => .program (custSiteCmd.target :: cArgs)
  | .Text => .reply ⟨502, "TEXT Not implemented".toList⟩
  | .Alias => executeAlias site custSiteCmd cArgStr cArgs

/-- A command of the factory, behind its lookup. -/
def executeBuiltin (d : CommandDef) (name argStr : Str) (arguments : List Str) : Outcome :=
  if !allowSiteCmd site.env d.aclKeyword then .reply (denied name)
  else if !d.checkArgs (name :: arguments) then .reply d.syntaxReply
  else
    match d.creator with
    | none => notImplemented
    | some cls =>
      if !isASCIIOnly argStr then notASCII else invoke d cls argStr name arguments d.syntaxReply

/-- `Factory::LookupCustom`. -/
def lookupCustom (name : Str) : Option SiteCmd := site.custom.find? (·.command == name)

/-- `SITECommand::Execute`. -/
def execute (argStr : Str) : Outcome :=
  let args := splitArgs argStr
  let name := toUpperCopy (args.headD [])
  let argStr := trimCopy (argStr.drop name.length)
  match lookupCustom site name with
  | some custSiteCmd =>
    if !allowSiteCmd site.env ("custom-".toList ++ toLowerCopy name) then .reply (denied name)
    -- any number of arguments passes `CheckArgs`
    else if !isASCIIOnly argStr then notASCII
    else executeCustom site custSiteCmd argStr
  | none =>
    match site.factory.find name with
    | none => notUnderstood
    | some d => executeBuiltin site d name argStr args.tail

/-- What the client passes on of a line `SITE name text`. -/
def siteLine (name text : Str) : Str := trimCopy (name ++ ' ' :: text)

/-! ## What the two ways of splitting keep -/

/-- The characters that are no white space. -/
def weight (s : Str) : Nat := s.countP fun c => !isSpace c

def weights (tokens : List Str) : Nat := (tokens.map weight).sum

@[simp] theorem weight_append (s t : Str) : weight (s ++ t) = weight s + weight t := List.countP_append ..

theorem weight_eq_zero {s : Str} : weight s = 0 ↔ ∀ c ∈ s, isSpace c = true := by
  simp [weight, List.countP_eq_zero]

@[simp] theorem weight_nil : weight [] = 0 := rfl

theorem weight_trimLeft (s : Str) : weight (trimLeftCopy s) = weight s := by
  have h := weight_append (s.takeWhile isSpace) (s.dropWhile isSpace)
  rw [List.takeWhile_append_dropWhile, weight_eq_zero.mpr fun c hc => List.mem_takeWhile_imp hc] at h
  rw [trimLeftCopy]
  omega

theorem weight_reverse (s : Str) : weight s.reverse = weight s := List.countP_reverse

theorem weight_trimRight (s : Str) : weight (trimRightCopy s) = weight s := by
  have h := weight_trimLeft s.reverse
  rw [trimLeftCopy] at h
  rw [trimRightCopy, weight_reverse, h, weight_reverse]

theorem weight_trim (s : Str) : weight (trimCopy s) = weight s := by
  rw [trimCopy, weight_trimLeft, weight_trimRight]

theorem weight_cons (c : Char) (s : Str) : weight (c :: s) = weight [c] + weight s :=
  weight_append [c] s

@[simp] theorem weights_cons (tok : Str) (tokens : List Str) :
    weights (tok :: tokens) = weight tok + weights tokens := rfl

@[simp] theorem weights_nil : weights [] = 0 := rfl

@[simp] theorem weights_append (tokens more : List Str) :
    weights (tokens ++ more) = weights tokens + weights more := by
  simp [weights]

/-- `Split` loses spaces only. -/
theorem weights_splitWords (s : Str) : weights (splitWords s) = weight s := by
  have hloop : ∀ (s : Str) (prev : Bool) (cur : Str),
      weights (splitLoop (fun c => " ".toList.contains c) true prev cur s) = weight cur + weight s := by
    intro s
    induction s with
    | nil =>
      intro prev cur
      rfl
    | cons c s ih =>
      intro prev cur
      simp only [splitLoop]
      by_cases hc : c = ' '
      · subst hc
        have hspace : weight [' '] = 0 := by decide
        rw [if_pos (by decide), weight_cons, hspace]
        split
        · rw [ih, Nat.zero_add]
        · rw [weights_cons, ih]
          simp [weight]
      · rw [if_neg (by simpa using hc), ih, weight_cons c s, weight_append, Nat.add_assoc]
  unfold splitWords
  split
  · rename_i h
    rw [List.isEmpty_iff.mp h]
    rfl
  · rw [split, hloop]
    simp [weight]

def Mode.acc : Mode → Str
  | .skip => []
  | .brace acc => acc
  | .word acc => acc

theorem weights_splitArgsLoop (s : Str) :
    ∀ m : Mode, weights (splitArgsLoop m s) ≤ weight m.acc + weight s := by
  induction s with
  | nil =>
    intro m
    cases m with
    | skip => exact Nat.zero_le _
    | brace acc => exact Nat.zero_le _
    | word acc =>
      rw [splitArgsLoop, weights_cons, weight_trim]
      exact Nat.le_refl _
  | cons c s ih =>
    intro m
    rw [weight_cons]
    cases m with
    | skip =>
      have hskip := ih .skip
      have hbrace := ih (.brace [])
      have hword := ih (.word [c])
      simp only [splitArgsLoop, Mode.acc] at hskip hbrace hword ⊢
      split
      · omega
      · split <;> omega
    | brace acc =>
      have hskip := ih .skip
      have hbrace := ih (.brace (acc ++ [c]))
      simp only [splitArgsLoop, Mode.acc, weight_append, weight_nil] at hskip hbrace ⊢
      split
      · rw [weights_cons, weight_trim]
        omega
      · omega
    | word acc =>
      have hskip := ih .skip
      have hword := ih (.word (acc ++ [c]))
      simp only [splitArgsLoop, Mode.acc, weight_append, weight_nil] at hskip hword ⊢
      split
      · rw [weights_cons, weight_trim]
        omega
      · omega

/-! ## Leading white space and the name in front -/

theorem splitArgs_blank {blank : Str} (h : ∀ c ∈ blank, isSpace c = true) (s : Str) :
    splitArgs (blank ++ s) = splitArgs s := by
  induction blank with
  | nil => rfl
  | cons c blank ih =>
    rw [splitArgs, List.cons_append, splitArgsLoop, if_pos (h c (by simp))]
    exact ih fun d hd => h d (by simp [hd])

theorem splitArgs_trimLeft (s : Str) : splitArgs (trimLeftCopy s) = splitArgs s := by
  have h := @splitArgs_blank (s.takeWhile isSpace) (fun c hc => List.mem_takeWhile_imp hc)
    (s.dropWhile isSpace)
  rw [List.takeWhile_append_dropWhile] at h
  exact h.symm

/-- `SplitArgs` loses the brace that opens an argument. -/
theorem splitArgs_weight (s : Str) : weights (splitArgs s) ≤ weight s ∧
    ((trimLeftCopy s).head? = some '{' → weights (splitArgs s) < weight s) := by
  have hle := weights_splitArgsLoop (trimLeftCopy s) .skip
  refine ⟨(weights_splitArgsLoop s .skip).trans (by simp [Mode.acc, weight]), fun hhead => ?_⟩
  obtain ⟨t, ht⟩ := List.head?_eq_some_iff.mp hhead
  have hbrace := weights_splitArgsLoop t (.brace [])
  have hopen : weight ['{'] = 1 := by decide
  have hweight := weight_trimLeft s
  rw [ht, weight_cons, hopen] at hweight
  rw [← splitArgs_trimLeft, ht]
  change weights (splitArgsLoop (.brace []) t) < _
  simp only [Mode.acc, weight, List.countP_nil] at hbrace hweight ⊢
  omega

/-- A name has no white space in it and no brace in front. -/
structure Word (name : Str) : Prop where
  ne_nil : name ≠ []
  no_space : ∀ c ∈ name, isSpace c = false
  no_brace : name.head? ≠ some '{'

theorem word_of_all {name : Str} (hne : name ≠ []) (hall : name.all (fun c => !isSpace c) = true)
    (hbrace : name.head? ≠ some '{') : Word name where
  ne_nil := hne
  no_space := fun c hc => by simpa using List.all_eq_true.mp hall c hc
  no_brace := hbrace

theorem trimLeft_of_no_space {s : Str} (h : ∀ c ∈ s, isSpace c = false) : trimLeftCopy s = s := by
  cases s with
  | nil => rfl
  | cons c s => simp [trimLeftCopy, h c (by simp)]

theorem trimRight_append (s t : Str) : trimRightCopy (s ++ t) =
    if (trimRightCopy t).isEmpty then trimRightCopy s else s ++ trimRightCopy t := by
  simp only [trimRightCopy, List.reverse_append, List.dropWhile_append, List.isEmpty_reverse]
  split
  · rfl
  · rw [List.reverse_append, List.reverse_reverse]

theorem trimRight_of_no_space {s : Str} (h : ∀ c ∈ s, isSpace c = false) : trimRightCopy s = s := by
  have hrev := trimLeft_of_no_space (s := s.reverse) (by simpa using h)
  rw [trimLeftCopy] at hrev
  rw [trimRightCopy, hrev, List.reverse_reverse]

theorem trimRight_blank {s : Str} (h : ∀ c ∈ s, isSpace c = true) : trimRightCopy s = [] := by
  have hrev : s.reverse.dropWhile isSpace = [] := List.dropWhile_eq_nil_iff.mpr (by simpa using h)
  rw [trimRightCopy, hrev]
  rfl

theorem trimCopy_of_no_space {s : Str} (h : ∀ c ∈ s, isSpace c = false) : trimCopy s = s := by
  rw [trimCopy, trimRight_of_no_space h, trimLeft_of_no_space h]

theorem trimCopy_trimRight (s : Str) : trimCopy (trimRightCopy s) = trimCopy s := by
  rw [trimCopy, trimCopy, trimRightCopy, trimRightCopy, List.reverse_reverse, List.dropWhile_idempotent]

theorem trimCopy_blank {blank : Str} (h : ∀ c ∈ blank, isSpace c = true) (s : Str) :
    trimCopy (blank ++ s) = trimCopy s := by
  rw [trimCopy, trimCopy, trimRight_append]
  split
  · rename_i hs
    rw [trimRight_blank h, List.isEmpty_iff.mp hs]
  · rw [trimLeftCopy, List.dropWhile_append_of_pos h]
    rfl

/-- What `TrimRight` takes off is white space. -/
theorem trimRight_split (s : Str) : ∃ blank, (∀ c ∈ blank, isSpace c = true) ∧ s = trimRightCopy s ++ blank := by
  refine ⟨(s.reverse.takeWhile isSpace).reverse, fun c hc => ?_, ?_⟩
  · exact List.mem_takeWhile_imp (List.mem_reverse.mp hc)
  · rw [trimRightCopy, ← List.reverse_append, List.takeWhile_append_dropWhile, List.reverse_reverse]

theorem trimCopy_length (s : Str) : (trimCopy s).length ≤ s.length := by
  have hleft : (trimCopy s).length ≤ (trimRightCopy s).length := List.length_dropWhile_le _ _
  have hright : (trimRightCopy s).length ≤ s.length := by
    rw [trimRightCopy, List.length_reverse]
    simpa using List.length_dropWhile_le isSpace s.reverse
  exact hleft.trans hright

/-- Without white space in front there is only some behind. -/
theorem trimCopy_cons {c : Char} (hc : isSpace c = false) (s : Str) : trimCopy (c :: s) = trimRightCopy (c :: s) := by
  obtain ⟨t, ht⟩ : ∃ t, trimRightCopy (c :: s) = c :: t := by
    have hone : trimRightCopy [c] = [c] := trimRight_of_no_space (by simpa using hc)
    rw [← List.singleton_append, trimRight_append, hone]
    split
    · exact ⟨[], rfl⟩
    · exact ⟨_, rfl⟩
  rw [trimCopy, ht, trimLeftCopy, List.dropWhile_cons_of_neg (by simp [hc])]

/-- What follows a name on a line: nothing, or a space in front. -/
def Follows (s : Str) : Prop := s = [] ∨ ∃ t, s = ' ' :: t

theorem splitArgsLoop_word {s : Str} (hs : Follows s) {w : Str} (hw : ' ' ∉ w) :
    ∀ acc, splitArgsLoop (.word acc) (w ++ s) = trimCopy (acc ++ w) :: splitArgs s := by
  induction w with
  | nil =>
    intro acc
    rcases hs with rfl | ⟨t, rfl⟩
    · simp [splitArgsLoop, splitArgs]
    · simp [splitArgsLoop, splitArgs, isSpace]
  | cons c w ih =>
    intro acc
    rw [List.mem_cons, not_or] at hw
    rw [List.cons_append, splitArgsLoop, if_neg (Ne.symm hw.1), ih hw.2]
    simp

theorem splitArgs_word {name s : Str} (hname : Word name) (hs : Follows s) :
    splitArgs (name ++ s) = name :: splitArgs s := by
  obtain ⟨c, w, rfl⟩ := List.exists_cons_of_ne_nil hname.ne_nil
  have hc : isSpace c = false := hname.no_space c (by simp)
  have hbrace : c ≠ '{' := fun h => hname.no_brace (by simp [h])
  have hspace : ' ' ∉ w := fun hw => absurd (hname.no_space ' ' (by simp [hw])) (by decide)
  rw [splitArgs, List.cons_append, splitArgsLoop, hc, if_neg (by simp), if_neg hbrace,
    splitArgsLoop_word hs hspace]
  rw [List.singleton_append, trimCopy_of_no_space hname.no_space]

theorem trimCopy_word_append {name : Str} (hname : Word name) (s : Str) :
    trimCopy (name ++ s) = name ++ trimRightCopy s := by
  have hright : trimRightCopy (name ++ s) = name ++ trimRightCopy s := by
    rw [trimRight_append]
    split
    · rename_i hs
      rw [List.isEmpty_iff.mp hs, List.append_nil, trimRight_of_no_space hname.no_space]
    · rfl
  obtain ⟨c, w, hcw⟩ := List.exists_cons_of_ne_nil hname.ne_nil
  have hc : isSpace c = false := hname.no_space c (by simp [hcw])
  rw [trimCopy, hright, hcw, List.cons_append, trimLeftCopy, List.dropWhile_cons_of_neg (by simp [hc])]

/-! ## Text and list together -/

theorem splitArgs_trimRight (s : Str) : splitArgs (trimRightCopy s) = splitArgs (trimCopy s) := by
  rw [trimCopy, splitArgs_trimLeft]

theorem word_weight (s : Str) : ∀ acc, weight acc ≤ weights (splitArgsLoop (.word acc) s) := by
  induction s with
  | nil =>
    intro acc
    rw [splitArgsLoop, weights_cons, weight_trim]
    exact Nat.le_add_right _ _
  | cons c s ih =>
    intro acc
    have hmore := ih (acc ++ [c])
    rw [weight_append] at hmore
    rw [splitArgsLoop]
    split
    · rw [weights_cons, weight_trim]
      exact Nat.le_add_right _ _
    · omega

theorem trim_cons {c : Char} (hc : isSpace c = false) (s : Str) : (trimCopy (c :: s)).head? = some c := by
  have hright : trimRightCopy (c :: s) = c :: trimRightCopy s := by
    rw [← List.singleton_append, trimRight_append]
    split
    · rename_i hs
      rw [List.isEmpty_iff.mp hs]
      exact trimRight_of_no_space (by simpa using hc)
    · rfl
  rw [trimCopy, hright, trimLeftCopy, List.dropWhile_cons_of_neg (by simp [hc])]
  rfl

/-- Where the arguments of the target do not begin with a brace, they begin with something that
weighs. -/
theorem blank_of_weights {rest text : Str} (hweights : weights (splitArgs rest) = 0)
    (hbrace : (trimCopy (rest ++ text)).head? ≠ some '{') : ∀ c ∈ rest, isSpace c = true := by
  by_contra hno
  have hne : rest.dropWhile isSpace ≠ [] := fun h => hno (List.dropWhile_eq_nil_iff.mp h)
  obtain ⟨c, r, hcr⟩ := List.exists_cons_of_ne_nil hne
  have hc : isSpace c = false := by
    have hhead := List.head_dropWhile_not isSpace hne
    simpa [hcr] using hhead
  have hrest : rest = rest.takeWhile isSpace ++ c :: r := by
    rw [← hcr, List.takeWhile_append_dropWhile]
  have hblank : ∀ d ∈ rest.takeWhile isSpace, isSpace d = true := fun d hd => List.mem_takeWhile_imp hd
  have hcbrace : c ≠ '{' := by
    rintro rfl
    rw [hrest, List.append_assoc, trimCopy_blank hblank, List.cons_append] at hbrace
    exact hbrace (trim_cons hc _)
  have hfirst : splitArgs rest = splitArgsLoop (.word [c]) r := by
    rw [hrest, splitArgs_blank hblank, splitArgs, splitArgsLoop, hc, if_neg (by simp), if_neg hcbrace]
  have hweight : weight [c] = 1 := by simp [weight, hc]
  have hle := word_weight r [c]
  rw [← hfirst, hweights, hweight] at hle
  exact absurd hle (by decide)

theorem sameArguments_iff {cmd : SiteCmd} {rest text : Str} :
    (customArgStr cmd (trimCopy text) = trimCopy (rest ++ ' ' :: text) ∧
        splitArgs rest ++ splitWords (customArgStr cmd (trimCopy text)) =
          splitArgs (trimCopy (rest ++ ' ' :: text))) ↔
      (∀ c ∈ rest, isSpace c = true) ∧ cmd.arguments = [] ∧
        splitWords (trimCopy text) = splitArgs (trimCopy text) := by
  have hline : (∀ c ∈ rest, isSpace c = true) → trimCopy (rest ++ ' ' :: text) = trimCopy text := by
    intro hblank
    have hspaces : ∀ c ∈ rest ++ [' '], isSpace c = true := by
      intro c hc
      rcases List.mem_append.mp hc with hc | hc
      · exact hblank c hc
      · rw [List.mem_singleton.mp hc]
        rfl
    rw [← trimCopy_blank hspaces text, List.append_assoc]
    rfl
  have hnone : (∀ c ∈ rest, isSpace c = true) → splitArgs rest = [] := by
    intro hblank
    have h := splitArgs_blank hblank []
    rwa [List.append_nil] at h
  constructor
  · rintro ⟨htext, hlist⟩
    have hsum := congrArg weights hlist
    rw [weights_append, weights_splitWords, htext] at hsum
    obtain ⟨hle, hlt⟩ := splitArgs_weight (trimCopy (rest ++ ' ' :: text))
    have hblank : ∀ c ∈ rest, isSpace c = true := by
      refine @blank_of_weights _ (' ' :: text) (by omega) fun hbrace => ?_
      have htrim : trimLeftCopy (trimCopy (rest ++ ' ' :: text)) = trimCopy (rest ++ ' ' :: text) := by
        rw [trimCopy, trimLeftCopy, trimLeftCopy, List.dropWhile_idempotent]
      have := hlt (by rw [htrim, hbrace])
      omega
    rw [hline hblank] at htext hlist
    have harguments : cmd.arguments = [] := by
      unfold customArgStr at htext
      split at htext
      · rename_i hempty
        rw [htext, List.isEmpty_iff.mp hempty]
      · split at htext
        · rename_i hempty
          exact List.isEmpty_iff.mp hempty
        · have hlen := congrArg List.length htext
          simp only [List.length_append, List.length_cons] at hlen
          omega
    rw [hnone hblank, List.nil_append, htext] at hlist
    exact ⟨hblank, harguments, hlist⟩
  · rintro ⟨hblank, harguments, hsplit⟩
    have htext : customArgStr cmd (trimCopy text) = trimCopy text := by
      unfold customArgStr
      split
      · rename_i hempty
        rw [harguments, List.isEmpty_iff.mp hempty]
      · rw [harguments]
        rfl
    rw [htext, hline hblank, hnone hblank, List.nil_append]
    exact ⟨rfl, hsplit⟩

/-! ## The two lines -/

theorem isASCIIOnly_append (s t : Str) : isASCIIOnly (s ++ t) = (isASCIIOnly s && isASCIIOnly t) :=
  List.all_append

theorem isASCIIOnly_blank {s : Str} (h : ∀ c ∈ s, isSpace c = true) : isASCIIOnly s = true := by
  refine List.all_eq_true.mpr fun c hc => ?_
  have hsp := h c hc
  simp only [isSpace, Bool.or_eq_true, beq_iff_eq] at hsp
  rcases hsp with ((((rfl | rfl) | rfl) | rfl) | rfl) | rfl <;> decide

theorem isASCIIOnly_trimLeft (s : Str) : isASCIIOnly (trimLeftCopy s) = isASCIIOnly s := by
  have h := isASCIIOnly_append (s.takeWhile isSpace) (s.dropWhile isSpace)
  rw [List.takeWhile_append_dropWhile, isASCIIOnly_blank fun c hc => List.mem_takeWhile_imp hc,
    Bool.true_and] at h
  exact h.symm

theorem isASCIIOnly_trim (s : Str) : isASCIIOnly (trimCopy s) = isASCIIOnly s := by
  have hrev : ∀ s : Str, isASCIIOnly s.reverse = isASCIIOnly s := fun s => List.all_reverse
  have h := isASCIIOnly_trimLeft s.reverse
  rw [trimLeftCopy, hrev] at h
  rw [trimCopy, isASCIIOnly_trimLeft, trimRightCopy, hrev, h]

/-- What a line is made of, and the alias and the target it is about. -/
structure Aliases (site : Site) (typed name rest : Str) (cmd : SiteCmd) (d : CommandDef) : Prop where
  word : Word typed
  lookup : lookupCustom site (toUpperCopy typed) = some cmd
  type : cmd.type = .Alias
  permitted : allowSiteCmd site.env ("custom-".toList ++ toLowerCopy (toUpperCopy typed)) = true
  -- the target names a built-in command, in any letter case, and goes on with arguments or not
  target : cmd.target = name ++ rest
  targetWord : Word name
  follows : Follows rest
  builtin : site.factory.find (toUpperCopy name) = some d
  notCustom : lookupCustom site (toUpperCopy name) = none

section Lines

variable {site : Site} {name s : Str} (hname : Word name) (hs : Follows s)

include hname hs

theorem execute_parts : (splitArgs (name ++ s)).headD [] = name ∧ (splitArgs (name ++ s)).tail = splitArgs s ∧
    (name ++ s).drop (toUpperCopy name).length = s := by
  rw [splitArgs_word hname hs]
  refine ⟨rfl, rfl, ?_⟩
  rw [toUpperCopy, List.length_map, List.drop_left]

theorem execute_custom {cmd : SiteCmd} (hlookup : lookupCustom site (toUpperCopy name) = some cmd)
    (hpermitted : allowSiteCmd site.env ("custom-".toList ++ toLowerCopy (toUpperCopy name)) = true) :
    execute site (name ++ s) =
      if isASCIIOnly (trimCopy s) then executeCustom site cmd (trimCopy s) else notASCII := by
  obtain ⟨hhead, -, hdrop⟩ := execute_parts hname hs
  simp only [execute, hhead, hdrop, hlookup, hpermitted, Bool.not_true, Bool.false_eq_true, if_false]
  cases isASCIIOnly (trimCopy s) <;> rfl

theorem execute_builtin {d : CommandDef} (hlookup : lookupCustom site (toUpperCopy name) = none)
    (hfind : site.factory.find (toUpperCopy name) = some d) :
    execute site (name ++ s) = executeBuiltin site d (toUpperCopy name) (trimCopy s) (splitArgs s) := by
  obtain ⟨hhead, htail, hdrop⟩ := execute_parts hname hs
  simp only [execute, hhead, htail, hdrop, hlookup, hfind]

end Lines

theorem follows_trimRight {s : Str} (hs : Follows s) : Follows (trimRightCopy s) := by
  rcases hs with rfl | ⟨t, rfl⟩
  · exact .inl rfl
  · rw [← List.singleton_append, trimRight_append]
    split
    · exact .inl (by decide)
    · exact .inr ⟨_, rfl⟩

theorem follows_append {s : Str} (hs : Follows s) (text : Str) : Follows (s ++ ' ' :: text) := by
  rcases hs with rfl | ⟨t, rfl⟩
  · exact .inr ⟨text, rfl⟩
  · exact .inr ⟨_, rfl⟩

theorem siteLine_eq {name rest text : Str} (hname : Word name) :
    siteLine (name ++ rest) text = name ++ trimRightCopy (rest ++ ' ' :: text) := by
  rw [siteLine, List.append_assoc, trimCopy_word_append hname]

section Line

variable {site : Site} {typed name rest : Str} {cmd : SiteCmd} {d : CommandDef}
  (h : Aliases site typed name rest cmd d) (text : Str)

include h

theorem execute_alias_line : execute site (siteLine typed text) =
    if isASCIIOnly (trimCopy text) then
      executeAlias site cmd (customArgStr cmd (trimCopy text))
        (splitWords (customArgStr cmd (trimCopy text)))
    else notASCII := by
  have hline : siteLine typed text = typed ++ trimRightCopy (' ' :: text) := by
    rw [← List.append_nil typed, siteLine_eq h.word]
    simp
  have htrim : trimCopy (trimRightCopy (' ' :: text)) = trimCopy text := by
    rw [trimCopy_trimRight, ← List.singleton_append, trimCopy_blank (by simp [isSpace])]
  rw [hline, execute_custom h.word (follows_trimRight (.inr ⟨text, rfl⟩)) h.lookup h.permitted, htrim]
  simp only [executeCustom, h.type]

theorem execute_target_line : execute site (siteLine cmd.target text) =
    executeBuiltin site d (toUpperCopy name) (trimCopy (rest ++ ' ' :: text))
      (splitArgs (trimCopy (rest ++ ' ' :: text))) := by
  rw [h.target, siteLine_eq h.targetWord,
    execute_builtin h.targetWord (follows_trimRight (follows_append h.follows text)) h.notCustom h.builtin,
    trimCopy_trimRight, splitArgs_trimRight]

end Line

/-! ## When an alias means its target -/

/-- The command shows nowhere under which name it was called. -/
def Anonymous (d : CommandDef) (cls : Class) (aliasName name : Str) : Prop :=
  cls.named aliasName = cls.named name ∧
    (cls.throwsSyntax = true → aliasSyntax aliasName = d.syntaxReply) ∧ cls.throwsPermission = false

theorem denied_inj {a b : Str} : denied a = denied b ↔ a = b := by
  simp [denied]

theorem invoke_eq_iff {d : CommandDef} {cls : Class} {argStr argStr' aliasName name : Str}
    {arguments arguments' : List Str} (hne : aliasName ≠ name) :
    invoke d cls argStr aliasName arguments (aliasSyntax aliasName) =
        invoke d cls argStr' name arguments' d.syntaxReply ↔
      (argStr = argStr' ∧ arguments = arguments') ∧ Anonymous d cls aliasName name := by
  simp only [invoke, Outcome.run.injEq, Invocation.mk.injEq, true_and, Anonymous, and_assoc]
  refine and_congr_right fun _ => and_congr_right fun _ => and_congr_right fun _ => ?_
  refine and_congr ?_ ?_
  · cases cls.throwsSyntax <;> simp
  · cases cls.throwsPermission <;> simp [denied_inj, hne]

theorem checkArgs_name (d : CommandDef) (a b : Str) (arguments : List Str) :
    d.checkArgs (a :: arguments) = d.checkArgs (b :: arguments) := rfl

/-- The name that an alias has cannot be that of a built-in command behind it. -/
theorem Aliases.ne {site : Site} {typed name rest : Str} {cmd : SiteCmd} {d : CommandDef}
    (h : Aliases site typed name rest cmd d) : cmd.command ≠ toUpperCopy name := by
  intro heq
  have hnone := h.notCustom
  rw [lookupCustom, List.find?_eq_none] at hnone
  exact hnone cmd (List.mem_of_find?_eq_some h.lookup) (beq_iff_eq.mpr heq)

theorem notASCII_ne {site : Site} {name : Str} {d : CommandDef} (hfind : site.factory.find name = some d) :
    notASCII ≠ .reply d.syntaxReply := by
  intro heq
  obtain ⟨t, ht⟩ := site.factory.syntaxPrefix name d hfind
  simp only [notASCII, CommandDef.syntaxReply, Outcome.reply.injEq, Reply.mk.injEq, true_and, ← ht] at heq
  exact absurd (congrArg (List.take 2) heq) (by simp)

/-- What the alias does, where it finds its target. -/
theorem executeAlias_found {site : Site} {typed name rest : Str} {cmd : SiteCmd} {d : CommandDef}
    (h : Aliases site typed name rest cmd d) (hupper : toUpperCopy name = name) (argStr : Str)
    (arguments : List Str) :
    executeAlias site cmd argStr arguments =
      if !allowSiteCmd site.env d.aclKeyword then .reply (denied cmd.command)
      else if !d.checkArgs (cmd.command :: (splitArgs rest ++ arguments)) then .reply d.syntaxReply
      else (d.creator.map fun cls => invoke d cls argStr cmd.command (splitArgs rest ++ arguments)
        (aliasSyntax cmd.command)).getD notImplemented := by
  have hfind : site.factory.find name = some d := hupper ▸ h.builtin
  simp only [executeAlias, h.target, splitArgs_word h.targetWord h.follows, List.headD_cons, List.tail_cons,
    hfind]
  cases d.creator <;> rfl

theorem executeAlias_lost {site : Site} {typed name rest : Str} {cmd : SiteCmd} {d : CommandDef}
    (h : Aliases site typed name rest cmd d) (hupper : toUpperCopy name ≠ name) (argStr : Str)
    (arguments : List Str) : executeAlias site cmd argStr arguments = notUnderstood := by
  have hfind : site.factory.find name = none := by
    cases hf : site.factory.find name with
    | none => rfl
    | some d' => exact absurd (site.factory.upper name d' hf) hupper
  simp only [executeAlias, h.target, splitArgs_word h.targetWord h.follows, List.headD_cons, hfind]

/-! ## `SITE TAGLINE` -/

def exampleTagline : CommandDef where
  minimumArgs := 1
  maximumArgs := -1
  aclKeyword := "tagline".toList
  creator := some ⟨none, false, false⟩
  syntaxText := "Syntax: SITE TAGLINE <tagline>".toList

def exampleFactory : Factory where
  find name := if name = "TAGLINE".toList then some exampleTagline else none
  upper name d h := by
    split at h
    · rename_i hname
      rw [hname]
      decide
    · cases h
  syntaxPrefix name d h := by
    split at h
    · cases h
      decide
    · cases h

/-- Three aliases of the command: as it is, with arguments, and in lower case. -/
def exampleSite : Site where
  env :=
    { cfg :=
        { sitepath := "/site".toList
          commandACLs := ["tagline", "custom-t", "custom-hello", "custom-lower"].map fun keyword =>
            (keyword.toList, ACL.fromString "*".toList)
          tlsControl := ACL.fromString "!*".toList
          maxOnline := ⟨10, 0⟩
          wildcardMatch := fun _ _ => false }
      user := { id := 1, name := "alice".toList }
      gidToName := fun _ => "NoGroup".toList }
  custom := [("t <text>", "TAGLINE"), ("hello <text>", "TAGLINE hello"), ("lower <text>", "tagline")].filterMap
    fun entry => SiteCmd.ofToks entry.1.toList "alias".toList entry.2.toList []
  factory := exampleFactory

end SiteAlias
end Cmd
end Ebftpd
