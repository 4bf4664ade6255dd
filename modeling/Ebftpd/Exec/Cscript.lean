import Ebftpd.Cfg.Keyword
import Ebftpd.Cmd.SiteDispatch
import Ebftpd.Lib.Run

/-!
# Ebftpd.Exec.Cscript

The scripts that run in front of a command and behind it (`src/exec/cscript.cpp`), where
`ClientImpl::ExecuteCommand` (`src/ftp/clientimpl.cpp`) and `SITECommand::Execute`
(`src/cmd/rfc/commands.cpp`) call them. A function here returns the events it adds to the history of the
session; what a script answers may depend on all of the history. What a command does is a parameter.

* `cscriptsLoop_pre`, `cscriptsLoop_post`: which scripts run in front of a command, and which behind it.
* `executeCommand_events`: all that a command line adds to the history.
* `approved_run`: over every session, what ran in front of a command that is executed.
-/

namespace Ebftpd
namespace Exec

open Util Lib Ftp
open Cfg (Cscript CscriptType)
open Cmd.SiteAlias (Site splitArgs isASCIIOnly lookupCustom executeCustom)
open Cmd.SiteDispatch (Parsed executeParsed)

/-- How `exec::Script` ends; `failed` is a `SystemError`. -/
inductive Ran where
  | exited (status : Int) (messages : Str)
  | failed (message : Str)

def Ran.okay : Ran → Bool
  | .exited status _ => decide (status = 0)
  | .failed _ => false

/-- What is executed: a command of the client, or one behind `SITE`. -/
inductive Work where
  | rfc (command argStr : Str)
  | site (command : Str) (outcome : Cmd.SiteAlias.Outcome)

inductive Event where
  | line (commandLine : Str)
  | script (cscript : Cscript) (argv : List Str) (ran : Ran)
  -- `PartReply` with `CodeDeferred`
  | part (messages : Str)
  | reply (r : Reply)
  | execute (work : Work)

/-- How `Execute` ends; `thrown` is what `ExecuteCommand` does not catch. -/
inductive Ended where
  | done
  | syntaxError
  | permissionError
  | noPostScript
  | thrown
  deriving DecidableEq

structure Done where
  client : Client
  events : List Event
  ended : Ended

/-- A client's connection, and what it meets outside. -/
structure Session where
  cscripts : List Cscript
  name : Str
  primaryGroup : Str
  site : Site
  -- `Syntax` of a custom command
  customSyntax : Str → Str
  script : List Event → List Str → Ran
  -- `Execute`, with the replies it makes
  work : Work → List Event → Client → Client × List Reply × Ended

namespace Session

variable (s : Session)

/-- `exec::Cscript`. -/
def cscript (cs : Cscript) (fullCommand : Str) (type : CscriptType) (failCode : Nat) (h : List Event) :
    Bool × List Event :=
  let argv := [cs.path, fullCommand, s.name, s.primaryGroup]
  let ran := s.script h argv
  match ran with
  | .failed message =>
    (false, .script cs argv ran :: if type = .Pre then
      [.reply ⟨failCode, "Unable to execute cscript: ".toList ++ message⟩] else [])
  | .exited status messages =>
    if type = .Post then (decide (status = 0), [.script cs argv ran])
    else if status ≠ 0 then
      (false, [.script cs argv ran, .reply ⟨failCode,
        if messages.isEmpty then "Command denied by pre cscript.".toList else messages⟩])
    else (true, .script cs argv ran :: if messages.isEmpty then [] else [.part messages])

/-- The loop of `exec::Cscripts`. -/
def cscriptsLoop (command fullCommand : Str) (type : CscriptType) (failCode : Nat) :
    List Cscript → List Event → Bool × List Event
  | [], _ => (true, [])
  | cs :: rest, h =>
    if cs.type = type ∧ cs.command = command then
      let (okay, events) := s.cscript cs fullCommand type failCode h
      if !okay ∧ type = .Pre then (false, events)
      else
        let (okay, behind) := cscriptsLoop command fullCommand type failCode rest (h ++ events)
        (okay, events ++ behind)
    else cscriptsLoop command fullCommand type failCode rest h

/-- `exec::Cscripts`. -/
def runCscripts (command fullCommand : Str) (type : CscriptType) (failCode : Nat) (h : List Event) :
    Bool × List Event :=
  s.cscriptsLoop command fullCommand type failCode s.cscripts h

/-! ## Commands -/

/-- What `SITECommand::Execute` asks of the definition of a command, with what its `Execute` comes to. -/
structure SiteDef where
  aclKeyword : Str
  accepted : Bool
  syntaxReply : Reply
  implemented : Bool
  outcome : Cmd.SiteAlias.Outcome

/-- `Factory::Lookup`. -/
def siteLookup (name argStr : Str) (arguments : List Str) : Option SiteDef :=
  match lookupCustom s.site name with
  | some custom =>
    some ⟨"custom-".toList ++ toLowerCopy name, true, ⟨501, "Syntax: ".toList ++ s.customSyntax name⟩, true,
      executeCustom s.site custom argStr⟩
  | none =>
    match s.site.factory.find name with
    | none => none
    | some d =>
      some ⟨d.aclKeyword, d.checkArgs (name :: arguments), d.syntaxReply, d.creator.isSome,
        match d.creator with
        | some cls => Cmd.SiteAlias.invoke d cls argStr name arguments d.syntaxReply
        | none => Cmd.SiteAlias.notImplemented⟩

def replies (c : Client) (r : Reply) : Done := ⟨c, [.reply r], .done⟩

/-- What a command does where nothing runs scripts inside of it. -/
def workOf (w : Work) (c : Client) (h : List Event) : Done :=
  let (c, made, ended) := s.work w h c
  ⟨c, made.map .reply, ended⟩

/-- `Execute`, and the post scripts where it ends well. -/
def executeWith (w : Work) (run : Client → List Event → Done) (post : Client → List Event → List Event)
    (c : Client) (h : List Event) : Done :=
  let done := run c (h ++ [.execute w])
  let events := .execute w :: done.events
  match done.ended with
  | .done => { done with events := events ++ post done.client (h ++ events) }
  | _ => { done with events := events }

/-- What `SITECommand::Execute` catches. -/
def catchSite (onSyntax onPermission : Reply) (done : Done) : Done :=
  match done.ended with
  | .syntaxError => { done with events := done.events ++ [.reply onSyntax], ended := .done }
  | .permissionError => { done with events := done.events ++ [.reply onPermission], ended := .done }
  | _ => done

/-- What `ClientImpl::ExecuteCommand` catches. -/
def catchRfc (onSyntax : Reply) (done : Done) : Done :=
  match done.ended with
  | .syntaxError => { done with events := done.events ++ [.reply onSyntax], ended := .done }
  | .noPostScript => { done with ended := .done }
  | .permissionError => { done with ended := .thrown }
  | _ => done

def shortCommand (p : Parsed) : Str := "SITE ".toList ++ p.name

def fullCommand (p : Parsed) : Str :=
  if p.argStr.isEmpty then shortCommand p else shortCommand p ++ ' ' :: p.argStr

/-- `SITECommand::Execute` behind the pre scripts of a command that is implemented. -/
def siteExecute (p : Parsed) (d : SiteDef) (c : Client) (h : List Event) : Done :=
  let w : Work := .site (shortCommand p) d.outcome
  let post (_ : Client) (h : List Event) := (s.runCscripts (shortCommand p) (fullCommand p) .Post 550 h).2
  catchSite d.syntaxReply (Cmd.SiteAlias.denied p.name) (executeWith w (s.workOf w) post c h)

/-- `SITECommand::Execute` behind the split of its argument string. -/
def siteParsed (p : Parsed) (c : Client) (h : List Event) : Done :=
  match s.siteLookup p.name p.argStr p.arguments with
  | none => replies c ⟨500, "Command not understood".toList⟩
  | some d =>
    if !Acl.allowSiteCmd s.site.env d.aclKeyword then replies c (Cmd.SiteAlias.denied p.name)
    else if !d.accepted then replies c d.syntaxReply
    else
      match s.runCscripts (shortCommand p) (fullCommand p) .Pre 550 h with
      | (false, events) => ⟨c, events, .done⟩
      | (true, events) =>
        if !d.implemented then ⟨c, events ++ [.reply ⟨502, "Command not implemented".toList⟩], .done⟩
        else if !isASCIIOnly p.argStr then
          ⟨c, events ++ [.reply ⟨501, "SITE command arguments must contain ASCII characters only".toList⟩], .done⟩
        else
          let done := s.siteExecute p d c (h ++ events)
          { done with events := events ++ done.events }

def parsed (argStr : Str) : Parsed :=
  let name := toUpperCopy ((splitArgs argStr).headD [])
  ⟨name, trimCopy (argStr.drop name.length), (splitArgs argStr).tail⟩

/-- `SITECommand::Execute`. -/
def siteCommand (argStr : Str) (c : Client) (h : List Event) : Done := s.siteParsed (parsed argStr) c h

def currentCommand (command argStr : Str) : Str :=
  if argStr.isEmpty then command else command ++ ' ' :: argStr

/-- The pre scripts; a client that is not logged in has none. -/
def allowed (command argStr : Str) (c : Client) (h : List Event) : Bool × List Event :=
  if c.state = .LoggedIn then s.runCscripts command (currentCommand command argStr) .Pre 550 h else (true, [])

/-- `ClientImpl::ExecuteCommand` behind the pre scripts of a command that is implemented. -/
def rfcExecute (command argStr : Str) (onSyntax : Reply) (c : Client) (h : List Event) : Done :=
  let w : Work := .rfc command argStr
  let run := if command = "SITE".toList then s.siteCommand argStr else s.workOf w
  let post (c : Client) (h : List Event) :=
    if c.state = .LoggedIn then (s.runCscripts command (currentCommand command argStr) .Post 550 h).2 else []
  catchRfc onSyntax (executeWith w run post c h)

/-- `ClientImpl::ExecuteCommand`. -/
def executeCommand (commandLine : Str) (c : Client) (h : List Event) : Done :=
  if commandLine.isEmpty then ⟨c, [], .done⟩
  else
    match split commandLine " ".toList true with
    -- `ProtocolError`
    | [] => ⟨c, [], .thrown⟩
    | arg0 :: args =>
      let argStr := trimCopy (commandLine.drop arg0.length)
      let command := toUpperCopy arg0
      match lookup command with
      | none => replies c ⟨500, "Command not understood".toList⟩
      | some d =>
        if !d.checkArgs (command :: args) then replies c ⟨501, ("Syntax: " ++ d.usage).toList⟩
        else
          match checkState c d.requiredState with
          | (false, reply) => ⟨c, (reply.map .reply).toList, .done⟩
          | (true, _) =>
            match s.allowed command argStr c h with
            | (false, events) => ⟨c, events, .done⟩
            | (true, events) =>
              if !d.implemented then ⟨c, events ++ [.reply ⟨502, "Command not implemented".toList⟩], .done⟩
              else
                let done := s.rfcExecute command argStr ⟨501, ("Syntax: " ++ d.usage).toList⟩ c (h ++ events)
                { done with events := events ++ done.events }

/-! ## The scripts that run -/

/-- The scripts for a command, in the order of the configuration. -/
def hooks (type : CscriptType) (command : Str) : List Cscript :=
  s.cscripts.filter fun cs => cs.type = type ∧ cs.command = command

end Session

def Event.ran : Event → Option (Cscript × Ran)
  | .script cs _ ran => some (cs, ran)
  | _ => none

def ranBy (events : List Event) : List (Cscript × Ran) := events.filterMap Event.ran

@[simp] theorem ranBy_append (events more : List Event) : ranBy (events ++ more) = ranBy events ++ ranBy more :=
  List.filterMap_append

/-- What a script adds that lets a command pass. -/
def Event.quiet : Event → Bool
  | .script .. | .part _ => true
  | _ => false

/-- The scripts all ran, one after another, and let the command pass. -/
structure Approved (scripts : List Cscript) (events : List Event) : Prop where
  order : (ranBy events).map Prod.fst = scripts
  okay : ∀ r ∈ ranBy events, r.2.okay = true
  quiet : ∀ e ∈ events, e.quiet = true

/-- The scripts ran up to one that did not let the command pass, and the client was told. -/
structure Refused (scripts : List Cscript) (events : List Event) : Prop where
  ran : ∃ front r, ranBy events = front ++ [r] ∧ (front ++ [r]).map Prod.fst <+: scripts ∧
    (∀ r ∈ front, r.2.okay = true) ∧ r.2.okay = false
  replied : ∃ front r, events = front ++ [.reply r] ∧ ∀ e ∈ front, e.quiet = true

/-- Behind a command: the scripts, all of them or none, and a reply to an exception. -/
structure Aftermath (scripts : List Cscript) (events : List Event) : Prop where
  ran : (ranBy events).map Prod.fst = [] ∨ (ranBy events).map Prod.fst = scripts
  plain : ∀ e ∈ events, ∀ w, e ≠ .execute w

theorem Approved.plain {scripts : List Cscript} {events : List Event} (h : Approved scripts events) :
    ∀ e ∈ events, ∀ w, e ≠ .execute w := by
  rintro e he w rfl
  cases h.quiet _ he

theorem Refused.plain {scripts : List Cscript} {events : List Event} (h : Refused scripts events) :
    ∀ e ∈ events, ∀ w, e ≠ .execute w := by
  obtain ⟨front, r, rfl, hquiet⟩ := h.replied
  rintro e he w rfl
  rcases List.mem_append.mp he with he | he
  · cases hquiet _ he
  · cases List.mem_singleton.mp he

theorem Approved.cons {cs : Cscript} {scripts : List Cscript} {events more : List Event} (h : Approved [cs] events)
    (hrest : Approved scripts more) : Approved (cs :: scripts) (events ++ more) where
  order := by rw [ranBy_append, List.map_append, h.order, hrest.order, List.singleton_append]
  okay r hr := by
    rw [ranBy_append, List.mem_append] at hr
    exact hr.elim (h.okay r) (hrest.okay r)
  quiet e he := (List.mem_append.mp he).elim (h.quiet e) (hrest.quiet e)

theorem Approved.refused {cs : Cscript} {scripts : List Cscript} {events more : List Event} (h : Approved [cs] events)
    (hrest : Refused scripts more) : Refused (cs :: scripts) (events ++ more) := by
  obtain ⟨⟨front, r, hran, hprefix, hokay, hlast⟩, before, reply, hreply, hquiet⟩ := hrest
  refine ⟨⟨ranBy events ++ front, r, ?_, ?_, ?_, hlast⟩, events ++ before, reply, ?_, ?_⟩
  · rw [ranBy_append, hran, List.append_assoc]
  · rw [List.append_assoc, List.map_append, h.order, List.singleton_append]
    exact List.cons_prefix_cons.mpr ⟨rfl, hprefix⟩
  · intro r hr
    exact (List.mem_append.mp hr).elim (h.okay r) (hokay r)
  · rw [hreply, List.append_assoc]
  · intro e he
    exact (List.mem_append.mp he).elim (h.quiet e) (hquiet e)

theorem Refused.extend {cs : Cscript} {scripts : List Cscript} {events : List Event} (h : Refused [cs] events) :
    Refused (cs :: scripts) events := by
  obtain ⟨⟨front, r, hran, hprefix, hokay⟩, hreplied⟩ := h
  exact ⟨⟨front, r, hran, hprefix.trans (List.cons_prefix_cons.mpr ⟨rfl, List.nil_prefix⟩), hokay⟩, hreplied⟩

namespace Session

variable (s : Session) (command fullCommand : Str) (failCode : Nat)

theorem cscript_pre (cs : Cscript) (h : List Event) :
    (s.cscript cs fullCommand .Pre failCode h).1 = true ∧
        Approved [cs] (s.cscript cs fullCommand .Pre failCode h).2 ∨
      (s.cscript cs fullCommand .Pre failCode h).1 = false ∧
        Refused [cs] (s.cscript cs fullCommand .Pre failCode h).2 := by
  unfold cscript
  simp only
  split
  · rename_i message hran
    exact .inr ⟨rfl, ⟨[], (cs, _), rfl, List.prefix_refl _, by simp, by simp [hran, Ran.okay]⟩, [_], _, rfl,
      by simp [Event.quiet]⟩
  · rename_i status messages hran
    rw [if_neg (by decide)]
    split
    · rename_i hstatus
      exact .inr ⟨rfl, ⟨[], (cs, _), rfl, List.prefix_refl _, by simp, by simp [hran, Ran.okay, hstatus]⟩, [_], _, rfl,
        by simp [Event.quiet]⟩
    · rename_i hstatus
      have hokay : (s.script h [cs.path, fullCommand, s.name, s.primaryGroup]).okay = true := by
        simpa [hran, Ran.okay] using hstatus
      refine .inl ⟨rfl, ?_⟩
      split
      · exact ⟨rfl, by simpa [ranBy, Event.ran] using hokay, by simp [Event.quiet]⟩
      · exact ⟨rfl, by simpa [ranBy, Event.ran] using hokay, by simp [Event.quiet]⟩

/-- The scripts in front of a command run in order, up to the first that does not let it pass. -/
theorem cscriptsLoop_pre (scripts : List Cscript) : ∀ h : List Event,
    let wanted := scripts.filter fun cs => cs.type = .Pre ∧ cs.command = command
    (s.cscriptsLoop command fullCommand .Pre failCode scripts h).1 = true ∧
        Approved wanted (s.cscriptsLoop command fullCommand .Pre failCode scripts h).2 ∨
      (s.cscriptsLoop command fullCommand .Pre failCode scripts h).1 = false ∧
        Refused wanted (s.cscriptsLoop command fullCommand .Pre failCode scripts h).2 := by
  induction scripts with
  | nil => exact fun _ => .inl ⟨rfl, rfl, by simp [ranBy, cscriptsLoop], by simp [cscriptsLoop]⟩
  | cons cs scripts ih =>
    intro h
    simp only [cscriptsLoop]
    by_cases hwanted : cs.type = .Pre ∧ cs.command = command
    · rw [if_pos hwanted, List.filter_cons_of_pos (by simpa using hwanted)]
      obtain ⟨hokay, happroved⟩ | ⟨hokay, hrefused⟩ := cscript_pre s fullCommand failCode cs h
      · simp only [hokay, Bool.not_true, Bool.false_eq_true, false_and, if_false]
        exact (ih _).imp (fun ⟨h1, h2⟩ => ⟨h1, happroved.cons h2⟩) (fun ⟨h1, h2⟩ => ⟨h1, happroved.refused h2⟩)
      · simp only [hokay, Bool.not_false, and_self, if_true]
        exact .inr ⟨trivial, hrefused.extend⟩
    · rw [if_neg hwanted, List.filter_cons_of_neg (by simpa using hwanted)]
      exact ih h

theorem runCscripts_pre (h : List Event) :
    (s.runCscripts command fullCommand .Pre failCode h).1 = true ∧
        Approved (s.hooks .Pre command) (s.runCscripts command fullCommand .Pre failCode h).2 ∨
      (s.runCscripts command fullCommand .Pre failCode h).1 = false ∧
        Refused (s.hooks .Pre command) (s.runCscripts command fullCommand .Pre failCode h).2 :=
  cscriptsLoop_pre s command fullCommand failCode s.cscripts h

theorem cscript_post (cs : Cscript) (h : List Event) :
    ∃ argv ran, (s.cscript cs fullCommand .Post failCode h).2 = [.script cs argv ran] := by
  unfold cscript
  simp only
  split
  · exact ⟨_, _, rfl⟩
  · exact ⟨_, _, rfl⟩

/-- The scripts behind a command run in order, whatever each of them says. -/
theorem cscriptsLoop_post (scripts : List Cscript) : ∀ h : List Event,
    let wanted := scripts.filter fun cs => cs.type = .Post ∧ cs.command = command
    (ranBy (s.cscriptsLoop command fullCommand .Post failCode scripts h).2).map Prod.fst = wanted ∧
      ∀ e ∈ (s.cscriptsLoop command fullCommand .Post failCode scripts h).2, e.quiet = true := by
  induction scripts with
  | nil => exact fun _ => ⟨rfl, by simp [cscriptsLoop]⟩
  | cons cs scripts ih =>
    intro h
    simp only [cscriptsLoop]
    by_cases hwanted : cs.type = .Post ∧ cs.command = command
    · rw [if_pos hwanted, List.filter_cons_of_pos (by simpa using hwanted), if_neg (by simp)]
      obtain ⟨argv, ran, hevents⟩ := cscript_post s fullCommand failCode cs h
      obtain ⟨hran, hquiet⟩ := ih (h ++ (s.cscript cs fullCommand .Post failCode h).2)
      simp only [hevents] at hran hquiet ⊢
      refine ⟨by rw [ranBy_append, List.map_append, hran]; rfl, fun e he => ?_⟩
      rcases List.mem_append.mp he with he | he
      · rw [List.mem_singleton.mp he]
        rfl
      · exact hquiet e he
    · rw [if_neg hwanted, List.filter_cons_of_neg (by simpa using hwanted)]
      exact ih h

/-! ## What a line adds to the history -/

theorem aftermath_nil (scripts : List Cscript) : Aftermath scripts [] := ⟨.inl rfl, by simp⟩

theorem aftermath_reply (scripts : List Cscript) (r : Reply) : Aftermath scripts [.reply r] := ⟨.inl rfl, by simp⟩

theorem aftermath_post (h : List Event) :
    Aftermath (s.hooks .Post command) (s.runCscripts command fullCommand .Post failCode h).2 := by
  obtain ⟨hran, hquiet⟩ := cscriptsLoop_post s command fullCommand failCode s.cscripts h
  refine ⟨.inr hran, fun e he w => ?_⟩
  rintro rfl
  cases hquiet _ he

theorem executeWith_events (w : Work) (run : Client → List Event → Done) (post : Client → List Event → List Event)
    (c : Client) (h : List Event) :
    ∃ behind, (executeWith w run post c h).events = .execute w :: ((run c (h ++ [.execute w])).events ++ behind) ∧
      (executeWith w run post c h).ended = (run c (h ++ [.execute w])).ended ∧
      ((executeWith w run post c h).ended = .done ∧ (∃ c' h', behind = post c' h') ∨
        (executeWith w run post c h).ended ≠ .done ∧ behind = []) := by
  unfold executeWith
  simp only
  split
  · rename_i hdone
    exact ⟨_, rfl, rfl, .inl ⟨hdone, _, _, rfl⟩⟩
  · rename_i hended
    exact ⟨[], by simp, rfl, .inr ⟨hended, rfl⟩⟩

theorem catchSite_events (onSyntax onPermission : Reply) (done : Done) :
    (catchSite onSyntax onPermission done).events = done.events ∨
      done.ended ≠ .done ∧ ∃ r, (catchSite onSyntax onPermission done).events = done.events ++ [.reply r] := by
  unfold catchSite
  split
  · rename_i hended
    exact .inr ⟨by simp [hended], _, rfl⟩
  · rename_i hended
    exact .inr ⟨by simp [hended], _, rfl⟩
  · exact .inl rfl

theorem catchRfc_events (onSyntax : Reply) (done : Done) :
    (catchRfc onSyntax done).events = done.events ∨
      done.ended ≠ .done ∧ ∃ r, (catchRfc onSyntax done).events = done.events ++ [.reply r] := by
  unfold catchRfc
  split
  · rename_i hended
    exact .inr ⟨by simp [hended], _, rfl⟩
  · exact .inl rfl
  · exact .inl rfl
  · exact .inl rfl

/-- An `Execute` with what is caught of it: the command, what it does, and what comes behind it. -/
theorem caught_events {w : Work} {run : Client → List Event → Done} {post : Client → List Event → List Event}
    {c : Client} {h : List Event} {scripts : List Cscript} (caught : Done)
    (hpost : ∀ c' h', Aftermath scripts (post c' h'))
    (hcaught : caught.events = (executeWith w run post c h).events ∨
      (executeWith w run post c h).ended ≠ .done ∧
        ∃ r, caught.events = (executeWith w run post c h).events ++ [.reply r]) :
    ∃ behind, caught.events = .execute w :: ((run c (h ++ [.execute w])).events ++ behind) ∧
      Aftermath scripts behind := by
  obtain ⟨behind, hevents, -, hbehind⟩ := executeWith_events w run post c h
  have haftermath : Aftermath scripts behind := by
    obtain ⟨-, c', h', rfl⟩ | ⟨-, rfl⟩ := hbehind
    · exact hpost c' h'
    · exact aftermath_nil scripts
  obtain heq | ⟨hended, r, heq⟩ := hcaught
  · exact ⟨behind, heq.trans hevents, haftermath⟩
  · obtain ⟨hdone, -⟩ | ⟨-, rfl⟩ := hbehind
    · exact absurd hdone hended
    · refine ⟨[.reply r], ?_, aftermath_reply scripts r⟩
      rw [heq, hevents, List.append_nil]
      rfl

/-- What passes the checks of `SITECommand::Execute` is what the dispatch comes to without scripts. -/
theorem siteLookup_execute {name argStr : Str} {arguments : List Str} {d : SiteDef}
    (hlookup : s.siteLookup name argStr arguments = some d)
    (hallowed : Acl.allowSiteCmd s.site.env d.aclKeyword = true) (haccepted : d.accepted = true)
    (himplemented : d.implemented = true) (hascii : isASCIIOnly argStr = true) :
    executeParsed s.site ⟨name, argStr, arguments⟩ = d.outcome := by
  have hallowed' : ¬ (!Acl.allowSiteCmd s.site.env d.aclKeyword) = true := by rw [hallowed]; decide
  have haccepted' : ¬ (!d.accepted) = true := by rw [haccepted]; decide
  have hascii' : ¬ (!isASCIIOnly argStr) = true := by rw [hascii]; decide
  unfold siteLookup at hlookup
  unfold Cmd.SiteDispatch.executeParsed
  split at hlookup
  · rename_i custom hcustom
    cases hlookup
    simp only [hcustom]
    rw [if_neg hallowed', if_neg hascii']
  · rename_i hcustom
    split at hlookup
    · cases hlookup
    · rename_i found hfind
      cases hlookup
      simp only [hcustom, hfind, Cmd.SiteAlias.executeBuiltin]
      rw [if_neg hallowed', if_neg haccepted']
      cases hcreator : found.creator with
      | none => simp [hcreator] at himplemented
      | some cls =>
        simp only
        rw [if_neg hascii']

/-- Nothing is executed, or one command behind the scripts in front of it. -/
inductive SiteEvents (s : Session) (p : Parsed) (events : List Event) : Prop where
  | none (plain : ∀ e ∈ events, ∀ w, e ≠ .execute w)
  | executed (before : List Event) (made : List Reply) (behind : List Event)
      (events_eq : events =
        before ++ .execute (.site (shortCommand p) (executeParsed s.site p)) :: (made.map .reply ++ behind))
      (approved : Approved (s.hooks .Pre (shortCommand p)) before)
      (aftermath : Aftermath (s.hooks .Post (shortCommand p)) behind)

theorem siteExecute_events (p : Parsed) (d : SiteDef) (c : Client) (h : List Event) :
    ∃ made behind, (s.siteExecute p d c h).events =
        .execute (.site (shortCommand p) d.outcome) :: (List.map Event.reply made ++ behind) ∧
      Aftermath (s.hooks .Post (shortCommand p)) behind := by
  obtain ⟨behind, hevents, haftermath⟩ := caught_events (s.siteExecute p d c h)
    (fun _ h' => aftermath_post s (shortCommand p) (fullCommand p) 550 h') (catchSite_events _ _ _)
  exact ⟨_, behind, hevents, haftermath⟩

theorem siteParsed_events (p : Parsed) (c : Client) (h : List Event) :
    SiteEvents s p (s.siteParsed p c h).events := by
  have hreplies : ∀ r, SiteEvents s p (replies c r).events := fun r => .none (by simp [replies])
  have hpre := runCscripts_pre s (shortCommand p) (fullCommand p) 550 h
  unfold siteParsed
  split
  · exact hreplies _
  · rename_i d hlookup
    split
    · exact hreplies _
    · rename_i hallowed
      split
      · exact hreplies _
      · rename_i haccepted
        split
        · rename_i events hrun
          rw [hrun] at hpre
          obtain ⟨hokay, -⟩ | ⟨-, hrefused⟩ := hpre
          · cases hokay
          · exact .none hrefused.plain
        · rename_i events hrun
          rw [hrun] at hpre
          obtain ⟨-, happroved⟩ | ⟨hokay, -⟩ := hpre
          · have hreply : ∀ r : Reply, ∀ e ∈ events ++ [.reply r], ∀ w, e ≠ .execute w := by
              intro r e he
              rcases List.mem_append.mp he with he | he
              · exact happroved.plain e he
              · rw [List.mem_singleton.mp he]
                exact fun w h => by cases h
            split
            · exact .none (hreply _)
            · rename_i himplemented
              split
              · exact .none (hreply _)
              · rename_i hascii
                have houtcome := siteLookup_execute s hlookup (by simpa using hallowed) (by simpa using haccepted)
                  (by simpa using himplemented) (by simpa using hascii)
                obtain ⟨made, behind, hevents, haftermath⟩ := siteExecute_events s p d c (h ++ events)
                refine .executed events made behind ?_ happroved haftermath
                rw [houtcome]
                exact congrArg (events ++ ·) hevents
          · cases hokay

/-- Nothing is executed, or one command of the client, and behind `SITE` at most one more inside of it. -/
inductive LineEvents (s : Session) (c : Client) (events : List Event) : Prop where
  | none (plain : ∀ e ∈ events, ∀ w, e ≠ .execute w)
  | executed (command argStr : Str) (before inside behind : List Event)
      (events_eq : events = before ++ .execute (.rfc command argStr) :: (inside ++ behind))
      (approved : c.state = .LoggedIn → Approved (s.hooks .Pre command) before)
      (plain : ∀ e ∈ before, ∀ w, e ≠ .execute w)
      (inside : command = "SITE".toList ∧ SiteEvents s (parsed argStr) inside ∨
        ∃ made, inside = List.map Event.reply made)
      (aftermath : Aftermath (s.hooks .Post command) behind)

theorem rfcExecute_events (command argStr : Str) (onSyntax : Reply) (c : Client) (h : List Event) :
    ∃ inside behind, (s.rfcExecute command argStr onSyntax c h).events =
        .execute (.rfc command argStr) :: (inside ++ behind) ∧
      (command = "SITE".toList ∧ SiteEvents s (parsed argStr) inside ∨
        ∃ made, inside = List.map Event.reply made) ∧
      Aftermath (s.hooks .Post command) behind := by
  have hpost : ∀ (c' : Client) (h' : List Event), Aftermath (s.hooks .Post command)
      (if c'.state = .LoggedIn then
        (s.runCscripts command (currentCommand command argStr) .Post 550 h').2
      else []) := by
    intro c' h'
    split
    · exact aftermath_post s command _ 550 h'
    · exact aftermath_nil _
  obtain ⟨behind, hevents, haftermath⟩ :=
    caught_events (s.rfcExecute command argStr onSyntax c h) hpost (catchRfc_events _ _)
  refine ⟨_, behind, hevents, ?_, haftermath⟩
  by_cases hsite : command = "SITE".toList
  · rw [if_pos hsite]
    exact .inl ⟨hsite, siteParsed_events s (parsed argStr) c _⟩
  · rw [if_neg hsite]
    exact .inr ⟨_, rfl⟩

theorem allowed_pre (command argStr : Str) (c : Client) (h : List Event) :
    (s.allowed command argStr c h).1 = true ∧
        (c.state = .LoggedIn → Approved (s.hooks .Pre command) (s.allowed command argStr c h).2) ∧
        (∀ e ∈ (s.allowed command argStr c h).2, ∀ w, e ≠ .execute w) ∨
      (s.allowed command argStr c h).1 = false ∧ Refused (s.hooks .Pre command) (s.allowed command argStr c h).2 := by
  unfold allowed
  split
  · obtain ⟨hokay, happroved⟩ | hrefused := runCscripts_pre s command (currentCommand command argStr) 550 h
    · exact .inl ⟨hokay, fun _ => happroved, happroved.plain⟩
    · exact .inr hrefused
  · rename_i hstate
    exact .inl ⟨rfl, fun h => absurd h hstate, by simp⟩

theorem executeCommand_events (commandLine : Str) (c : Client) (h : List Event) :
    LineEvents s c (s.executeCommand commandLine c h).events := by
  have hreplies : ∀ r, LineEvents s c (replies c r).events := fun r => .none (by simp [replies])
  unfold executeCommand
  simp only
  split
  · exact .none (by simp)
  · split
    · exact .none (by simp)
    · rename_i arg0 args hsplit
      split
      · exact hreplies _
      · rename_i d hlookup
        split
        · exact hreplies _
        · split
          · rename_i reply hstate
            refine .none fun e he w => ?_
            rintro rfl
            cases reply <;> simp at he
          · have hpre := allowed_pre s (toUpperCopy arg0) (trimCopy (commandLine.drop arg0.length)) c h
            split
            · rename_i events hrun
              rw [hrun] at hpre
              obtain ⟨hokay, -⟩ | ⟨-, hrefused⟩ := hpre
              · cases hokay
              · exact .none hrefused.plain
            · rename_i events hrun
              rw [hrun] at hpre
              obtain ⟨-, happroved, hplain⟩ | ⟨hokay, -⟩ := hpre
              · split
                · refine .none fun e he => ?_
                  rcases List.mem_append.mp he with he | he
                  · exact hplain e he
                  · rw [List.mem_singleton.mp he]
                    exact fun w h => by cases h
                · obtain ⟨inside, behind, hevents, hinside, haftermath⟩ := rfcExecute_events s (toUpperCopy arg0)
                    (trimCopy (commandLine.drop arg0.length)) ⟨501, ("Syntax: " ++ d.usage).toList⟩ c (h ++ events)
                  exact .executed _ _ events inside behind (congrArg (events ++ ·) hevents) happroved hplain hinside
                    haftermath
              · cases hokay

/-! ## In front of a command -/

/-- What the line did before the command is executed: the scripts of the command let it pass, and those of
`SITE` where it is behind that. It is the command that the dispatch comes to. -/
def Cleared : Work → List Event → Prop
  | .rfc command _, events => Approved (s.hooks .Pre command) events
  | .site command outcome, events => ∃ front argStr back,
      events = front ++ .execute (.rfc "SITE".toList argStr) :: back ∧
        Approved (s.hooks .Pre "SITE".toList) front ∧ Approved (s.hooks .Pre command) back ∧
          command = shortCommand (parsed argStr) ∧ outcome = executeParsed s.site (parsed argStr)

theorem cut_plain {before behind front back : List Event} {w : Work}
    (hplain : ∀ e ∈ before, ∀ w, e ≠ .execute w) (h : before ++ behind = front ++ .execute w :: back) :
    ∃ rest, front = before ++ rest ∧ behind = rest ++ .execute w :: back := by
  obtain ⟨rest, hfront, hbehind⟩ | ⟨rest, hbefore, hback⟩ := List.append_eq_append_iff.mp h
  · exact ⟨rest, hfront, hbehind⟩
  · cases rest with
    | nil => exact ⟨[], by simpa using hbefore.symm, by simpa using hback.symm⟩
    | cons e rest =>
      obtain ⟨rfl, -⟩ := List.cons.inj hback
      exact absurd rfl (hplain _ (by simp [hbefore]) w)

theorem not_execute_plain {events front back : List Event} {w : Work} (hplain : ∀ e ∈ events, ∀ w, e ≠ .execute w)
    (h : events = front ++ .execute w :: back) : False :=
  hplain (.execute w) (by simp [h]) w rfl

theorem plain_replies (made : List Reply) : ∀ e ∈ List.map Event.reply made, ∀ w, e ≠ .execute w := by
  intro e he w
  obtain ⟨r, -, rfl⟩ := List.mem_map.mp he
  exact fun h => by cases h

theorem executeCommand_cleared {commandLine : Str} {c : Client} {h front back : List Event} {w : Work}
    (hstate : c.state = .LoggedIn)
    (hevents : (s.executeCommand commandLine c h).events = front ++ .execute w :: back) : s.Cleared w front := by
  cases executeCommand_events s commandLine c h with
  | none plain => exact absurd hevents fun hevents => not_execute_plain plain hevents
  | executed command argStr before inside behind events_eq approved plain hinside aftermath =>
    rw [events_eq] at hevents
    obtain ⟨rest, rfl, hrest⟩ := cut_plain plain hevents
    cases rest with
    | nil =>
      cases (List.cons.inj hrest).1
      rw [List.append_nil]
      exact approved hstate
    | cons e rest =>
      obtain ⟨rfl, hinner⟩ := List.cons.inj hrest
      obtain ⟨rfl, hsite⟩ | ⟨made, rfl⟩ := hinside
      · cases hsite with
        | none hplain =>
          obtain ⟨rest', -, hbehind⟩ := cut_plain hplain hinner
          exact (not_execute_plain aftermath.plain hbehind).elim
        | executed front' made behind' inside_eq approved' aftermath' =>
          have hmore : ∀ e ∈ List.map Event.reply made ++ behind' ++ behind, ∀ w, e ≠ .execute w := by
            intro e he
            rcases List.mem_append.mp he with he | he
            · rcases List.mem_append.mp he with he | he
              · exact plain_replies made e he
              · exact aftermath'.plain e he
            · exact aftermath.plain e he
          rw [inside_eq, List.append_assoc, List.cons_append] at hinner
          obtain ⟨rest', rfl, hbehind⟩ := cut_plain approved'.plain hinner
          cases rest' with
          | nil =>
            cases (List.cons.inj hbehind).1
            refine ⟨before, argStr, front', ?_, approved hstate, approved', rfl, rfl⟩
            rw [List.append_nil]
          | cons e rest' => exact (not_execute_plain hmore (List.cons.inj hbehind).2).elim
      · obtain ⟨rest', -, hbehind⟩ := cut_plain (plain_replies made) hinner
        exact (not_execute_plain aftermath.plain hbehind).elim

end Session

/-! ## Whole sessions -/

structure Conversation where
  history : List Event
  client : Client

/-- One turn of `Handle`, under the configuration and the record of the user that it meets. -/
def step (v : Conversation) (input : Session × Str) : Option Conversation :=
  if v.client.state = .Finished then none
  else
    let done := input.1.executeCommand input.2 v.client (v.history ++ [.line input.2])
    some {
      history := v.history ++ .line input.2 :: done.events
      client := if done.ended = .thrown then { done.client with state := .Finished } else done.client }

theorem step_inv {v v' : Conversation} {s : Session} {commandLine : Str} (h : step v (s, commandLine) = some v') :
    v'.history = v.history ++ .line commandLine ::
      (s.executeCommand commandLine v.client (v.history ++ [.line commandLine])).events := by
  unfold step at h
  split at h
  · cases h
  · cases h
    rfl

/-- In every session, whatever the scripts and the commands do: a command of a client who is logged in is
executed only behind all the scripts that its line met for its name in the configuration, each of which ran,
in their order, and let it pass; a command behind `SITE` only behind those of `SITE` and those of the name
that was typed. -/
theorem approved_run {c : Client} {v : Conversation} {front back : List Event} {w : Work}
    (l : List (Session × Str)) (hrun : run step ⟨[], c⟩ l = some v) (hw : v.history = front ++ .execute w :: back) :
    ∃ l₁ s commandLine l₂ v₁ events, l = l₁ ++ (s, commandLine) :: l₂ ∧ run step ⟨[], c⟩ l₁ = some v₁ ∧
      front = v₁.history ++ .line commandLine :: events ∧ (v₁.client.state = .LoggedIn → s.Cleared w events) := by
  induction l using List.reverseRecOn generalizing v back with
  | nil =>
    cases hrun
    simp at hw
  | append_singleton l input ih =>
    obtain ⟨s, commandLine⟩ := input
    obtain ⟨v₁, hrun₁, hlast⟩ := run_append_inv hrun
    obtain ⟨v₂, hstep, hend⟩ := run_cons_inv hlast
    simp only [run_nil, Option.some.injEq] at hend
    subst hend
    rw [step_inv hstep] at hw
    obtain ⟨rest, hfront, hbehind⟩ | ⟨rest, hbefore, hback⟩ := List.append_eq_append_iff.mp hw
    · cases rest with
      | nil => simp at hbehind
      | cons e events =>
        obtain ⟨rfl, hevents⟩ := List.cons.inj hbehind
        exact ⟨l, s, commandLine, [], v₁, events, rfl, hrun₁, hfront,
          fun hstate => Session.executeCommand_cleared s hstate hevents⟩
    · cases rest with
      | nil => simp at hback
      | cons e rest =>
        obtain ⟨rfl, -⟩ := List.cons.inj hback
        obtain ⟨l₁, s', line', l₂, v', events, hl, hrest⟩ := ih hrun₁ hbefore
        exact ⟨l₁, s', line', l₂ ++ [(s, commandLine)], v', events, by rw [hl]; simp, hrest⟩

/-- One script in front of `NOOP` and one in front of `SITE TAGLINE`, which end well. -/
def exampleSession : Session where
  cscripts := [⟨"NOOP".toList, .Pre, "/bin/a".toList⟩, ⟨"SITE TAGLINE".toList, .Pre, "/bin/b".toList⟩]
  name := "bob".toList
  primaryGroup := "friends".toList
  site := Cmd.SiteAlias.exampleSite
  customSyntax := id
  script := fun _ _ => .exited 0 []
  work := fun _ _ c => (c, [⟨200, "Okay.".toList⟩], .done)

theorem approved_run_noop :
    ∃ l₁ s commandLine l₂ v₁ events, [(exampleSession, "NOOP".toList)] = l₁ ++ (s, commandLine) :: l₂ ∧
      run step ⟨[], { state := .LoggedIn }⟩ l₁ = some v₁ ∧
      [.line "NOOP".toList, .script ⟨"NOOP".toList, .Pre, "/bin/a".toList⟩
        ["/bin/a".toList, "NOOP".toList, "bob".toList, "friends".toList] (.exited 0 [])] =
          v₁.history ++ .line commandLine :: events ∧
      (v₁.client.state = .LoggedIn → s.Cleared (.rfc "NOOP".toList []) events) := by
  exact approved_run [(exampleSession, "NOOP".toList)] rfl rfl

end Exec
end Ebftpd
