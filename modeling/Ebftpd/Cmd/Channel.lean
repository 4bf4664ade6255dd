import Ebftpd.Cmd.Stor
import Ebftpd.Fs.Rename
import Ebftpd.Ftp.Data
import Ebftpd.Lib.Run

/-!
# Ebftpd.Cmd.Channel

The commands of one session that prepare the data connection, use it, or name files (`PASV`, `EPSV`,
`LPSV`, `CPSV`, `PORT`, `EPRT`, `LPRT`, `TYPE`, `PROT`, `REST`, `LIST`, `NLST`, `STOR`, `STOU`, `RETR`,
`RNFR`, `RNTO` of `src/cmd/rfc`), one after another. What stays between them is the data
connection with its mode and its restart offset, the path of a rename, and the files.

Each command comes with the configuration, the user and the answers of the operating system at its
moment, and with what the calls outside return. Between two commands anything may happen to the
files (`elsewhere`). A session is over when an exception leaves the command, and aborted when an
assertion fails; it takes no more commands then.

* `execute_keeps`: a command that sets up no data connection leaves its mode as it is.
* `execute_safe`: exactly which commands keep a selected passive mode together with its listener.
* `channel_safe`: over every sequence of commands, when the assertion of `Data::Open` cannot fail.
-/

namespace Ebftpd
namespace Cmd
namespace Channel

open Util Util.Path Lib Acl Acl.Path Db Fs Ftp

inductive Status where
  | running
  | over
  | aborted
  deriving DecidableEq

structure Session where
  data : Data
  site : Site
  renameFrom : Option AbsPath
  status : Status

/-- The user and his surroundings at one moment. -/
structure Moment where
  env : Env
  sys : Sys

/-! ## Preparing the data connection -/

def passiveCommand (type : PassiveType) (calls : Data.SetupCalls) (s : Session) : Session :=
  { s with data := (s.data.initPassive calls type).2 }

def pasvCommand (calls : Data.SetupCalls) (s : Session) : Session := passiveCommand .PASV calls s

def epsvCommand (calls : Data.SetupCalls) (s : Session) : Session := passiveCommand .EPSV calls s

def lpsvCommand (calls : Data.SetupCalls) (s : Session) : Session := passiveCommand .LPSV calls s

def cpsvCommand (calls : Data.SetupCalls) (s : Session) : Session := passiveCommand .CPSV calls s

/-- `PORT`, `EPRT` and `LPRT`; `none` where the argument is not an endpoint. -/
def activeCommand (calls : Option Data.SetupCalls) (s : Session) : Session :=
  match calls with
  | some calls => { s with data := (s.data.initActive calls).2 }
  | none => s

/-- The offset `REST` takes; `none` is "Invalid parameter, restart offset set to 0." -/
def restOffset (arg : Str) : Option Int :=
  match strToInt arg with
  | some restart => if restart < 0 then none else some restart
  | none => none

def restCommand (arg : Str) (s : Session) : Session :=
  { s with data := { s.data with restartOffset := (restOffset arg).getD 0 } }

/-! ## Using it -/

/-- How `DirectoryList::Execute` ends. Only a `NetworkError` is caught. -/
inductive ListEnd where
  | done
  | networkError
  | thrown

structure ListCalls where
  -- the 150 reply is written
  replied : Bool
  channel : Data.OpenCalls
  protectionOkay : Bool
  ended : ListEnd

/-- `LIST` and `NLST`. -/
def listCommand (calls : ListCalls) (s : Session) : Session :=
  if !calls.replied then { s with status := .over }
  else
    match s.data.openFor .List calls.channel with
    | (.assertion, _) => { s with status := .aborted }
    | (.failed _, data) => { s with data := data }
    | (.okay, data) =>
      if !calls.protectionOkay then { s with data := data.close }
      else
        match calls.ended with
        | .done => { s with data := data.close }
        | .networkError => { s with data := data.close }
        | .thrown => { s with data := data, status := .over }

/-- An exception leaves `STORCommand::Execute`. -/
def storThrows : StorEnd → Bool
  | .replyFailed | .controlError | .interrupted => true
  | _ => false

def retrThrows : RetrEnd → Bool
  | .replyFailed | .writeError .control | .writeError .interrupted => true
  | _ => false

/-- The session behind a transfer over an open data connection. -/
def transferred (thrown : Bool) (data : Data) (site : Site) (s : Session) : Session :=
  { s with data := data.close, site := site, status := if thrown then .over else .running }

section

variable (m : Moment) (path : Str) (channel : Data.OpenCalls)

/-- `STOR` at the offset and in the mode that `calls` has. -/
def storCommand (calls : StorCalls) (s : Session) : Session :=
  match openUpload m.env m.sys path calls s.site.files with
  | .error _ => s
  | .ok files =>
    let stored (connected : Bool) := stor m.env m.sys path { calls with connected := connected } s.site
    if !calls.replied then { s with site := (stored false).2, status := .over }
    else
      match s.data.openFor .Upload channel with
      | (.assertion, _) => { s with site := { s.site with files := files }, status := .aborted }
      | (.failed _, data) => { s with data := data, site := (stored false).2 }
      | (.okay, data) => transferred (storThrows (stored true).1) data (stored true).2 s

/-- `RETR` at the offset and in the mode that `calls` has. -/
def retrCommand (calls : RetrCalls) (s : Session) : Session :=
  let uid := m.env.user.id
  let sent (connected : Bool) :=
    retr m.env m.sys path { calls with connected := connected } (s.site.credits uid)
  let site (connected : Bool) := s.site.setCredits uid (sent connected).credits
    (retr_distinct m.env m.sys path { calls with connected := connected } (s.site.distinct uid))
  match takeCharge m.env m.sys path calls (s.site.credits uid) with
  | .error _ => s
  | .ok _ =>
    if !calls.replied then { s with site := site false, status := .over }
    else
      match s.data.openFor .Download channel with
      | (.assertion, _) => { s with status := .aborted }
      | (.failed _, data) => { s with data := data, site := site false }
      | (.okay, data) => transferred (retrThrows (sent true).ending) data (site true) s

end

/-- The data type and the restart offset of the session, for a `STOR`. -/
def storCallsAt (s : Session) (calls : StorCalls) : StorCalls :=
  { calls with ascii := s.data.ascii, offset := s.data.restartOffset.toNat }

def retrCallsAt (s : Session) (calls : RetrCalls) : RetrCalls :=
  { calls with ascii := s.data.ascii, offset := s.data.restartOffset.toNat }

/-- `STOU`: a `STOR` at a path that `UniqueFile` finds; nothing catches what it throws. -/
def stouCommand (m : Moment) (workDirectory : Str) (names : List Str) (channel : Data.OpenCalls)
    (calls : StorCalls) (s : Session) : Session :=
  match uniqueFile m.env m.sys s.site.files workDirectory names with
  | .error _ => { s with status := .over }
  | .ok none => s
  | .ok (some path) => storCommand m path channel calls s

/-! ## Renaming -/

/-- `RNFRCommand::Execute`. -/
def rnfrCommand (m : Moment) (path : AbsPath) (s : Session) : Session :=
  let sys := askedAt m.env m.sys s.site.files path.str
  match allowed m.env sys .Rename path.str with
  | .ok () => { s with renameFrom := some path }
  | .error e =>
    if e ≠ .EACCES ∨ !(allowed m.env sys .Move path.str).isOk then s
    else { s with renameFrom := some path }

structure RntoCalls where
  -- `acl::path::Filter` lets the name pass
  filtered : Bool
  renameError : Option Errno

section Rnto

variable (m : Moment) (files : Files) (oldPath newPath : AbsPath)

/-- The checks of the source: `Move` where the directory changes, `Rename` where the name does. -/
def sourceAllowed : Except Errno Unit :=
  let sys := askedAt m.env m.sys files oldPath.str
  match (if dirname oldPath.str ≠ dirname newPath.str then allowed m.env sys .Move oldPath.str
    else .ok ()) with
  | .error e => .error e
  | .ok () =>
    if basename oldPath.str ≠ basename newPath.str then allowed m.env sys .Rename oldPath.str
    else .ok ()

/-- The checks of the destination, `Makedir` for a directory and `Upload` for a file. -/
def destinationAllowed : Except Errno Unit :=
  let sys := askedAt m.env m.sys files newPath.str
  match statusAt m.env m.sys files oldPath.str with
  | .error e => .error e
  | .ok stat =>
    if stat.isDirectory then dirAllowed m.env sys .Makedir newPath.str
    else fileAllowed m.env sys .Upload newPath.str

/-- `RNTOCommand::Execute` behind the path that `RNFR` left: the files, if they change. -/
def renamed (calls : RntoCalls) : Option Files :=
  if !calls.filtered then none
  else
    match sourceAllowed m files oldPath newPath with
    | .error _ => none
    | .ok () =>
      match destinationAllowed m files oldPath newPath with
      | .error _ => none
      | .ok () =>
        match Fs.rename m.env m.sys files oldPath newPath calls.renameError with
        | .error _ => none
        | .ok files => some files

end Rnto

def rntoCommand (m : Moment) (newPath : AbsPath) (calls : RntoCalls) (s : Session) : Session :=
  match s.renameFrom with
  | none => s
  | some oldPath =>
    let s := { s with renameFrom := none }
    match renamed m s.site.files oldPath newPath calls with
    | some files => { s with site := { s.site with files := files } }
    | none => s

theorem rnfrCommand_data (m : Moment) (path : AbsPath) (s : Session) :
    (rnfrCommand m path s).data = s.data := by
  simp only [rnfrCommand]
  split
  · rfl
  · split
    · rfl
    · rfl

theorem rntoCommand_data (m : Moment) (newPath : AbsPath) (calls : RntoCalls) (s : Session) :
    (rntoCommand m newPath calls s).data = s.data := by
  simp only [rntoCommand]
  split
  · rfl
  · split
    · rfl
    · rfl

/-! ## One command -/

inductive Command where
  | pasv (calls : Data.SetupCalls)
  | epsv (calls : Data.SetupCalls)
  | epsvMode (mode : EPSVMode)
  | lpsv (calls : Data.SetupCalls)
  | cpsv (calls : Data.SetupCalls)
  | port (calls : Option Data.SetupCalls)
  | eprt (calls : Option Data.SetupCalls)
  | lprt (calls : Option Data.SetupCalls)
  | type (ascii : Bool)
  | prot (protection : Bool)
  | rest (arg : Str)
  | list (calls : ListCalls)
  | stor (m : Moment) (path : Str) (channel : Data.OpenCalls) (calls : StorCalls)
  | stou (m : Moment) (workDirectory : Str) (names : List Str) (channel : Data.OpenCalls)
    (calls : StorCalls)
  | retr (m : Moment) (path : Str) (channel : Data.OpenCalls) (calls : RetrCalls)
  | rnfr (m : Moment) (path : AbsPath)
  | rnto (m : Moment) (newPath : AbsPath) (calls : RntoCalls)
  | elsewhere (site : Site)

def execute (s : Session) : Command → Session
  | .pasv calls => pasvCommand calls s
  | .epsv calls => epsvCommand calls s
  | .epsvMode mode => { s with data := { s.data with epsvMode := mode } }
  | .lpsv calls => lpsvCommand calls s
  | .cpsv calls => cpsvCommand calls s
  | .port calls => activeCommand calls s
  | .eprt calls => activeCommand calls s
  | .lprt calls => activeCommand calls s
  | .type ascii => { s with data := { s.data with ascii := ascii } }
  | .prot protection => { s with data := { s.data with protection := protection } }
  | .rest arg => restCommand arg s
  | .list calls => listCommand calls s
  | .stor m path channel calls => storCommand m path channel (storCallsAt s calls) s
  | .stou m workDirectory names channel calls =>
    stouCommand m workDirectory names channel (storCallsAt s calls) s
  | .retr m path channel calls => retrCommand m path channel (retrCallsAt s calls) s
  | .rnfr m path => rnfrCommand m path s
  | .rnto m newPath calls => rntoCommand m newPath calls s
  | .elsewhere site => { s with site := site }

def step (s : Session) (c : Command) : Option Session :=
  if s.status = .running then some (execute s c) else none

theorem step_running {s s' : Session} {c : Command} (h : step s c = some s') :
    s.status = .running ∧ s' = execute s c := by
  unfold step at h
  split at h
  · exact ⟨‹_›, (Option.some.inj h).symm⟩
  · cases h

/-- A client that has just connected. -/
def Session.start (epsvMode : EPSVMode) (site : Site) : Session :=
  ⟨Data.init epsvMode, site, none, .running⟩

/-! ## The selected mode -/

/-- No assertion has failed, and a passive mode is selected only with a listener behind it. -/
def Safe (s : Session) : Prop := s.status ≠ .aborted ∧ s.data.Selected

/-- What a command that sets up no data connection leaves as it is. -/
structure Keeps (s s' : Session) : Prop where
  pasvType : s'.data.pasvType = s.data.pasvType
  listening : s'.data.listening = s.data.listening
  -- it is aborted only by a mode without a listener
  aborted : s'.status = .aborted → s.status = .aborted ∨ ¬s.data.Selected

theorem Keeps.safe {s s' : Session} (h : Keeps s s') (hs : Safe s) : Safe s' := by
  refine ⟨fun haborted => ?_, ?_⟩
  · rcases h.aborted haborted with hs' | hs'
    · exact hs.1 hs'
    · exact hs' hs.2
  · unfold Data.Selected
    rw [h.pasvType, h.listening]
    exact hs.2

/-- A command that opens the data connection: it is refused before, or it fails to open it, or it
closes it again. -/
theorem keeps_open {s s' : Session} (type : TransferType) (channel : Data.OpenCalls)
    (hdata : s'.data = s.data ∨ s'.data = (s.data.openFor type channel).2 ∨
      s'.data = (s.data.openFor type channel).2.close)
    (haborted : s'.status = .aborted → s.status = .aborted ∨ (s.data.openFor type channel).1 = .assertion) :
    Keeps s s' := by
  have hsame := Data.openFor_same type channel s.data
  refine ⟨?_, ?_, fun h => (haborted h).imp id (Data.openFor_assertion type channel s.data).mp⟩
  · rcases hdata with h | h | h
    · rw [h]
    · rw [h, hsame.pasvType]
    · rw [h]
      exact hsame.pasvType
  · rcases hdata with h | h | h
    · rw [h]
    · rw [h, hsame.listening]
    · rw [h]
      exact hsame.listening

theorem listCommand_keeps (calls : ListCalls) (s : Session) : Keeps s (listCommand calls s) := by
  unfold listCommand
  split
  · exact ⟨rfl, rfl, by simp⟩
  · split
    · rename_i hopen
      exact keeps_open .List calls.channel (.inl rfl) fun _ => .inr (by rw [hopen])
    · rename_i hopen
      exact keeps_open .List calls.channel (.inr (.inl (by rw [hopen]))) .inl
    · rename_i hopen
      split
      · exact keeps_open .List calls.channel (.inr (.inr (by rw [hopen]))) .inl
      · split
        · exact keeps_open .List calls.channel (.inr (.inr (by rw [hopen]))) .inl
        · exact keeps_open .List calls.channel (.inr (.inr (by rw [hopen]))) .inl
        · exact keeps_open .List calls.channel (.inr (.inl (by rw [hopen]))) (by simp)

theorem transferred_status (thrown : Bool) (data : Data) (site : Site) (s : Session) :
    (transferred thrown data site s).status ≠ .aborted := by
  unfold transferred
  cases thrown <;> simp

theorem storCommand_keeps (m : Moment) (path : Str) (channel : Data.OpenCalls) (calls : StorCalls)
    (s : Session) : Keeps s (storCommand m path channel calls s) := by
  unfold storCommand
  split
  · exact ⟨rfl, rfl, .inl⟩
  · simp only
    split
    · exact ⟨rfl, rfl, by simp⟩
    · split
      · rename_i hopen
        exact keeps_open .Upload channel (.inl rfl) fun _ => .inr (by rw [hopen])
      · rename_i hopen
        exact keeps_open .Upload channel (.inr (.inl (by rw [hopen]))) .inl
      · rename_i hopen
        refine keeps_open .Upload channel (.inr (.inr ?_)) fun h => ?_
        · rw [hopen]
          rfl
        · exact absurd h (transferred_status _ _ _ _)

theorem retrCommand_keeps (m : Moment) (path : Str) (channel : Data.OpenCalls) (calls : RetrCalls)
    (s : Session) : Keeps s (retrCommand m path channel calls s) := by
  unfold retrCommand
  simp only
  split
  · exact ⟨rfl, rfl, .inl⟩
  · split
    · exact ⟨rfl, rfl, by simp⟩
    · split
      · rename_i hopen
        exact keeps_open .Download channel (.inl rfl) fun _ => .inr (by rw [hopen])
      · rename_i hopen
        exact keeps_open .Download channel (.inr (.inl (by rw [hopen]))) .inl
      · rename_i hopen
        refine keeps_open .Download channel (.inr (.inr ?_)) fun h => ?_
        · rw [hopen]
          rfl
        · exact absurd h (transferred_status _ _ _ _)

/-- The setup of a passive mode that a command asks for. -/
def passiveCalls : Command → Option Data.SetupCalls
  | .pasv calls | .epsv calls | .lpsv calls | .cpsv calls => some calls
  | _ => none

/-- The setup of an active connection that a command asks for. -/
def activeCalls : Command → Option Data.SetupCalls
  | .port calls | .eprt calls | .lprt calls => calls
  | _ => none

theorem execute_keeps {s : Session} {c : Command} (hpassive : passiveCalls c = none)
    (hactive : activeCalls c = none) : Keeps s (execute s c) := by
  have hsame : Keeps s s := ⟨rfl, rfl, .inl⟩
  cases c with
  | pasv calls => cases hpassive
  | epsv calls => cases hpassive
  | lpsv calls => cases hpassive
  | cpsv calls => cases hpassive
  | port calls =>
    obtain rfl : calls = none := hactive
    exact hsame
  | eprt calls =>
    obtain rfl : calls = none := hactive
    exact hsame
  | lprt calls =>
    obtain rfl : calls = none := hactive
    exact hsame
  | epsvMode mode => exact ⟨rfl, rfl, .inl⟩
  | type ascii => exact ⟨rfl, rfl, .inl⟩
  | prot protection => exact ⟨rfl, rfl, .inl⟩
  | rest arg => exact ⟨rfl, rfl, .inl⟩
  | list calls => exact listCommand_keeps calls s
  | stor m path channel calls => exact storCommand_keeps m path channel _ s
  | stou m workDirectory names channel calls =>
    simp only [execute, stouCommand]
    split
    · exact ⟨rfl, rfl, by simp⟩
    · exact hsame
    · exact storCommand_keeps m _ channel _ s
  | retr m path channel calls => exact retrCommand_keeps m path channel _ s
  | rnfr m path =>
    simp only [execute, rnfrCommand]
    split
    · exact ⟨rfl, rfl, .inl⟩
    · split
      · exact hsame
      · exact ⟨rfl, rfl, .inl⟩
  | rnto m newPath calls =>
    simp only [execute, rntoCommand]
    split
    · exact hsame
    · split
      · exact ⟨rfl, rfl, .inl⟩
      · exact ⟨rfl, rfl, .inl⟩
  | elsewhere site => exact ⟨rfl, rfl, .inl⟩

/-- A passive setup that fails finds no mode selected. -/
def SetUpFresh (s : Session) (c : Command) : Prop :=
  ∀ calls, passiveCalls c = some calls → s.status = .running →
    calls.setUp.isOk = true ∨ s.data.pasvType = .None

theorem passiveCommand_safe {s : Session} (hs : Safe s) (type : PassiveType) (calls : Data.SetupCalls) :
    Safe (passiveCommand type calls s) ↔ (calls.setUp.isOk = true ∨ s.data.pasvType = .None) := by
  rw [← Data.initPassive_selected calls type s.data]
  exact ⟨fun h => h.2, fun h => ⟨hs.1, h⟩⟩

theorem execute_safe {s : Session} {c : Command} (hs : Safe s) (hrunning : s.status = .running) :
    Safe (execute s c) ↔ SetUpFresh s c := by
  have hfresh : ∀ calls, passiveCalls c = some calls →
      ((calls.setUp.isOk = true ∨ s.data.pasvType = .None) ↔ SetUpFresh s c) := by
    intro calls hcalls
    refine ⟨fun h calls' hcalls' _ => ?_, fun h => h calls hcalls hrunning⟩
    rw [hcalls] at hcalls'
    cases hcalls'
    exact h
  cases hpassive : passiveCalls c with
  | some calls =>
    rw [← hfresh calls hpassive]
    cases c with
    | pasv => cases hpassive; exact passiveCommand_safe hs .PASV calls
    | epsv => cases hpassive; exact passiveCommand_safe hs .EPSV calls
    | lpsv => cases hpassive; exact passiveCommand_safe hs .LPSV calls
    | cpsv => cases hpassive; exact passiveCommand_safe hs .CPSV calls
    | _ => cases hpassive
  | none =>
    refine iff_of_true ?_ fun calls hcalls => by rw [hpassive] at hcalls; cases hcalls
    cases hactive : activeCalls c with
    | none => exact (execute_keeps hpassive hactive).safe hs
    | some calls =>
      have hexecute : execute s c = activeCommand (some calls) s := by
        cases c with
        | port => cases hactive; rfl
        | eprt => cases hactive; rfl
        | lprt => cases hactive; rfl
        | _ => cases hactive
      rw [hexecute]
      exact ⟨hs.1, Data.initActive_selected calls s.data⟩

theorem step_safe {s : Session} {c : Command} (hs : Safe s) :
    (∀ s', step s c = some s' → Safe s') ↔ SetUpFresh s c := by
  by_cases hrunning : s.status = .running
  · rw [← execute_safe hs hrunning]
    simp [step, hrunning]
  · simp [step, hrunning, SetUpFresh]

/-- Over every sequence of commands, with every success and failure of its steps: no assertion fails
and a selected passive mode has its listener, in every state, if and only if each passive command
that fails to set up its listener comes while no passive mode is selected. -/
theorem channel_safe (epsvMode : EPSVMode) (site : Site) (commands : List Command) :
    Always step Safe (.start epsvMode site) commands ↔
      Meets step SetUpFresh (.start epsvMode site) commands :=
  always_iff_meets (fun _ _ hs => step_safe hs) commands
    ⟨by simp [Session.start], Data.init_selected epsvMode⟩

/-- A site without files. -/
def bareSite : Site where
  files := ∅
  credits _ := []
  distinct _ := List.nodup_nil
  transfers := []

/-- The setup of a data connection whose ports are tried in turn. -/
def setUpCalls (attempts : List Data.Attempt) : Data.SetupCalls where
  address := .ok ()
  attempts := attempts
  natAddr := .ok ()

def acceptCalls : Data.OpenCalls where
  accept := .ok ()
  isFXP := false
  allowFxp := false
  handshake := .ok ()

def plainList : ListCalls := ⟨true, acceptCalls, true, .done⟩

/-- A `PASV` that finds every port in use closes the listener of the one before it and leaves the mode
selected; a listing then fails the assertion. -/
theorem passive_without_listener :
    ∃ s, run step (.start .Extended bareSite) [.pasv (setUpCalls [.okay]), .pasv (setUpCalls [.inUse])] =
        some s ∧
      s.status = .running ∧ s.data.pasvType = .PASV ∧ s.data.listening = false ∧ ¬Safe s ∧
      ∃ s', step s (.list plainList) = some s' ∧ s'.status = .aborted := by
  refine ⟨_, rfl, rfl, rfl, rfl, fun h => ?_, _, rfl, rfl⟩
  exact absurd (h.2 (by decide)) (by decide)

end Channel
end Cmd
end Ebftpd
