import Ebftpd.Cmd.Channel
import Ebftpd.Ftp.Reply

/-!
# Ebftpd.Ftp.Transfer

The data connection during a transfer (`Data::Read`, `Data::Write` and `Data::HandleControl`,
`src/ftp/data.cpp`). Each call polls the control socket together with the data socket. Whatever
comes on the control socket is answered first, and `HandleControl` ends in an exception on every
path: behind an answer it throws the `NetworkError` that is meant for a poll without any input, and
hands it on as a `ControlError`, which the transfer commands rethrow.

A run is what happens to one transfer: bytes arrive, `State().Update` counts some, and `Read` and
`Write` go through their loop once, with what the poll returns and what the calls behind it meet.
That a listing counts what it writes is left out.

* `step_bytes`: no byte of the data is lost or repeated.
* `step_obeys`: what a control line does to the transfer.
* `transfer_obeys`: a run in which every control line is dealt with as it should.
* `receive_throws`, `retr_throws`: what ends the transfer and what ends the session.
-/

namespace Ebftpd
namespace Ftp
namespace Transfer

open Util Lib Control Cmd

/-- What `Read` and `Write` throw. -/
inductive TransferError where
  | net (e : NetError)
  -- `TransferAborted`
  | aborted
  -- `ControlError`
  | control (e : NetError)
  | interrupted

/-- The events of the control socket, if there are any, and what the calls they lead to return. -/
structure ControlReady where
  -- with `POLLIN`, what `NextCommand` returns
  line : Option (Except NetError Str)
  hup : Bool
  -- the reply to the line
  replied : Except NetError Unit

/-- The events of the data socket, and what it does then. -/
structure DataReady where
  -- `POLLIN` for `Read`, `POLLOUT` for `Write`
  ready : Bool
  hup : Bool
  -- how many bytes `socket.Read` or `socket.Write` moves, and what it throws
  moved : Nat
  failed : Option NetError

/-- What `poll` returns. -/
inductive Polled where
  | timeout
  -- `EINTR`
  | interrupted
  | failed (errno : Errno)
  | ready (control : Option ControlReady) (data : DataReady)

structure State where
  -- what went over the data connection
  moved : List UInt8
  -- what is there to go over it, in the socket or in the file
  left : List UInt8
  -- `State().Bytes()`
  bytes : Nat
  replies : List (ReplyCode × Str)
  -- `SetState(ClientState::Finished)`
  finished : Bool
  -- what `Read` or `Write` threw
  thrown : Option TransferError

/-- A transfer that begins, of which so many bytes are there. -/
def State.start (left : List UInt8) : State := ⟨[], left, 0, [], false, none⟩

def State.throw (t : State) (e : TransferError) : State := { t with thrown := some e }

def abor : Str := "ABOR".toList

def quit : Str := "QUIT".toList

/-- The reply to a line. -/
def answer (command : Str) (bytes : Nat) : ReplyCode × Str :=
  if command = abor then (.DataCloseAborted, "Abort requested, closing data connection".toList)
  else if command = quit then (.ClosingControl, "Bye bye".toList)
  else if command = "STAT".toList then
    (.FileStatus, "Status: ".toList ++ Nat.toDigits 10 bytes ++ " bytes transferred".toList)
  else (.BadCommandSequence, "Unsupported command during transfer".toList)

/-- `HandleControl`; a `NetworkError` inside of it becomes a `ControlError`. -/
def handleControl (ready : ControlReady) (t : State) : State :=
  let behind (t : State) :=
    if ready.hup then t.throw (.control .endOfStream)
    else t.throw (.control (.network "Network error"))
  match ready.line with
  | none => behind t
  | some (.error e) => t.throw (.control e)
  | some (.ok command) =>
    match ready.replied with
    | .error e => t.throw (.control e)
    | .ok () =>
      let t := { t with replies := t.replies ++ [answer command t.bytes] }
      if command = abor then t.throw .aborted
      else if command = quit then { t with finished := true }.throw (.control .endOfStream)
      else behind t

/-- The data socket, when nothing came on the control socket. -/
def handleData (ready : DataReady) (t : State) : State :=
  if ready.ready then
    { t with
      moved := t.moved ++ t.left.take ready.moved
      left := t.left.drop ready.moved
      thrown := ready.failed.map .net }
  else if ready.hup then t.throw (.net .endOfStream)
  else t.throw (.net (.network "Network error"))

/-- The loop of `Read` and `Write`, which no turn repeats. -/
def turn (polled : Polled) (t : State) : State :=
  match polled with
  | .timeout => t.throw (.net .timeout)
  | .interrupted => t.throw .interrupted
  | .failed errno => t.throw (.net (.system errno))
  | .ready (some control) _ => handleControl control t
  | .ready none data => handleData data t

/-- `Data::Read`, that waits for `POLLIN`. -/
def read (polled : Polled) (t : State) : State := turn polled t

/-- `Data::Write`, that waits for `POLLOUT`. -/
def write (polled : Polled) (t : State) : State := turn polled t

inductive Event where
  | arrive (bytes : List UInt8)
  | update (len : Nat)
  | read (polled : Polled)
  | write (polled : Polled)

/-- A transfer goes on until `Read` or `Write` throws. -/
def step (t : State) (e : Event) : Option State :=
  match t.thrown, e with
  | some _, _ => none
  | none, .arrive bytes => some { t with left := t.left ++ bytes }
  | none, .update len => some { t with bytes := t.bytes + len }
  | none, .read polled => some (read polled t)
  | none, .write polled => some (write polled t)

/-! ## What a control line should do -/

def Event.polled : Event → Option Polled
  | .read polled | .write polled => some polled
  | _ => none

/-- The events of the control socket that a call finds. -/
def Event.control (e : Event) : Option ControlReady :=
  match e.polled with
  | some (.ready control _) => control
  | _ => none

/-- The control line that a call finds. -/
def Event.line (e : Event) : Option Str :=
  match e.control with
  | some { line := some (.ok command), .. } => some command
  | _ => none

def Event.arrived : Event → List UInt8
  | .arrive bytes => bytes
  | _ => []

/-- The exceptions that leave the transfer commands. -/
def endsSession : TransferError → Bool
  | .control _ | .interrupted => true
  | .net _ | .aborted => false

/-- The client's session is over, or will be when the command is. -/
def State.over (t : State) : Bool :=
  t.finished || t.thrown.any endsSession

/-- A line other than `ABOR` and `QUIT` gets one reply and changes nothing else, `ABOR` ends the
transfer, `QUIT` the session, and no byte of the data is lost or repeated. -/
structure Obeys (t : State) (e : Event) (t' : State) : Prop where
  other : ∀ command, e.line = some command → command ≠ abor → command ≠ quit →
    (∃ reply, t'.replies = t.replies ++ [reply]) ∧ t'.thrown = none ∧ t'.over = t.over
  abor : e.line = some abor → t'.thrown = some .aborted
  quit : e.line = some quit → t'.over = true
  bytes : t'.moved ++ t'.left = t.moved ++ t.left ++ e.arrived

/-- No line comes but `QUIT`, and `ABOR` whose reply is written. -/
def Quiet (t : State) (e : Event) : Prop :=
  t.thrown = none → ∀ control command, e.control = some control → control.line = some (.ok command) →
    command = quit ∨ command = abor ∧ control.replied = .ok ()

section

variable {t t' : State} {ready : ControlReady} {polled : Polled} {e : Event}

theorem handleControl_bytes (ready : ControlReady) (t : State) :
    (handleControl ready t).moved = t.moved ∧ (handleControl ready t).left = t.left := by
  unfold handleControl
  simp only
  repeat' split
  all_goals exact ⟨rfl, rfl⟩

/-- It never returns. -/
theorem handleControl_throws (ready : ControlReady) (t : State) :
    ∃ e, (handleControl ready t).thrown = some e := by
  unfold handleControl
  simp only
  repeat' split
  all_goals exact ⟨_, rfl⟩

theorem handleControl_abor (h : ready.line = some (.ok abor)) :
    (handleControl ready t).thrown = some .aborted ↔ ready.replied = .ok () := by
  unfold handleControl
  cases hreplied : ready.replied with
  | error e => simp [h, State.throw]
  | ok _ => simp [h, State.throw]

theorem handleControl_quit (h : ready.line = some (.ok quit)) :
    (handleControl ready t).over = true := by
  have hne : quit ≠ abor := by decide
  unfold handleControl
  cases hreplied : ready.replied with
  | error e => simp [h, State.throw, State.over, endsSession]
  | ok _ => simp [h, State.throw, State.over, endsSession, hne]

theorem turn_bytes (polled : Polled) (t : State) :
    (turn polled t).moved ++ (turn polled t).left = t.moved ++ t.left := by
  unfold turn
  split
  · rfl
  · rfl
  · rfl
  · rename_i ready _
    obtain ⟨hmoved, hleft⟩ := handleControl_bytes ready t
    rw [hmoved, hleft]
  · unfold handleData
    split
    · simp
    · split
      · rfl
      · rfl

theorem step_bytes (h : step t e = some t') : t'.moved ++ t'.left = t.moved ++ t.left ++ e.arrived := by
  unfold step at h
  split at h
  · cases h
  · cases h
    simp [Event.arrived]
  · cases h
    simp [Event.arrived]
  · cases h
    exact (turn_bytes _ t).trans (List.append_nil _).symm
  · cases h
    exact (turn_bytes _ t).trans (List.append_nil _).symm

theorem line_eq_some {command : Str} :
    e.line = some command ↔ ∃ ready, e.control = some ready ∧ ready.line = some (.ok command) := by
  unfold Event.line
  cases hcontrol : e.control with
  | none => simp
  | some ready =>
    obtain ⟨line, hup, replied⟩ := ready
    cases line with
    | none => simp
    | some result =>
      cases result with
      | error e => simp
      | ok c => simp

/-- What a call does that finds something on the control socket. -/
theorem step_control (h : step t e = some t') (hready : e.control = some ready) :
    t' = handleControl ready t := by
  have hturn : ∀ polled, e.polled = some polled → turn polled t = handleControl ready t := by
    intro polled hpolled
    rw [Event.control, hpolled] at hready
    cases polled with
    | ready control data =>
      obtain rfl : control = some ready := hready
      rfl
    | timeout => cases hready
    | interrupted => cases hready
    | failed errno => cases hready
  unfold step at h
  split at h
  · cases h
  · cases hready
  · cases hready
  · cases h
    exact hturn _ rfl
  · cases h
    exact hturn _ rfl

/-- One step deals with a control line as it should exactly where it is `QUIT` or an `ABOR` that is
answered. -/
theorem step_obeys (h : step t e = some t') : Obeys t e t' ↔ Quiet t e := by
  constructor
  · intro hobeys _ ready command hready hline
    have hcommand : e.line = some command := line_eq_some.mpr ⟨ready, hready, hline⟩
    have ht' := step_control h hready
    by_cases hquit : command = quit
    · exact .inl hquit
    · by_cases habor : command = abor
      · subst habor
        have hthrown := hobeys.abor hcommand
        rw [ht'] at hthrown
        exact .inr ⟨rfl, (handleControl_abor hline).mp hthrown⟩
      · obtain ⟨-, hthrown, -⟩ := hobeys.other command hcommand habor hquit
        obtain ⟨error, herror⟩ := handleControl_throws ready t
        rw [ht', herror] at hthrown
        cases hthrown
  · intro hquiet
    have hrunning : t.thrown = none := by
      cases hthrown : t.thrown with
      | none => rfl
      | some error => simp [step, hthrown] at h
    refine ⟨fun command hline habor hquit => ?_, fun hline => ?_, fun hline => ?_, step_bytes h⟩
    · obtain ⟨ready, hready, hcommand⟩ := line_eq_some.mp hline
      rcases hquiet hrunning ready command hready hcommand with hq | ⟨ha, -⟩
      · exact absurd hq hquit
      · exact absurd ha habor
    · obtain ⟨ready, hready, hcommand⟩ := line_eq_some.mp hline
      rw [step_control h hready, handleControl_abor hcommand]
      rcases hquiet hrunning ready abor hready hcommand with hq | ⟨-, hreplied⟩
      · exact absurd hq (by decide)
      · exact hreplied
    · obtain ⟨ready, hready, hcommand⟩ := line_eq_some.mp hline
      rw [step_control h hready]
      exact handleControl_quit hcommand

end

/-- Over every interleaving of data and control lines: all lines are dealt with as they should, and no
byte is lost or repeated, if and only if no line comes during the transfer but `QUIT` and answered
`ABOR`s. -/
theorem transfer_obeys (t : State) (events : List Event) :
    Meets step (fun t e => ∀ t', step t e = some t' → Obeys t e t') t events ↔
      Meets step Quiet t events := by
  refine ⟨Meets.mono fun t e h => ?_, Meets.mono fun t e h t' ht' => (step_obeys ht').mpr h⟩
  cases hstep : step t e with
  | some t' => exact (step_obeys hstep).mp (h t' hstep)
  | none =>
    intro hrunning
    cases e <;> simp [step, hrunning] at hstep

/-- A `STAT` that comes while an upload waits gets its reply, and then the session is over. -/
theorem stat_ends_session :
    let stat : Event :=
      .read (.ready (some ⟨some (.ok "STAT".toList), false, .ok ()⟩) ⟨true, false, 3, none⟩)
    ∃ t', step (.start [1, 2, 3]) stat = some t' ∧
      t'.replies = [(.FileStatus, "Status: 0 bytes transferred".toList)] ∧ t'.moved = [] ∧
      t'.thrown = some (.control (.network "Network error")) ∧ t'.over = true ∧
      ¬Obeys (.start [1, 2, 3]) stat t' := by
  refine ⟨_, rfl, by decide, rfl, rfl, rfl, fun h => ?_⟩
  obtain ⟨-, hthrown, -⟩ := h.other "STAT".toList rfl (by decide) (by decide)
  cases hthrown

/-! ## What the transfer commands make of it -/

/-- The end of the loop of `STOR`. -/
def storLoopEnd : TransferError → StorLoopEnd
  | .net .endOfStream => .eof
  | .net _ => .networkError
  | .aborted => .aborted
  | .control _ => .controlError
  | .interrupted => .interrupted

/-- The end of the loop of `RETR`. -/
def writeError : TransferError → WriteError
  | .net _ => .network
  | .aborted => .aborted
  | .control _ => .control
  | .interrupted => .interrupted

theorem receive_throws {env : Acl.Path.Env} {sys : Acl.Path.Sys} {path : Str} {calls : StorCalls}
    {site : Site} {e : TransferError} (hend : calls.loopEnd = storLoopEnd e)
    (hreplied : calls.chmodReplied = true) :
    Channel.storThrows (receive env sys path calls site).1 = endsSession e := by
  unfold receive
  rw [hend]
  cases e with
  | net error =>
    cases error with
    | endOfStream =>
      simp only [storLoopEnd, hreplied, Bool.not_true, Bool.false_eq_true, if_false]
      split
      · rfl
      · rfl
    | network message => rfl
    | timeout => rfl
    | system errno => rfl
  | aborted =>
    simp only [storLoopEnd, hreplied, if_true]
    rfl
  | control error => rfl
  | interrupted => rfl

theorem retr_throws (e : TransferError) :
    Channel.retrThrows (.writeError (writeError e)) = endsSession e := by
  cases e with
  | net error => rfl
  | aborted => rfl
  | control error => rfl
  | interrupted => rfl

end Transfer
end Ftp
end Ebftpd
