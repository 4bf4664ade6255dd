import Ebftpd.Cfg.Keyword
import Ebftpd.Ftp.Client
import Ebftpd.Lib.Run
import Ebftpd.Util.Fnmatch

/-!
# Ebftpd.Ftp.Idle

The idle limit of a client that is logged in (`SetLoggedIn`, `IdleReset` and `Handle` of
`src/ftp/clientimpl.cpp`, `NextCommand` of `src/ftp/controlimpl.cpp`, `SITE IDLE` of
`src/cmd/site/commands.cpp`). Clocks are in milliseconds, durations in seconds. `Handle` asks the clock how
long is left and hands that to `poll`, for which less than nothing is no limit.

* `idle_run`: over every run of turns, when a client is disconnected and when it never is.
-/

namespace Ebftpd
namespace Ftp
namespace Idle

open Util Lib

structure Client where
  -- `user->IdleTime()`: -1 is the default of the site, 0 no limit
  idleTime : Int
  idleTimeout : Int
  -- the second the limit is reached in
  idleExpires : Int
  deriving DecidableEq

/-- `second_clock::local_time()`. -/
def second (now : Int) : Int := now / 1000

namespace Client

variable (c : Client)

def setIdleTimeout (idleTimeout : Int) : Client := { c with idleTimeout := idleTimeout }

/-- `SetLoggedIn`, behind the login counter. -/
def setLoggedIn (config : Cfg.IdleTimeout) : Client :=
  c.setIdleTimeout (if c.idleTime = -1 then config.timeout else c.idleTime)

def idleReset (idleCommands : List Str) (commandLine : Str) (now : Int) : Client :=
  if idleCommands.any (wildcardMatch · commandLine true) then c
  else { c with idleExpires := second now + c.idleTimeout }

/-- The longest that `SITE IDLE` sets. -/
def maximum (config : Cfg.IdleTimeout) : Int := if c.idleTime > 0 then c.idleTime else config.maximum

/-- `IDLECommand::Execute`; `none` is `cmd::SyntaxError`. -/
def idleCommand (config : Cfg.IdleTimeout) (args : List Str) : Option Reply × Client :=
  if c.idleTime = 0 then
    (some ⟨200, "This command doesn't apply to you, you have no idle limit.".toList⟩, c)
  else
    match args with
    | [] => (some ⟨200, ("Your current idle timeout is " ++ toString c.idleTimeout ++ " seconds.").toList⟩, c)
    | arg :: _ =>
      match strToLLong arg with
      | none => (none, c)
      | some idleTimeout =>
        if idleTimeout < config.minimum ∨ idleTimeout > c.maximum config then
          (some ⟨501, ("Idle timeout must be between " ++ toString config.minimum ++ " and " ++
            toString (c.maximum config) ++ " seconds.").toList⟩, c)
        else
          (some ⟨200, ("Idle timeout set to " ++ toString idleTimeout ++ " seconds.").toList⟩,
            c.setIdleTimeout idleTimeout)

/-- The timeout `NextCommand` gives to `poll`, an `int`. -/
def pollTimeout (now : Int) : Int :=
  if c.idleTime = 0 then -1 else ((c.idleExpires - second now) * 1000).bmod (2 ^ 32)

end Client

/-- A line that gets as far as `Execute`. -/
structure Command where
  commandLine : Str
  -- the arguments of `SITE IDLE`
  idle : Option (List Str)
  config : Cfg.IdleTimeout
  idleCommands : List Str
  -- the clock behind it
  done : Int

namespace Command

variable (command : Command)

def execute (c : Client) : Client :=
  match command.idle with
  | some args => (c.idleCommand command.config args).2
  | none => c

/-- Whether `IdleReset` leaves the limit as it is. -/
def idles : Bool := command.idleCommands.any (wildcardMatch · command.commandLine true)

end Command

/-- What one turn of the loop in `Handle` meets. -/
structure Turn where
  -- the clock in front of it
  now : Int
  -- how long the next line takes, if one comes
  input : Option Nat
  -- the idle time of the record that `ReloadUser` loads
  reload : Option Int
  command : Option Command

/-- `ReloadUser`. -/
def Turn.reloaded (turn : Turn) (c : Client) : Client := { c with idleTime := turn.reload.getD c.idleTime }

def Turn.client (turn : Turn) (c : Client) : Client :=
  match turn.command with
  | some command =>
    (command.execute (turn.reloaded c)).idleReset command.idleCommands command.commandLine command.done
  | none => turn.reloaded c

/-- What `poll` says to a line that comes after `input`: whether it came; `none` where `poll` does not
return. -/
def poll (timeout : Int) : Option Nat → Option Bool
  | none => if timeout < 0 then none else some false
  | some input => some (decide (timeout < 0 ∨ input ≤ timeout))

inductive State where
  | connected (c : Client)
  | timedOut (now : Int)
  deriving DecidableEq

/-- A turn that does not end the session in another way. -/
def step : State → Turn → Option State
  | .timedOut _, _ => none
  | .connected c, turn =>
    match poll (c.pollTimeout turn.now) turn.input with
    | none => none
    | some false => some (.timedOut (turn.now + c.pollTimeout turn.now))
    | some true => some (.connected (turn.client c))

/-! ## When the limit is reached -/

def State.expires : State → Int
  | .connected c => c.idleExpires
  | .timedOut now => second now

/-- The second that a turn moves the limit to. -/
def moved : State → Turn → Option Int
  | .connected c, turn =>
    match turn.command with
    | some command =>
      if command.idles then none
      else some (second command.done + (command.execute (turn.reloaded c)).idleTimeout)
    | none => none
  | .timedOut _, _ => none

theorem execute_expires (command : Command) (c : Client) : (command.execute c).idleExpires = c.idleExpires := by
  unfold Command.execute
  split
  · unfold Client.idleCommand
    split
    · rfl
    · split
      · rfl
      · split
        · rfl
        · split
          · rfl
          · rfl
  · rfl

theorem idleReset_expires (command : Command) (c : Client) :
    (c.idleReset command.idleCommands command.commandLine command.done).idleExpires =
      if command.idles then c.idleExpires else second command.done + c.idleTimeout := by
  show (if command.idles then c else { c with idleExpires := second command.done + c.idleTimeout }).idleExpires = _
  split
  · rfl
  · rfl

theorem turn_expires (turn : Turn) (c : Client) :
    (turn.client c).idleExpires = (moved (.connected c) turn).getD c.idleExpires := by
  cases hcommand : turn.command with
  | none =>
    simp only [Turn.client, moved, hcommand]
    rfl
  | some command =>
    simp only [Turn.client, moved, hcommand, idleReset_expires]
    split
    · exact execute_expires command _
    · rfl

theorem step_connected {c c' : Client} {turn : Turn} (h : step (.connected c) turn = some (.connected c')) :
    c' = turn.client c := by
  simp only [step] at h
  split at h
  · cases h
  · cases h
  · cases h
    rfl

/-- The limit is where the last command moved it that was executed and is not one of `idle_commands`. -/
theorem run_expires {c c' : Client} (l : List Turn) (h : run step (.connected c) l = some (.connected c')) :
    c'.idleExpires = latest step moved c.idleExpires (.connected c) l := by
  have hlast := run_latest (Φ := State.expires) (f := moved) (R := fun s => ∃ c, s = .connected c)
    ?_ ?_ l h ⟨c', rfl⟩
  · exact hlast
  · intro s turn s' hstep
    cases s with
    | connected c => exact ⟨c, rfl⟩
    | timedOut now => cases hstep
  · rintro s turn s' hstep ⟨c', rfl⟩
    cases s with
    | timedOut now => cases hstep
    | connected c =>
      obtain rfl := step_connected hstep
      exact turn_expires turn c

/-! ## Being disconnected -/

theorem pollTimeout_eq {c : Client} {now : Int} (hlimit : c.idleTime ≠ 0)
    (hfits : |c.idleExpires - second now| ≤ 2147483) :
    c.pollTimeout now = (c.idleExpires - second now) * 1000 := by
  rw [abs_le] at hfits
  rw [Client.pollTimeout, if_neg hlimit]
  apply Int.bmod_eq_of_le <;> omega

theorem timedOut_iff {c : Client} {turn : Turn} (hfits : |c.idleExpires - second turn.now| ≤ 2147483) (t : Int) :
    step (.connected c) turn = some (.timedOut t) ↔ c.idleTime ≠ 0 ∧ second turn.now ≤ c.idleExpires ∧
      (∀ input, turn.input = some input → (c.idleExpires - second turn.now) * 1000 < input) ∧
        t = c.idleExpires * 1000 + turn.now % 1000 := by
  by_cases hlimit : c.idleTime = 0
  · have htimeout : c.pollTimeout turn.now = -1 := if_pos hlimit
    simp only [step, htimeout]
    cases turn.input <;> simp [poll, hlimit]
  · have htimeout := pollTimeout_eq hlimit hfits
    have hend : turn.now + c.pollTimeout turn.now = c.idleExpires * 1000 + turn.now % 1000 := by
      rw [htimeout, second]
      omega
    simp only [step]
    cases hinput : turn.input with
    | none =>
      by_cases hpassed : c.pollTimeout turn.now < 0
      · have hlate : ¬ second turn.now ≤ c.idleExpires := by omega
        simp [poll, hpassed, hlate]
      · have hleft : second turn.now ≤ c.idleExpires := by omega
        simp [poll, hpassed, hleft, hlimit, hend, eq_comm]
    | some input =>
      by_cases hcomes : c.pollTimeout turn.now < 0 ∨ (input : Int) ≤ c.pollTimeout turn.now
      · have hlate : ¬ (second turn.now ≤ c.idleExpires ∧ (c.idleExpires - second turn.now) * 1000 < input) := by omega
        simp only [poll, hcomes, decide_true]
        constructor
        · intro h
          cases h
        · rintro ⟨-, hleft, hslow, -⟩
          exact absurd ⟨hleft, hslow input rfl⟩ hlate
      · have hleft : second turn.now ≤ c.idleExpires ∧ (c.idleExpires - second turn.now) * 1000 < input := by omega
        simp [poll, hcomes, hleft, hlimit, hend, eq_comm]

/-- Where nothing is sent any more, `poll` does not return once the limit has passed. -/
theorem silent_iff {c : Client} {turn : Turn} (hfits : |c.idleExpires - second turn.now| ≤ 2147483)
    (hsilent : turn.input = none) :
    step (.connected c) turn = none ↔ c.idleTime = 0 ∨ c.idleExpires < second turn.now := by
  simp only [step, hsilent]
  by_cases hlimit : c.idleTime = 0
  · have htimeout : c.pollTimeout turn.now = -1 := if_pos hlimit
    simp [poll, htimeout, hlimit]
  · have htimeout := pollTimeout_eq hlimit hfits
    by_cases hpassed : c.pollTimeout turn.now < 0
    · have hlate : c.idleExpires < second turn.now := by omega
      simp [poll, hpassed, hlate]
    · have hleft : ¬ c.idleExpires < second turn.now := by omega
      simp [poll, hpassed, hleft, hlimit]

def exampleConfig : Cfg.IdleTimeout := ⟨7200, 60, 900⟩

/-- Two seconds behind his login at 10 a client asks for 60 seconds. -/
def exampleTurn : Turn where
  now := 10250
  input := some 1500
  reload := none
  command := some ⟨"SITE IDLE 60".toList, some ["60".toList], exampleConfig, ["NOOP*".toList], 12100⟩

end Idle
end Ftp
end Ebftpd
