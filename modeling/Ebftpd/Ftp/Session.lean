import Ebftpd.Ftp.Client
import Ebftpd.Lib.Run

/-!
# Ebftpd.Ftp.Session

The threads that meet in one client object (`src/ftp/clientimpl.cpp`). The client's own thread loops
over commands; the server thread calls `Interrupt` for a kick, a deleted user or a shutdown, and
destroys the object in the end. `SetState`, `SetLoggedIn` and `SetWaitingPassword` write the state
under a lock, `SetState` logs the client out behind it, and the client's entry in the online
registry (`src/ftp/online.cpp`) comes and goes with the login.

A step is what happens between two points where the other thread can be seen. What a command does
else, and what the network does to it, is a choice of the step.

* `clientStep_effect`: everything a step of the client thread can do.
* `step_base`: logins and the registry against the state, over every interleaving.
* `finished_final`, with the pairing of logins and logouts: `Finished` stays unless an `Interrupt`
  comes while `USER` or `PASS` is between its check of the state and its write.
* `online_kept`: no lookup in the registry fails unless an `Interrupt` comes where the client thread
  is about to look, or a transfer is left by `QUIT`.
-/

namespace Ebftpd
namespace Ftp
namespace Session

open Util Lib Acl

/-- The commands by what they do to the state and the registry. -/
inductive Command where
  | USER
  | PASS
  | QUIT
  | transfer
  | other (requiredState : ClientState)
  deriving DecidableEq

def Command.requiredState : Command → ClientState
  | .USER => .LoggedOut
  | .PASS => .WaitingPassword
  | .QUIT => .AnyState
  | .transfer => .LoggedIn
  | .other requiredState => requiredState

/-- Where `SetState` returns to: the end of a command, the guard of `Run` that ends the thread, the
end of the thread, or the destructor of a transfer that is left by an exception. -/
inductive Return where
  | command
  | run
  | thread
  | transfer
  deriving DecidableEq

inductive Pc where
  | connect
  | handle
  | next
  | begin (cmd : Command)
  | command (cmd : Command)
  | check (cmd : Command)
  | exec (cmd : Command)
  | setWaitingPassword (uid : UserID)
  | start
  | register
  | setLoggedIn
  | startTransfer
  | transfer
  | stopTransfer (failed : Bool)
  | setState (state : ClientState) (ret : Return)
  | logout (ret : Return)
  | endCommand
  | idle
  | done
  deriving DecidableEq

def Return.pc : Return → Pc
  | .command => .endCommand
  | .run => .setState .Finished .thread
  | .thread => .done
  | .transfer => .stopTransfer true

inductive Event where
  | login (uid : UserID)
  | logout (uid : UserID)
  deriving DecidableEq

structure State where
  state : ClientState := .LoggedOut
  user : UserID := -1
  -- `LoginGuard::loggedIn`
  guard : Bool := false
  -- whether the registry has an entry for the client's thread
  online : Bool := false
  events : List Event := []
  -- a `verify` of the registry found no entry
  verifyFailed : Bool := false
  pc : Pc := .connect
  -- the server thread is behind the lock of `SetState` and has to log the client out
  interrupting : Bool := false
  destroyed : Bool := false
  deriving DecidableEq

/-- What the outside does in a step of the client thread. -/
inductive Choice where
  | go
  -- a line was read; whether the user was flagged and could not be loaded again
  | line (cmd : Command) (reloadFailed : Bool)
  -- an exception that leaves the command
  | throws
  -- nothing but a reply
  | refused
  | accepted (uid : UserID)
  | badPassword (exceeded : Bool)
  | denied
  | verified
  | counter (okay : Bool)
  | finish
  | update
  | quit
  | complete
  deriving DecidableEq

inductive Input where
  | client (choice : Choice)
  | interrupt
  | serverLogout
  | destroy
  deriving DecidableEq

/-- `LoginGuard::Logout`: the counter, the registry, the flag. -/
def State.logout (s : State) : State :=
  { s with guard := false, online := false, events := s.events ++ [.logout s.user] }

/-- A lookup of the client's thread in the registry. -/
def State.lookup (s : State) : State := { s with verifyFailed := s.verifyFailed || !s.online }

/-- One step of the client thread. -/
def clientStep (s : State) (choice : Choice) : Option State :=
  match s.pc, choice with
  | .connect, .go => some { s with pc := .handle }
  | .connect, .refused => some { s with pc := .setState .Finished .thread }
  | .handle, .go =>
    some { s with pc := if s.state = .Finished then .setState .Finished .thread else .next }
  | .next, .line cmd reloadFailed =>
    some { s with pc := if reloadFailed then .setState .Finished .run else .begin cmd }
  | .next, .throws => some { s with pc := .setState .Finished .thread }
  | .begin cmd, .go =>
    some { s with pc := if s.state = .LoggedIn then .command cmd else .check cmd }
  | .command cmd, .go => some { s.lookup with pc := .check cmd }
  | .check cmd, .go =>
    some { s with
      pc :=
        if (checkState { state := s.state } cmd.requiredState).1 then .exec cmd else .endCommand }
  | .check _, .refused => some { s with pc := .endCommand }
  | .exec .USER, .accepted uid => some { s with pc := .setWaitingPassword uid }
  | .exec .PASS, .badPassword exceeded =>
    some { s with pc := .setState (if exceeded then .Finished else .LoggedOut) .command }
  | .exec .PASS, .denied => some { s with pc := .setState .Finished .command }
  | .exec .PASS, .verified => some { s with pc := .start }
  | .exec .QUIT, .go => some { s with pc := .setState .Finished .command }
  | .exec .transfer, .go => some { s with pc := .startTransfer }
  | .exec (.other _), .finish => some { s with pc := .setState .Finished .command }
  | .exec _, .refused => some { s with pc := .endCommand }
  | .exec _, .throws => some { s with pc := .setState .Finished .thread }
  | .setWaitingPassword uid, .go =>
    some { s with state := .WaitingPassword, user := uid, pc := .endCommand }
  | .start, .counter okay =>
    some { s with pc := if okay then .register else .setState .Finished .command }
  | .register, .go =>
    some { s with
      online := true, guard := true, events := s.events ++ [.login s.user], pc := .setLoggedIn }
  | .setLoggedIn, .go => some { s with state := .LoggedIn, pc := .endCommand }
  | .startTransfer, .go => some { s.lookup with pc := .transfer }
  | .transfer, .update => some s.lookup
  | .transfer, .quit => some { s with pc := .setState .Finished .transfer }
  | .transfer, .complete => some { s with pc := .stopTransfer false }
  | .transfer, .throws => some { s with pc := .stopTransfer true }
  | .stopTransfer failed, .go =>
    some { s.lookup with pc := if failed then .setState .Finished .thread else .endCommand }
  | .setState state ret, .go =>
    some { s with
      state := state
      pc := if state = .Finished ∧ s.state = .LoggedIn then .logout ret else ret.pc }
  | .logout ret, .go => some { s.logout with pc := ret.pc }
  | .endCommand, .go => some { s with pc := if s.state = .LoggedIn then .idle else .handle }
  | .endCommand, .throws => some { s with pc := .setState .Finished .thread }
  | .idle, .go => some { s.lookup with pc := .handle }
  | _, _ => none

def step (s : State) : Input → Option State
  | .client choice => clientStep s choice
  | .interrupt =>
    if s.destroyed ∨ s.interrupting then none
    else some { s with state := .Finished, interrupting := decide (s.state = .LoggedIn) }
  | .serverLogout => if s.interrupting then some { s.logout with interrupting := false } else none
  -- `CleanupClient` joins the thread first; the destructor of the guard logs out what is left
  | .destroy =>
    if s.pc = .done ∧ s.interrupting = false ∧ s.destroyed = false then
      some { (if s.guard then s.logout else s) with destroyed := true }
    else none

/-! ## Points of the client thread -/

/-- `USER` and `PASS` behind the check of the state, up to the login. -/
def Pc.entering : Pc → Bool
  | .exec .USER => true
  | .exec .PASS => true
  | .setWaitingPassword _ => true
  | .start => true
  | .register => true
  | .setState .Finished _ => false
  | .setState _ _ => true
  | _ => false

/-- The points that write `LoggedIn`. -/
def Pc.login : Pc → Bool
  | .setLoggedIn => true
  | .setState .LoggedIn _ => true
  | _ => false

/-- The points from which the state is written over without a look at it. -/
def Pc.overwrites (pc : Pc) : Bool := pc.entering || pc.login

/-- The points from which the registry is looked up without a look at the state. -/
def Pc.looks : Pc → Bool
  | .command _ => true
  | .exec .transfer => true
  | .startTransfer => true
  | .transfer => true
  | .stopTransfer _ => true
  | .idle => true
  | _ => false

def Pc.logsOut : Pc → Bool
  | .logout _ => true
  | _ => false

/-- The way out of a transfer by `QUIT`. -/
def Pc.quits : Pc → Bool
  | .setState _ .transfer => true
  | .logout .transfer => true
  | _ => false

/-- A move of the client thread from one point to another, in a state. -/
structure Moves (s : State) (choice : Choice) (pc : Pc) : Prop where
  entering : pc.entering = true → s.pc.entering = true ∨ s.state = .LoggedOut ∨
    s.state = .WaitingPassword
  looks : pc.looks = true → s.pc.looks = true ∨ s.state = .LoggedIn
  logsOut : pc.logsOut = false
  login : pc.login = false
  done : pc ≠ .done
  quits : pc.quits = true → s.pc = .transfer ∧ choice = .quit

/-- Everything a step of either thread can do. -/
inductive Effect (s : State) : Input → State → Prop where
  | moved {choice : Choice} (pc : Pc) (h : Moves s choice pc) (hlogsOut : s.pc.logsOut = false)
      (hlogin : s.pc.login = false) (hdone : s.pc ≠ .done) :
    Effect s (.client choice) { s with pc := pc }
  | looked {choice : Choice} (pc : Pc) (h : Moves s choice pc) (hpc : s.pc.looks = true)
      (hquits : pc.quits = false) : Effect s (.client choice) { s.lookup with pc := pc }
  | waiting {choice : Choice} (uid : UserID) (hpc : s.pc = .setWaitingPassword uid) :
    Effect s (.client choice)
      { s with state := .WaitingPassword, user := uid, pc := .endCommand }
  | registered {choice : Choice} (hpc : s.pc = .register) :
    Effect s (.client choice)
      { s with
        online := true, guard := true, events := s.events ++ [.login s.user], pc := .setLoggedIn }
  | loggedIn {choice : Choice} (hpc : s.pc = .setLoggedIn) :
    Effect s (.client choice) { s with state := .LoggedIn, pc := .endCommand }
  | stateSet {choice : Choice} (state : ClientState) (ret : Return)
      (hpc : s.pc = .setState state ret) (hlogout : ¬(state = .Finished ∧ s.state = .LoggedIn)) :
    Effect s (.client choice) { s with state := state, pc := ret.pc }
  | finished {choice : Choice} (ret : Return) (hpc : s.pc = .setState .Finished ret)
      (hstate : s.state = .LoggedIn) :
    Effect s (.client choice) { s with state := .Finished, pc := .logout ret }
  | loggedOut {choice : Choice} (ret : Return) (hpc : s.pc = .logout ret) :
    Effect s (.client choice) { s.logout with pc := ret.pc }
  | interrupted (hdestroyed : s.destroyed = false) (hint : s.interrupting = false) :
    Effect s .interrupt { s with state := .Finished, interrupting := decide (s.state = .LoggedIn) }
  | erased (hint : s.interrupting = true) :
    Effect s .serverLogout { s.logout with interrupting := false }
  | guarded (hpc : s.pc = .done) (hint : s.interrupting = false) (hguard : s.guard = true) :
    Effect s .destroy { s.logout with destroyed := true }
  | destroyed (hpc : s.pc = .done) (hint : s.interrupting = false) (hguard : s.guard = false) :
    Effect s .destroy { s with destroyed := true }

/-- Neither the end nor a point that writes `LoggedIn` or logs out. -/
def Pc.passing : Pc → Bool
  | .done => false
  | pc => !pc.logsOut && !pc.login

theorem Pc.passing_inv {pc : Pc} (h : pc.passing = true) :
    pc.logsOut = false ∧ pc.login = false ∧ pc ≠ .done := by
  cases pc with
  | done => cases h
  | _ =>
    simp only [Pc.passing, Bool.and_eq_true, Bool.not_eq_eq_eq_not, Bool.not_true] at h
    exact ⟨h.1, h.2, by simp⟩

/-- A point that may be moved to from anywhere. -/
def Pc.free (pc : Pc) : Bool := pc.passing && !pc.entering && !pc.looks && !pc.quits

section Moves

variable {s : State} {choice : Choice} {pc₀ pc : Pc} {ret : Return}

theorem moves_entering (hfrom : s.pc.entering = true) (hpc : pc.passing = true) (hlooks : pc.looks = false)
    (hquits : pc.quits = false) : Moves s choice pc where
  entering := fun _ => .inl hfrom
  looks := fun h => by rw [hlooks] at h; cases h
  logsOut := (Pc.passing_inv hpc).1
  login := (Pc.passing_inv hpc).2.1
  done := (Pc.passing_inv hpc).2.2
  quits := fun h => by rw [hquits] at h; cases h

theorem moves_looks (hfrom : s.pc.looks = true ∨ s.state = .LoggedIn) (hpc : pc.passing = true)
    (hentering : pc.entering = false) (hquits : pc.quits = false) : Moves s choice pc where
  entering := fun h => by rw [hentering] at h; cases h
  looks := fun _ => hfrom
  logsOut := (Pc.passing_inv hpc).1
  login := (Pc.passing_inv hpc).2.1
  done := (Pc.passing_inv hpc).2.2
  quits := fun h => by rw [hquits] at h; cases h

theorem moves_free (s : State) (h : pc.free = true) : Moves s choice pc := by
  simp only [Pc.free, Bool.and_eq_true, Bool.not_eq_eq_eq_not, Bool.not_true] at h
  obtain ⟨⟨⟨hpassing, hentering⟩, hlooks⟩, hquits⟩ := h
  obtain ⟨hlogsOut, hlogin, hdone⟩ := Pc.passing_inv hpassing
  exact
    { entering := fun h => by rw [hentering] at h; cases h
      looks := fun h => by rw [hlooks] at h; cases h
      logsOut := hlogsOut
      login := hlogin
      done := hdone
      quits := fun h => by rw [hquits] at h; cases h }

theorem moves_finish (s : State) (h : ret ≠ .transfer) : Moves s choice (.setState .Finished ret) := by
  refine moves_free s ?_
  cases ret with
  | transfer => exact absurd rfl h
  | command => rfl
  | run => rfl
  | thread => rfl

theorem Effect.moved_of (hpc : s.pc = pc₀) (h : Moves s choice pc) (hfrom : pc₀.passing = true) :
    Effect s (.client choice) { s with pc := pc } := by
  subst hpc
  obtain ⟨hlogsOut, hlogin, hdone⟩ := Pc.passing_inv hfrom
  exact .moved pc h hlogsOut hlogin hdone

theorem Effect.free_of (hpc : s.pc = pc₀) (h : pc.free = true) (hfrom : pc₀.passing = true) :
    Effect s (.client choice) { s with pc := pc } :=
  .moved_of hpc (moves_free s h) hfrom

theorem Effect.finish_of (hpc : s.pc = pc₀) (h : ret ≠ .transfer) (hfrom : pc₀.passing = true) :
    Effect s (.client choice) { s with pc := .setState .Finished ret } :=
  .moved_of hpc (moves_finish s h) hfrom

end Moves

theorem checkState_true {state reqdState : ClientState}
    (h : (checkState { state := state } reqdState).1 = true) :
    state = reqdState ∨ reqdState = .AnyState := by
  unfold checkState at h
  split at h
  · rename_i hok
    exact hok
  · split at h
    · cases h
    · split at h
      · cases h
      · split at h
        · cases h
        · split at h
          · split at h
            · cases h
            · rename_i htls
              exact absurd rfl htls
          · split at h
            · cases h
            · cases h

/-- A command is executed where its check of the state let it pass. -/
theorem moves_exec {s : State} {choice : Choice} {cmd : Command}
    (h : (checkState { state := s.state } cmd.requiredState).1 = true) :
    Moves s choice (.exec cmd) := by
  have hstate := checkState_true h
  cases cmd with
  | USER =>
    have hout : s.state = .LoggedOut := hstate.resolve_right (by simp [Command.requiredState])
    exact ⟨fun _ => .inr (.inl hout), (fun h => by cases h), rfl, rfl, (by simp),
      (fun h => by cases h)⟩
  | PASS =>
    have hwaiting : s.state = .WaitingPassword :=
      hstate.resolve_right (by simp [Command.requiredState])
    exact ⟨fun _ => .inr (.inr hwaiting), (fun h => by cases h), rfl, rfl, (by simp),
      (fun h => by cases h)⟩
  | transfer =>
    have hin : s.state = .LoggedIn := hstate.resolve_right (by simp [Command.requiredState])
    exact moves_looks (.inr hin) rfl rfl rfl
  | QUIT => exact moves_free s rfl
  | other requiredState => exact moves_free s rfl

theorem clientStep_effect {s s' : State} {choice : Choice} (h : clientStep s choice = some s') :
    Effect s (.client choice) s' := by
  unfold clientStep at h
  split at h
  · rename_i hpc
    cases h
    exact .free_of hpc rfl rfl
  · rename_i hpc
    cases h
    exact .finish_of hpc (by simp) rfl
  · rename_i hpc
    cases h
    split
    · exact .finish_of hpc (by simp) rfl
    · exact .free_of hpc rfl rfl
  · rename_i hpc
    cases h
    split
    · exact .finish_of hpc (by simp) rfl
    · exact .free_of hpc rfl rfl
  · rename_i hpc
    cases h
    exact .finish_of hpc (by simp) rfl
  · rename_i hpc
    cases h
    split
    · rename_i hstate
      exact .moved_of hpc (moves_looks (.inr hstate) rfl rfl rfl) rfl
    · exact .free_of hpc rfl rfl
  · rename_i hpc
    cases h
    exact .looked _ (moves_free s rfl) (by rw [hpc]; rfl) rfl
  · rename_i hpc
    cases h
    split
    · rename_i hcheck
      exact .moved_of hpc (moves_exec hcheck) rfl
    · exact .free_of hpc rfl rfl
  · rename_i hpc
    cases h
    exact .free_of hpc rfl rfl
  · rename_i hpc
    cases h
    exact .moved_of hpc (moves_entering (by rw [hpc]; rfl) rfl rfl rfl) rfl
  · rename_i hpc
    cases h
    split
    · exact .finish_of hpc (by simp) rfl
    · exact .moved_of hpc (moves_entering (by rw [hpc]; rfl) rfl rfl rfl) rfl
  · rename_i hpc
    cases h
    exact .finish_of hpc (by simp) rfl
  · rename_i hpc
    cases h
    exact .moved_of hpc (moves_entering (by rw [hpc]; rfl) rfl rfl rfl) rfl
  · rename_i hpc
    cases h
    exact .finish_of hpc (by simp) rfl
  · rename_i hpc
    cases h
    exact .moved_of hpc (moves_looks (.inl (by rw [hpc]; rfl)) rfl rfl rfl) rfl
  · rename_i hpc
    cases h
    exact .finish_of hpc (by simp) rfl
  · rename_i hpc
    cases h
    exact .free_of hpc rfl rfl
  · rename_i hpc
    cases h
    exact .finish_of hpc (by simp) rfl
  · rename_i hpc
    cases h
    exact .waiting _ hpc
  · rename_i hpc
    cases h
    split
    · exact .moved_of hpc (moves_entering (by rw [hpc]; rfl) rfl rfl rfl) rfl
    · exact .finish_of hpc (by simp) rfl
  · rename_i hpc
    cases h
    exact .registered hpc
  · rename_i hpc
    cases h
    exact .loggedIn hpc
  · rename_i hpc
    cases h
    exact .looked _ (moves_looks (.inl (by rw [hpc]; rfl)) rfl rfl rfl)
      (by rw [hpc]; rfl) rfl
  · rename_i hpc
    cases h
    have hsame : s.lookup = { s.lookup with pc := .transfer } := by
      rw [← hpc]
      rfl
    rw [hsame]
    exact .looked _ (moves_looks (.inl (by rw [hpc]; rfl)) rfl rfl rfl)
      (by rw [hpc]; rfl) rfl
  · rename_i hpc
    cases h
    exact .moved_of hpc
      ⟨(fun h => by cases h), (fun h => by cases h), rfl, rfl, (by simp), fun _ => ⟨hpc, rfl⟩⟩ rfl
  · rename_i hpc
    cases h
    exact .moved_of hpc (moves_looks (.inl (by rw [hpc]; rfl)) rfl rfl rfl) rfl
  · rename_i hpc
    cases h
    exact .moved_of hpc (moves_looks (.inl (by rw [hpc]; rfl)) rfl rfl rfl) rfl
  · rename_i hpc
    cases h
    split
    · exact .looked _ (moves_finish s (by simp)) (by rw [hpc]; rfl) rfl
    · exact .looked _ (moves_free s rfl) (by rw [hpc]; rfl) rfl
  · rename_i hpc
    cases h
    split
    · rename_i hboth
      obtain ⟨rfl, hstate⟩ := hboth
      exact .finished _ hpc hstate
    · rename_i hlogout
      exact .stateSet _ _ hpc hlogout
  · rename_i hpc
    cases h
    exact .loggedOut _ hpc
  · rename_i hpc
    cases h
    split
    · rename_i hstate
      exact .moved_of hpc (moves_looks (.inr hstate) rfl rfl rfl) rfl
    · exact .free_of hpc rfl rfl
  · rename_i hpc
    cases h
    exact .finish_of hpc (by simp) rfl
  · rename_i hpc
    cases h
    exact .looked _ (moves_free s rfl) (by rw [hpc]; rfl) rfl
  · cases h

theorem step_effect {s s' : State} {i : Input} (h : step s i = some s') : Effect s i s' := by
  cases i with
  | client choice => exact clientStep_effect h
  | interrupt =>
    simp only [step] at h
    split at h
    · cases h
    · rename_i hfree
      cases h
      rw [not_or, Bool.not_eq_true, Bool.not_eq_true] at hfree
      exact .interrupted hfree.1 hfree.2
  | serverLogout =>
    simp only [step] at h
    split at h
    · rename_i hint
      cases h
      exact .erased hint
    · cases h
  | destroy =>
    simp only [step] at h
    split at h
    · rename_i hdone
      obtain ⟨hpc, hint, -⟩ := hdone
      cases h
      cases hguard : s.guard with
      | true => exact .guarded hpc hint hguard
      | false => exact .destroyed hpc hint hguard
    · cases h

/-! ## Logins and logouts -/

/-- Reading the events in order: which login is open, or `none` when a login or a logout came out of
turn or for another user. -/
def openLogin (events : List Event) : Option (Option UserID) :=
  events.foldl
    (fun acc e =>
      match acc, e with
      | some none, .login uid => some (some uid)
      | some (some uid), .logout uid' => if uid' = uid then some none else none
      | _, _ => none)
    (some none)

theorem openLogin_login {events : List Event} (h : openLogin events = some none) (uid : UserID) :
    openLogin (events ++ [.login uid]) = some (some uid) := by
  unfold openLogin at h ⊢
  rw [List.foldl_append, h]
  rfl

theorem openLogin_logout {events : List Event} {uid : UserID}
    (h : openLogin events = some (some uid)) : openLogin (events ++ [.logout uid]) = some none := by
  unfold openLogin at h ⊢
  rw [List.foldl_append, h]
  simp

/-- How the login, the registry and the state hang together, wherever the two threads are. -/
structure Base (s : State) : Prop where
  events : openLogin s.events = some (if s.guard then some s.user else none)
  online : s.guard = true → s.online = true
  guard : s.guard = true → s.state = .LoggedIn ∨ s.pc.login = true ∨ s.interrupting = true ∨
    s.pc.logsOut = true
  loggedIn : s.state = .LoggedIn → s.guard = true ∧ s.pc.overwrites = false ∧ s.pc.logsOut = false ∧
    s.interrupting = false
  interrupting : s.interrupting = true → s.guard = true ∧ s.state = .Finished ∧
    s.pc.overwrites = false ∧ s.pc.logsOut = false
  logsOut : s.pc.logsOut = true → s.guard = true ∧ s.state = .Finished
  login : s.pc.login = true → s.pc = .setLoggedIn ∧ s.guard = true
  entering : s.pc.entering = true → s.guard = false
  done : s.pc = .done → s.state ≠ .LoggedIn

theorem overwrites_false {pc : Pc} :
    pc.overwrites = false ↔ pc.entering = false ∧ pc.login = false := by
  unfold Pc.overwrites
  rw [Bool.or_eq_false_iff]

theorem return_pc (ret : Return) : ret.pc.overwrites = false ∧ ret.pc.logsOut = false := by
  cases ret with
  | command => exact ⟨rfl, rfl⟩
  | run => exact ⟨rfl, rfl⟩
  | thread => exact ⟨rfl, rfl⟩
  | transfer => exact ⟨rfl, rfl⟩

theorem start_base : Base {} where
  events := rfl
  online := fun h => by cases h
  guard := fun h => by cases h
  loggedIn := fun h => by cases h
  interrupting := fun h => by cases h
  logsOut := fun h => by cases h
  login := fun h => by cases h
  entering := fun h => by cases h
  done := fun h => by cases h

/-- A move that writes nothing the invariant reads but the point of the client thread. -/
theorem base_move {s : State} {choice : Choice} {pc : Pc} (hb : Base s) (h : Moves s choice pc)
    (hlogsOut : s.pc.logsOut = false) (hlogin : s.pc.login = false) : Base { s with pc := pc } := by
  -- a guard that is set belongs to the state or to the server thread
  have hguard : s.guard = true → s.state = .LoggedIn ∨ s.interrupting = true := by
    intro hg
    rcases hb.guard hg with hin | hpc | hint | hout
    · exact .inl hin
    · rw [hlogin] at hpc
      cases hpc
    · exact .inr hint
    · rw [hlogsOut] at hout
      cases hout
  have hentering : pc.entering = true → s.state ≠ .LoggedIn ∧ s.interrupting = false := by
    intro hent
    rcases h.entering hent with hfrom | hstate
    · refine ⟨?_, ?_⟩
      · intro hin
        have := (overwrites_false.mp (hb.loggedIn hin).2.1).1
        rw [hfrom] at this
        cases this
      · rw [Bool.eq_false_iff]
        intro hint
        have := (overwrites_false.mp (hb.interrupting hint).2.2.1).1
        rw [hfrom] at this
        cases this
    · refine ⟨?_, ?_⟩
      · intro hin
        rw [hin] at hstate
        rcases hstate with hout | hwait
        · cases hout
        · cases hwait
      · rw [Bool.eq_false_iff]
        intro hint
        rw [(hb.interrupting hint).2.1] at hstate
        rcases hstate with hout | hwait
        · cases hout
        · cases hwait
  have hnot : s.state = .LoggedIn ∨ s.interrupting = true → pc.overwrites = false := by
    intro hwho
    refine overwrites_false.mpr ⟨?_, h.login⟩
    rw [Bool.eq_false_iff]
    intro hent
    obtain ⟨hin, hint⟩ := hentering hent
    rcases hwho with h | h
    · exact hin h
    · rw [hint] at h
      cases h
  refine ⟨hb.events, hb.online, ?_, ?_, ?_, ?_, ?_, ?_, fun hpc => absurd hpc h.done⟩
  · intro hg
    rcases hguard hg with hin | hint
    · exact .inl hin
    · exact .inr (.inr (.inl hint))
  · intro hin
    obtain ⟨hg, -, -, hint⟩ := hb.loggedIn hin
    exact ⟨hg, hnot (.inl hin), h.logsOut, hint⟩
  · intro hint
    obtain ⟨hg, hfin, -, -⟩ := hb.interrupting hint
    exact ⟨hg, hfin, hnot (.inr hint), h.logsOut⟩
  · intro hout
    rw [show pc.logsOut = false from h.logsOut] at hout
    cases hout
  · intro hpc
    rw [show pc.login = false from h.login] at hpc
    cases hpc
  · intro hent
    obtain ⟨hin, hint⟩ := hentering hent
    rw [Bool.eq_false_iff]
    intro hg
    rcases hguard hg with h | h
    · exact hin h
    · rw [hint] at h
      cases h

theorem looks_elsewhere {pc : Pc} (h : pc.looks = true) :
    pc.logsOut = false ∧ pc.login = false := by
  cases pc with
  | logout ret => cases h
  | setLoggedIn => cases h
  | setState state ret => cases h
  | _ => exact ⟨rfl, rfl⟩

/-- While `USER` or `PASS` is entering a user, nobody is logged in and the server thread has nobody
to log out. -/
theorem Base.idle {s : State} (hb : Base s) (h : s.pc.entering = true) :
    s.guard = false ∧ s.state ≠ .LoggedIn ∧ s.interrupting = false := by
  have hguard := hb.entering h
  refine ⟨hguard, ?_, ?_⟩
  · intro hin
    rw [(hb.loggedIn hin).1] at hguard
    cases hguard
  · rw [Bool.eq_false_iff]
    intro hint
    rw [(hb.interrupting hint).1] at hguard
    cases hguard

/-- A point that neither enters nor logs in or out, reached with nobody logged in. -/
theorem base_plain {s : State} (hguard : s.guard = false) (hevents : openLogin s.events = some none)
    (hstate : s.state ≠ .LoggedIn) (hint : s.interrupting = false) (hpc : s.pc.overwrites = false)
    (hlogsOut : s.pc.logsOut = false) : Base s where
  events := by rw [hguard]; exact hevents
  online := fun h => by rw [hguard] at h; cases h
  guard := fun h => by rw [hguard] at h; cases h
  loggedIn := fun h => absurd h hstate
  interrupting := fun h => by rw [hint] at h; cases h
  logsOut := fun h => by rw [hlogsOut] at h; cases h
  login := fun h => by rw [(overwrites_false.mp hpc).2] at h; cases h
  entering := fun _ => hguard
  done := fun _ => hstate

theorem Base.closed {s : State} (hb : Base s) (h : s.guard = false) :
    openLogin s.events = some none := by
  have hevents := hb.events
  rw [h] at hevents
  exact hevents

theorem Base.opened {s : State} (hb : Base s) (h : s.guard = true) :
    openLogin s.events = some (some s.user) := by
  have hevents := hb.events
  rw [h] at hevents
  exact hevents

/-- A guard that is set belongs to the state, to a login or logout of the client thread, or to the
server thread. -/
theorem Base.out {s : State} (hb : Base s) (hstate : s.state ≠ .LoggedIn)
    (hlogin : s.pc.login = false) (hint : s.interrupting = false) (hlogsOut : s.pc.logsOut = false) :
    s.guard = false := by
  rw [Bool.eq_false_iff]
  intro hguard
  rcases hb.guard hguard with h | h | h | h
  · exact hstate h
  · rw [hlogin] at h
    cases h
  · rw [hint] at h
    cases h
  · rw [hlogsOut] at h
    cases h

/-- `SetState` with nobody to log out. -/
theorem base_stateSet {s : State} {state : ClientState} {ret : Return} (hb : Base s)
    (hpc : s.pc = .setState state ret) (hlogout : ¬(state = .Finished ∧ s.state = .LoggedIn)) :
    Base { s with state := state, pc := ret.pc } := by
  obtain ⟨hover, hout⟩ := return_pc ret
  have hlogsOut : s.pc.logsOut = false := by rw [hpc]; rfl
  have hlogin : s.pc.login = false := by
    rw [Bool.eq_false_iff]
    intro h
    have := (hb.login h).1
    rw [hpc] at this
    cases this
  have hstate : state ≠ .LoggedIn := by
    intro h
    rw [hpc, h] at hlogin
    cases hlogin
  by_cases hent : s.pc.entering = true
  · obtain ⟨hguard, -, hint⟩ := hb.idle hent
    exact base_plain hguard (hb.closed hguard) hstate hint hover hout
  · have hfin : state = .Finished := by
      by_contra hne
      apply hent
      rw [hpc]
      cases state with
      | Finished => exact absurd rfl hne
      | _ => rfl
    have hnot : s.state ≠ .LoggedIn := fun hin => hlogout ⟨hfin, hin⟩
    by_cases hint : s.interrupting = true
    · have hguard := (hb.interrupting hint).1
      exact ⟨hb.events, hb.online, fun _ => .inr (.inr (.inl hint)), fun h => absurd h hstate,
        fun _ => ⟨hguard, hfin, hover, hout⟩,
        fun h => absurd h (Bool.eq_false_iff.mp hout),
        fun h => absurd h (Bool.eq_false_iff.mp (overwrites_false.mp hover).2),
        fun h => absurd h (Bool.eq_false_iff.mp (overwrites_false.mp hover).1),
        fun _ => hstate⟩
    · have hguard := hb.out hnot hlogin (Bool.eq_false_iff.mpr hint) hlogsOut
      exact base_plain hguard (hb.closed hguard) hstate (Bool.eq_false_iff.mpr hint) hover hout

/-- The state and the registry hang together after every step of either thread. -/
theorem step_base (s : State) (i : Input) (s' : State) (hb : Base s) (h : step s i = some s') :
    Base s' := by
  cases step_effect h with
  | moved pc hmoves hlogsOut hlogin hdone => exact base_move hb hmoves hlogsOut hlogin
  | looked pc hmoves hpc hquits =>
    obtain ⟨hlogsOut, hlogin⟩ := looks_elsewhere hpc
    have hmoved := base_move hb hmoves hlogsOut hlogin
    exact ⟨hmoved.events, hmoved.online, hmoved.guard, hmoved.loggedIn, hmoved.interrupting,
      hmoved.logsOut, hmoved.login, hmoved.entering, hmoved.done⟩
  | waiting uid hpc =>
    obtain ⟨hguard, -, hint⟩ := hb.idle (by rw [hpc]; rfl)
    exact base_plain hguard (hb.closed hguard) (by simp) hint rfl rfl
  | registered hpc =>
    obtain ⟨hguard, hin, hint⟩ := hb.idle (by rw [hpc]; rfl)
    have hevents := openLogin_login (hb.closed hguard) s.user
    exact ⟨hevents, fun _ => rfl, fun _ => .inr (.inl rfl), fun h => absurd h hin,
      fun h => absurd h (Bool.eq_false_iff.mp hint), (fun h => by cases h), fun _ => ⟨rfl, rfl⟩,
      (fun h => by cases h), (fun h => by cases h)⟩
  | loggedIn hpc =>
    obtain ⟨-, hguard⟩ := hb.login (by rw [hpc]; rfl)
    have hint : s.interrupting = false := by
      rw [Bool.eq_false_iff]
      intro h
      have := (overwrites_false.mp (hb.interrupting h).2.2.1).2
      rw [hpc] at this
      cases this
    exact ⟨hb.events, hb.online, fun _ => .inl rfl, fun _ => ⟨hguard, rfl, rfl, hint⟩,
      fun h => absurd h (Bool.eq_false_iff.mp hint), (fun h => by cases h), (fun h => by cases h),
      (fun h => by cases h), (fun h => by cases h)⟩
  | stateSet state ret hpc hlogout => exact base_stateSet hb hpc hlogout
  | finished ret hpc hstate =>
    obtain ⟨hguard, -, -, hint⟩ := hb.loggedIn hstate
    exact ⟨hb.events, hb.online, fun _ => .inr (.inr (.inr rfl)), (fun h => by cases h),
      fun h => absurd h (Bool.eq_false_iff.mp hint), fun _ => ⟨hguard, rfl⟩, (fun h => by cases h),
      (fun h => by cases h), (fun h => by cases h)⟩
  | loggedOut ret hpc =>
    have hlogsOut : s.pc.logsOut = true := by rw [hpc]; rfl
    obtain ⟨hguard, hfin⟩ := hb.logsOut hlogsOut
    obtain ⟨hover, hout⟩ := return_pc ret
    have hint : s.interrupting = false := by
      rw [Bool.eq_false_iff]
      intro h
      rw [(hb.interrupting h).2.2.2] at hlogsOut
      cases hlogsOut
    have hstate : s.state ≠ .LoggedIn := by simp [hfin]
    exact base_plain rfl (openLogin_logout (hb.opened hguard)) hstate hint hover hout
  | interrupted hdestroyed hint =>
    refine ⟨hb.events, hb.online, ?_, (fun h => by cases h), ?_, fun h => ⟨(hb.logsOut h).1, rfl⟩,
      hb.login, hb.entering, fun _ => by simp⟩
    · intro hg
      rcases hb.guard hg with hin | hlogin | h | hout
      · exact .inr (.inr (.inl (by simpa using hin)))
      · exact .inr (.inl hlogin)
      · rw [hint] at h
        cases h
      · exact .inr (.inr (.inr hout))
    · intro h
      obtain ⟨hg, hover, hout, -⟩ := hb.loggedIn (by simpa using h)
      exact ⟨hg, rfl, hover, hout⟩
  | erased hint =>
    obtain ⟨hg, hfin, hover, hout⟩ := hb.interrupting hint
    have hstate : s.state ≠ .LoggedIn := by simp [hfin]
    exact base_plain rfl (openLogin_logout (hb.opened hg)) hstate rfl hover hout
  | guarded hpc hint hguard =>
    have hg := hb.out (hb.done hpc) (by rw [hpc]; rfl) hint (by rw [hpc]; rfl)
    rw [hguard] at hg
    cases hg
  | destroyed hpc hint hguard =>
    exact base_plain hguard (hb.closed hguard) (hb.done hpc) hint (by rw [hpc]; rfl)
      (by rw [hpc]; rfl)

/-! ## `Finished` is final -/

/-- The server thread interrupts the client where no write of the state is decided already. -/
def InterruptsBetween (s : State) (i : Input) : Prop := i = .interrupt → s.pc.overwrites = false

instance (s : State) (i : Input) : Decidable (InterruptsBetween s i) :=
  inferInstanceAs (Decidable (i = .interrupt → s.pc.overwrites = false))

/-- A finished client is nowhere near a write of another state. -/
def Settled (s : State) : Prop := s.state = .Finished → s.pc.overwrites = false

theorem Settled.move {s : State} {choice : Choice} {pc : Pc} (hs : Settled s)
    (h : Moves s choice pc) : s.state = .Finished → pc.overwrites = false := by
  intro hfin
  refine overwrites_false.mpr ⟨?_, h.login⟩
  rw [Bool.eq_false_iff]
  intro hent
  rcases h.entering hent with hfrom | hout | hwait
  · rw [(overwrites_false.mp (hs hfin)).1] at hfrom
    cases hfrom
  · rw [hfin] at hout
    cases hout
  · rw [hfin] at hwait
    cases hwait

theorem step_settled (s : State) (i : Input) (s' : State) (hs : Settled s)
    (hi : InterruptsBetween s i) (h : step s i = some s') : Settled s' := by
  cases step_effect h with
  | moved pc hmoves hlogsOut hlogin hdone => exact hs.move hmoves
  | looked pc hmoves hpc hquits => exact hs.move hmoves
  | waiting uid hpc => exact fun hfin => by cases hfin
  | registered hpc =>
    intro hfin
    have := hs hfin
    rw [hpc] at this
    cases this
  | loggedIn hpc => exact fun hfin => by cases hfin
  | stateSet state ret hpc hlogout => exact fun _ => (return_pc ret).1
  | finished ret hpc hstate => exact fun _ => rfl
  | loggedOut ret hpc => exact fun _ => (return_pc ret).1
  | interrupted hdestroyed hint => exact fun _ => hi rfl
  | erased hint => exact hs
  | guarded hpc hint hguard => exact hs
  | destroyed hpc hint hguard => exact hs

theorem step_finished {s s' : State} {i : Input} (hs : Settled s) (hfin : s.state = .Finished)
    (h : step s i = some s') : s'.state = .Finished := by
  have hover := hs hfin
  cases step_effect h with
  | moved pc hmoves hlogsOut hlogin hdone => exact hfin
  | looked pc hmoves hpc hquits => exact hfin
  | waiting uid hpc =>
    rw [hpc] at hover
    cases hover
  | registered hpc => exact hfin
  | loggedIn hpc =>
    rw [hpc] at hover
    cases hover
  | stateSet state ret hpc hlogout =>
    rw [hpc] at hover
    cases state with
    | Finished => rfl
    | _ => cases hover
  | finished ret hpc hstate => rfl
  | loggedOut ret hpc => exact hfin
  | interrupted hdestroyed hint => rfl
  | erased hint => exact hfin
  | guarded hpc hint hguard => exact hfin
  | destroyed hpc hint hguard => exact hfin

/-- A destroyed client has nobody logged in and no thread left to log somebody in. -/
def Gone (s : State) : Prop :=
  s.destroyed = true → s.pc = .done ∧ s.guard = false ∧ s.interrupting = false

theorem step_gone (s : State) (i : Input) (s' : State) (hg : Gone s) (h : step s i = some s') :
    Gone s' := by
  cases step_effect h with
  | moved pc hmoves hlogsOut hlogin hdone => exact fun hd => absurd (hg hd).1 hdone
  | looked pc hmoves hpc hquits =>
    intro hd
    rw [(hg hd).1] at hpc
    cases hpc
  | waiting uid hpc => exact fun hd => by cases hpc.symm.trans (hg hd).1
  | registered hpc => exact fun hd => by cases hpc.symm.trans (hg hd).1
  | loggedIn hpc => exact fun hd => by cases hpc.symm.trans (hg hd).1
  | stateSet state ret hpc hlogout => exact fun hd => by cases hpc.symm.trans (hg hd).1
  | finished ret hpc hstate => exact fun hd => by cases hpc.symm.trans (hg hd).1
  | loggedOut ret hpc => exact fun hd => by cases hpc.symm.trans (hg hd).1
  | interrupted hdestroyed hint => exact fun hd => absurd hd (Bool.eq_false_iff.mp hdestroyed)
  | erased hint =>
    intro hd
    rw [(hg hd).2.2] at hint
    cases hint
  | guarded hpc hint hguard => exact fun _ => ⟨hpc, rfl, hint⟩
  | destroyed hpc hint hguard => exact fun _ => ⟨hpc, hguard, hint⟩

/-- A finished client stays finished in every run whose interrupts leave a login alone; in every run
the logins and logouts of a destroyed client pair up. -/
theorem finished_final {l₁ l₂ : List Input} {s₁ s₂ : State} (h₁ : run step {} l₁ = some s₁)
    (h₂ : run step s₁ l₂ = some s₂) :
    (Meets step InterruptsBetween {} (l₁ ++ l₂) → s₁.state = .Finished → s₂.state = .Finished) ∧
      (s₂.destroyed = true → openLogin s₂.events = some none) := by
  have hrun : run step {} (l₁ ++ l₂) = some s₂ := by rw [run_append, h₁]; exact h₂
  refine ⟨?_, ?_⟩
  · intro hm hfin
    obtain ⟨hm₁, hm₂⟩ := hm.append_inv h₁
    have hs₁ : Settled s₁ :=
      run_invariant_of_meets step_settled l₁ (P := Settled) (fun h => by cases h) hm₁ h₁
    have hs₂ := run_invariant_of_meets (P := fun s => Settled s ∧ s.state = .Finished)
      (fun s i s' hs hi h => ⟨step_settled s i s' hs.1 hi h, step_finished hs.1 hs.2 h⟩)
      l₂ ⟨hs₁, hfin⟩ hm₂ h₂
    exact hs₂.2
  · intro hdestroyed
    have hb := run_invariant step_base (l₁ ++ l₂) start_base hrun
    have hgone : Gone s₂ := run_invariant step_gone (l₁ ++ l₂) (fun h => by cases h) hrun
    exact hb.closed (hgone hdestroyed).2.1

/-- `USER` and `PASS` up to the entry in the registry. -/
def loginInputs (uid : UserID) : List Input :=
  [.client .go, .client .go, .client (.line .USER false), .client .go, .client .go,
    .client (.accepted uid), .client .go, .client .go, .client .go, .client (.line .PASS false),
    .client .go, .client .go, .client .verified, .client (.counter true), .client .go]

/-- The rest of `PASS`, and another command up to its check of the state. -/
def commandInputs (cmd : Command) : List Input :=
  [.client .go, .client .go, .client .go, .client .go, .client (.line cmd false), .client .go,
    .client .go, .client .go]

/-- A client that quits and is destroyed. -/
theorem finished_final_quit :
    ∃ s₁ s₂ : State,
      run step {} (loginInputs 3 ++ commandInputs .QUIT ++ [.client .go, .client .go]) = some s₁ ∧
      run step s₁ [.client .go, .client .go, .client .go, .client .go, .destroy] = some s₂ ∧
      s₁.state = .Finished ∧ s₂.state = .Finished ∧ s₂.destroyed = true ∧
      openLogin s₂.events = some none := by
  let s₁ : State :=
    { state := .Finished, user := 3, guard := true, online := true, events := [.login 3],
      pc := .logout .command }
  let s₂ : State :=
    { state := .Finished, user := 3, events := [.login 3, .logout 3], pc := .done,
      destroyed := true }
  have h₁ : run step {} (loginInputs 3 ++ commandInputs .QUIT ++ [.client .go, .client .go]) =
      some s₁ := by decide
  have h₂ : run step s₁ [.client .go, .client .go, .client .go, .client .go, .destroy] =
      some s₂ := by decide
  obtain ⟨hfinal, hpaired⟩ := finished_final h₁ h₂
  exact ⟨s₁, s₂, h₁, h₂, rfl, hfinal (by decide) rfl, rfl, hpaired rfl⟩

theorem interrupted_login_not_final :
    ∃ l₁ l₂ : List Input, ∃ s₁ s₂ : State,
      run step {} l₁ = some s₁ ∧ run step s₁ l₂ = some s₂ ∧ s₁.state = .Finished ∧
        s₂.state = .LoggedIn := by
  refine ⟨loginInputs 3 ++ [.interrupt], [.client .go],
    { state := .Finished, user := 3, guard := true, online := true, events := [.login 3],
      pc := .setLoggedIn },
    { state := .LoggedIn, user := 3, guard := true, online := true, events := [.login 3],
      pc := .endCommand }, by decide, by decide, rfl, rfl⟩

/-! ## The registry keeps the entry -/

/-- The server thread takes the entry where the client thread will look at the state before it looks
the entry up, and no transfer is left by `QUIT`. -/
def leavesEntry (s : State) : Input → Bool
  | .serverLogout => !s.pc.looks
  | .client .quit => s.pc != .transfer
  | _ => true

/-- Where the registry is looked up next the entry is there, and no lookup has failed. -/
structure Kept (s : State) : Prop where
  base : Base s
  looks : s.pc.looks = true → s.online = true
  quits : s.pc.quits = false
  verified : s.verifyFailed = false

theorem Kept.move {s : State} {choice : Choice} {pc : Pc} (hk : Kept s) (h : Moves s choice pc) :
    pc.looks = true → s.online = true := by
  intro hlooks
  rcases h.looks hlooks with hfrom | hin
  · exact hk.looks hfrom
  · exact hk.base.online (hk.base.loggedIn hin).1

theorem return_looks {ret : Return} (h : ret ≠ .transfer) :
    ret.pc.looks = false ∧ ret.pc.quits = false ∧ (Pc.logout ret).quits = false := by
  cases ret with
  | transfer => exact absurd rfl h
  | command => exact ⟨rfl, rfl, rfl⟩
  | run => exact ⟨rfl, rfl, rfl⟩
  | thread => exact ⟨rfl, rfl, rfl⟩

theorem return_ne (pc : Return → Pc) {ret : Return} (hret : (pc ret).quits = false)
    (htransfer : (pc .transfer).quits = true) : ret ≠ .transfer := by
  rintro rfl
  exact Bool.false_ne_true (hret.symm.trans htransfer)

theorem step_kept (s : State) (i : Input) (s' : State) (hk : Kept s) (hi : leavesEntry s i = true)
    (h : step s i = some s') : Kept s' := by
  have hb := step_base s i s' hk.base h
  cases step_effect h with
  | moved pc hmoves hlogsOut hlogin hdone =>
    refine ⟨hb, hk.move hmoves, ?_, hk.verified⟩
    show pc.quits = false
    rw [Bool.eq_false_iff]
    intro hquits
    obtain ⟨hpc, rfl⟩ := hmoves.quits hquits
    simp [leavesEntry, hpc] at hi
  | looked pc hmoves hpc hquits =>
    refine ⟨hb, hk.move hmoves, hquits, ?_⟩
    show (s.verifyFailed || !s.online) = false
    rw [hk.verified, hk.looks hpc]
    rfl
  | waiting uid hpc => exact ⟨hb, (fun h => by cases h), rfl, hk.verified⟩
  | registered hpc => exact ⟨hb, (fun h => by cases h), rfl, hk.verified⟩
  | loggedIn hpc => exact ⟨hb, (fun h => by cases h), rfl, hk.verified⟩
  | stateSet state ret hpc hlogout =>
    have hret : ret ≠ .transfer := return_ne (Pc.setState state) (hpc ▸ hk.quits) rfl
    obtain ⟨hlooks, hquits, -⟩ := return_looks hret
    exact ⟨hb, fun h => absurd h (Bool.eq_false_iff.mp hlooks), hquits, hk.verified⟩
  | finished ret hpc hstate =>
    have hret : ret ≠ .transfer := return_ne (Pc.setState .Finished) (hpc ▸ hk.quits) rfl
    exact ⟨hb, (fun h => by cases h), (return_looks hret).2.2, hk.verified⟩
  | loggedOut ret hpc =>
    have hret : ret ≠ .transfer := return_ne Pc.logout (hpc ▸ hk.quits) rfl
    obtain ⟨hlooks, hquits, -⟩ := return_looks hret
    exact ⟨hb, fun h => absurd h (Bool.eq_false_iff.mp hlooks), hquits, hk.verified⟩
  | interrupted hdestroyed hint => exact ⟨hb, hk.looks, hk.quits, hk.verified⟩
  | erased hint =>
    have hlooks : s.pc.looks = false := by simpa [leavesEntry] using hi
    exact ⟨hb, fun h => absurd h (Bool.eq_false_iff.mp hlooks), hk.quits, hk.verified⟩
  | guarded hpc hint hguard =>
    have hlooks : s.pc.looks = false := by rw [hpc]; rfl
    exact ⟨hb, fun h => absurd h (Bool.eq_false_iff.mp hlooks), hk.quits, hk.verified⟩
  | destroyed hpc hint hguard => exact ⟨hb, hk.looks, hk.quits, hk.verified⟩

theorem start_kept : Kept {} := ⟨start_base, (fun h => by cases h), rfl, rfl⟩

theorem online_kept {l : List Input} {s : State} (h : run step {} l = some s)
    (hm : Meets step (fun s i => leavesEntry s i = true) {} l) : s.verifyFailed = false :=
  (run_invariant_of_meets step_kept l start_kept hm h).verified

/-- A transfer that completes, and an interrupt behind it. -/
theorem online_kept_transfer :
    ∃ s : State,
      run step {} (loginInputs 3 ++ commandInputs .transfer ++ [.client .go, .client .go,
        .client .update, .client .complete, .client .go, .interrupt, .serverLogout, .client .go]) =
          some s ∧ s.online = false ∧ s.verifyFailed = false := by
  let s : State :=
    { state := .Finished, user := 3, events := [.login 3, .logout 3], pc := .handle }
  have h : run step {} (loginInputs 3 ++ commandInputs .transfer ++ ([.client .go, .client .go,
      .client .update, .client .complete, .client .go, .interrupt, .serverLogout, .client .go] : List Input)) =
        some s := by decide
  exact ⟨s, h, rfl, online_kept h (by decide)⟩

/-- A client kicked between its look at the state and `Command`; one that quits from a transfer. -/
theorem interrupted_command_not_online :
    (∃ (l : List Input) (s : State), run step {} l = some s ∧ s.verifyFailed = true) ∧
      ∃ (l : List Input) (s : State),
        run step {} l = some s ∧ .interrupt ∉ l ∧ s.verifyFailed = true := by
  refine ⟨⟨loginInputs 3 ++ ([.client .go, .client .go, .client .go, .client .go,
      .client (.line (.other .LoggedIn) false), .client .go, .interrupt, .serverLogout,
      .client .go] : List Input),
      { state := .Finished, user := 3, events := [.login 3, .logout 3],
        pc := .check (.other .LoggedIn), verifyFailed := true }, by decide, rfl⟩,
    loginInputs 3 ++ commandInputs .transfer ++ ([.client .go, .client .go, .client .quit,
      .client .go, .client .go, .client .go] : List Input),
      { state := .Finished, user := 3, events := [.login 3, .logout 3],
        pc := .setState .Finished .thread, verifyFailed := true }, by decide, by decide, rfl⟩

end Session
end Ftp
end Ebftpd
