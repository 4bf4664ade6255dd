import Ebftpd.Db.User
import Ebftpd.Ftp.Login

/-!
# Ebftpd.Ftp.UserUpdate

How a session learns of a change to the record of its user. A write to the collection `users` that
adds an entry to the update log is replicated (`UserCache::Replicate`), which pushes a `UserUpdate`
task to the server thread (`src/ftp/task/task.cpp`). The task sets the flag `userUpdated` of the
clients that are logged in as the user; `Handle` looks at the flag behind every line it reads and has
`ReloadUser` load the record again.

The machine has one client and everybody who writes to the database. Of the client's thread those
moments are steps of their own between which the others can be seen or can see the client: the
flag, the load in `ReloadUser`, the command, and the write of a command to the database. `USER`
loads the record and sets it in one step, as a task takes no notice of a client that is not logged
in, before and after.

* `step_follows`, `run_follows`: the machine's client is that of a connection as `handle` takes it;
  in particular the flag is set for logged in clients only, and these have logged in well.
-/

namespace Ebftpd
namespace Ftp
namespace UserUpdate

open Util Lib Acl Db

/-- A write that is not in the update log: `SaveLoggedIn` of another session, `IncrCredits` and
`DecrCredits`. -/
structure Unlogged where
  loggedIn : Int
  lastLogin : Option Int
  credits : List (Str × Int)

def Unlogged.fields (w : Unlogged) (r : User) : User :=
  { r with loggedIn := w.loggedIn, lastLogin := w.lastLogin, credits := w.credits }

/-- Where the client's thread is in `Handle`. -/
inductive Thread where
  | nextCommand
  | read (line : Str)
  -- in `ReloadUser`, the flag cleared
  | reload (line : Str)
  | command (line : Str)
  -- in a command, before what it writes to the database
  | saving (save : Save)
  deriving DecidableEq

structure State where
  users : Users
  -- the `UserUpdate` tasks that are not executed yet, in the order of their updates
  tasks : List UserID := []
  client : Client := {}
  userUpdated : Bool := false
  thread : Thread := .nextCommand

inductive Action where
  -- a write that adds an entry to the update log
  | update (uid : UserID) (f : User → User)
  | purge (uid : UserID)
  | create (user : User)
  | write (uid : UserID) (w : Unlogged)
  | task
  | nextCommand (line : Str)
  | check
  | reload
  | execute (o : Outside)
  | save

/-- `UserUpdate::Execute`, for one client. -/
def userUpdate (uid : UserID) (s : State) : State :=
  if s.client.state = .LoggedIn ∧ s.client.user.any (·.id == uid) then { s with userUpdated := true } else s

/-- `o`, with the users to load. -/
def State.outside (s : State) (o : Outside) : Outside :=
  { o with load := fun name => (o.load name).map fun _ => s.users.load name }

def step (hashPassword : Str → Str → Str) (peer : Peer) (s : State) : Action → Option State
  | .update uid f => some { s with users := s.users.setFields uid f, tasks := s.tasks ++ [uid] }
  | .purge uid => some { s with users := s.users.purge uid, tasks := s.tasks ++ [uid] }
  | .create user => some { s with users := s.users.create user, tasks := s.tasks ++ [user.id] }
  | .write uid w => some { s with users := s.users.setFields uid w.fields }
  | .task =>
    match s.tasks with
    | [] => none
    | uid :: tasks => some (userUpdate uid { s with tasks := tasks })
  | .nextCommand line =>
    match s.thread with
    | .nextCommand => if s.client.state = .Finished then none else some { s with thread := .read line }
    | _ => none
  | .check =>
    match s.thread with
    | .read line =>
      if s.userUpdated then some { s with userUpdated := false, thread := .reload line }
      else some { s with thread := .command line }
    | _ => none
  | .reload =>
    match s.thread with
    | .reload line =>
      match reloadUser s.users.loadUID s.client with
      | none => some { s with client := { s.client with state := .Finished }, thread := .nextCommand }
      | some c => some { s with client := c, thread := .command line }
    | _ => none
  | .execute o =>
    match s.thread with
    | .command line =>
      let r := executeCommand hashPassword peer (s.outside o) s.client line
      some { s with
        client := r.clientAfter o.lost
        thread := match r.save with
          | some save => .saving save
          | none => .nextCommand }
    | _ => none
  | .save =>
    match s.thread, s.client.user with
    | .saving save, some user =>
      some { s with
        users := s.users.setFields user.id (save.fields user)
        tasks := if save.updateLog then s.tasks ++ [user.id] else s.tasks
        thread := .nextCommand }
    | _, _ => none

variable {hashPassword : Str → Str → Str} {peer : Peer} {s s' : State}

theorem step_check (h : step hashPassword peer s .check = some s') :
    ∃ line, s.thread = .read line ∧
      (s.userUpdated = true ∧ s' = { s with userUpdated := false, thread := .reload line } ∨
        s.userUpdated = false ∧ s' = { s with thread := .command line }) := by
  simp only [step] at h
  split at h
  · rename_i line ht
    refine ⟨line, ht, ?_⟩
    split at h
    · exact .inl ⟨‹_›, (Option.some.inj h).symm⟩
    · exact .inr ⟨by simpa using ‹¬ s.userUpdated = true›, (Option.some.inj h).symm⟩
  · cases h

theorem step_reload (h : step hashPassword peer s .reload = some s') :
    ∃ line, s.thread = .reload line ∧
      (reloadUser s.users.loadUID s.client = none ∧
          s' = { s with client := { s.client with state := .Finished }, thread := .nextCommand } ∨
        ∃ c, reloadUser s.users.loadUID s.client = some c ∧
          s' = { s with client := c, thread := .command line }) := by
  simp only [step] at h
  split at h
  · rename_i line ht
    refine ⟨line, ht, ?_⟩
    split at h
    · exact .inl ⟨‹_›, (Option.some.inj h).symm⟩
    · exact .inr ⟨_, ‹_›, (Option.some.inj h).symm⟩
  · cases h

/-! ## The connection behind the machine -/

/-- Where the machine's client stands to the client `c` of a connection: it is the same, or, at a
command, has the record that was loaded again. -/
def Behind (c client : Client) : Thread → Prop
  | .reload _ => c = client ∧ c.state = .LoggedIn
  | .command _ => c = client ∨ c.state = .LoggedIn ∧ ∃ loadUID, reloadUser loadUID c = some client
  | .nextCommand | .read _ | .saving _ => c = client

def Thread.onTurn : Thread → Bool
  | .read _ | .reload _ | .command _ => true
  | .nextCommand | .saving _ => false

/-- The machine's client is that of a connection as `handle` takes it, one turn after another. -/
structure Follows (hashPassword : Str → Str → Str) (peer : Peer) (s : State) (conn : Connection) : Prop where
  reached : ∃ inputs, run (handle hashPassword peer) {} inputs = some conn
  behind : Behind conn.client s.client s.thread
  alive : s.thread.onTurn = true → conn.client.state ≠ .Finished
  flag : s.userUpdated = true → s.client.state = .LoggedIn ∨ s.client.state = .Finished

theorem Behind.state {c client : Client} {t : Thread} (h : Behind c client t) : c.state = client.state := by
  cases t with
  | reload => exact h.1 ▸ rfl
  | command =>
    rcases h with rfl | ⟨-, loadUID, hload⟩
    · rfl
    · obtain ⟨_, _, _, _, _, rfl⟩ := reloadUser_eq hload
      rfl
  | nextCommand => exact h ▸ rfl
  | read => exact h ▸ rfl
  | saving => exact h ▸ rfl

variable {conn : Connection}

theorem reached_handle {conn' : Connection} {input : Input}
    (hreached : ∃ inputs, run (handle hashPassword peer) {} inputs = some conn)
    (h : handle hashPassword peer conn input = some conn') :
    ∃ inputs, run (handle hashPassword peer) {} inputs = some conn' := by
  obtain ⟨inputs, hrun⟩ := hreached
  exact ⟨inputs ++ [input], run_concat hrun h⟩

theorem handle_reloaded {c : Client} {input : Input} (hne : conn.client.state ≠ .Finished)
    (h : reloaded conn.client input.reload = some c) :
    handle hashPassword peer conn input =
      some ⟨(executeCommand hashPassword peer input.outside c input.line).clientAfter input.outside.lost,
        (executeCommand hashPassword peer input.outside c input.line).event.toList ++ conn.log⟩ := by
  simp only [handle, if_neg hne, h]

/-- At a command, the reload of the turn of `handle` that ends with it. -/
theorem Behind.reloaded {c client : Client} {line : Str} (h : Behind c client (.command line)) :
    ∃ reload, reloaded c reload = some client := by
  rcases h with hsame | ⟨hin, loadUID, hload⟩
  · exact ⟨none, congrArg some hsame⟩
  · exact ⟨some loadUID, by simp [Ftp.reloaded, hin, hload]⟩

theorem Follows.execute (hf : Follows hashPassword peer s conn) {o : Outside}
    (h : step hashPassword peer s (.execute o) = some s') :
    ∃ conn', Follows hashPassword peer s' conn' := by
  simp only [step] at h
  split at h
  · rename_i line ht
    have hne : conn.client.state ≠ .Finished := hf.alive (by rw [ht]; rfl)
    obtain ⟨reload, hreload⟩ := (ht ▸ hf.behind).reloaded
    have heffect := executeCommand_effect hashPassword peer (s.outside o) s.client line
    have hhandle := @handle_reloaded hashPassword peer conn s.client ⟨line, reload, s.outside o⟩ hne hreload
    cases h
    generalize executeCommand hashPassword peer (s.outside o) s.client line = r at heffect hhandle ⊢
    refine ⟨_, reached_handle hf.reached hhandle, ?_, ?_, fun hset => ?_⟩
    · cases r.save <;> rfl
    · cases r.save <;> exact fun hturn => by cases hturn
    · have hin : s.client.state = .LoggedIn :=
        (hf.flag hset).resolve_right (hf.behind.state ▸ hne)
      exact heffect.loggedIn hin o.lost
  · cases h

theorem step_follows {a : Action} (hf : Follows hashPassword peer s conn)
    (h : step hashPassword peer s a = some s') : ∃ conn', Follows hashPassword peer s' conn' := by
  cases a with
  | update uid f =>
    cases h
    exact ⟨conn, hf.reached, hf.behind, hf.alive, hf.flag⟩
  | purge uid =>
    cases h
    exact ⟨conn, hf.reached, hf.behind, hf.alive, hf.flag⟩
  | create user =>
    cases h
    exact ⟨conn, hf.reached, hf.behind, hf.alive, hf.flag⟩
  | write uid w =>
    cases h
    exact ⟨conn, hf.reached, hf.behind, hf.alive, hf.flag⟩
  | task =>
    simp only [step] at h
    split at h
    · cases h
    · cases h
      unfold userUpdate
      split
      · rename_i hin
        exact ⟨conn, hf.reached, hf.behind, hf.alive, fun _ => .inl hin.1⟩
      · exact ⟨conn, hf.reached, hf.behind, hf.alive, hf.flag⟩
  | nextCommand line =>
    simp only [step] at h
    split at h
    · rename_i ht
      have hbehind := hf.behind
      rw [ht] at hbehind
      split at h
      · cases h
      · rename_i hne
        cases h
        exact ⟨conn, hf.reached, hbehind, fun _ => hbehind ▸ hne, hf.flag⟩
    · cases h
  | check =>
    obtain ⟨line, ht, hcases⟩ := step_check h
    have hbehind := hf.behind
    have halive := hf.alive
    rw [ht] at hbehind halive
    rcases hcases with ⟨hflag, rfl⟩ | ⟨hflag, rfl⟩
    · have hin : s.client.state = .LoggedIn :=
        (hf.flag hflag).resolve_right (hbehind ▸ halive rfl)
      exact ⟨conn, hf.reached, ⟨hbehind, hbehind ▸ hin⟩, fun _ => halive rfl, fun hset => (by cases hset)⟩
    · exact ⟨conn, hf.reached, .inl hbehind, fun _ => halive rfl, hf.flag⟩
  | reload =>
    obtain ⟨line, ht, hcases⟩ := step_reload h
    have hbehind := hf.behind
    have halive := hf.alive
    rw [ht] at hbehind halive
    obtain ⟨hsame, hin⟩ := hbehind
    rcases hcases with ⟨hload, rfl⟩ | ⟨c, hload, rfl⟩
    · -- the turn of `handle` that ends the session; no command comes to meet anything
      have hreload : reloaded conn.client (some s.users.loadUID) = none := by
        simp only [reloaded, if_pos hin]
        exact hsame ▸ hload
      have hhandle : handle hashPassword peer conn ⟨line, some s.users.loadUID, exampleOutside⟩ =
          some { conn with client := { conn.client with state := .Finished } } := by
        simp only [handle, if_neg (halive rfl), hreload]
      refine ⟨_, reached_handle hf.reached hhandle, ?_, fun hturn => (by cases hturn), fun _ => .inr rfl⟩
      exact congrArg (fun c : Client => { c with state := .Finished }) hsame
    · refine ⟨conn, hf.reached, .inr ⟨hin, s.users.loadUID, hsame ▸ hload⟩, fun _ => halive rfl, ?_⟩
      obtain ⟨_, _, _, _, _, rfl⟩ := reloadUser_eq hload
      exact hf.flag
  | execute o => exact hf.execute h
  | save =>
    simp only [step] at h
    split at h
    · rename_i ht hu
      have hbehind := hf.behind
      rw [ht] at hbehind
      cases h
      exact ⟨conn, hf.reached, hbehind, fun hturn => (by cases hturn), hf.flag⟩
    · cases h

/-- Every run of the machine is a run of `handle` on the same client, which is logged in only by a good
login. -/
theorem run_follows (users : Users) (l : List Action)
    (hrun : run (step hashPassword peer) { users := users } l = some s) :
    ∃ conn, Follows hashPassword peer s conn ∧
      (s.client.state = .LoggedIn → GoodLogin hashPassword peer conn.log) := by
  obtain ⟨conn, hf⟩ : ∃ conn, Follows hashPassword peer s conn := by
    refine run_invariant (P := fun s => ∃ conn, Follows hashPassword peer s conn) ?_ l ?_ hrun
    · rintro s a s' ⟨conn, hf⟩ h
      exact step_follows hf h
    · exact ⟨{}, ⟨[], rfl⟩, rfl, fun hturn => (by cases hturn), fun hset => (by cases hset)⟩
  refine ⟨conn, hf, fun hin => ?_⟩
  obtain ⟨inputs, hconn⟩ := hf.reached
  exact (run_loginInv hconn).loggedIn (hf.behind.state.trans hin)

end UserUpdate
end Ftp
end Ebftpd
