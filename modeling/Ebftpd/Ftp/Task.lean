import Ebftpd.Ftp.Login

/-!
# Ebftpd.Ftp.Task

The tasks of the server thread that look through the connected clients (`src/ftp/task/task.cpp`). A client
has a user from the first `USER` that was accepted. `UserUpdate` asks the state of a client first,
`KickUser` reads the user right away.

* `userUpdate_total`: `UserUpdate` never reads a user that is not there.
* `kickUser_exact_iff`: `KickUser` is exact when each client that it looks at has one.
-/

namespace Ebftpd
namespace Ftp
namespace Task

open Util Acl Lib

/-- For each client whether it was interrupted, and the number that is returned. -/
structure Result where
  interrupted : List Bool
  kicked : Nat

/-- `KickUser::Execute`, or `none` where it reads the user of a client that has none. -/
def kickUser (uid : UserID) (oneOnly : Bool) : List Client → Option Result
  | [] => some ⟨[], 0⟩
  | client :: clients =>
    match client.user with
    | none => none
    | some user =>
      if user.id = uid then
        if oneOnly then some ⟨true :: clients.map fun _ => false, 1⟩
        else (kickUser uid oneOnly clients).map fun r => ⟨true :: r.interrupted, r.kicked + 1⟩
      else (kickUser uid oneOnly clients).map fun r => ⟨false :: r.interrupted, r.kicked⟩

/-- `UserUpdate::Execute`: the clients that are told that their user was updated. -/
def userUpdate (uid : UserID) : List Client → Option (List Bool)
  | [] => some []
  | client :: clients =>
    if client.state = .LoggedIn then
      match client.user with
      | none => none
      | some user => (userUpdate uid clients).map (decide (user.id = uid) :: ·)
    else (userUpdate uid clients).map (false :: ·)

/-- The client's user has the uid. -/
def hasUID (uid : UserID) (client : Client) : Bool := client.user.any (·.id = uid)

/-- Only clients with the uid are interrupted: all of them, or one if there is one. -/
structure Exact (uid : UserID) (oneOnly : Bool) (clients : List Client) (r : Result) : Prop where
  only : List.Forall₂ (fun client interrupted => interrupted = true → hasUID uid client = true) clients
    r.interrupted
  counted : r.kicked = r.interrupted.count true
  all : r.kicked = if oneOnly then min 1 (clients.countP (hasUID uid)) else clients.countP (hasUID uid)

/-- The clients whose user is read. -/
def looked (uid : UserID) (oneOnly : Bool) : List Client → List Client
  | [] => []
  | client :: clients =>
    if oneOnly && hasUID uid client then [client] else client :: looked uid oneOnly clients

theorem hasUID_of_user {uid : UserID} {client : Client} {user : User} (h : client.user = some user) :
    hasUID uid client = decide (user.id = uid) := by
  rw [hasUID, h, Option.any_some]

theorem kickUser_isSome_iff {uid : UserID} {oneOnly : Bool} {clients : List Client} :
    (kickUser uid oneOnly clients).isSome = true ↔
      ∀ client ∈ looked uid oneOnly clients, client.user.isSome = true := by
  induction clients with
  | nil => simp [kickUser, looked]
  | cons client clients ih =>
    rw [kickUser, looked]
    cases hu : client.user with
    | none =>
      have hno : hasUID uid client = false := by rw [hasUID, hu, Option.any_none]
      simp [hno, hu]
    | some user =>
      simp only [hasUID_of_user hu, Bool.and_eq_true, decide_eq_true_eq]
      by_cases huid : user.id = uid
      · rw [if_pos huid]
        cases oneOnly with
        | true => simp [huid, hu]
        | false => simp [hu, ih]
      · simp [huid, hu, ih]

theorem forall₂_false (uid : UserID) (clients : List Client) :
    List.Forall₂ (fun client interrupted => interrupted = true → hasUID uid client = true) clients
      (clients.map fun _ => false) := by
  rw [List.forall₂_map_right_iff, List.forall₂_same]
  exact fun _ _ h => absurd h (by decide)

theorem kickUser_exact {uid : UserID} {oneOnly : Bool} {clients : List Client} :
    ∀ {r : Result}, kickUser uid oneOnly clients = some r → Exact uid oneOnly clients r := by
  induction clients with
  | nil =>
    intro r h
    cases h
    exact ⟨.nil, rfl, by cases oneOnly <;> rfl⟩
  | cons client clients ih =>
    intro r h
    rw [kickUser] at h
    split at h
    · cases h
    · rename_i user hu
      have hhas := @hasUID_of_user uid _ _ hu
      split at h
      · rename_i huid
        have hhas : hasUID uid client = true := by rw [hhas, decide_eq_true huid]
        split at h
        · -- the first one ends the loop
          rename_i hone
          cases h
          refine ⟨.cons (fun _ => hhas) (forall₂_false uid clients), ?_, ?_⟩
          · simp [List.count_replicate]
          · rw [if_pos hone, List.countP_cons_of_pos hhas]
            exact (Nat.min_eq_left (Nat.le_add_left 1 _)).symm
        · rename_i hone
          obtain ⟨r', hr', rfl⟩ := Option.map_eq_some_iff.mp h
          have hexact := ih hr'
          refine ⟨.cons (fun _ => hhas) hexact.only, ?_, ?_⟩
          · rw [hexact.counted, List.count_cons_self]
          · rw [hexact.all, if_neg hone, if_neg hone, List.countP_cons_of_pos hhas]
      · rename_i huid
        have hhas : hasUID uid client = false := by rw [hhas, decide_eq_false huid]
        obtain ⟨r', hr', rfl⟩ := Option.map_eq_some_iff.mp h
        have hexact := ih hr'
        refine ⟨.cons (fun h => absurd h (by decide)) hexact.only, ?_, ?_⟩
        · rw [hexact.counted, List.count_cons_of_ne (by decide)]
        · rw [hexact.all, List.countP_cons_of_neg (by simp [hhas])]

/-- `KickUser` reads no missing user and interrupts the right clients exactly when each client that it looks
at has a user. -/
theorem kickUser_exact_iff (uid : UserID) (oneOnly : Bool) (clients : List Client) :
    (∃ r, kickUser uid oneOnly clients = some r ∧ Exact uid oneOnly clients r) ↔
      ∀ client ∈ looked uid oneOnly clients, client.user.isSome = true := by
  rw [← kickUser_isSome_iff, Option.isSome_iff_exists]
  constructor
  · rintro ⟨r, hr, -⟩
    exact ⟨r, hr⟩
  · rintro ⟨r, hr⟩
    exact ⟨r, hr, kickUser_exact hr⟩

/-- A client that has just connected, in front of one that is logged in. -/
theorem kickUser_halfOpen :
    let peer : Peer := ⟨"*".toList, "10.0.0.7".toList, "10.0.0.7".toList⟩
    let inputs := ["USER alice", "PASS secret"].map
      fun line => { line := line.toList, outside := exampleOutside : Input }
    ∃ s, run (handle exampleHash peer) {} inputs = some s ∧ s.client.state = .LoggedIn ∧
      hasUID 1 s.client = true ∧ kickUser 1 false [({} : Connection).client, s.client] = none := by
  intro peer inputs
  have hstate : (run (handle exampleHash peer) {} inputs).map
      (fun s => (s.client.state, hasUID 1 s.client)) = some (.LoggedIn, true) := by decide
  obtain ⟨s, hrun, hs⟩ := Option.map_eq_some_iff.mp hstate
  simp only [Prod.mk.injEq] at hs
  exact ⟨s, hrun, hs.1, hs.2, rfl⟩

/-! ## Where a user is missing -/

/-- From the password on there is a user. -/
def HasUser (c : Client) : Prop :=
  c.state = .WaitingPassword ∨ c.state = .LoggedIn → c.user.isSome = true

theorem HasUser.finished (c : Client) : HasUser { c with state := .Finished } := by
  rintro (h | h)
  · cases h
  · cases h

variable {hashPassword : Str → Str → Str} {peer : Peer}

theorem HasUser.effect {o : Outside} {c : Client} {r : Outcome} (hi : HasUser c)
    (h : LoginEffect hashPassword peer o c r) : HasUser r.client := by
  intro hstate
  cases h with
  | quiet event attempts state user =>
    rcases state with state | state
    · have hsome := hi (state ▸ hstate)
      rcases user with ⟨user, -⟩ | ⟨-, -, tagline, user⟩
      · rw [user]
        exact hsome
      · rw [user, Option.isSome_map]
        exact hsome
    · rw [state] at hstate
      rcases hstate with h | h
      · cases h
      · cases h
  | accepted name user event attempts loggedOut state loaded =>
    rw [loaded]
    rfl
  | verified password user event attempts waiting loaded password_ok passed =>
    rcases passed with state | ⟨state, huser, -⟩ | ⟨state, huser, -⟩
    · rw [state] at hstate
      rcases hstate with h | h
      · cases h
      · cases h
    · rw [huser, loaded]
      rfl
    · rw [huser]
      rfl
  | refused event attempts waiting save state =>
    rw [state] at hstate
    split at hstate
    · rcases hstate with h | h
      · cases h
      · cases h
    · rcases hstate with h | h
      · cases h
      · cases h

theorem handle_hasUser {s s' : Connection} {input : Input} (hi : HasUser s.client)
    (h : handle hashPassword peer s input = some s') : HasUser s'.client := by
  unfold handle at h
  split at h
  · cases h
  · split at h
    · cases h
      exact .finished _
    · rename_i c hreload
      cases h
      have hc : HasUser c := by
        rcases reloaded_eq hreload with rfl | ⟨-, loadUID, hload⟩
        · exact hi
        · obtain ⟨_, _, _, _, _, rfl⟩ := reloadUser_eq hload
          exact fun _ => rfl
      unfold Outcome.clientAfter
      split
      · exact .finished _
      · exact hc.effect (executeCommand_effect hashPassword peer input.outside c input.line)

theorem run_hasUser {inputs : List Input} {s : Connection}
    (hrun : run (handle hashPassword peer) {} inputs = some s) : HasUser s.client :=
  run_invariant (P := fun s => HasUser s.client) (fun _ _ _ hi h => handle_hasUser hi h) inputs
    (by rintro (h | h) <;> cases h) hrun

/-- So the task that asks for the state first never reads a user that is not there. -/
theorem userUpdate_total (uid : UserID) {clients : List Client} (h : ∀ client ∈ clients, HasUser client) :
    ∃ updated, userUpdate uid clients = some updated := by
  induction clients with
  | nil => exact ⟨[], rfl⟩
  | cons client clients ih =>
    obtain ⟨updated, hupdated⟩ := ih fun c hc => h c (List.mem_cons_of_mem client hc)
    rw [userUpdate, hupdated]
    split
    · rename_i hin
      obtain ⟨user, hu⟩ := Option.isSome_iff_exists.mp (h client List.mem_cons_self (.inr hin))
      rw [hu]
      exact ⟨_, rfl⟩
    · exact ⟨_, rfl⟩

end Task
end Ftp
end Ebftpd
