import Ebftpd.Ftp.Client

/-!
# Ebftpd.Ftp.Login

What it takes to be logged in. `executeCommand_effect` says everything a command line can do to the
login; over a whole connection the state is `LoggedIn` only with an accepted `USER` in the log and,
behind it and not behind another one, a `PASS` that met every condition (`GoodLogin`). Three passwords
that did not verify end the connection.

* `handle_inv`: one turn of the loop keeps the invariant.
* `login_safe`: over every sequence of command lines.
-/

namespace Ebftpd
namespace Ftp

open Util Lib Acl

variable {hashPassword : Str → Str → Str} {peer : Peer}

/-! ## What a command can do -/

structure Admitted (peer : Peer) (user : User) (o : Outside) : Prop where
  address : postCheckAddress peer o user.id = true
  notDeleted : user.hasFlag .Deleted = false
  notExpired : user.expired o.today = false
  siteop : o.siteopOnly = true → user.hasFlag .Siteop = true

/-- What `PASS` leaves behind a password that verified: the session ended, the state as it was, or
the user logged in. -/
def Passed (peer : Peer) (o : Outside) (c c' : Client) (user : User) (save : Option Save) : Prop :=
  c'.state = .Finished ∨
  (c'.state = c.state ∧ c'.user = c.user ∧ save = none) ∨
  (c'.state = .LoggedIn ∧ c'.user = some (user.setLoggedIn o.now) ∧ save = some .loggedIn ∧
    Admitted peer user o)

inductive LoginEffect (hashPassword : Str → Str → Str) (peer : Peer) (o : Outside) (c : Client)
    (r : Outcome) : Prop where
  | quiet (event : r.event = none) (attempts : r.client.passwordAttemps = c.passwordAttemps)
      (state : r.client.state = c.state ∨ r.client.state = .Finished)
      (user : r.client.user = c.user ∧ r.save = none ∨
        c.state = .LoggedIn ∧ r.save = some .tagline ∧
          ∃ tagline, r.client.user = c.user.map (·.setTagline tagline))
  | accepted (name : Str) (user : User) (event : r.event = some (.accepted name o user))
      (attempts : r.client.passwordAttemps = c.passwordAttemps) (loggedOut : c.state = .LoggedOut)
      (state : r.client.state = .WaitingPassword) (loaded : r.client.user = some user)
      (found : o.load name = .ok (some user)) (notTemplate : user.hasFlag .Template = false)
      (save : r.save = none)
  | verified (password : Str) (user : User) (event : r.event = some (.verified password o))
      (attempts : r.client.passwordAttemps = c.passwordAttemps + 1)
      (waiting : c.state = .WaitingPassword) (loaded : c.user = some user)
      (password_ok : verifyPassword hashPassword user password = true)
      (passed : Passed peer o c r.client user r.save)
  | refused (event : r.event = some .refused)
      (attempts : r.client.passwordAttemps = c.passwordAttemps + 1)
      (waiting : c.state = .WaitingPassword) (save : r.save = none)
      (state : r.client.state = if c.passwordAttemps + 1 ≥ maxPasswordAttemps then .Finished else .LoggedOut)

theorem LoginEffect.replied (o : Outside) (c : Client) (reply : Option Reply) :
    LoginEffect hashPassword peer o c (replied c reply) :=
  .quiet rfl rfl (.inl rfl) (.inl ⟨rfl, rfl⟩)

theorem user_effect (o : Outside) (c : Client) (argStr : Str) (hc : c.state = .LoggedOut) :
    LoginEffect hashPassword peer o c (user o c argStr) := by
  unfold user
  simp only
  split
  · exact .replied o c _
  · exact .replied o c _
  · rename_i u hload
    split
    · exact .replied o c _
    · rename_i htemplate
      split
      · exact .replied o c _
      · exact .accepted _ u rfl rfl hc rfl rfl hload (by simpa using htemplate) rfl

theorem passVerified_passed (peer : Peer) (o : Outside) (c : Client) (u : User) :
    (passVerified peer o c u).1.passwordAttemps = c.passwordAttemps ∧
    Passed peer o c (passVerified peer o c u).1 u (passVerified peer o c u).2.2 := by
  unfold passVerified
  simp only
  split
  · exact ⟨rfl, .inl rfl⟩
  · rename_i haddr
    split
    · exact ⟨rfl, .inl rfl⟩
    · rename_i hdel
      split
      · -- the state is left as it was
        exact ⟨rfl, .inr (.inl ⟨rfl, rfl, rfl⟩)⟩
      · rename_i hsite
        split
        · exact ⟨rfl, .inl rfl⟩
        · split
          · exact ⟨rfl, .inl rfl⟩
          · rename_i hexp
            split
            · exact ⟨rfl, .inl rfl⟩
            · exact ⟨rfl, .inl rfl⟩
            · exact ⟨rfl, .inr (.inr ⟨rfl, rfl, rfl, by simpa using haddr, by simpa using hdel,
                by simpa using hexp, by simpa using hsite⟩)⟩

theorem pass_effect (o : Outside) (c : Client) (argStr : Str) (hc : c.state = .WaitingPassword) :
    LoginEffect hashPassword peer o c (pass hashPassword peer o c argStr) := by
  unfold pass
  simp only
  generalize (if (argStr.head? == some '-') = true then argStr.drop 1 else argStr) = password
  split
  · exact .quiet rfl rfl (.inl rfl) (.inl ⟨rfl, rfl⟩)
  · split
    · exact .quiet rfl rfl (.inl rfl) (.inl ⟨rfl, rfl⟩)
    · rename_i u hu
      split
      · rename_i hverify
        obtain ⟨hatt, hpassed⟩ := passVerified_passed peer o
          { c with
            singleLineReplies := c.singleLineReplies || argStr.head? == some '-'
            passwordAttemps := c.passwordAttemps + 1 } u
        exact .verified password u rfl hatt hc hu hverify hpassed
      · split
        · rename_i hmax
          exact .refused rfl rfl hc rfl (if_pos hmax).symm
        · rename_i hmax
          exact .refused rfl rfl hc rfl (if_neg hmax).symm

theorem other_effect (o : Outside) (c : Client) :
    LoginEffect hashPassword peer o c (other o c) := by
  unfold other
  simp only
  split
  · rename_i hin
    have hstate : (if o.effects.finished = true then ClientState.Finished else .LoggedIn) = c.state ∨
        (if o.effects.finished = true then ClientState.Finished else .LoggedIn) = .Finished := by
      rw [hin]
      split <;> simp
    split
    · exact .quiet rfl rfl hstate (.inl ⟨rfl, rfl⟩)
    · rename_i tagline _
      exact .quiet rfl rfl hstate (.inr ⟨hin, rfl, tagline, rfl⟩)
  · exact .quiet rfl rfl (.inl rfl) (.inl ⟨rfl, rfl⟩)

theorem checkState_eq {c : Client} {reqd : ClientState} {reply : Option Reply}
    (h : checkState c reqd = (true, reply)) (hany : reqd ≠ .AnyState) (hauth : reqd ≠ .NotBeforeAuth) :
    c.state = reqd := by
  unfold checkState at h
  split at h
  · rename_i hc
    exact hc.resolve_right hany
  · repeat' split at h
    all_goals cases h

/-- The table lets `USER` through to a logged out client only. -/
theorem lookup_user {d : CommandDef} (h : lookup "USER".toList = some d) :
    d.requiredState = .LoggedOut := by
  have huser : lookup "USER".toList = some ⟨1, -1, .LoggedOut, true, "USER <user>"⟩ := by
    simp only [lookup, defs, List.find?_cons, beq_eq_decide, String.toList_inj, String.reduceEq, decide_false, decide_true, Option.map_some]
  rw [huser] at h
  cases h
  rfl

theorem lookup_pass {d : CommandDef} (h : lookup "PASS".toList = some d) :
    d.requiredState = .WaitingPassword := by
  have hpass : lookup "PASS".toList = some ⟨0, -1, .WaitingPassword, true, "PASS <password>"⟩ := by decide
  rw [hpass] at h
  cases h
  rfl

/-- Everything a command line can do to the login. -/
theorem executeCommand_effect (hashPassword : Str → Str → Str) (peer : Peer) (o : Outside) (c : Client)
    (line : Str) :
    LoginEffect hashPassword peer o c (executeCommand hashPassword peer o c line) := by
  unfold executeCommand
  simp only
  split
  · exact .replied o c _
  · split
    · exact absurd ‹split line _ _ = []› (split_ne_nil _ _ _)
    · split
      · exact .replied o c _
      · rename_i d hlookup
        split
        · exact .replied o c _
        · split
          · exact .replied o c _
          · rename_i hcheck
            split
            · exact .replied o c _
            · split
              · exact .replied o c _
              · unfold execute
                split
                · rename_i huser
                  rw [huser] at hlookup
                  rw [lookup_user hlookup] at hcheck
                  exact user_effect o c _ (checkState_eq hcheck (by decide) (by decide))
                · split
                  · rename_i hpass
                    rw [hpass] at hlookup
                    rw [lookup_pass hlookup] at hcheck
                    exact pass_effect o c _ (checkState_eq hcheck (by decide) (by decide))
                  · split
                    · exact .quiet rfl rfl (.inr rfl) (.inl ⟨rfl, rfl⟩)
                    · exact other_effect o c

/-- Who is logged in stays logged in until the session ends. -/
theorem LoginEffect.loggedIn {o : Outside} {c : Client} {r : Outcome}
    (h : LoginEffect hashPassword peer o c r) (hc : c.state = .LoggedIn) (lost : Bool) :
    (r.clientAfter lost).state = .LoggedIn ∨ (r.clientAfter lost).state = .Finished := by
  unfold Outcome.clientAfter
  split
  · exact .inr rfl
  · cases h with
    | quiet _ _ state => exact state.imp_left (·.trans hc)
    | accepted _ _ _ _ loggedOut => exact absurd (hc.symm.trans loggedOut) (by decide)
    | verified _ _ _ _ waiting => exact absurd (hc.symm.trans waiting) (by decide)
    | refused _ _ waiting => exact absurd (hc.symm.trans waiting) (by decide)

/-! ## The log of a connection -/

def LoginEvent.isAccepted : LoginEvent → Bool
  | .accepted .. => true
  | _ => false

def LoginEvent.isRefused : LoginEvent → Bool
  | .refused => true
  | _ => false

/-- The latest accepted `USER`: the name, what it met, the record it loaded. -/
def lastAccepted : List LoginEvent → Option (Str × Outside × User)
  | [] => none
  | .accepted name o user :: _ => some (name, o, user)
  | .verified _ _ :: log => lastAccepted log
  | .refused :: log => lastAccepted log

def sinceAccepted (log : List LoginEvent) : List LoginEvent := log.takeWhile (!·.isAccepted)

def failures (log : List LoginEvent) : Nat := log.countP (·.isRefused)

/-- The latest accepted `USER` loaded `user`, not a template. -/
def Accepted (log : List LoginEvent) (user : User) : Prop :=
  ∃ name o, lastAccepted log = some (name, o, user) ∧ o.load name = .ok (some user) ∧
    user.hasFlag .Template = false

/-- The record the latest accepted `USER` loaded, and a `PASS` executed since, with the password of
that record and every other condition met. -/
def GoodLogin (hashPassword : Str → Str → Str) (peer : Peer) (log : List LoginEvent) : Prop :=
  ∃ user password o, Accepted log user ∧ .verified password o ∈ sinceAccepted log ∧
    verifyPassword hashPassword user password = true ∧ Admitted peer user o

theorem Accepted.cons {log : List LoginEvent} {user : User} (h : Accepted log user) {e : LoginEvent}
    (he : e.isAccepted = false) : Accepted (e :: log) user := by
  cases e with
  | accepted => cases he
  | verified => exact h
  | refused => exact h

/-! ## What holds over a connection -/

structure LoginInv (hashPassword : Str → Str → Str) (peer : Peer) (s : Connection) : Prop where
  waiting : s.client.state = .WaitingPassword → ∃ user, s.client.user = some user ∧ Accepted s.log user
  loggedIn : s.client.state = .LoggedIn → GoodLogin hashPassword peer s.log
  attempts : failures s.log ≤ s.client.passwordAttemps
  bound : failures s.log ≤ maxPasswordAttemps
  alive : s.client.state ≠ .Finished → failures s.log < maxPasswordAttemps

theorem LoginInv.finished {s : Connection} (hi : LoginInv hashPassword peer s) :
    LoginInv hashPassword peer { s with client := { s.client with state := .Finished } } where
  waiting h := nomatch h
  loggedIn h := nomatch h
  attempts := hi.attempts
  bound := hi.bound
  alive h := absurd rfl h

theorem LoginInv.effect {o : Outside} {c : Client} {log : List LoginEvent} {r : Outcome}
    (hi : LoginInv hashPassword peer ⟨c, log⟩) (hc : c.state ≠ .Finished)
    (h : LoginEffect hashPassword peer o c r) :
    LoginInv hashPassword peer ⟨r.client, r.event.toList ++ log⟩ := by
  have halive := hi.alive hc
  have hattempts := hi.attempts
  cases h with
  | quiet event attempts state user =>
    rw [event]
    refine ⟨fun hw => ?_, fun hl => ?_, ?_, hi.bound, fun _ => halive⟩
    · have hcw : c.state = .WaitingPassword := by
        rcases state with state | state
        · exact state ▸ hw
        · exact absurd (hw.symm.trans state) (by decide)
      obtain ⟨u, hu, hlog⟩ := hi.waiting hcw
      rcases user with ⟨huser, -⟩ | ⟨hin, -⟩
      · exact ⟨u, huser.trans hu, hlog⟩
      · exact absurd (hcw.symm.trans hin) (by decide)
    · rcases state with state | state
      · exact hi.loggedIn (state ▸ hl)
      · exact absurd (hl.symm.trans state) (by decide)
    · exact attempts ▸ hattempts
  | accepted name u event attempts _ state loaded found notTemplate _ =>
    rw [event]
    refine ⟨fun _ => ?_, fun hl => ?_, ?_, hi.bound, fun _ => halive⟩
    · exact ⟨u, loaded, name, o, rfl, found, notTemplate⟩
    · exact absurd (hl.symm.trans state) (by decide)
    · exact attempts ▸ hattempts
  | verified password u event attempts waiting loaded password_ok passed =>
    -- the record in memory is the one the latest `USER` loaded
    obtain ⟨u', hu', hlog⟩ := hi.waiting waiting
    obtain rfl : u = u' := Option.some.inj (loaded.symm.trans hu')
    have hlog' : Accepted (.verified password o :: log) u := hlog.cons rfl
    rw [event]
    refine ⟨fun hw => ?_, fun hl => ?_, ?_, hi.bound, fun _ => halive⟩
    · rcases passed with state | ⟨-, huser, -⟩ | ⟨state, -⟩
      · exact absurd (hw.symm.trans state) (by decide)
      · exact ⟨u, huser.trans loaded, hlog'⟩
      · exact absurd (hw.symm.trans state) (by decide)
    · rcases passed with state | ⟨state, -⟩ | ⟨-, -, -, hadmitted⟩
      · exact absurd (hl.symm.trans state) (by decide)
      · exact absurd (hl.symm.trans (state.trans waiting)) (by decide)
      · exact ⟨u, password, o, hlog', by simp [sinceAccepted, LoginEvent.isAccepted], password_ok, hadmitted⟩
    · exact attempts ▸ Nat.le_succ_of_le hattempts
  | refused event attempts _ _ state =>
    have hcount : failures (.refused :: log) = failures log + 1 := by
      simp [failures, LoginEvent.isRefused]
    rw [event]
    refine ⟨fun hw => ?_, fun hl => ?_, ?_, ?_, fun hne => ?_⟩
    · rw [hw] at state
      split at state <;> cases state
    · rw [hl] at state
      split at state <;> cases state
    · rw [attempts]
      exact hcount ▸ Nat.succ_le_succ hattempts
    · exact hcount ▸ halive
    · -- an attempt too many would have ended the session
      rw [state] at hne
      split at hne
      · exact absurd rfl hne
      · change failures (.refused :: log) < _
        change failures log ≤ c.passwordAttemps at hattempts
        omega

theorem reloadUser_eq {loadUID : UserID → Option User} {c c' : Client}
    (h : reloadUser loadUID c = some c') :
    ∃ u r, c.user = some u ∧ loadUID u.id = some r ∧ r.hasFlag .Deleted = false ∧
      c' = { c with user := some r } := by
  unfold reloadUser at h
  split at h
  · cases h
  · rename_i u hu
    split at h
    · cases h
    · rename_i r hr
      split at h
      · cases h
      · rename_i hdel
        exact ⟨u, r, hu, hr, by simpa using hdel, (Option.some.inj h).symm⟩

/-- The client a command runs on, with the record it has or with one loaded again. -/
theorem reloaded_eq {c c' : Client} {reload : Option (UserID → Option User)}
    (h : reloaded c reload = some c') :
    c' = c ∨ c.state = .LoggedIn ∧ ∃ loadUID, reloadUser loadUID c = some c' := by
  unfold reloaded at h
  split at h
  · exact .inl (Option.some.inj h).symm
  · split at h
    · exact .inr ⟨‹_›, _, h⟩
    · exact .inl (Option.some.inj h).symm

theorem LoginInv.reload {loadUID : UserID → Option User} {c c' : Client} {log : List LoginEvent}
    (hi : LoginInv hashPassword peer ⟨c, log⟩) (hc : c.state = .LoggedIn)
    (h : reloadUser loadUID c = some c') : LoginInv hashPassword peer ⟨c', log⟩ := by
  obtain ⟨_, _, _, _, _, rfl⟩ := reloadUser_eq h
  exact ⟨fun hw => absurd (hc.symm.trans hw) (by decide), hi.loggedIn, hi.attempts, hi.bound, hi.alive⟩

theorem handle_inv {s s' : Connection} {input : Input} (hi : LoginInv hashPassword peer s)
    (h : handle hashPassword peer s input = some s') : LoginInv hashPassword peer s' := by
  unfold handle at h
  split at h
  · cases h
  · rename_i hfin
    split at h
    · cases h
      exact hi.finished
    · rename_i c hreload
      cases h
      have hc : LoginInv hashPassword peer ⟨c, s.log⟩ ∧ c.state ≠ .Finished := by
        rcases reloaded_eq hreload with rfl | ⟨hin, loadUID, hload⟩
        · exact ⟨hi, hfin⟩
        · refine ⟨hi.reload hin hload, ?_⟩
          obtain ⟨_, _, _, _, _, rfl⟩ := reloadUser_eq hload
          exact hfin
      have heffect := hc.1.effect hc.2 (executeCommand_effect hashPassword peer input.outside c input.line)
      unfold Outcome.clientAfter
      split
      · exact heffect.finished
      · exact heffect

theorem init_inv : LoginInv hashPassword peer {} where
  waiting h := nomatch h
  loggedIn h := nomatch h
  attempts := Nat.le_refl 0
  bound := Nat.zero_le _
  alive _ := by decide

theorem run_loginInv {inputs : List Input} {s : Connection}
    (hrun : run (handle hashPassword peer) {} inputs = some s) : LoginInv hashPassword peer s :=
  run_invariant (fun _ _ _ hi h => handle_inv hi h) inputs init_inv hrun

/-- Over every sequence of command lines a client is logged in only by a good login, and at most three
of its passwords do not verify; behind the third no command is executed. -/
theorem login_safe (hashPassword : Str → Str → Str) (peer : Peer) (inputs : List Input)
    (s : Connection) (hrun : run (handle hashPassword peer) {} inputs = some s) :
    (s.client.state = .LoggedIn → GoodLogin hashPassword peer s.log) ∧
    failures s.log ≤ 3 ∧
    (failures s.log = 3 → ∀ input, handle hashPassword peer s input = none) := by
  have hi : LoginInv hashPassword peer s := run_loginInv hrun
  refine ⟨hi.loggedIn, hi.bound, fun hthree input => ?_⟩
  have hfin : s.client.state = .Finished := by
    by_contra hne
    have := hi.alive hne
    rw [hthree] at this
    exact absurd this (by decide)
  simp [handle, hfin]

/-! ## A login -/

def exampleSalt : Str := "101112131415161718191A1B1C1D1E1F202122232425262728292A2B2C2D2E2F".toList

def exampleKey : Str := "9378063E9BDEE3D5A6B3D1236F7B37D502BD4D687DFA4B73CAEB5CE5B3C8F5F7".toList

/-- PBKDF2, on one password and one salt. -/
def exampleHash (password salt : Str) : Str :=
  if password = "secret".toList ∧ salt = Passwd.hexDecode exampleSalt then Passwd.hexDecode exampleKey
  else []

def exampleUser : User :=
  { id := 1, name := "alice".toList, password := exampleKey, salt := exampleSalt }

/-- A server that knows the user `alice` from one address. -/
def exampleOutside : Outside where
  cfg := (Cmd.exampleEnv "/".toList [] []).cfg
  gidToName _ := []
  load name := .ok (if name = "alice".toList then some exampleUser else none)
  ipMasks uid := if uid = 1 then some ["*@10.0.0.7".toList] else none
  wildcardMatchCase mask text := mask == "*@10.0.0.7".toList && text == "*@10.0.0.7".toList
  errnoMessage _ := []
  siteopOnly := false
  today := 0
  now := 0
  world _ := Cmd.exampleSys ["/site".toList]
  counter := .Okay
  welcome := []
  goodbye := []
  cscripts := true
  effects := {}
  lost := false

/-- A wrong password, then the right one. -/
theorem login_safe_alice :
    let peer : Peer := ⟨"*".toList, "10.0.0.7".toList, "10.0.0.7".toList⟩
    let inputs := ["USER alice", "PASS guess", "USER alice", "PASS secret"].map
      fun line => { line := line.toList, outside := exampleOutside : Input }
    ∃ s, run (handle exampleHash peer) {} inputs = some s ∧ s.client.state = .LoggedIn ∧
      GoodLogin exampleHash peer s.log ∧ failures s.log = 1 := by
  intro peer inputs
  have hstate : (run (handle exampleHash peer) {} inputs).map
      (fun s => (s.client.state, failures s.log)) = some (.LoggedIn, 1) := by decide
  obtain ⟨s, hrun, hs⟩ := Option.map_eq_some_iff.mp hstate
  simp only [Prod.mk.injEq] at hs
  exact ⟨s, hrun, hs.1, (login_safe exampleHash peer inputs s hrun).1 hs.1, hs.2⟩

end Ftp
end Ebftpd
