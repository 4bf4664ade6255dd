import Mathlib.Algebra.BigOperators.Group.Finset.Piecewise
import Mathlib.Algebra.Order.BigOperators.Group.List
import Mathlib.Algebra.Order.Ring.Int
import Ebftpd.Lib.Parties
import Ebftpd.Lib.Run
import Ebftpd.Cfg.Config
import Ebftpd.Acl.User

/-!
# Ebftpd.Ftp.LoginCounter

The login counters (`src/ftp/logincounter.cpp`) under any number of sessions. Each method holds the
mutex, so it is one atomic step; the sessions' steps interleave in any order.

A session logs in with `PASS`. With a kick login it first asks `LoginsUsed`, and if so has the
server thread execute `LoginKickUser`: that chooses a logged in session of the same user and then
interrupts it, which logs it out at once, unless it has logged out by itself meanwhile. Then the
session calls `Start`, telling it whether a session was kicked. `Start` discounts the kicked session
although its logout has already been counted, and does not act on the limit of all users at all.

* `step_counts`, `counts_exact`: the counters are the numbers of logged in sessions, always.
* `limits_hold`: over every run whose `Start`s are not given the discount at the limit and are not
  made at the limit of all users, the limits hold.
* `limits_overrun`: a run of three sessions that ends with two of them logged in where one may be.
-/

namespace Ebftpd
namespace Ftp

open Lib Lib.Parties Acl

inductive CounterResult where
  | Okay
  | PersonalFail
  | GlobalFail

structure LoginCounter where
  personal : UserID → Int
  global : Int

namespace LoginCounter

def init : LoginCounter := ⟨fun _ => 0, 0⟩

def setPersonal (c : LoginCounter) (uid : UserID) (count : Int) : LoginCounter :=
  { c with personal := fun u => if u = uid then count else c.personal u }

def start (c : LoginCounter) (maxOnline : Cfg.MaxUsers) (uid : UserID) (limit : Int) (kickLogin exempt : Bool) :
    CounterResult × LoginCounter :=
  let discount : Int := if kickLogin then 1 else 0
  if limit ≠ -1 ∧ c.personal uid - discount ≥ limit then (.PersonalFail, c)
  else
    let maxUsers := maxOnline.users + if exempt then maxOnline.exemptUsers else 0
    let started := { c.setPersonal uid (c.personal uid + 1) with global := c.global + 1 }
    -- the return of `GlobalFail` is commented out in the source
    if c.global - discount > maxUsers then (.Okay, started) else (.Okay, started)

def loginsUsed (c : LoginCounter) (uid : UserID) (limit : Int) : Bool :=
  limit ≠ -1 && decide (c.personal uid ≥ limit)

/-- `LoginCounter::Stop`; `none` where an assertion fails. -/
def stop (c : LoginCounter) (uid : UserID) : Option LoginCounter :=
  if c.personal uid > 0 ∧ c.global > 0 then
    some { c.setPersonal uid (c.personal uid - 1) with global := c.global - 1 }
  else none

@[simp] theorem setPersonal_personal (c : LoginCounter) (uid : UserID) (count : Int) (u : UserID) :
    (c.setPersonal uid count).personal u = if u = uid then count else c.personal u := rfl

end LoginCounter

/-! ## Sessions -/

/-- Where a session stands in `PASSCommand::Execute` and after it. -/
inductive Stage where
  | password
  | kickPushed
  | kicking (victim : Nat)
  | starting (kicked : Bool)
  | loggedIn
  | finished
  deriving DecidableEq

structure Session where
  uid : UserID
  kickLogin : Bool
  stage : Stage

structure Server where
  counter : LoginCounter
  sessions : List Session

def Server.init : Server := ⟨.init, []⟩

/-- The settings the counters are used with: the record of each user, and `max_users`. `SITE CHANGE`
and the configuration accept no others. -/
structure Limits where
  numLogins : UserID → Int
  exempt : UserID → Bool
  maxOnline : Cfg.MaxUsers
  numLogins_valid : ∀ uid, -1 ≤ numLogins uid
  maxOnline_valid : 0 ≤ maxOnline.users ∧ 0 ≤ maxOnline.exemptUsers

inductive Move where
  -- a client sends `USER`, with or without `!`
  | connect (uid : UserID) (kickLogin : Bool)
  -- `PASS`, up to the kick or `Start`
  | pass (i : Nat)
  -- `LoginKickUser` has chosen a session, or found none
  | choose (i : Nat) (victim : Option Nat)
  -- `LoginKickUser` interrupts the session it chose
  | interrupt (i : Nat)
  | start (i : Nat)
  | logout (i : Nat)

def Server.setStage (s : Server) (i : Nat) (session : Session) (stage : Stage) : Server :=
  { s with sessions := s.sessions.set i { session with stage := stage } }

/-- `SetState(Finished)` on a logged in session: `LoginGuard::Logout`. -/
def Server.logout (s : Server) (i : Nat) (session : Session) : Option Server :=
  match s.counter.stop session.uid with
  | some counter => some { s.setStage i session .finished with counter := counter }
  | none => none

def step (lim : Limits) (s : Server) : Move → Option Server
  | .connect uid kickLogin => some { s with sessions := s.sessions ++ [⟨uid, kickLogin, .password⟩] }
  | .pass i =>
    match s.sessions[i]? with
    | some session =>
      if session.stage = .password then
        if session.kickLogin && s.counter.loginsUsed session.uid (lim.numLogins session.uid) then
          some (s.setStage i session .kickPushed)
        else some (s.setStage i session (.starting false))
      else none
    | none => none
  | .choose i victim =>
    match s.sessions[i]? with
    | some session =>
      if session.stage = .kickPushed then
        match victim with
        | none =>
          if s.sessions.any fun t => t.stage == .loggedIn && t.uid == session.uid then none
          else some (s.setStage i session (.starting false))
        | some j =>
          match s.sessions[j]? with
          | some t =>
            if t.stage = .loggedIn ∧ t.uid = session.uid then some (s.setStage i session (.kicking j))
            else none
          | none => none
      else none
    | none => none
  | .interrupt i =>
    match s.sessions[i]? with
    | some session =>
      match session.stage with
      | .kicking j =>
        match s.sessions[j]? with
        | some t =>
          let s := s.setStage i session (.starting true)
          if t.stage = .loggedIn then s.logout j t else some s
        | none => none
      | _ => none
    | none => none
  | .start i =>
    match s.sessions[i]? with
    | some session =>
      match session.stage with
      | .starting kicked =>
        match s.counter.start lim.maxOnline session.uid (lim.numLogins session.uid) kicked
            (lim.exempt session.uid) with
        | (.Okay, counter) => some { s.setStage i session .loggedIn with counter := counter }
        | (_, counter) => some { s.setStage i session .finished with counter := counter }
      | _ => none
    | none => none
  | .logout i =>
    match s.sessions[i]? with
    | some session => if session.stage = .loggedIn then s.logout i session else none
    | none => none

/-! ## Counting sessions -/

/-- One for a logged in session that `p` admits. -/
def Session.one (p : UserID → Bool) (s : Session) : Int :=
  if s.stage = .loggedIn ∧ p s.uid = true then 1 else 0

/-- The logged in sessions of the users that `p` admits. -/
def Server.logins (s : Server) (p : UserID → Bool) : Int := (s.sessions.map (Session.one p)).sum

def Server.loginsOf (s : Server) (uid : UserID) : Int := s.logins (· == uid)

def Server.total (s : Server) : Int := s.logins fun _ => true

theorem Session.one_nonneg (p : UserID → Bool) (t : Session) : 0 ≤ t.one p := by
  unfold Session.one
  split <;> decide

theorem logins_setCounter (s : Server) (counter : LoginCounter) (p : UserID → Bool) :
    Server.logins { s with counter := counter } p = s.logins p := rfl

section Logins

variable {s : Server} {i : Nat} {t : Session} (h : s.sessions[i]? = some t) (p : UserID → Bool)

include h

theorem logins_setStage (stage : Stage) :
    (s.setStage i t stage).logins p = s.logins p - t.one p + Session.one p { t with stage := stage } :=
  sum_map_set (Session.one p) h

theorem one_le_logins (ht : t.stage = .loggedIn) (hp : p t.uid = true) : 1 ≤ s.logins p := by
  have hmem : t.one p ∈ s.sessions.map (Session.one p) := List.mem_map_of_mem (List.mem_of_getElem? h)
  have hone : t.one p = 1 := by simp [Session.one, ht, hp]
  rw [← hone]
  refine List.single_le_sum ?_ _ hmem
  intro x hx
  obtain ⟨u, _, rfl⟩ := List.mem_map.mp hx
  exact u.one_nonneg p

end Logins

/-! ## What a move can do -/

/-- The effect of a move on the counters and on the logged in sessions. -/
inductive Effect (lim : Limits) (s : Server) (m : Move) (s' : Server) : Prop where
  | silent (counter : s'.counter = s.counter) (logins : ∀ p, s'.logins p = s.logins p)
  | started (i : Nat) (t : Session) (kicked : Bool) (move : m = .start i)
      (session : s.sessions[i]? = some t) (stage : t.stage = .starting kicked)
      (admitted : lim.numLogins t.uid = -1 ∨
        s.counter.personal t.uid - (if kicked then 1 else 0) < lim.numLogins t.uid)
      (counter : s'.counter = { s.counter.setPersonal t.uid (s.counter.personal t.uid + 1) with
        global := s.counter.global + 1 })
      (logins : ∀ p, s'.logins p = s.logins p + if p t.uid = true then 1 else 0)
  | stopped (i : Nat) (t : Session) (session : s.sessions[i]? = some t) (stage : t.stage = .loggedIn)
      (counter : s.counter.stop t.uid = some s'.counter)
      (logins : ∀ p, s'.logins p = s.logins p - if p t.uid = true then 1 else 0)

section Effects

variable {lim : Limits} {s s' : Server} {m : Move} {i : Nat} {t : Session}
  (h : s.sessions[i]? = some t)

include h

theorem effect_setStage {stage : Stage} (hold : t.stage ≠ .loggedIn) (hnew : stage ≠ .loggedIn) :
    Effect lim s m (s.setStage i t stage) := by
  refine .silent rfl fun p => ?_
  rw [logins_setStage h]
  simp [Session.one, hold, hnew]

theorem logout_eq (ht : t.stage = .loggedIn) (hs : s.logout i t = some s') :
    s.counter.stop t.uid = some s'.counter ∧
      ∀ p, s'.logins p = s.logins p - if p t.uid = true then 1 else 0 := by
  unfold Server.logout at hs
  split at hs
  · rename_i counter hstop
    cases hs
    refine ⟨hstop, fun p => ?_⟩
    have hset := logins_setStage h p .finished
    simp only [Session.one, ht, true_and] at hset
    rw [logins_setCounter, hset]
    simp
  · cases hs

end Effects

/-- The interrupted session is logged out; the session that has it kicked only moves on. -/
theorem effect_interrupt {lim : Limits} {s s' : Server} {m : Move} {i j : Nat} {t v : Session}
    (ht : s.sessions[i]? = some t) (hkick : t.stage = .kicking j) (hv : s.sessions[j]? = some v)
    (hs : (if v.stage = .loggedIn then (s.setStage i t (.starting true)).logout j v
      else some (s.setStage i t (.starting true))) = some s') : Effect lim s m s' := by
  split at hs
  · rename_i hlogged
    have hij : i ≠ j := by
      rintro rfl
      rw [ht] at hv
      cases hv
      rw [hkick] at hlogged
      cases hlogged
    have hv' : (s.setStage i t (.starting true)).sessions[j]? = some v := by
      simp only [Server.setStage, List.getElem?_set_ne hij, hv]
    obtain ⟨hstop, hlogins⟩ := logout_eq hv' hlogged hs
    refine .stopped j v hv hlogged hstop fun p => ?_
    rw [hlogins, logins_setStage ht]
    simp [Session.one, hkick]
  · cases hs
    exact effect_setStage ht (by simp [hkick]) (by simp)

theorem effect_start {lim : Limits} {s s' : Server} {i : Nat} {t : Session} {kicked : Bool}
    (ht : s.sessions[i]? = some t) (hstage : t.stage = .starting kicked)
    (hs : (match s.counter.start lim.maxOnline t.uid (lim.numLogins t.uid) kicked (lim.exempt t.uid) with
      | (.Okay, counter) => some { s.setStage i t .loggedIn with counter := counter }
      | (_, counter) => some { s.setStage i t .finished with counter := counter }) = some s') :
    Effect lim s (.start i) s' := by
  unfold LoginCounter.start at hs
  by_cases hfull : lim.numLogins t.uid ≠ -1 ∧
      s.counter.personal t.uid - (if kicked then 1 else 0) ≥ lim.numLogins t.uid
  · simp only [if_pos hfull, Option.some.injEq] at hs
    subst hs
    exact effect_setStage ht (by simp [hstage]) (by simp)
  · -- the test of all users changes nothing
    simp only [if_neg hfull, ite_self, Option.some.injEq] at hs
    subst hs
    refine .started i t kicked rfl ht hstage (by omega) rfl fun p => ?_
    have hset := logins_setStage ht p .loggedIn
    simp only [Session.one, hstage, true_and] at hset
    rw [logins_setCounter, hset]
    simp

theorem step_effect {lim : Limits} {s s' : Server} {m : Move} (h : step lim s m = some s') :
    Effect lim s m s' := by
  cases m with
  | connect uid kickLogin =>
    simp only [step, Option.some.injEq] at h
    subst h
    refine .silent rfl fun p => ?_
    simp [Server.logins, Session.one]
  | pass i =>
    simp only [step] at h
    split at h
    · rename_i t ht
      split at h
      · rename_i hpw
        split at h
        · cases h
          exact effect_setStage ht (by simp [hpw]) (by simp)
        · cases h
          exact effect_setStage ht (by simp [hpw]) (by simp)
      · cases h
    · cases h
  | choose i victim =>
    simp only [step] at h
    split at h
    · rename_i t ht
      split at h
      · rename_i hpushed
        split at h
        · split at h
          · cases h
          · cases h
            exact effect_setStage ht (by simp [hpushed]) (by simp)
        · split at h
          · split at h
            · cases h
              exact effect_setStage ht (by simp [hpushed]) (by simp)
            · cases h
          · cases h
      · cases h
    · cases h
  | interrupt i =>
    simp only [step] at h
    split at h
    · rename_i t ht
      split at h
      · rename_i j hkick
        split at h
        · rename_i v hv
          exact effect_interrupt ht hkick hv h
        · cases h
      · cases h
    · cases h
  | start i =>
    simp only [step] at h
    split at h
    · rename_i t ht
      split at h
      · rename_i kicked hstage
        exact effect_start ht hstage h
      · cases h
    · cases h
  | logout i =>
    simp only [step] at h
    split at h
    · rename_i t ht
      split at h
      · rename_i hlogged
        obtain ⟨hstop, hlogins⟩ := logout_eq ht hlogged h
        exact .stopped i t ht hlogged hstop hlogins
      · cases h
    · cases h

/-! ## The counters are exact -/

structure Counts (s : Server) : Prop where
  personal : ∀ uid, s.counter.personal uid = s.loginsOf uid
  global : s.counter.global = s.total

theorem counts_init : Counts .init := ⟨fun _ => rfl, rfl⟩

theorem Counts.stop_isSome {s : Server} (hs : Counts s) {i : Nat} {t : Session}
    (ht : s.sessions[i]? = some t) (hstage : t.stage = .loggedIn) :
    (s.counter.stop t.uid).isSome = true := by
  have hp : 1 ≤ s.counter.personal t.uid := by
    rw [hs.personal]
    exact one_le_logins ht _ hstage (by simp)
  have hg : 1 ≤ s.counter.global := by
    rw [hs.global]
    exact one_le_logins ht _ hstage rfl
  rw [LoginCounter.stop, if_pos (by omega)]
  rfl

theorem step_counts {lim : Limits} (s : Server) (m : Move) (s' : Server) (hs : Counts s)
    (h : step lim s m = some s') : Counts s' := by
  cases step_effect h with
  | silent hc hl =>
    exact ⟨fun uid => by rw [hc, hs.personal, Server.loginsOf, Server.loginsOf, hl],
      by rw [hc, hs.global, Server.total, Server.total, hl]⟩
  | started i t kicked _ _ _ _ hc hl =>
    refine ⟨fun uid => ?_, ?_⟩
    · simp only [hc, Server.loginsOf, hl, LoginCounter.setPersonal_personal, hs.personal]
      by_cases hu : uid = t.uid
      · simp [hu]
      · simp [hu, Ne.symm hu]
    · simp [hc, Server.total, hl, hs.global]
  | stopped i t _ _ hc hl =>
    unfold LoginCounter.stop at hc
    split at hc
    · simp only [Option.some.injEq] at hc
      refine ⟨fun uid => ?_, ?_⟩
      · simp only [← hc, Server.loginsOf, hl, LoginCounter.setPersonal_personal, hs.personal]
        by_cases hu : uid = t.uid
        · simp [hu]
        · simp [hu, Ne.symm hu]
      · simp [← hc, Server.total, hl, hs.global]
    · cases hc

theorem total_eq_sum (s : Server) (U : Finset UserID) (hU : ∀ t ∈ s.sessions, t.uid ∈ U) :
    s.total = ∑ uid ∈ U, s.loginsOf uid := by
  unfold Server.total Server.loginsOf Server.logins
  generalize s.sessions = l at hU
  induction l with
  | nil => simp
  | cons t l ih =>
    have ht : t.uid ∈ U := hU t (by simp)
    have hone : ∑ uid ∈ U, t.one (· == uid) = t.one fun _ => true := by
      simp only [Session.one, beq_iff_eq, and_true]
      by_cases hstage : t.stage = .loggedIn
      · simp [hstage, ht]
      · simp [hstage]
    simp only [List.map_cons, List.sum_cons, Finset.sum_add_distrib]
    rw [ih fun u hu => hU u (by simp [hu]), hone]

/-! ## The limits -/

/-- Neither wrong branch of `Start` is taken: no kicked session is discounted at the limit of its
user, and nobody starts at the limit of all users. -/
def WithinLimits (lim : Limits) (s : Server) (m : Move) : Prop :=
  ∀ i t kicked, m = .start i → s.sessions[i]? = some t → t.stage = .starting kicked →
    (kicked = true → lim.numLogins t.uid = -1 ∨ s.counter.personal t.uid < lim.numLogins t.uid) ∧
    s.counter.global <
      lim.maxOnline.users + if lim.exempt t.uid = true then lim.maxOnline.exemptUsers else 0

structure LimitsHold (lim : Limits) (s : Server) : Prop where
  personal : ∀ uid, lim.numLogins uid ≠ -1 → s.loginsOf uid ≤ lim.numLogins uid
  -- beyond `max_users` there are exempt users only, and no more than allowed
  global : s.total ≤ lim.maxOnline.users + min (s.logins lim.exempt) lim.maxOnline.exemptUsers

theorem step_limits {lim : Limits} (s : Server) (m : Move) (s' : Server)
    (hs : Counts s ∧ LimitsHold lim s) (hm : WithinLimits lim s m) (h : step lim s m = some s') :
    Counts s' ∧ LimitsHold lim s' := by
  obtain ⟨hcount, hlim⟩ := hs
  refine ⟨step_counts s m s' hcount h, ?_⟩
  have hglobal := hlim.global
  cases step_effect h with
  | silent hc hl =>
    refine ⟨fun uid hne => ?_, ?_⟩
    · rw [Server.loginsOf, hl]
      exact hlim.personal uid hne
    · rw [Server.total, hl, hl]
      exact hglobal
  | started i t kicked hmove ht hstage hadmitted hc hl =>
    obtain ⟨hkicked, hmax⟩ := hm i t kicked hmove ht hstage
    rw [hcount.personal] at hadmitted hkicked
    rw [hcount.global] at hmax
    refine ⟨fun uid hne => ?_, ?_⟩
    · rw [Server.loginsOf, hl]
      by_cases hu : uid = t.uid
      · subst hu
        simp only [beq_self_eq_true, if_true]
        have : s.logins (· == t.uid) < lim.numLogins t.uid := by
          cases kicked with
          | false => simpa [hne, Server.loginsOf] using hadmitted
          | true => exact (hkicked rfl).resolve_left hne
        omega
      · have : (t.uid == uid) = false := beq_eq_false_iff_ne.mpr (Ne.symm hu)
        simp only [this, Bool.false_eq_true, if_false, Int.add_zero]
        exact hlim.personal uid hne
    · simp only [Server.total, hl, if_true] at hmax hglobal ⊢
      have hvalid := lim.maxOnline_valid
      have hnn : 0 ≤ s.logins lim.exempt := by
        refine List.sum_nonneg ?_
        intro x hx
        obtain ⟨u, _, rfl⟩ := List.mem_map.mp hx
        exact u.one_nonneg _
      cases hex : lim.exempt t.uid with
      | true =>
        simp only [hex, if_true] at hmax ⊢
        omega
      | false =>
        simp only [hex, Bool.false_eq_true, if_false] at hmax ⊢
        omega
  | stopped i t ht hstage hc hl =>
    refine ⟨fun uid hne => ?_, ?_⟩
    · rw [Server.loginsOf, hl]
      have := hlim.personal uid hne
      simp only [Server.loginsOf] at this
      split <;> omega
    · simp only [Server.total, hl, if_true] at hglobal ⊢
      split <;> omega

/-- Over every interleaving of logins, kicks and logouts the counters are the numbers of logged in
sessions, add up, and the assertions of `Stop` hold; and where no `Start` takes a wrong branch, no
user and not all users together have more sessions than they may. -/
theorem limits_hold (lim : Limits) (moves : List Move) {s : Server}
    (hrun : run (step lim) .init moves = some s) :
    ((∀ uid, s.counter.personal uid = s.loginsOf uid) ∧
      (∀ U : Finset UserID, (∀ t ∈ s.sessions, t.uid ∈ U) →
        s.counter.global = ∑ uid ∈ U, s.counter.personal uid) ∧
      (∀ (i : Nat) (t : Session), s.sessions[i]? = some t → t.stage = .loggedIn →
        (s.counter.stop t.uid).isSome = true)) ∧
    (Meets (step lim) (WithinLimits lim) .init moves →
      (∀ uid, lim.numLogins uid ≠ -1 → s.loginsOf uid ≤ lim.numLogins uid) ∧
      s.total ≤ lim.maxOnline.users + min (s.logins lim.exempt) lim.maxOnline.exemptUsers) := by
  have hcount : Counts s := run_invariant step_counts moves counts_init hrun
  refine ⟨⟨hcount.personal, fun U hU => ?_, fun i t ht hstage => hcount.stop_isSome ht hstage⟩, ?_⟩
  · rw [hcount.global, total_eq_sum s U hU]
    exact Finset.sum_congr rfl fun uid _ => (hcount.personal uid).symm
  · intro hmeets
    have hinit : Counts .init ∧ LimitsHold lim .init := by
      refine ⟨counts_init, fun uid hne => ?_, ?_⟩
      · have := lim.numLogins_valid uid
        show (0 : Int) ≤ _
        omega
      · have := lim.maxOnline_valid
        show (0 : Int) ≤ _ + min 0 _
        omega
    have hlim := (run_invariant_of_meets step_limits moves hinit hmeets hrun).2
    exact ⟨hlim.personal, hlim.global⟩

def exampleLimits : Limits where
  numLogins _ := 1
  exempt _ := false
  maxOnline := ⟨10, 0⟩
  numLogins_valid := by intro _; decide
  maxOnline_valid := by decide

/-- A kick login with nobody to kick. -/
theorem limits_hold_single :
    ∃ s, run (step exampleLimits) .init [.connect 1 true, .pass 0, .start 0] = some s ∧
      s.counter.personal 1 = s.loginsOf 1 ∧ s.loginsOf 1 ≤ 1 := by
  refine ⟨_, rfl, ?_⟩
  have h := limits_hold exampleLimits [.connect 1 true, .pass 0, .start 0] rfl
  refine ⟨h.1.1 1, (h.2 ?_).1 1 (by decide)⟩
  refine ⟨by rintro _ _ _ ⟨⟩, fun s1 h1 => ⟨by rintro _ _ _ ⟨⟩, fun s2 h2 => ⟨?_, fun _ _ => trivial⟩⟩⟩
  cases h1
  cases h2
  rintro i t kicked ⟨⟩ ⟨⟩ ⟨⟩
  exact ⟨by decide, by decide⟩

/-- Session 0 is logged in. Session 1 has it kicked and is about to call `Start`; session 2 of the
same user logs in before that, in the place that has become free, and session 1 is admitted all
the same: two logins of one allowed. -/
theorem limits_overrun :
    ∃ s, run (step exampleLimits) .init
        [.connect 1 false, .pass 0, .start 0, .connect 1 true, .pass 1, .choose 1 (some 0),
          .interrupt 1, .connect 1 false, .pass 2, .start 2, .start 1] = some s ∧
      s.loginsOf 1 = 2 ∧ exampleLimits.numLogins 1 = 1 :=
  ⟨_, rfl, by decide, rfl⟩

end Ftp
end Ebftpd
