import Mathlib.Algebra.BigOperators.Ring.Finset
import Ebftpd.Cmd.Stor
import Ebftpd.Ftp.LoginCounter

/-!
# Ebftpd.Ftp.TransferCounter

The transfer counters (`src/ftp/transfercounter.cpp`) under any number of `STOR`s and `RETR`s. `Start`
reads the maximum of all users from the configuration before it takes the mutex; behind that, each
method is one atomic step, and the steps of the commands interleave in any order. Uploads and
downloads have a counter each.

A command that passed `Start` stops the counter once, when its scope guard runs, whichever way it
ends; `stor_guarded` and `retr_guarded` say which ends of the commands lie behind the guard.

* `step_counts`: each counter counts the transfers in flight.
* `counters_exact`: the counters, the assertions of `Stop` and the limits, over every interleaving.
-/

namespace Ebftpd
namespace Ftp

open Lib Lib.Parties Acl Cmd
open Db.Stats (Direction)

structure TransferCounter where
  personal : UserID → Int
  global : Int

namespace TransferCounter

def init : TransferCounter := ⟨fun _ => 0, 0⟩

def setPersonal (c : TransferCounter) (uid : UserID) (count : Int) : TransferCounter :=
  { c with personal := fun u => if u = uid then count else c.personal u }

@[simp] theorem setPersonal_personal (c : TransferCounter) (uid : UserID) (count : Int) (u : UserID) :
    (c.setPersonal uid count).personal u = if u = uid then count else c.personal u := rfl

/-- One transfer more or less. -/
def moved (c : TransferCounter) (uid : UserID) (n : Int) : TransferCounter :=
  { c.setPersonal uid (c.personal uid + n) with global := c.global + n }

theorem moved_personal (c : TransferCounter) (uid : UserID) (n : Int) (u : UserID) :
    (c.moved uid n).personal u = c.personal u + if u = uid then n else 0 := by
  by_cases hu : u = uid
  · simp [moved, hu]
  · simp [moved, hu]

/-- `TransferCounter::Start`, with what `getMaxGlobal` returned. -/
def start (c : TransferCounter) (maxGlobal : Int) (uid : UserID) (limit : Int) (exempt : Bool) :
    CounterResult × TransferCounter :=
  if c.personal uid ≥ limit ∧ limit ≠ -1 then (.PersonalFail, c)
  else if !exempt ∧ maxGlobal ≠ -1 ∧ c.global ≥ maxGlobal then (.GlobalFail, c)
  else (.Okay, { c.setPersonal uid (c.personal uid + 1) with global := c.global + 1 })

/-- `TransferCounter::Stop`; `none` where an assertion fails. -/
def stop (c : TransferCounter) (uid : UserID) : Option TransferCounter :=
  if c.personal uid > 0 then
    let c := c.setPersonal uid (c.personal uid - 1)
    if c.global > 0 then some { c with global := c.global - 1 } else none
  else none

/-! ## The commands -/

/-- How a command leaves `Execute`. -/
inductive Exit where
  | stor (ending : StorEnd)
  | retr (ending : RetrEnd)

def Exit.direction : Exit → Direction
  | .stor _ => .Upload
  | .retr _ => .Download

/-- The exit lies behind `countGuard`. -/
def Exit.guarded : Exit → Bool
  | .stor .badName | .stor .asciiResume | .stor .preCheckFail | .stor .counterFail => false
  | .stor _ => true
  | .retr .asciiResume | .retr .counterFail => false
  | .retr _ => true

/-- Where a command stands in `STORCommand::Execute` or `RETRCommand::Execute`. -/
inductive Stage where
  | checking
  -- in `Start`, in front of the mutex
  | starting (limit : Int) (exempt : Bool) (maxGlobal : Int)
  | transferring
  | finished
  deriving DecidableEq

structure Command where
  direction : Direction
  uid : UserID
  stage : Stage

structure Server where
  -- `Counter::Upload()` and `Counter::Download()`
  counter : Direction → TransferCounter
  commands : List Command

def Server.init : Server := ⟨fun _ => .init, []⟩

def Server.setStage (s : Server) (i : Nat) (c : Command) (stage : Stage) : Server :=
  { s with commands := s.commands.set i { c with stage := stage } }

def Server.setCounter (s : Server) (direction : Direction) (counter : TransferCounter) : Server :=
  { s with counter := Function.update s.counter direction counter }

inductive Move where
  | begin (direction : Direction) (uid : UserID)
  -- `Start` is called and reads the maximum
  | call (i : Nat) (limit : Int) (exempt : Bool) (maxGlobal : Int)
  | start (i : Nat)
  | leave (i : Nat) (exit : Exit)

def step (s : Server) : Move → Option Server
  | .begin direction uid => some { s with commands := s.commands ++ [⟨direction, uid, .checking⟩] }
  | .call i limit exempt maxGlobal =>
    match s.commands[i]? with
    | some c =>
      if c.stage = .checking then some (s.setStage i c (.starting limit exempt maxGlobal)) else none
    | none => none
  | .start i =>
    match s.commands[i]? with
    | some c =>
      match c.stage with
      | .starting limit exempt maxGlobal =>
        match (s.counter c.direction).start maxGlobal c.uid limit exempt with
        | (.Okay, counter) => some ((s.setStage i c .transferring).setCounter c.direction counter)
        | (_, counter) => some ((s.setStage i c .finished).setCounter c.direction counter)
      | _ => none
    | none => none
  | .leave i exit =>
    match s.commands[i]? with
    | some c =>
      if exit.direction ≠ c.direction then none
      else
        match c.stage, exit.guarded with
        | .checking, false => some (s.setStage i c .finished)
        | .transferring, true =>
          match (s.counter c.direction).stop c.uid with
          | some counter => some ((s.setStage i c .finished).setCounter c.direction counter)
          | none => none
        | _, _ => none
    | none => none

/-! ## Transfers in flight -/

def Command.inFlight (direction : Direction) (c : Command) : Bool :=
  c.stage == .transferring && c.direction == direction

/-- The transfers in flight of the users that `p` admits. -/
def Server.flights (s : Server) (direction : Direction) (p : UserID → Bool) : Nat :=
  s.commands.countP fun c => c.inFlight direction && p c.uid

def Server.flightsOf (s : Server) (direction : Direction) (uid : UserID) : Nat :=
  s.flights direction (· == uid)

def Server.total (s : Server) (direction : Direction) : Nat := s.flights direction fun _ => true

/-- One for a command of the direction and of a user that `p` admits. -/
def Command.one (c : Command) (direction : Direction) (p : UserID → Bool) : Nat :=
  if c.direction = direction ∧ p c.uid = true then 1 else 0

section Flights

variable {s : Server} {i : Nat} {c : Command} (h : s.commands[i]? = some c) (direction : Direction)
  (p : UserID → Bool)

include h

/-- A command that is not in flight before and behind its step. -/
theorem flights_still {stage : Stage} (hold : c.stage ≠ .transferring) (hnew : stage ≠ .transferring) :
    (s.setStage i c stage).flights direction p = s.flights direction p := by
  have hset := countP_set (fun c : Command => c.inFlight direction && p c.uid)
    (b := { c with stage := stage }) h
  simpa [Server.flights, Server.setStage, Command.inFlight, hold, hnew] using hset

theorem flights_started (hold : c.stage ≠ .transferring) :
    (s.setStage i c .transferring).flights direction p = s.flights direction p + c.one direction p := by
  have hset := countP_set (fun c : Command => c.inFlight direction && p c.uid)
    (b := { c with stage := .transferring }) h
  simpa [Server.flights, Server.setStage, Command.inFlight, Command.one, hold] using hset

theorem flights_stopped (hold : c.stage = .transferring) :
    (s.setStage i c .finished).flights direction p + c.one direction p = s.flights direction p := by
  have hset := countP_set (fun c : Command => c.inFlight direction && p c.uid)
    (b := { c with stage := .finished }) h
  simpa [Server.flights, Server.setStage, Command.inFlight, Command.one, hold] using hset

theorem one_le_flights (hc : c.stage = .transferring) (hp : p c.uid = true) :
    1 ≤ s.flights c.direction p :=
  List.countP_pos_iff.mpr ⟨c, List.mem_of_getElem? h, by simp [Command.inFlight, hc, hp]⟩

end Flights

/-! ## What a move can do -/

theorem start_okay {c started : TransferCounter} {maxGlobal limit : Int} {uid : UserID} {exempt : Bool}
    (h : c.start maxGlobal uid limit exempt = (.Okay, started)) :
    started = c.moved uid 1 ∧ (limit ≠ -1 → c.personal uid < limit) ∧
      (exempt = false → maxGlobal ≠ -1 → c.global < maxGlobal) := by
  unfold start at h
  split at h
  · cases h
  · rename_i hpersonal
    split at h
    · cases h
    · rename_i hglobal
      cases h
      refine ⟨rfl, fun hl => ?_, fun he hm => ?_⟩
      · by_contra hge
        exact hpersonal ⟨by omega, hl⟩
      · by_contra hge
        exact hglobal ⟨by simp [he], hm, by omega⟩

theorem start_failed {c started : TransferCounter} {maxGlobal limit : Int} {uid : UserID} {exempt : Bool}
    {result : CounterResult} (h : c.start maxGlobal uid limit exempt = (result, started))
    (hresult : result ≠ .Okay) : started = c := by
  unfold start at h
  split at h
  · cases h
    rfl
  · split at h
    · cases h
      rfl
    · cases h
      exact absurd rfl hresult

theorem stop_inv {c stopped : TransferCounter} {uid : UserID} (h : c.stop uid = some stopped) :
    stopped = c.moved uid (-1) := by
  unfold stop at h
  split at h
  · simp only at h
    split at h
    · exact (Option.some.inj h).symm
    · cases h
  · cases h

/-- The effect of a move on the counters and on the transfers in flight. -/
inductive Effect (s : Server) (m : Move) (s' : Server) : Prop where
  | silent (counter : s'.counter = s.counter)
      (flights : ∀ direction p, s'.flights direction p = s.flights direction p)
  | started (i : Nat) (c : Command) (limit : Int) (exempt : Bool) (maxGlobal : Int)
      (move : m = .start i) (command : s.commands[i]? = some c)
      (stage : c.stage = .starting limit exempt maxGlobal)
      (admitted : limit ≠ -1 → (s.counter c.direction).personal c.uid < limit)
      (admittedAll : exempt = false → maxGlobal ≠ -1 → (s.counter c.direction).global < maxGlobal)
      (counter : s'.counter =
        Function.update s.counter c.direction ((s.counter c.direction).moved c.uid 1))
      (flights : ∀ direction p, s'.flights direction p = s.flights direction p + c.one direction p)
  | stopped (i : Nat) (c : Command) (command : s.commands[i]? = some c) (stage : c.stage = .transferring)
      (counter : s'.counter =
        Function.update s.counter c.direction ((s.counter c.direction).moved c.uid (-1)))
      (flights : ∀ direction p, s'.flights direction p + c.one direction p = s.flights direction p)

theorem effect_start {s s' : Server} {i : Nat} {c : Command} {limit maxGlobal : Int} {exempt : Bool}
    (hc : s.commands[i]? = some c) (hstage : c.stage = .starting limit exempt maxGlobal)
    (h : (match (s.counter c.direction).start maxGlobal c.uid limit exempt with
      | (.Okay, counter) => some ((s.setStage i c .transferring).setCounter c.direction counter)
      | (_, counter) => some ((s.setStage i c .finished).setCounter c.direction counter)) = some s') :
    Effect s (.start i) s' := by
  split at h
  · rename_i counter hstart
    obtain ⟨rfl, hadmitted, hadmittedAll⟩ := start_okay hstart
    cases h
    exact .started i c limit exempt maxGlobal rfl hc hstage hadmitted hadmittedAll rfl
      fun direction p => flights_started hc direction p (by simp [hstage])
  · rename_i result counter hne hstart
    obtain rfl := start_failed hstart hne
    cases h
    exact .silent (Function.update_eq_self _ _)
      fun direction p => flights_still hc direction p (by simp [hstage]) (by simp)

theorem step_effect {s s' : Server} {m : Move} (h : step s m = some s') : Effect s m s' := by
  cases m with
  | begin direction uid =>
    simp only [step, Option.some.injEq] at h
    subst h
    refine .silent rfl fun direction p => ?_
    simp [Server.flights, Command.inFlight]
  | call i limit exempt maxGlobal =>
    simp only [step] at h
    split at h
    · rename_i c hc
      split at h
      · rename_i hstage
        cases h
        exact .silent rfl fun direction p => flights_still hc direction p (by simp [hstage]) (by simp)
      · cases h
    · cases h
  | start i =>
    simp only [step] at h
    split at h
    · rename_i c hc
      split at h
      · rename_i limit exempt maxGlobal hstage
        exact effect_start hc hstage h
      · cases h
    · cases h
  | leave i exit =>
    simp only [step] at h
    split at h
    · rename_i c hc
      split at h
      · cases h
      · split at h
        · rename_i hstage _
          cases h
          exact .silent rfl fun direction p => flights_still hc direction p (by simp [hstage]) (by simp)
        · rename_i hstage _
          split at h
          · rename_i counter hstop
            cases h
            obtain rfl := stop_inv hstop
            exact .stopped i c hc hstage rfl fun direction p => flights_stopped hc direction p hstage
          · cases h
        · cases h
    · cases h

/-! ## The counters are exact -/

/-- One counter and the transfers it counts. -/
structure CountsOf (s : Server) (direction : Direction) : Prop where
  personal : ∀ uid, (s.counter direction).personal uid = s.flightsOf direction uid
  global : (s.counter direction).global = s.total direction

def Counts (s : Server) : Prop := ∀ direction, CountsOf s direction

theorem counts_init : Counts .init := fun _ => ⟨fun _ => rfl, rfl⟩

theorem Counts.stop_isSome {s : Server} (hs : Counts s) {i : Nat} {c : Command}
    (hc : s.commands[i]? = some c) (hstage : c.stage = .transferring) :
    ((s.counter c.direction).stop c.uid).isSome = true := by
  have hp : 1 ≤ s.flightsOf c.direction c.uid := one_le_flights hc _ hstage (by simp)
  have hg : 1 ≤ s.total c.direction := one_le_flights hc _ hstage rfl
  have hpersonal : (s.counter c.direction).personal c.uid > 0 := by
    rw [(hs c.direction).personal]
    omega
  have hglobal : (s.counter c.direction).global > 0 := by
    rw [(hs c.direction).global]
    omega
  simp [stop, setPersonal, hpersonal, hglobal]

/-- A transfer that starts or stops moves its counter. -/
theorem counts_moved {s s' : Server} {c : Command} {n : Int} (hs : Counts s)
    (hc : s'.counter = Function.update s.counter c.direction ((s.counter c.direction).moved c.uid n))
    (hf : ∀ direction p, (s'.flights direction p : Int) = s.flights direction p + n * c.one direction p) :
    Counts s' := by
  intro direction
  obtain ⟨hpersonal, hglobal⟩ := hs direction
  by_cases hd : direction = c.direction
  · subst hd
    refine ⟨fun uid => ?_, ?_⟩
    · rw [hc, Function.update_self, Server.flightsOf, hf, moved_personal, hpersonal, Server.flightsOf]
      by_cases hu : uid = c.uid
      · simp [hu, Command.one]
      · simp [hu, Ne.symm hu, Command.one]
    · rw [hc, Function.update_self, Server.total, hf, moved, hglobal, Server.total]
      simp [Command.one]
  · have hone : ∀ p, c.one direction p = 0 := fun p => by simp [Command.one, Ne.symm hd]
    refine ⟨fun uid => ?_, ?_⟩
    · rw [hc, Function.update_of_ne hd, Server.flightsOf, hf, hone, hpersonal, Server.flightsOf]
      simp
    · rw [hc, Function.update_of_ne hd, Server.total, hf, hone, hglobal, Server.total]
      simp

theorem step_counts (s : Server) (m : Move) (s' : Server) (hs : Counts s) (h : step s m = some s') :
    Counts s' := by
  cases step_effect h with
  | silent hc hf =>
    intro direction
    obtain ⟨hpersonal, hglobal⟩ := hs direction
    exact ⟨fun uid => by rw [hc, hpersonal, Server.flightsOf, Server.flightsOf, hf],
      by rw [hc, hglobal, Server.total, Server.total, hf]⟩
  | started i c limit exempt maxGlobal _ _ _ _ _ hc hf =>
    exact counts_moved hs hc fun direction p => by rw [hf]; omega
  | stopped i c _ _ hc hf =>
    exact counts_moved hs hc fun direction p => by rw [← hf]; omega

/-- The sum over the users. -/
theorem Counts.sum {s : Server} (hs : Counts s) (direction : Direction) {U : Finset UserID}
    (hU : ∀ c ∈ s.commands, c.uid ∈ U) :
    (s.counter direction).global = ∑ uid ∈ U, (s.counter direction).personal uid := by
  have hsum := sum_countP_key (Command.inFlight direction) Command.uid hU
  simp only [(hs direction).global, (hs direction).personal, Server.total, Server.flightsOf,
    Server.flights, Bool.and_true]
  rw [← hsum, Nat.cast_sum]

/-- Where a `Start` succeeds, both limits hold behind it. -/
theorem start_within {s s' : Server} {i : Nat} {c : Command} {limit maxGlobal : Int} {exempt : Bool}
    (hc : s.commands[i]? = some c) (hstage : c.stage = .starting limit exempt maxGlobal)
    (h : step s (.start i) = some s')
    (hstarted : s'.commands[i]? = some { c with stage := .transferring }) :
    (limit ≠ -1 → (s'.counter c.direction).personal c.uid ≤ limit) ∧
      (exempt = false → maxGlobal ≠ -1 → (s'.counter c.direction).global ≤ maxGlobal) := by
  have hset : ∀ stage : Stage, (s.setStage i c stage).commands[i]? = some { c with stage := stage } := by
    intro stage
    simp [Server.setStage, List.getElem?_set_self (List.getElem?_eq_some_iff.mp hc).1]
  simp only [step, hc, hstage] at h
  split at h
  · rename_i counter hstart
    obtain ⟨rfl, hadmitted, hadmittedAll⟩ := start_okay hstart
    cases h
    simp only [Server.setCounter, Function.update_self, moved_personal, if_true]
    refine ⟨fun hl => ?_, fun he hm => ?_⟩
    · have := hadmitted hl
      omega
    · have := hadmittedAll he hm
      simp only [moved]
      omega
  · cases h
    have hfinished := hset .finished
    simp only [Server.setCounter] at hstarted
    rw [hfinished] at hstarted
    cases hstarted

/-- Over every interleaving of the commands: each counter counts the transfers in flight, for each user
and for all of them, the assertions of `Stop` hold at every exit behind `Start`, and a `Start` that
succeeds keeps to the limits it was given. -/
theorem counters_exact (moves : List Move) {s : Server} (hrun : run step .init moves = some s)
    (direction : Direction) :
    (∀ uid, (s.counter direction).personal uid = s.flightsOf direction uid) ∧
      (∀ U : Finset UserID, (∀ c ∈ s.commands, c.uid ∈ U) →
        (s.counter direction).global = ∑ uid ∈ U, (s.counter direction).personal uid) ∧
      (∀ (i : Nat) (c : Command) (exit : Exit), s.commands[i]? = some c → c.direction = direction →
        c.stage = .transferring → exit.direction = direction → exit.guarded = true →
        ((s.counter direction).stop c.uid).isSome = true ∧ (step s (.leave i exit)).isSome = true) ∧
      ∀ (i : Nat) (c : Command) (limit : Int) (exempt : Bool) (maxGlobal : Int) (s' : Server),
        s.commands[i]? = some c → c.direction = direction →
        c.stage = .starting limit exempt maxGlobal → step s (.start i) = some s' →
        s'.commands[i]? = some { c with stage := .transferring } →
        (limit ≠ -1 → (s'.counter direction).personal c.uid ≤ limit) ∧
          (exempt = false → maxGlobal ≠ -1 → (s'.counter direction).global ≤ maxGlobal) := by
  have hcounts : Counts s := run_invariant step_counts moves counts_init hrun
  refine ⟨(hcounts direction).personal, fun U hU => hcounts.sum direction hU, ?_, ?_⟩
  · rintro i c exit hc rfl hstage hexit hguarded
    have hstop := hcounts.stop_isSome hc hstage
    refine ⟨hstop, ?_⟩
    obtain ⟨stopped, hstopped⟩ := Option.isSome_iff_exists.mp hstop
    simp [step, hc, hexit, hstage, hguarded, hstopped]
  · rintro i c limit exempt maxGlobal s' hc rfl hstage hstep hstarted
    exact start_within hc hstage hstep hstarted

/-- Of two uploads of a user who may have one, the second is refused, and the first fails and stops. -/
theorem counters_exact_two :
    ∃ s, run step .init
        [.begin .Upload 1, .begin .Upload 1, .call 0 1 false 5, .call 1 1 false 5, .start 1, .start 0,
          .leave 1 (.stor .networkError)] = some s ∧
      (s.counter .Upload).personal 1 = s.flightsOf .Upload 1 ∧ s.flightsOf .Upload 1 = 0 := by
  obtain ⟨s, hrun, hnone⟩ : ∃ s, run step .init
      [.begin .Upload 1, .begin .Upload 1, .call 0 1 false 5, .call 1 1 false 5, .start 1, .start 0,
        .leave 1 (.stor .networkError)] = some s ∧ s.flightsOf .Upload 1 = 0 := ⟨_, rfl, by decide⟩
  exact ⟨s, hrun, (counters_exact _ hrun .Upload).1 1, hnone⟩

/-! ## The exits behind the guard -/

section Guarded

variable {env : Acl.Path.Env} {sys : Acl.Path.Sys} {path : Util.Str}

theorem receive_guarded (calls : StorCalls) (site : Site) :
    (Exit.stor (receive env sys path calls site).1).guarded = true := by
  unfold receive
  simp only
  repeat' split
  all_goals rfl

theorem openUpload_guarded (calls : StorCalls) (files : Fs.Files) :
    (match openUpload env sys path calls files with
      | .error ending => (Exit.stor ending).guarded
      | .ok _ => true) =
      (calls.filtered && !(calls.offset > 0 && calls.ascii) && calls.preCheck && calls.counted) := by
  cases hopen : openUpload env sys path calls files with
  | error ending =>
    simp only
    unfold openUpload at hopen
    repeat' split at hopen
    all_goals cases hopen
    all_goals simp_all [Exit.guarded]
  | ok files' =>
    simp only
    unfold openUpload at hopen
    repeat' split at hopen
    all_goals cases hopen
    all_goals simp_all

theorem stor_guarded (calls : StorCalls) (site : Site) :
    (Exit.stor (stor env sys path calls site).1).guarded =
      (calls.filtered && !(calls.offset > 0 && calls.ascii) && calls.preCheck && calls.counted) := by
  have hguarded := @openUpload_guarded env sys path calls site.files
  unfold stor
  cases hopen : openUpload env sys path calls site.files with
  | error ending =>
    rw [hopen] at hguarded
    exact hguarded
  | ok files =>
    rw [hopen] at hguarded
    rw [← hguarded]
    simp only
    split
    · rfl
    · split
      · rfl
      · split
        · rfl
        · exact receive_guarded calls _

theorem takeCharge_guarded (calls : RetrCalls) (credits : Db.Credits) :
    (match takeCharge env sys path calls credits with
      | .error ending => (Exit.retr ending).guarded
      | .ok _ => true) = (!(calls.offset > 0 && calls.ascii) && calls.counted) := by
  unfold takeCharge
  cases hascii : decide (calls.offset > 0) && calls.ascii with
  | true => rfl
  | false =>
    cases hcounted : calls.counted with
    | false => rfl
    | true =>
      simp only [Bool.not_true, Bool.not_false, Bool.false_eq_true, if_false, Bool.and_self]
      -- every exit behind both checks is guarded
      split
      · rename_i ending hcharge
        repeat' split at hcharge
        all_goals cases hcharge
        all_goals rfl
      · rfl

theorem ending_guarded (calls : RetrCalls) : (Exit.retr calls.ending).guarded = true := by
  unfold RetrCalls.ending
  repeat' split
  all_goals rfl

theorem retr_guarded (calls : RetrCalls) (credits : Db.Credits) :
    (Exit.retr (retr env sys path calls credits).ending).guarded =
      (!(calls.offset > 0 && calls.ascii) && calls.counted) := by
  have hguarded := @takeCharge_guarded env sys path calls credits
  unfold retr
  split
  · rename_i ending hcharge
    rw [hcharge] at hguarded
    exact hguarded
  · rename_i hcharge
    rw [hcharge] at hguarded
    rw [← hguarded]
    simp only [settleAllotment]
    split
    · rfl
    · split
      · rfl
      · exact ending_guarded calls
  · rename_i hcharge
    rw [hcharge] at hguarded
    rw [← hguarded]
    simp only [settle]
    split
    · rfl
    · split
      · rfl
      · exact ending_guarded calls

end Guarded

end TransferCounter
end Ftp
end Ebftpd
