import Ebftpd.Acl.User
import Ebftpd.Lib.Parties
import Ebftpd.Lib.Run

/-!
# Ebftpd.Ftp.Server

The tasks of the server thread (`src/ftp/server.cpp`, `src/ftp/task/task.cpp`). Any thread may push
a task: `PushTask` puts it in the queue under the lock and then writes a byte to the interrupt pipe.
The server loop polls the pipe, `Acknowledge` reads one byte, and `HandleTasks` takes tasks until it
finds the queue empty. `KickUser`, `LoginKickUser` and `ReloadConfig` carry a promise; the commands
that push them wait on its future. Behind its loop `Run` interrupts the clients and joins their
threads.

What a task does to the clients is not here: an interrupted client ends its connection, and a thread
that waits on a future takes no notice of it. The pipe holds any number of bytes; a full one would
only hold up the thread that writes.

* `step_effect`: everything a step of any thread can do.
* `Ordered`, `Announced`: push order and wake-ups, over every interleaving.
* `task_protocol`: both of these, and that nobody waits in vain behind the loop if no task with a
  promise is left in the queue there or pushed later.
* `waits_forever`: otherwise the thread waits for ever, and so does the server that joins it.
-/

namespace Ebftpd
namespace Ftp
namespace Server

open Util Lib Acl

inductive Task where
  | KickUser (uid : UserID) (oneOnly : Bool)
  | LoginKickUser (uid : UserID)
  | ReloadConfig
  | Exit
  | UserUpdate (uid : UserID)
  | ClientFinished (client : Nat)
  deriving DecidableEq

/-- The tasks made with a future, which the thread that pushes them waits on. -/
def Task.promises : Task → Bool
  | .KickUser _ _ => true
  | .LoginKickUser _ => true
  | .ReloadConfig => true
  | _ => false

/-- Where a thread is that pushes tasks. A pushed task has the number of its push. -/
inductive Thread where
  | running
  -- in `PushTask`, behind the lock of the queue
  | pushing (n : Nat) (task : Task)
  | waiting (n : Nat)
  -- behind the push of `ClientFinished`
  | ending
  | ended
  deriving DecidableEq

inductive Pc where
  | loop
  | poll
  | acknowledge
  | handleTasks
  | execute (n : Nat) (task : Task)
  | accept
  | stopClients
  | join
  | done
  deriving DecidableEq

structure State where
  queue : List (Nat × Task) := []
  -- the bytes in the interrupt pipe
  pipe : Nat := 0
  shutdown : Bool := false
  pc : Pc := .loop
  threads : List Thread := []
  -- the threads of the clients
  clients : List Nat := []
  -- the history: all pushes, and the tasks executed
  pushed : List (Nat × Task) := []
  executed : List (Nat × Task) := []
  deriving DecidableEq

/-- The server with a number of threads that are no clients: the signal handler, the replicator. -/
def start (others : Nat) : State := { threads := List.replicate others .running }

inductive Choice where
  | go
  -- `poll` returns an error
  | failed
  -- a listener has a client
  | connected
  deriving DecidableEq

inductive Input where
  | server (choice : Choice)
  | push (i : Nat) (task : Task)
  -- the write to the pipe that ends `PushTask`
  | interrupt (i : Nat)
  -- the future of the task is there
  | get (i : Nat)
  | finish (i : Nat)

/-- `Execute` of a task that was taken from the queue, as far as the server's own state goes; `none`
while `CleanupClient` waits for the thread of the client. -/
def execute (s : State) : Task → Option State
  | .Exit => some { s with shutdown := true, pipe := s.pipe + 1 }
  | .ClientFinished i =>
    if s.threads[i]? = some .ended then some { s with clients := s.clients.erase i } else none
  | _ => some s

/-- One step of the server thread. -/
def serverStep (s : State) (choice : Choice) : Option State :=
  match s.pc, choice with
  | .loop, .go => some { s with pc := if s.shutdown then .stopClients else .poll }
  | .poll, .failed => some { s with pc := .loop }
  | .poll, .go => some { s with pc := if 0 < s.pipe then .acknowledge else .accept }
  | .acknowledge, .go =>
    if 0 < s.pipe then some { s with pipe := s.pipe - 1, pc := .handleTasks } else none
  | .handleTasks, .go =>
    match s.queue with
    | [] => some { s with pc := .accept }
    | (n, task) :: queue => some { s with queue := queue, pc := .execute n task }
  | .execute n task, .go =>
    (execute s task).map fun s' =>
      { s' with executed := s'.executed ++ [(n, task)], pc := .handleTasks }
  | .accept, .connected =>
    some { s with
      threads := s.threads ++ [.running], clients := s.clients ++ [s.threads.length] }
  | .accept, .go => some { s with pc := .loop }
  | .stopClients, .go => some { s with pc := .join }
  | .join, .go =>
    if s.clients.all fun i => s.threads[i]? == some .ended then
      some { s with clients := [], pc := .done }
    else none
  | _, _ => none

/-- Where `PushTask` returns to. -/
def afterPush (n : Nat) : Task → Thread
  | .ClientFinished _ => .ending
  | task => if task.promises then .waiting n else .running

/-- Only a client's own thread says that it has finished. -/
def mayPush (s : State) (i : Nat) : Task → Bool
  | .ClientFinished j => j == i && s.clients.contains i
  | _ => true

def step (s : State) : Input → Option State
  | .server choice => serverStep s choice
  | .push i task =>
    match s.threads[i]? with
    | some .running =>
      if mayPush s i task then
        some { s with
          queue := s.queue ++ [(s.pushed.length, task)]
          pushed := s.pushed ++ [(s.pushed.length, task)]
          threads := s.threads.set i (.pushing s.pushed.length task) }
      else none
    | _ => none
  | .interrupt i =>
    match s.threads[i]? with
    | some (.pushing n task) =>
      some { s with pipe := s.pipe + 1, threads := s.threads.set i (afterPush n task) }
    | _ => none
  | .get i =>
    match s.threads[i]? with
    | some (.waiting n) =>
      if s.executed.any fun t => t.1 == n then some { s with threads := s.threads.set i .running }
      else none
    | _ => none
  | .finish i =>
    match s.threads[i]? with
    | some .ending => some { s with threads := s.threads.set i .ended }
    | _ => none

/-! ## What a step does -/

/-- The task taken from the queue and not executed yet. -/
def Pc.current : Pc → List (Nat × Task)
  | .execute n task => [(n, task)]
  | _ => []

/-- `HandleTasks`: the queue will be found empty before the pipe is polled again. -/
def Pc.draining : Pc → Bool
  | .handleTasks => true
  | .execute _ _ => true
  | _ => false

/-- Behind the loop of `Run`. -/
def Pc.stopped : Pc → Bool
  | .stopClients => true
  | .join => true
  | .done => true
  | _ => false

inductive Effect (s : State) : Input → State → Prop where
  | moved {choice : Choice} (pc : Pc) (hfrom : s.pc.draining = false) (hto : pc.draining = false)
      (hstopped : pc.stopped = s.pc.stopped) (hdone : pc ≠ .done) :
    Effect s (.server choice) { s with pc := pc }
  | left (hpc : s.pc = .loop) (hshutdown : s.shutdown = true) :
    Effect s (.server .go) { s with pc := .stopClients }
  | acknowledged (hpc : s.pc = .acknowledge) :
    Effect s (.server .go) { s with pipe := s.pipe - 1, pc := .handleTasks }
  | drained (hpc : s.pc = .handleTasks) (hqueue : s.queue = []) :
    Effect s (.server .go) { s with pc := .accept }
  | taken (n : Nat) (task : Task) (queue : List (Nat × Task)) (hpc : s.pc = .handleTasks)
      (hqueue : s.queue = (n, task) :: queue) :
    Effect s (.server .go) { s with queue := queue, pc := .execute n task }
  | executed (n : Nat) (task : Task) (shutdown : Bool) (pipe : Nat) (clients : List Nat)
      (hpc : s.pc = .execute n task) :
    Effect s (.server .go)
      { s with
        shutdown := shutdown, pipe := pipe, clients := clients
        executed := s.executed ++ [(n, task)], pc := .handleTasks }
  | accepted (hpc : s.pc = .accept) :
    Effect s (.server .connected)
      { s with threads := s.threads ++ [.running], clients := s.clients ++ [s.threads.length] }
  | joined (hpc : s.pc = .join) (hended : ∀ i ∈ s.clients, s.threads[i]? = some .ended) :
    Effect s (.server .go) { s with clients := [], pc := .done }
  | pushed (i : Nat) (task : Task) (hi : s.threads[i]? = some .running) :
    Effect s (.push i task)
      { s with
        queue := s.queue ++ [(s.pushed.length, task)]
        pushed := s.pushed ++ [(s.pushed.length, task)]
        threads := s.threads.set i (.pushing s.pushed.length task) }
  | interrupted (i n : Nat) (task : Task) (hi : s.threads[i]? = some (.pushing n task)) :
    Effect s (.interrupt i)
      { s with pipe := s.pipe + 1, threads := s.threads.set i (afterPush n task) }
  | got (i n : Nat) (task : Task) (hi : s.threads[i]? = some (.waiting n))
      (hexecuted : (n, task) ∈ s.executed) :
    Effect s (.get i) { s with threads := s.threads.set i .running }
  | finished (i : Nat) (hi : s.threads[i]? = some .ending) :
    Effect s (.finish i) { s with threads := s.threads.set i .ended }

theorem execute_effect {s s' : State} {n : Nat} {task : Task} (hpc : s.pc = .execute n task)
    (h : execute s task = some s') :
    Effect s (.server .go)
      { s' with executed := s'.executed ++ [(n, task)], pc := .handleTasks } := by
  cases task with
  | Exit =>
    cases h
    exact .executed n _ true (s.pipe + 1) s.clients hpc
  | ClientFinished i =>
    simp only [execute] at h
    split at h
    · cases h
      exact .executed n _ s.shutdown s.pipe (s.clients.erase i) hpc
    · cases h
  | KickUser uid oneOnly =>
    cases h
    exact .executed n _ s.shutdown s.pipe s.clients hpc
  | LoginKickUser uid =>
    cases h
    exact .executed n _ s.shutdown s.pipe s.clients hpc
  | ReloadConfig =>
    cases h
    exact .executed n _ s.shutdown s.pipe s.clients hpc
  | UserUpdate uid =>
    cases h
    exact .executed n _ s.shutdown s.pipe s.clients hpc

theorem serverStep_effect {s s' : State} {choice : Choice} (h : serverStep s choice = some s') :
    Effect s (.server choice) s' := by
  unfold serverStep at h
  split at h
  · rename_i hpc
    cases h
    split
    · rename_i hshutdown
      exact .left hpc hshutdown
    · exact .moved _ (by rw [hpc]; rfl) rfl (by rw [hpc]; rfl) (by simp)
  · rename_i hpc
    cases h
    exact .moved _ (by rw [hpc]; rfl) rfl (by rw [hpc]; rfl) (by simp)
  · rename_i hpc
    cases h
    split
    · exact .moved _ (by rw [hpc]; rfl) rfl (by rw [hpc]; rfl) (by simp)
    · exact .moved _ (by rw [hpc]; rfl) rfl (by rw [hpc]; rfl) (by simp)
  · rename_i hpc
    split at h
    · cases h
      exact .acknowledged hpc
    · cases h
  · rename_i hpc
    split at h
    · rename_i hqueue
      cases h
      exact .drained hpc hqueue
    · rename_i n task queue hqueue
      cases h
      exact .taken n task queue hpc hqueue
  · rename_i n task hpc
    obtain ⟨s1, hexecute, rfl⟩ := Option.map_eq_some_iff.mp h
    exact execute_effect hpc hexecute
  · rename_i hpc
    cases h
    exact .accepted hpc
  · rename_i hpc
    cases h
    exact .moved _ (by rw [hpc]; rfl) rfl (by rw [hpc]; rfl) (by simp)
  · rename_i hpc
    cases h
    exact .moved _ (by rw [hpc]; rfl) rfl (by rw [hpc]; rfl) (by simp)
  · rename_i hpc
    split at h
    · rename_i hall
      cases h
      refine .joined hpc fun i hi => ?_
      exact beq_iff_eq.mp (List.all_eq_true.mp hall i hi)
    · cases h
  · cases h

theorem step_effect {s s' : State} {i : Input} (h : step s i = some s') : Effect s i s' := by
  cases i with
  | server choice => exact serverStep_effect h
  | push i task =>
    simp only [step] at h
    split at h
    · rename_i hi
      split at h
      · cases h
        exact .pushed i task hi
      · cases h
    · cases h
  | interrupt i =>
    simp only [step] at h
    split at h
    · rename_i n task hi
      cases h
      exact .interrupted i n task hi
    · cases h
  | get i =>
    simp only [step] at h
    split at h
    · rename_i n hi
      split at h
      · rename_i hany
        cases h
        obtain ⟨⟨m, task⟩, hmem, hm⟩ := List.any_eq_true.mp hany
        have hmn : m = n := beq_iff_eq.mp hm
        subst hmn
        exact .got i m task hi hmem
      · cases h
    · cases h
  | finish i =>
    simp only [step] at h
    split at h
    · rename_i hi
      cases h
      exact .finished i hi
    · cases h

/-! ## Push order and wake-ups -/

/-- The tasks executed, the one in execution and the queue are the pushes in their order. -/
def Ordered (s : State) : Prop := s.executed ++ s.pc.current ++ s.queue = s.pushed

theorem current_of_draining {pc : Pc} (h : pc.draining = false) : pc.current = [] := by
  cases pc with
  | execute n task => cases h
  | _ => rfl

theorem step_ordered (s : State) (i : Input) (s' : State) (ho : Ordered s)
    (h : step s i = some s') : Ordered s' := by
  unfold Ordered at ho ⊢
  cases step_effect h with
  | moved pc hfrom hto hstopped hdone =>
    rw [current_of_draining hfrom] at ho
    show s.executed ++ pc.current ++ s.queue = s.pushed
    rw [current_of_draining hto]
    exact ho
  | left hpc hshutdown =>
    rw [hpc] at ho
    exact ho
  | acknowledged hpc =>
    rw [hpc] at ho
    exact ho
  | drained hpc hqueue =>
    rw [hpc] at ho
    exact ho
  | taken n task queue hpc hqueue =>
    rw [hpc, hqueue] at ho
    simpa [Pc.current] using ho
  | executed n task shutdown pipe clients hpc =>
    rw [hpc] at ho
    simpa [Pc.current] using ho
  | accepted hpc => exact ho
  | joined hpc hended =>
    rw [hpc] at ho
    exact ho
  | pushed i task hi =>
    show s.executed ++ s.pc.current ++ (s.queue ++ [(s.pushed.length, task)]) = _
    rw [← List.append_assoc, ho]
  | interrupted i n task hi => exact ho
  | got i n task hi hexecuted => exact ho
  | finished i hi => exact ho

/-- Outside `HandleTasks`, with nothing to read from the pipe, a task in the queue belongs to a
thread that has yet to write its byte. -/
def Announced (s : State) : Prop :=
  s.pc.draining = false → s.pipe = 0 →
    ∀ t ∈ s.queue, ∃ i : Nat, s.threads[i]? = some (.pushing t.1 t.2)

/-- A thread that pushes goes on pushing while another one moves. -/
theorem pushing_set {threads : List Thread} {i j n : Nat} {task : Task} {thread new : Thread}
    (hi : threads[i]? = some thread) (hne : thread ≠ .pushing n task)
    (hj : threads[j]? = some (.pushing n task)) :
    (threads.set i new)[j]? = some (.pushing n task) := by
  have hij : i ≠ j := by
    rintro rfl
    rw [hi] at hj
    exact hne (Option.some.inj hj)
  rw [List.getElem?_set_ne hij]
  exact hj

theorem step_announced (s : State) (i : Input) (s' : State) (ha : Announced s)
    (h : step s i = some s') : Announced s' := by
  cases step_effect h with
  | moved pc hfrom hto hstopped hdone => exact fun _ => ha hfrom
  | left hpc hshutdown => exact fun _ => ha (by rw [hpc]; rfl)
  | acknowledged hpc => exact fun h => by cases h
  | drained hpc hqueue =>
    intro _ _ t ht
    rw [show s.queue = [] from hqueue] at ht
    cases ht
  | taken n task queue hpc hqueue => exact fun h => by cases h
  | executed n task shutdown pipe clients hpc => exact fun h => by cases h
  | accepted hpc =>
    intro hdraining hpipe t ht
    obtain ⟨j, hj⟩ := ha hdraining hpipe t ht
    refine ⟨j, ?_⟩
    obtain ⟨hlt, -⟩ := List.getElem?_eq_some_iff.mp hj
    rw [List.getElem?_append_left hlt]
    exact hj
  | joined hpc hended => exact fun _ => ha (by rw [hpc]; rfl)
  | pushed i task hi =>
    intro hdraining hpipe t ht
    rcases List.mem_append.mp ht with hold | hnew
    · obtain ⟨j, hj⟩ := ha hdraining hpipe t hold
      exact ⟨j, pushing_set hi (by simp) hj⟩
    · rw [List.mem_singleton] at hnew
      subst hnew
      obtain ⟨hlt, -⟩ := List.getElem?_eq_some_iff.mp hi
      exact ⟨i, List.getElem?_set_self hlt⟩
  | interrupted i n task hi => exact fun _ hpipe => by cases hpipe
  | got i n task hi hexecuted =>
    intro hdraining hpipe t ht
    obtain ⟨j, hj⟩ := ha hdraining hpipe t ht
    exact ⟨j, pushing_set hi (by simp) hj⟩
  | finished i hi =>
    intro hdraining hpipe t ht
    obtain ⟨j, hj⟩ := ha hdraining hpipe t ht
    exact ⟨j, pushing_set hi (by simp) hj⟩

/-! ## Who waits -/

/-- The task whose promise a thread waits on, or will wait on behind its push. -/
def Thread.awaits : Thread → Option Nat
  | .pushing n task => if task.promises then some n else none
  | .waiting n => some n
  | _ => none

/-- The promise of the task is kept, or will be: the loop still runs and has the task to execute. -/
def Kept (s : State) (n : Nat) : Prop :=
  (∃ task, (n, task) ∈ s.executed) ∨
    s.pc.stopped = false ∧ ∃ task, task.promises = true ∧ (n, task) ∈ s.pc.current ++ s.queue

def Served (s : State) : Prop := ∀ thread ∈ s.threads, ∀ n, thread.awaits = some n → Kept s n

/-- The loop is left with no promise in the queue, and behind it no promise is made. -/
def inTime (s : State) : Input → Bool
  | .server _ => !(s.pc == .loop && s.shutdown && s.queue.any (·.2.promises))
  | .push _ task => !(s.pc.stopped && task.promises)
  | _ => true

theorem afterPush_awaits (n : Nat) (task : Task) :
    (afterPush n task).awaits = (Thread.pushing n task).awaits := by
  cases task with
  | KickUser uid oneOnly => rfl
  | LoginKickUser uid => rfl
  | ReloadConfig => rfl
  | Exit => rfl
  | UserUpdate uid => rfl
  | ClientFinished i => rfl

/-- A step that keeps every promise and gives no thread another one to wait on. -/
theorem Served.of_threads {s s' : State} (hs : Served s) (hkept : ∀ n, Kept s n → Kept s' n)
    (hthreads : ∀ thread ∈ s'.threads, ∀ n, thread.awaits = some n →
      (∃ thread ∈ s.threads, thread.awaits = some n) ∨ Kept s' n) : Served s' := by
  intro thread hmem n hn
  rcases hthreads thread hmem n hn with ⟨old, hold, hon⟩ | hk
  · exact hkept n (hs old hold n hon)
  · exact hk

theorem Served.set {s s' : State} {i : Nat} {old new : Thread} (hs : Served s)
    (hkept : ∀ n, Kept s n → Kept s' n) (hi : s.threads[i]? = some old)
    (hthreads : s'.threads = s.threads.set i new)
    (hnew : ∀ n, new.awaits = some n → old.awaits = some n ∨ Kept s' n) : Served s' := by
  refine hs.of_threads hkept ?_
  intro thread hmem n hn
  rw [hthreads] at hmem
  rcases List.mem_or_eq_of_mem_set hmem with hold | rfl
  · exact .inl ⟨thread, hold, hn⟩
  · rcases hnew n hn with hold | hk
    · exact .inl ⟨old, List.mem_of_getElem? hi, hold⟩
    · exact .inr hk

theorem step_served (s : State) (i : Input) (s' : State) (hs : Served s) (hi : inTime s i = true)
    (h : step s i = some s') : Served s' := by
  cases step_effect h with
  | moved pc hfrom hto hstopped hdone =>
    refine hs.of_threads (fun n hk => ?_) fun thread hmem n hn => .inl ⟨thread, hmem, hn⟩
    unfold Kept at hk ⊢
    rw [current_of_draining hfrom, ← hstopped, ← current_of_draining hto] at hk
    exact hk
  | left hpc hshutdown =>
    refine hs.of_threads (fun n hk => ?_) fun thread hmem n hn => .inl ⟨thread, hmem, hn⟩
    rcases hk with hexecuted | ⟨-, task, hpromises, hmem⟩
    · exact .inl hexecuted
    · rw [hpc] at hmem
      have hany : s.queue.any (·.2.promises) = true := List.any_eq_true.mpr ⟨_, hmem, hpromises⟩
      simp [inTime, hpc, hshutdown, hany] at hi
  | acknowledged hpc =>
    refine hs.of_threads (fun n hk => ?_) fun thread hmem n hn => .inl ⟨thread, hmem, hn⟩
    unfold Kept at hk
    rw [hpc] at hk
    exact hk
  | drained hpc hqueue =>
    refine hs.of_threads (fun n hk => ?_) fun thread hmem n hn => .inl ⟨thread, hmem, hn⟩
    unfold Kept at hk
    rw [hpc] at hk
    exact hk
  | taken m task queue hpc hqueue =>
    refine hs.of_threads (fun n hk => ?_) fun thread hmem n hn => .inl ⟨thread, hmem, hn⟩
    unfold Kept at hk
    rw [hpc, hqueue] at hk
    exact hk
  | executed m task shutdown pipe clients hpc =>
    refine hs.of_threads (fun n hk => ?_) fun thread hmem n hn => .inl ⟨thread, hmem, hn⟩
    rcases hk with ⟨task', hmem⟩ | ⟨-, task', hpromises, hmem⟩
    · exact .inl ⟨task', List.mem_append_left _ hmem⟩
    · rw [hpc] at hmem
      rcases List.mem_append.mp hmem with hcurrent | hqueue
      · exact .inl ⟨task', List.mem_append_right _ hcurrent⟩
      · exact .inr ⟨rfl, task', hpromises, hqueue⟩
  | accepted hpc =>
    refine hs.of_threads (fun n hk => hk) fun thread hmem n hn => ?_
    rcases List.mem_append.mp hmem with hold | hnew
    · exact .inl ⟨thread, hold, hn⟩
    · rw [List.mem_singleton] at hnew
      subst hnew
      cases hn
  | joined hpc hended =>
    refine hs.of_threads (fun n hk => ?_) fun thread hmem n hn => .inl ⟨thread, hmem, hn⟩
    unfold Kept at hk
    rw [hpc] at hk
    exact hk
  | pushed i task hthread =>
    refine hs.set (fun n hk => ?_) hthread rfl fun n hn => .inr ?_
    · rcases hk with hexecuted | ⟨hstopped, task', hpromises, hmem⟩
      · exact .inl hexecuted
      · refine .inr ⟨hstopped, task', hpromises, ?_⟩
        rw [← List.append_assoc]
        exact List.mem_append_left _ hmem
    · simp only [Thread.awaits] at hn
      split at hn
      · rename_i hpromises
        cases hn
        have hstopped : s.pc.stopped = false := by simpa [inTime, hpromises] using hi
        exact .inr ⟨hstopped, task, hpromises, by simp⟩
      · cases hn
  | interrupted i n task hthread =>
    refine hs.set (fun n hk => hk) hthread rfl fun m hm => .inl ?_
    rw [afterPush_awaits] at hm
    exact hm
  | got i n task hthread hexecuted =>
    exact hs.set (fun n hk => hk) hthread rfl fun m hm => by cases hm
  | finished i hthread =>
    exact hs.set (fun n hk => hk) hthread rfl fun m hm => by cases hm

/-- Tasks are executed in the order of their pushes; what is in the queue while the loop waits for
bytes that are not there is about to be announced; and, in runs that leave the loop in time, nobody
waits behind it on a task that was not executed. -/
theorem task_protocol {others : Nat} {l : List Input} {s : State}
    (h : run step (start others) l = some s) :
    s.executed <+: s.pushed ∧
      (s.pc.draining = false → s.pipe = 0 →
        ∀ t ∈ s.queue, ∃ i : Nat, s.threads[i]? = some (.pushing t.1 t.2)) ∧
      (Meets step (fun s i => inTime s i = true) (start others) l → s.pc.stopped = true →
        ∀ i n : Nat, s.threads[i]? = some (.waiting n) → ∃ task, (n, task) ∈ s.executed) := by
  refine ⟨?_, ?_, ?_⟩
  · have hstart : Ordered (start others) := rfl
    have ho := run_invariant step_ordered l hstart h
    exact ⟨s.pc.current ++ s.queue, by rw [← List.append_assoc]; exact ho⟩
  · exact run_invariant (P := Announced) step_announced l (fun _ _ t ht => by cases ht) h
  · intro hmeets hstopped i n hi
    have hstart : Served (start others) := by
      intro thread hmem n hn
      rw [List.eq_of_mem_replicate hmem] at hn
      cases hn
    have hs := run_invariant_of_meets step_served l hstart hmeets h
    rcases hs _ (List.mem_of_getElem? hi) n rfl with hexecuted | ⟨hrunning, -⟩
    · exact hexecuted
    · rw [hrunning] at hstopped
      cases hstopped

/-! ## Who waits in vain -/

/-- Behind the loop, with a client that waits on a task nobody executes any more. -/
structure Hung (i n : Nat) (s : State) : Prop where
  stopped : s.pc.stopped = true
  joining : s.pc ≠ .done
  client : i ∈ s.clients
  waiting : s.threads[i]? = some (.waiting n)
  unexecuted : ∀ task, (n, task) ∉ s.executed

theorem Hung.set {i n j : Nat} {s s' : State} {old new : Thread} (hh : Hung i n s)
    (hj : s.threads[j]? = some old) (hne : old ≠ .waiting n)
    (hthreads : s'.threads = s.threads.set j new) (hpc : s'.pc = s.pc)
    (hclients : s'.clients = s.clients) (hexecuted : s'.executed = s.executed) : Hung i n s' where
  stopped := by rw [hpc]; exact hh.stopped
  joining := by rw [hpc]; exact hh.joining
  client := by rw [hclients]; exact hh.client
  waiting := by
    have hji : j ≠ i := by
      rintro rfl
      have hwaiting := hh.waiting
      rw [hj] at hwaiting
      exact hne (Option.some.inj hwaiting)
    rw [hthreads, List.getElem?_set_ne hji]
    exact hh.waiting
  unexecuted := by rw [hexecuted]; exact hh.unexecuted

theorem step_hung {i n : Nat} (s : State) (input : Input) (s' : State) (hh : Hung i n s)
    (h : step s input = some s') : Hung i n s' := by
  have hstopped := hh.stopped
  cases step_effect h with
  | moved pc hfrom hto hsame hdone =>
    exact ⟨by rw [hstopped] at hsame; exact hsame, hdone, hh.client, hh.waiting, hh.unexecuted⟩
  | left hpc hshutdown =>
    rw [hpc] at hstopped
    cases hstopped
  | acknowledged hpc =>
    rw [hpc] at hstopped
    cases hstopped
  | drained hpc hqueue =>
    rw [hpc] at hstopped
    cases hstopped
  | taken m task queue hpc hqueue =>
    rw [hpc] at hstopped
    cases hstopped
  | executed m task shutdown pipe clients hpc =>
    rw [hpc] at hstopped
    cases hstopped
  | accepted hpc =>
    rw [hpc] at hstopped
    cases hstopped
  | joined hpc hended =>
    have hwaiting := hh.waiting
    rw [hended i hh.client] at hwaiting
    cases hwaiting
  | pushed j task hj => exact hh.set hj (by simp) rfl rfl rfl rfl
  | interrupted j m task hj => exact hh.set hj (by simp) rfl rfl rfl rfl
  | got j m task hj hexecuted =>
    refine hh.set hj ?_ rfl rfl rfl rfl
    intro hm
    cases hm
    exact hh.unexecuted task hexecuted
  | finished j hj => exact hh.set hj (by simp) rfl rfl rfl rfl

/-- A client that waits in vain waits for ever, and the server with it. -/
theorem waits_forever {i n : Nat} {s s' : State} {l : List Input} (hh : Hung i n s)
    (h : run step s l = some s') : Hung i n s' := run_invariant step_hung l hh h

/-- A client connects while the signal handler has nothing to do. -/
def connectInputs : List Input := [.server .go, .server .go, .server .connected, .server .go]

/-- The server takes a task and executes it. -/
def executeInputs : List Input := [.server .go, .server .go]

/-- A login kick that is pushed before `Exit` and executed before the loop is left. -/
theorem task_protocol_kick :
    ∃ s : State,
      run step (start 1) (connectInputs ++ [.push 1 (.LoginKickUser 3), .interrupt 1, .push 0 .Exit,
        .interrupt 0, .server .go, .server .go, .server .go] ++ executeInputs ++ executeInputs ++
        [.server .go, .server .go, .server .go]) = some s ∧
      s.pc.stopped = true ∧ s.threads[1]? = some (.waiting 0) ∧ ∃ task, (0, task) ∈ s.executed := by
  let s : State :=
    { pipe := 2, shutdown := true, pc := .stopClients, threads := [.running, .waiting 0]
      clients := [1], pushed := [(0, .LoginKickUser 3), (1, .Exit)]
      executed := [(0, .LoginKickUser 3), (1, .Exit)] }
  have h : run step (start 1) (connectInputs ++ ([.push 1 (.LoginKickUser 3), .interrupt 1,
      .push 0 .Exit, .interrupt 0, .server .go, .server .go, .server .go] : List Input) ++ executeInputs ++
      executeInputs ++ ([.server .go, .server .go, .server .go] : List Input)) = some s := by decide
  obtain ⟨-, -, hserved⟩ := task_protocol h
  exact ⟨s, h, rfl, rfl, hserved (by decide) rfl 1 0 rfl⟩

/-- A login kick that is pushed behind the execution of `Exit`: `PASS` waits for ever, and so does
the server that joins its thread. -/
theorem late_kick_waits_forever :
    ∃ (l : List Input) (s : State), run step (start 1) l = some s ∧ s.pc.stopped = true ∧
      ∀ (l' : List Input) (s' : State), run step s l' = some s' →
        s'.threads[1]? = some (.waiting 1) ∧ (∀ task, (1, task) ∉ s'.executed) ∧ s'.pc ≠ .done := by
  let s : State :=
    { queue := [(1, .LoginKickUser 3)], pipe := 2, shutdown := true, pc := .stopClients
      threads := [.running, .waiting 1], clients := [1]
      pushed := [(0, .Exit), (1, .LoginKickUser 3)], executed := [(0, .Exit)] }
  have h : run step (start 1) (connectInputs ++ ([.push 0 .Exit, .interrupt 0, .server .go,
      .server .go, .server .go] : List Input) ++ executeInputs ++ ([.server .go, .push 1 (.LoginKickUser 3),
      .interrupt 1, .server .go, .server .go] : List Input)) = some s := by decide
  have hung : Hung 1 1 s := ⟨rfl, by simp [s], by simp [s], rfl, by simp [s]⟩
  refine ⟨_, s, h, rfl, fun l' s' h' => ?_⟩
  have hung' := waits_forever hung h'
  exact ⟨hung'.waiting, hung'.unexecuted, hung'.joining⟩

end Server
end Ftp
end Ebftpd
