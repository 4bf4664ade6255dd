import Ebftpd.Lib.Ring
import Ebftpd.Lib.Run

/-!
# Ebftpd.Util.AsyncCRC32

The checksum taken on a thread of its own (`util/asynccrc32.hpp`). The thread that calls puts the
chunks into the buffers of a ring and the worker takes them out; a buffer is handed over by its
`empty` flag, which is read and written under the mutex, while its bytes are copied and read
outside of it, one at a time here.

A step is one critical section or one action outside of the mutex. An `Input` names the thread
that moves, or wakes one that sleeps on a condition for no reason. `sent` and `eaten` are the
history: the chunks handed over and the chunks handed back.

* `step_inv`: the ring invariant, for each step of either thread.
* `step_woken`: nobody sleeps on a condition that holds, unless the notification is on its way.
* `asyncCRC32_exact`: every `Checksum` returns the checksum of the chunks before it, and every
  call returns.
-/

namespace Ebftpd
namespace Util
namespace AsyncCRC32

open Lib
open Lib.Ring (Holds)

structure Buffer where
  len : Nat
  empty : Bool
  data : List UInt8

def Buffer.mk' (bufferSize : Nat) : Buffer :=
  { len := 0, empty := true, data := List.replicate bufferSize 0 }

inductive Call
  | update (bytes : List UInt8)
  | checksum

/-- Where the thread that calls is. -/
inductive Caller
  | ready
  | waitEmpty (bytes : List UInt8)
  | asleepEmpty (bytes : List UInt8)
  | copy (bytes : List UInt8) (i : Nat)
  | setLen (bytes : List UInt8)
  | setFull (bytes : List UInt8)
  | notifyRead
  | nextWrite
  | waitPending
  | asleepPending
  | readChecksum
  | setFinished
  | notifyFinished
  | join
  | gone
deriving DecidableEq

/-- Where the thread of `Main` is. -/
inductive Worker
  | waitFull
  | asleep
  | enter
  | update (len : Nat) (bytes : List UInt8)
  | setEmpty (bytes : List UInt8)
  | notifyWrite
  | nextRead
  | exited
deriving DecidableEq

structure State where
  finished : Bool
  pending : UInt32
  queue : List Buffer
  readIt : Nat
  writeIt : Nat
  checksum : UInt32
  caller : Caller
  worker : Worker
  calls : List Call
  returned : List UInt32
  sent : List (List UInt8)
  eaten : List (List UInt8)

/-- What `notify_one` on `writeCond` does. -/
def Caller.notified : Caller → Caller
  | .asleepEmpty bytes => .waitEmpty bytes
  | .asleepPending => .waitPending
  | c => c

/-- What `notify_one` on `readCond` does. -/
def Worker.notified : Worker → Worker
  | .asleep => .waitFull
  | w => w

def nextIt (size it : Nat) : Nat := if it + 1 = size then 0 else it + 1

def callerStep (s : State) : Option State :=
  match s.caller with
  | .ready =>
    match s.calls with
    | .update bytes :: calls =>
      (s.queue[s.writeIt]?).bind fun buf =>
        -- the assertion of Update
        if bytes.length ≤ buf.data.length then
          some { s with calls := calls, caller := .waitEmpty bytes }
        else none
    | .checksum :: calls => some { s with calls := calls, caller := .waitPending }
    | [] => some { s with caller := .setFinished }
  | .waitEmpty bytes =>
    (s.queue[s.writeIt]?).map fun buf =>
      { s with caller := if buf.empty then .copy bytes 0 else .asleepEmpty bytes }
  | .asleepEmpty _ => none
  | .copy bytes i =>
    match bytes[i]? with
    | some b =>
      (s.queue[s.writeIt]?).map fun buf =>
        { s with
          queue := s.queue.set s.writeIt { buf with data := buf.data.set i b }
          caller := .copy bytes (i + 1) }
    | none => some { s with caller := .setLen bytes }
  | .setLen bytes =>
    (s.queue[s.writeIt]?).map fun buf =>
      { s with
        queue := s.queue.set s.writeIt { buf with len := bytes.length }
        caller := .setFull bytes }
  | .setFull bytes =>
    (s.queue[s.writeIt]?).map fun buf =>
      { s with
        queue := s.queue.set s.writeIt { buf with empty := false }
        pending := s.pending + 1
        caller := .notifyRead
        sent := s.sent ++ [bytes] }
  | .notifyRead => some { s with worker := s.worker.notified, caller := .nextWrite }
  | .nextWrite => some { s with writeIt := nextIt s.queue.length s.writeIt, caller := .ready }
  | .waitPending =>
    some { s with caller := if s.pending > 0 then .asleepPending else .readChecksum }
  | .asleepPending => none
  | .readChecksum => some { s with returned := s.returned ++ [s.checksum], caller := .ready }
  | .setFinished => some { s with finished := true, caller := .notifyFinished }
  | .notifyFinished => some { s with worker := s.worker.notified, caller := .join }
  | .join => if s.worker = .exited then some { s with caller := .gone } else none
  | .gone => none

def workerStep (crc32 : List UInt8 → UInt32 → UInt32) (s : State) : Option State :=
  match s.worker with
  | .waitFull =>
    (s.queue[s.readIt]?).map fun buf =>
      { s with
        worker := if buf.empty then (if s.finished then .exited else .asleep) else .enter }
  | .asleep => none
  | .enter => (s.queue[s.readIt]?).map fun buf => { s with worker := .update buf.len [] }
  | .update len bytes =>
    if bytes.length < len then
      (s.queue[s.readIt]?).bind fun buf =>
        (buf.data[bytes.length]?).map fun b => { s with worker := .update len (bytes ++ [b]) }
    else some { s with checksum := crc32 bytes s.checksum, worker := .setEmpty bytes }
  | .setEmpty bytes =>
    (s.queue[s.readIt]?).bind fun buf =>
      -- the assertion of Main
      if (s.pending - 1).toNat ≤ s.queue.length then
        some { s with
          queue := s.queue.set s.readIt { buf with empty := true }
          pending := s.pending - 1
          worker := .notifyWrite
          eaten := s.eaten ++ [bytes] }
      else none
  | .notifyWrite => some { s with caller := s.caller.notified, worker := .nextRead }
  | .nextRead => some { s with readIt := nextIt s.queue.length s.readIt, worker := .waitFull }
  | .exited => none

inductive Input
  | caller
  | worker
  | wakeCaller
  | wakeWorker

def step (crc32 : List UInt8 → UInt32 → UInt32) (s : State) : Input → Option State
  | .caller => callerStep s
  | .worker => workerStep crc32 s
  | .wakeCaller =>
    if s.caller.notified = s.caller then none else some { s with caller := s.caller.notified }
  | .wakeWorker =>
    if s.worker.notified = s.worker then none else some { s with worker := s.worker.notified }

/-- The constructor, `calls` being what will be called before the destructor. -/
def start (bufferSize : Nat) (queueSize : UInt32) (calls : List Call) : State where
  finished := false
  pending := 0
  queue := List.replicate queueSize.toNat (Buffer.mk' bufferSize)
  readIt := 0
  writeIt := 0
  checksum := 0
  caller := .ready
  worker := .waitFull
  calls := calls
  returned := []
  sent := []
  eaten := []

/-- `CRC32::Update` over all chunks. -/
def crcOf (crc32 : List UInt8 → UInt32 → UInt32) (chunks : List (List UInt8)) : UInt32 :=
  chunks.foldl (fun checksum bytes => crc32 bytes checksum) 0

/-- What the calls of `Checksum` return where the checksum is taken at once, as `CRC32` does. -/
def checksums (crc32 : List UInt8 → UInt32 → UInt32) : UInt32 → List Call → List UInt32
  | _, [] => []
  | checksum, .update bytes :: calls => checksums crc32 (crc32 bytes checksum) calls
  | checksum, .checksum :: calls => checksum :: checksums crc32 checksum calls

/-- The chunks that the calls of `Update` are given. -/
def updates : List Call → List (List UInt8)
  | [] => []
  | .update bytes :: calls => bytes :: updates calls
  | .checksum :: calls => updates calls

@[simp] theorem crcOf_concat (crc32 : List UInt8 → UInt32 → UInt32) (chunks : List (List UInt8))
    (bytes : List UInt8) : crcOf crc32 (chunks ++ [bytes]) = crc32 bytes (crcOf crc32 chunks) := by
  simp [crcOf]

/-- What one step of the thread that calls does. -/
inductive CallerMove (s : State) : State → Prop
  | update {bytes : List UInt8} {rest : List Call} {buf : Buffer} (hpc : s.caller = .ready)
      (hcalls : s.calls = .update bytes :: rest) (hbuf : s.queue[s.writeIt]? = some buf)
      (hfits : bytes.length ≤ buf.data.length) :
      CallerMove s { s with calls := rest, caller := .waitEmpty bytes }
  | checksum {rest : List Call} (hpc : s.caller = .ready) (hcalls : s.calls = .checksum :: rest) :
      CallerMove s { s with calls := rest, caller := .waitPending }
  | finish (hpc : s.caller = .ready) (hcalls : s.calls = []) : CallerMove s { s with caller := .setFinished }
  | found {bytes : List UInt8} {buf : Buffer} (hpc : s.caller = .waitEmpty bytes)
      (hbuf : s.queue[s.writeIt]? = some buf) (hempty : buf.empty = true) :
      CallerMove s { s with caller := .copy bytes 0 }
  | sleepEmpty {bytes : List UInt8} {buf : Buffer} (hpc : s.caller = .waitEmpty bytes)
      (hbuf : s.queue[s.writeIt]? = some buf) (hempty : buf.empty = false) :
      CallerMove s { s with caller := .asleepEmpty bytes }
  | copy {bytes : List UInt8} {i : Nat} {b : UInt8} {buf : Buffer} (hpc : s.caller = .copy bytes i)
      (hb : bytes[i]? = some b) (hbuf : s.queue[s.writeIt]? = some buf) :
      CallerMove s { s with
        queue := s.queue.set s.writeIt { buf with data := buf.data.set i b }
        caller := .copy bytes (i + 1) }
  | copied {bytes : List UInt8} {i : Nat} (hpc : s.caller = .copy bytes i) (hb : bytes[i]? = none) :
      CallerMove s { s with caller := .setLen bytes }
  | setLen {bytes : List UInt8} {buf : Buffer} (hpc : s.caller = .setLen bytes)
      (hbuf : s.queue[s.writeIt]? = some buf) :
      CallerMove s { s with
        queue := s.queue.set s.writeIt { buf with len := bytes.length }
        caller := .setFull bytes }
  | setFull {bytes : List UInt8} {buf : Buffer} (hpc : s.caller = .setFull bytes)
      (hbuf : s.queue[s.writeIt]? = some buf) :
      CallerMove s { s with
        queue := s.queue.set s.writeIt { buf with empty := false }
        pending := s.pending + 1
        caller := .notifyRead
        sent := s.sent ++ [bytes] }
  | notifyRead (hpc : s.caller = .notifyRead) :
      CallerMove s { s with worker := s.worker.notified, caller := .nextWrite }
  | nextWrite (hpc : s.caller = .nextWrite) :
      CallerMove s { s with writeIt := nextIt s.queue.length s.writeIt, caller := .ready }
  | sleepPending (hpc : s.caller = .waitPending) (hpending : s.pending > 0) :
      CallerMove s { s with caller := .asleepPending }
  | nonePending (hpc : s.caller = .waitPending) (hpending : ¬ s.pending > 0) :
      CallerMove s { s with caller := .readChecksum }
  | readChecksum (hpc : s.caller = .readChecksum) :
      CallerMove s { s with returned := s.returned ++ [s.checksum], caller := .ready }
  | setFinished (hpc : s.caller = .setFinished) :
      CallerMove s { s with finished := true, caller := .notifyFinished }
  | notifyFinished (hpc : s.caller = .notifyFinished) :
      CallerMove s { s with worker := s.worker.notified, caller := .join }
  | join (hpc : s.caller = .join) (hw : s.worker = .exited) : CallerMove s { s with caller := .gone }

/-- What one step of the worker does. -/
inductive WorkerMove (crc32 : List UInt8 → UInt32 → UInt32) (s : State) : State → Prop
  | found {buf : Buffer} (hpc : s.worker = .waitFull) (hbuf : s.queue[s.readIt]? = some buf)
      (hempty : buf.empty = false) : WorkerMove crc32 s { s with worker := .enter }
  | exit {buf : Buffer} (hpc : s.worker = .waitFull) (hbuf : s.queue[s.readIt]? = some buf)
      (hempty : buf.empty = true) (hfinished : s.finished = true) :
      WorkerMove crc32 s { s with worker := .exited }
  | sleep {buf : Buffer} (hpc : s.worker = .waitFull) (hbuf : s.queue[s.readIt]? = some buf)
      (hempty : buf.empty = true) (hfinished : s.finished = false) :
      WorkerMove crc32 s { s with worker := .asleep }
  | enter {buf : Buffer} (hpc : s.worker = .enter) (hbuf : s.queue[s.readIt]? = some buf) :
      WorkerMove crc32 s { s with worker := .update buf.len [] }
  | byte {len : Nat} {bytes : List UInt8} {buf : Buffer} {b : UInt8} (hpc : s.worker = .update len bytes)
      (hlen : bytes.length < len) (hbuf : s.queue[s.readIt]? = some buf)
      (hb : buf.data[bytes.length]? = some b) :
      WorkerMove crc32 s { s with worker := .update len (bytes ++ [b]) }
  | update {len : Nat} {bytes : List UInt8} (hpc : s.worker = .update len bytes) (hlen : ¬ bytes.length < len) :
      WorkerMove crc32 s { s with checksum := crc32 bytes s.checksum, worker := .setEmpty bytes }
  | setEmpty {bytes : List UInt8} {buf : Buffer} (hpc : s.worker = .setEmpty bytes)
      (hbuf : s.queue[s.readIt]? = some buf) (hassert : (s.pending - 1).toNat ≤ s.queue.length) :
      WorkerMove crc32 s { s with
        queue := s.queue.set s.readIt { buf with empty := true }
        pending := s.pending - 1
        worker := .notifyWrite
        eaten := s.eaten ++ [bytes] }
  | notifyWrite (hpc : s.worker = .notifyWrite) :
      WorkerMove crc32 s { s with caller := s.caller.notified, worker := .nextRead }
  | nextRead (hpc : s.worker = .nextRead) :
      WorkerMove crc32 s { s with readIt := nextIt s.queue.length s.readIt, worker := .waitFull }

/-- The buffer was filled with the chunk and handed over. -/
structure Full (bufferSize : Nat) (bytes : List UInt8) (buf : Buffer) : Prop where
  empty : buf.empty = false
  size : buf.data.length = bufferSize
  len : buf.len = bytes.length
  data : buf.data.take bytes.length = bytes

structure Free (bufferSize : Nat) (buf : Buffer) : Prop where
  empty : buf.empty = true
  size : buf.data.length = bufferSize

theorem Full.not_free {bufferSize : Nat} (bytes : List UInt8) (buf : Buffer)
    (h : Full bufferSize bytes buf) : ¬ Free bufferSize buf := by
  intro hfree
  have := h.empty
  rw [hfree.empty] at this
  cases this

/-- The buffers that were handed over and have not been passed by `writeIt`. -/
def Caller.behind : Caller → Nat
  | .notifyRead | .nextWrite => 1
  | _ => 0

/-- The buffers that were handed back and have not been passed by `readIt`. -/
def Worker.behind : Worker → Nat
  | .notifyWrite | .nextRead => 1
  | _ => 0

/-- The call under way, as long as it has not taken effect. -/
def Caller.current : Caller → List Call
  | .waitEmpty bytes | .asleepEmpty bytes | .copy bytes _ | .setLen bytes | .setFull bytes =>
    [.update bytes]
  | .waitPending | .asleepPending | .readChecksum => [.checksum]
  | _ => []

/-- The buffer at `writeIt` belongs to the thread that calls, and so much of it is written. -/
def State.Writes (bufferSize : Nat) (s : State) (bytes : List UInt8) (i : Nat) : Prop :=
  s.sent.length < s.eaten.length + s.queue.length ∧ i ≤ bytes.length ∧
    ∃ buf, s.queue[s.writeIt]? = some buf ∧ Free bufferSize buf ∧ buf.data.take i = bytes.take i

def State.CallerOk (bufferSize : Nat) (s : State) : Prop :=
  match s.caller with
  | .waitEmpty bytes | .asleepEmpty bytes => bytes.length ≤ bufferSize
  | .copy bytes i => bytes.length ≤ bufferSize ∧ s.Writes bufferSize bytes i
  | .setLen bytes => bytes.length ≤ bufferSize ∧ s.Writes bufferSize bytes bytes.length
  | .setFull bytes =>
    s.sent.length < s.eaten.length + s.queue.length ∧
      ∃ buf, s.queue[s.writeIt]? = some buf ∧ Full bufferSize bytes { buf with empty := false } ∧
        buf.empty = true
  | .readChecksum => s.sent.length = s.eaten.length
  | .setFinished | .notifyFinished | .join | .gone => s.calls = []
  | _ => True

def State.WorkerOk (crc32 : List UInt8 → UInt32 → UInt32) (s : State) : Prop :=
  match s.worker with
  | .enter => s.eaten.length < s.sent.length ∧ s.checksum = crcOf crc32 s.eaten
  | .update len bytes =>
    (∃ chunk, s.sent[s.eaten.length]? = some chunk ∧ len = chunk.length ∧
      bytes = chunk.take bytes.length) ∧ s.checksum = crcOf crc32 s.eaten
  | .setEmpty bytes =>
    s.sent[s.eaten.length]? = some bytes ∧ s.checksum = crc32 bytes (crcOf crc32 s.eaten)
  | _ => s.checksum = crcOf crc32 s.eaten

/-- The ring invariant. -/
structure Inv (crc32 : List UInt8 → UInt32 → UInt32) (bufferSize : Nat) (queueSize : UInt32)
    (calls : List Call) (s : State) : Prop where
  ring : Holds (Full bufferSize) (Free bufferSize) s.queue s.sent s.eaten.length
  inOrder : s.eaten <+: s.sent
  pos : 0 < s.queue.length
  length : s.queue.length = queueSize.toNat
  pending : s.pending.toNat + s.eaten.length = s.sent.length
  writeAt : s.caller.behind ≤ s.sent.length ∧
    s.writeIt = (s.sent.length - s.caller.behind) % s.queue.length
  readAt : s.worker.behind ≤ s.eaten.length ∧
    s.readIt = (s.eaten.length - s.worker.behind) % s.queue.length
  caller : s.CallerOk bufferSize
  worker : s.WorkerOk crc32
  history : updates calls = s.sent ++ updates (s.caller.current ++ s.calls)
  answers : checksums crc32 0 calls =
    s.returned ++ checksums crc32 (crcOf crc32 s.sent) (s.caller.current ++ s.calls)

section

variable {crc32 : List UInt8 → UInt32 → UInt32} {bufferSize : Nat} {queueSize : UInt32} {calls : List Call}
  {s s' : State}

theorem callerStep_move (h : callerStep s = some s') : CallerMove s s' := by
  cases hpc : s.caller with
  | ready =>
    simp only [callerStep, hpc] at h
    split at h
    · rename_i bytes rest hcalls
      simp only [Option.bind_eq_some_iff] at h
      obtain ⟨buf, hbuf, h⟩ := h
      split at h
      · rename_i hfits
        cases h
        exact .update hpc hcalls hbuf hfits
      · cases h
    · rename_i rest hcalls
      cases h
      exact .checksum hpc hcalls
    · rename_i hcalls
      cases h
      exact .finish hpc hcalls
  | waitEmpty bytes =>
    simp only [callerStep, hpc, Option.map_eq_some_iff] at h
    obtain ⟨buf, hbuf, rfl⟩ := h
    cases hempty : buf.empty with
    | true => exact .found hpc hbuf hempty
    | false => exact .sleepEmpty hpc hbuf hempty
  | copy bytes i =>
    simp only [callerStep, hpc] at h
    split at h
    · rename_i b hb
      obtain ⟨buf, hbuf, rfl⟩ := Option.map_eq_some_iff.mp h
      exact .copy hpc hb hbuf
    · rename_i hb
      cases h
      exact .copied hpc hb
  | setLen bytes =>
    simp only [callerStep, hpc, Option.map_eq_some_iff] at h
    obtain ⟨buf, hbuf, rfl⟩ := h
    exact .setLen hpc hbuf
  | setFull bytes =>
    simp only [callerStep, hpc, Option.map_eq_some_iff] at h
    obtain ⟨buf, hbuf, rfl⟩ := h
    exact .setFull hpc hbuf
  | waitPending =>
    simp only [callerStep, hpc, Option.some.injEq] at h
    subst h
    split
    · rename_i hpending
      exact .sleepPending hpc hpending
    · rename_i hpending
      exact .nonePending hpc hpending
  | join =>
    simp only [callerStep, hpc] at h
    split at h
    · rename_i hw
      cases h
      exact .join hpc hw
    · cases h
  | notifyRead =>
    simp only [callerStep, hpc, Option.some.injEq] at h
    exact h ▸ .notifyRead hpc
  | nextWrite =>
    simp only [callerStep, hpc, Option.some.injEq] at h
    exact h ▸ .nextWrite hpc
  | readChecksum =>
    simp only [callerStep, hpc, Option.some.injEq] at h
    exact h ▸ .readChecksum hpc
  | setFinished =>
    simp only [callerStep, hpc, Option.some.injEq] at h
    exact h ▸ .setFinished hpc
  | notifyFinished =>
    simp only [callerStep, hpc, Option.some.injEq] at h
    exact h ▸ .notifyFinished hpc
  | asleepEmpty _ | asleepPending | gone => simp [callerStep, hpc] at h

theorem workerStep_move (h : workerStep crc32 s = some s') : WorkerMove crc32 s s' := by
  cases hpc : s.worker with
  | waitFull =>
    simp only [workerStep, hpc, Option.map_eq_some_iff] at h
    obtain ⟨buf, hbuf, rfl⟩ := h
    cases hempty : buf.empty with
    | false => exact .found hpc hbuf hempty
    | true =>
      rw [if_pos rfl]
      split
      · rename_i hfinished
        exact .exit hpc hbuf hempty hfinished
      · rename_i hfinished
        exact .sleep hpc hbuf hempty (Bool.eq_false_of_not_eq_true hfinished)
  | enter =>
    simp only [workerStep, hpc, Option.map_eq_some_iff] at h
    obtain ⟨buf, hbuf, rfl⟩ := h
    exact .enter hpc hbuf
  | update len bytes =>
    simp only [workerStep, hpc] at h
    split at h
    · rename_i hlen
      simp only [Option.bind_eq_some_iff, Option.map_eq_some_iff] at h
      obtain ⟨buf, hbuf, b, hb, rfl⟩ := h
      exact .byte hpc hlen hbuf hb
    · rename_i hlen
      cases h
      exact .update hpc hlen
  | setEmpty bytes =>
    simp only [workerStep, hpc, Option.bind_eq_some_iff] at h
    obtain ⟨buf, hbuf, h⟩ := h
    split at h
    · rename_i hassert
      cases h
      exact .setEmpty hpc hbuf hassert
    · cases h
  | notifyWrite =>
    simp only [workerStep, hpc, Option.some.injEq] at h
    exact h ▸ .notifyWrite hpc
  | nextRead =>
    simp only [workerStep, hpc, Option.some.injEq] at h
    exact h ▸ .nextRead hpc
  | asleep | exited => simp [workerStep, hpc] at h

theorem nextIt_eq {size k : Nat} (h : 0 < size) : nextIt size (k % size) = (k + 1) % size :=
  Ring.slot_succ h

@[simp] theorem Caller.notified_behind (c : Caller) : c.notified.behind = c.behind := by
  cases c <;> rfl

@[simp] theorem Caller.notified_current (c : Caller) : c.notified.current = c.current := by
  cases c <;> rfl

@[simp] theorem Worker.notified_behind (w : Worker) : w.notified.behind = w.behind := by
  cases w <;> rfl

theorem Caller.notified_ne (c : Caller) :
    (∀ bytes, c.notified ≠ .asleepEmpty bytes) ∧ c.notified ≠ .asleepPending := by
  cases c <;> simp [Caller.notified]

theorem Caller.notified_ended (c : Caller) :
    (c.notified = .notifyFinished ∨ c.notified = .join ∨ c.notified = .gone) =
      (c = .notifyFinished ∨ c = .join ∨ c = .gone) := by
  cases c <;> simp [Caller.notified]

theorem Caller.notified_gone (c : Caller) (h : c.notified = .gone) : c = .gone := by
  cases c <;> simp [Caller.notified] at h ⊢

theorem Worker.notified_ne (w : Worker) : w.notified ≠ .asleep := by
  cases w <;> simp [Worker.notified]

theorem Worker.notified_exited (w : Worker) (h : w.notified = .exited) : w = .exited := by
  cases w <;> simp [Worker.notified] at h ⊢

/-- The thread that calls goes on, and nothing else changes. -/
theorem Inv.callerGoes (h : Inv crc32 bufferSize queueSize calls s) {c : Caller}
    (hbehind : c.behind = s.caller.behind) (hcurrent : c.current = s.caller.current)
    (hok : State.CallerOk bufferSize { s with caller := c }) :
    Inv crc32 bufferSize queueSize calls { s with caller := c } :=
  { h with
    writeAt := by
      have := h.writeAt
      rwa [← hbehind] at this
    caller := hok
    history := by
      have := h.history
      rwa [← hcurrent] at this
    answers := by
      have := h.answers
      rwa [← hcurrent] at this }

theorem Inv.workerGoes (h : Inv crc32 bufferSize queueSize calls s) {w : Worker}
    (hbehind : w.behind = s.worker.behind) (hok : State.WorkerOk crc32 { s with worker := w }) :
    Inv crc32 bufferSize queueSize calls { s with worker := w } :=
  { h with
    readAt := by
      have := h.readAt
      rwa [← hbehind] at this
    worker := hok }

theorem Inv.wakeCaller (h : Inv crc32 bufferSize queueSize calls s) :
    Inv crc32 bufferSize queueSize calls { s with caller := s.caller.notified } := by
  refine h.callerGoes s.caller.notified_behind s.caller.notified_current ?_
  have hc := h.caller
  unfold State.CallerOk at hc ⊢
  cases hs : s.caller <;> rw [hs] at hc <;> exact hc

theorem Inv.wakeWorker (h : Inv crc32 bufferSize queueSize calls s) :
    Inv crc32 bufferSize queueSize calls { s with worker := s.worker.notified } := by
  refine h.workerGoes s.worker.notified_behind ?_
  have hw := h.worker
  unfold State.WorkerOk at hw ⊢
  cases hs : s.worker <;> rw [hs] at hw <;> exact hw

/-- The buffer at `writeIt`, for a thread that is not on its way to the next. -/
theorem Inv.write_slot (h : Inv crc32 bufferSize queueSize calls s) (hb : s.caller.behind = 0) :
    s.writeIt = s.sent.length % s.queue.length := by
  have := h.writeAt.2
  rwa [hb, Nat.sub_zero] at this

theorem Inv.read_slot (h : Inv crc32 bufferSize queueSize calls s) (hb : s.worker.behind = 0) :
    s.readIt = s.eaten.length % s.queue.length := by
  have := h.readAt.2
  rwa [hb, Nat.sub_zero] at this

/-- A buffer is as large as it was made. -/
theorem Inv.write_size (h : Inv crc32 bufferSize queueSize calls s) (hb : s.caller.behind = 0) {buf : Buffer}
    (hbuf : s.queue[s.writeIt]? = some buf) : buf.data.length = bufferSize := by
  rw [h.write_slot hb] at hbuf
  have hfits := h.ring.fits
  rcases Nat.lt_or_ge s.sent.length (s.eaten.length + s.queue.length) with hlt | hge
  · obtain ⟨buf', hbuf', hfree⟩ := h.ring.spare _ (Nat.le_refl _) hlt
    rw [hbuf] at hbuf'
    cases hbuf'
    exact hfree.size
  · have hr : s.eaten.length < s.sent.length := by
      have := h.pos
      omega
    obtain ⟨buf', hbuf', hfull⟩ := h.ring.filled _ _ (Nat.le_refl _) (List.getElem?_eq_getElem hr)
    rw [Nat.le_antisymm hfits hge, Nat.add_mod_right, hbuf'] at hbuf
    cases hbuf
    exact hfull.size

/-- An empty buffer at `writeIt` is free for the next chunk. -/
theorem Inv.writes (h : Inv crc32 bufferSize queueSize calls s) (hb : s.caller.behind = 0) {buf : Buffer}
    (hbuf : s.queue[s.writeIt]? = some buf) (hempty : buf.empty = true) (bytes : List UInt8) :
    s.Writes bufferSize bytes 0 := by
  have hfree : Free bufferSize buf := ⟨hempty, h.write_size hb hbuf⟩
  refine ⟨h.ring.room h.pos Full.not_free ?_ hfree, Nat.zero_le _, buf, hbuf, hfree, by simp⟩
  rw [← h.write_slot hb]
  exact hbuf

theorem Inv.start_call (h : Inv crc32 bufferSize queueSize calls s) (hpc : s.caller = .ready) {call : Call}
    {rest : List Call} (hcalls : s.calls = call :: rest) {c : Caller} (hbehind : c.behind = 0)
    (hcurrent : c.current = [call]) (hok : State.CallerOk bufferSize { s with calls := rest, caller := c }) :
    Inv crc32 bufferSize queueSize calls { s with calls := rest, caller := c } :=
  { h with
    writeAt := by
      have := h.writeAt
      rw [hpc] at this
      rwa [hbehind]
    caller := hok
    history := by
      have := h.history
      rw [hpc, hcalls] at this
      rwa [hcurrent]
    answers := by
      have := h.answers
      rw [hpc, hcalls] at this
      rwa [hcurrent] }

/-- Work on the buffer ahead that leaves it empty. -/
theorem Inv.touch (h : Inv crc32 bufferSize queueSize calls s) (hb : s.caller.behind = 0)
    (hroom : s.sent.length < s.eaten.length + s.queue.length) {buf : Buffer} {c : Caller}
    (hfree : Free bufferSize buf) (hbehind : c.behind = 0) (hcurrent : c.current = s.caller.current)
    (hok : State.CallerOk bufferSize { s with queue := s.queue.set s.writeIt buf, caller := c }) :
    Inv crc32 bufferSize queueSize calls { s with queue := s.queue.set s.writeIt buf, caller := c } :=
  { h with
    ring := by
      rw [h.write_slot hb]
      exact h.ring.touch hroom hfree
    pos := by
      rw [List.length_set]
      exact h.pos
    length := by
      rw [List.length_set]
      exact h.length
    writeAt := by
      rw [List.length_set, hbehind, ← hb]
      exact h.writeAt
    readAt := by
      rw [List.length_set]
      exact h.readAt
    caller := hok
    history := by
      have := h.history
      rwa [← hcurrent] at this
    answers := by
      have := h.answers
      rwa [← hcurrent] at this }

theorem take_set_succ {l : List UInt8} {i : Nat} (b : UInt8) (hi : i < l.length) :
    (l.set i b).take (i + 1) = l.take i ++ [b] := by
  rw [List.take_add_one, List.take_set_of_le (Nat.le_refl i), List.getElem?_set_self hi]
  rfl

theorem Inv.copy_byte (h : Inv crc32 bufferSize queueSize calls s) {bytes : List UInt8} {i : Nat} {b : UInt8}
    {buf : Buffer} (hpc : s.caller = .copy bytes i) (hb : bytes[i]? = some b)
    (hbuf : s.queue[s.writeIt]? = some buf) (hlen : bytes.length ≤ bufferSize)
    (hwrites : s.Writes bufferSize bytes i) :
    Inv crc32 bufferSize queueSize calls { s with
      queue := s.queue.set s.writeIt { buf with data := buf.data.set i b }
      caller := .copy bytes (i + 1) } := by
  obtain ⟨hroom, -, buf', hbuf', hfree, htake⟩ := hwrites
  obtain rfl : buf = buf' := Option.some.inj (hbuf.symm.trans hbuf')
  have hi : i < bytes.length := (List.getElem?_eq_some_iff.mp hb).1
  have hfree' : Free bufferSize { buf with data := buf.data.set i b } :=
    ⟨hfree.empty, by rw [List.length_set]; exact hfree.size⟩
  refine h.touch (c := .copy bytes (i + 1)) (by rw [hpc]; rfl) hroom hfree' rfl (by rw [hpc]; rfl) ?_
  refine ⟨hlen, by rw [List.length_set]; exact hroom, hi, _,
    List.getElem?_set_self (List.getElem?_eq_some_iff.mp hbuf).1, hfree', ?_⟩
  have hsize := hfree.size
  rw [take_set_succ b (by omega), htake, List.take_add_one, hb]
  rfl

theorem Inv.set_len (h : Inv crc32 bufferSize queueSize calls s) {bytes : List UInt8} {buf : Buffer}
    (hpc : s.caller = .setLen bytes) (hbuf : s.queue[s.writeIt]? = some buf)
    (hwrites : s.Writes bufferSize bytes bytes.length) :
    Inv crc32 bufferSize queueSize calls { s with
      queue := s.queue.set s.writeIt { buf with len := bytes.length }
      caller := .setFull bytes } := by
  obtain ⟨hroom, -, buf', hbuf', hfree, htake⟩ := hwrites
  obtain rfl : buf = buf' := Option.some.inj (hbuf.symm.trans hbuf')
  rw [List.take_length] at htake
  have hfree' : Free bufferSize { buf with len := bytes.length } := ⟨hfree.empty, hfree.size⟩
  refine h.touch (c := .setFull bytes) (by rw [hpc]; rfl) hroom hfree' rfl (by rw [hpc]; rfl) ?_
  exact ⟨by rw [List.length_set]; exact hroom, _,
    List.getElem?_set_self (List.getElem?_eq_some_iff.mp hbuf).1,
    ⟨rfl, hfree.size, rfl, htake⟩, hfree.empty⟩

theorem toNat_succ {n : UInt32} (h : n.toNat + 1 < UInt32.size) : (n + 1).toNat = n.toNat + 1 := by
  rw [UInt32.toNat_add]
  exact Nat.mod_eq_of_lt h

theorem toNat_pred {n : UInt32} (h : 0 < n.toNat) : (n - 1).toNat = n.toNat - 1 :=
  UInt32.toNat_sub_of_le _ _ (UInt32.le_iff_toNat_le.mpr h)

/-- What the worker is about stays what it is when another chunk is handed over. -/
theorem State.WorkerOk.sent_concat (h : s.WorkerOk crc32) {queue : List Buffer} {pending : UInt32}
    {c : Caller} (chunk : List UInt8) :
    State.WorkerOk crc32
      { s with queue := queue, pending := pending, caller := c, sent := s.sent ++ [chunk] } := by
  have hkept : ∀ {bytes : List UInt8}, s.sent[s.eaten.length]? = some bytes →
      (s.sent ++ [chunk])[s.eaten.length]? = some bytes := by
    intro bytes hb
    rwa [List.getElem?_append_left (List.getElem?_eq_some_iff.mp hb).1]
  unfold State.WorkerOk at h ⊢
  cases hw : s.worker with
  | enter =>
    rw [hw] at h
    refine ⟨?_, h.2⟩
    have := h.1
    simp only [List.length_append, List.length_singleton]
    omega
  | update len bytes =>
    rw [hw] at h
    obtain ⟨⟨bytes', hb, hlen⟩, hcrc⟩ := h
    exact ⟨⟨bytes', hkept hb, hlen⟩, hcrc⟩
  | setEmpty bytes =>
    rw [hw] at h
    exact ⟨hkept h.1, h.2⟩
  | waitFull | asleep | notifyWrite | nextRead | exited =>
    rw [hw] at h
    exact h

/-- The buffer is handed over. -/
theorem Inv.set_full (h : Inv crc32 bufferSize queueSize calls s) {bytes : List UInt8} {buf : Buffer}
    (hpc : s.caller = .setFull bytes) (hroom : s.sent.length < s.eaten.length + s.queue.length)
    (hfull : Full bufferSize bytes { buf with empty := false }) :
    Inv crc32 bufferSize queueSize calls { s with
      queue := s.queue.set s.writeIt { buf with empty := false }
      pending := s.pending + 1
      caller := .notifyRead
      sent := s.sent ++ [bytes] } := by
  have hslot := h.write_slot (by rw [hpc]; rfl)
  have hlength := h.length
  have hsmall := queueSize.toNat_lt
  have hpending := h.pending
  exact {
    ring := by
      rw [hslot]
      exact h.ring.put hroom hfull
    inOrder := h.inOrder.trans (List.prefix_append _ _)
    pos := by
      rw [List.length_set]
      exact h.pos
    length := by
      rw [List.length_set]
      exact h.length
    pending := by
      simp only [List.length_append, List.length_singleton]
      rw [toNat_succ (by rw [UInt32.size]; omega)]
      omega
    writeAt := by
      simp only [Caller.behind, List.length_append, List.length_singleton, List.length_set]
      exact ⟨by omega, hslot⟩
    readAt := by
      rw [List.length_set]
      exact h.readAt
    caller := trivial
    worker := by
      exact State.WorkerOk.sent_concat h.worker bytes
    history := by
      have := h.history
      rw [hpc] at this
      rw [this]
      simp [Caller.current, updates]
    answers := by
      have := h.answers
      rw [hpc] at this
      rw [crcOf_concat]
      exact this }

/-- Once all chunks are handed back, the checksum is that of all of them. -/
theorem Inv.checksum_of_empty (h : Inv crc32 bufferSize queueSize calls s)
    (hempty : s.sent.length = s.eaten.length) : s.checksum = crcOf crc32 s.sent := by
  have heq : s.eaten = s.sent := h.inOrder.eq_of_length hempty.symm
  have hw := h.worker
  unfold State.WorkerOk at hw
  cases hpc : s.worker with
  | enter =>
    rw [hpc] at hw
    have := hw.1
    omega
  | update len bytes =>
    rw [hpc] at hw
    obtain ⟨⟨chunk, hchunk, -⟩, -⟩ := hw
    rw [← hempty] at hchunk
    simp at hchunk
  | setEmpty bytes =>
    rw [hpc, ← hempty] at hw
    simp at hw
  | waitFull | asleep | notifyWrite | nextRead | exited =>
    rw [hpc, heq] at hw
    exact hw

theorem callerStep_inv (h : Inv crc32 bufferSize queueSize calls s) (hstep : callerStep s = some s') :
    Inv crc32 bufferSize queueSize calls s' := by
  have hc := h.caller
  unfold State.CallerOk at hc
  cases callerStep_move hstep with
  | update hpc hcalls hbuf hfits =>
    refine h.start_call hpc hcalls rfl rfl ?_
    rwa [h.write_size (by rw [hpc]; rfl) hbuf] at hfits
  | checksum hpc hcalls => exact h.start_call (c := .waitPending) hpc hcalls rfl rfl trivial
  | finish hpc hcalls => exact h.callerGoes (c := .setFinished) (by rw [hpc]; rfl) (by rw [hpc]; rfl) hcalls
  | @found bytes buf hpc hbuf hempty =>
    rw [hpc] at hc
    have hwrites := h.writes (by rw [hpc]; rfl) hbuf hempty bytes
    exact h.callerGoes (by rw [hpc]; rfl) (by rw [hpc]; rfl) ⟨hc, hwrites⟩
  | sleepEmpty hpc hbuf hempty =>
    rw [hpc] at hc
    exact h.callerGoes (by rw [hpc]; rfl) (by rw [hpc]; rfl) hc
  | copy hpc hb hbuf =>
    rw [hpc] at hc
    exact h.copy_byte hpc hb hbuf hc.1 hc.2
  | @copied bytes i hpc hb =>
    rw [hpc] at hc
    have hi : i = bytes.length := by
      have := List.getElem?_eq_none_iff.mp hb
      have := hc.2.2.1
      omega
    subst hi
    exact h.callerGoes (c := .setLen bytes) (by rw [hpc]; rfl) (by rw [hpc]; rfl) hc
  | setLen hpc hbuf =>
    rw [hpc] at hc
    exact h.set_len hpc hbuf hc.2
  | @setFull bytes buf hpc hbuf =>
    rw [hpc] at hc
    obtain ⟨hroom, buf', hbuf', hfull, -⟩ := hc
    obtain rfl : buf = buf' := Option.some.inj (hbuf.symm.trans hbuf')
    exact h.set_full hpc hroom hfull
  | notifyRead hpc => exact h.wakeWorker.callerGoes (by simp [hpc]; rfl) (by simp [hpc]; rfl) trivial
  | nextWrite hpc =>
    exact { h with
      writeAt := by
        obtain ⟨hpos, hslot⟩ := h.writeAt
        rw [hpc] at hpos hslot
        refine ⟨Nat.zero_le _, ?_⟩
        simp only [Caller.behind] at hpos hslot
        rw [hslot, nextIt_eq h.pos, Nat.sub_add_cancel hpos]
        rfl
      caller := trivial
      history := by
        have := h.history
        rwa [hpc] at this
      answers := by
        have := h.answers
        rwa [hpc] at this }
  | sleepPending hpc _ =>
    exact h.callerGoes (c := .asleepPending) (by rw [hpc]; rfl) (by rw [hpc]; rfl) trivial
  | nonePending hpc hnone =>
    refine h.callerGoes (c := .readChecksum) (by rw [hpc]; rfl) (by rw [hpc]; rfl) ?_
    have hzero : s.pending.toNat = 0 := by
      by_contra hne
      exact hnone (UInt32.lt_iff_toNat_lt.mpr (Nat.pos_of_ne_zero hne))
    have := h.pending
    change s.sent.length = s.eaten.length
    omega
  | readChecksum hpc =>
    rw [hpc] at hc
    exact { h with
      writeAt := by
        have := h.writeAt
        rwa [hpc] at this
      caller := trivial
      history := by
        have := h.history
        rwa [hpc] at this
      answers := by
        have := h.answers
        rw [hpc] at this
        rw [this, h.checksum_of_empty hc]
        simp [Caller.current, checksums] }
  | setFinished hpc =>
    rw [hpc] at hc
    exact { h.callerGoes (c := .notifyFinished) (by rw [hpc]; rfl) (by rw [hpc]; rfl) hc with }
  | notifyFinished hpc =>
    rw [hpc] at hc
    exact h.wakeWorker.callerGoes (c := .join) (by simp [hpc]; rfl) (by simp [hpc]; rfl) hc
  | join hpc _ =>
    rw [hpc] at hc
    exact h.callerGoes (c := .gone) (by rw [hpc]; rfl) (by rw [hpc]; rfl) hc

/-- The buffer at `readIt` holds the first chunk that was not handed back. -/
theorem Inv.read_full (h : Inv crc32 bufferSize queueSize calls s) (hb : s.worker.behind = 0) {chunk : List UInt8}
    (hchunk : s.sent[s.eaten.length]? = some chunk) :
    ∃ buf, s.queue[s.readIt]? = some buf ∧ Full bufferSize chunk buf := by
  rw [h.read_slot hb]
  exact h.ring.filled _ _ (Nat.le_refl _) hchunk

/-- One byte of the chunk is read. -/
theorem Inv.read_byte (h : Inv crc32 bufferSize queueSize calls s) {len : Nat} {bytes : List UInt8} {buf : Buffer}
    {b : UInt8} (hpc : s.worker = .update len bytes) (hlt : bytes.length < len)
    (hbuf : s.queue[s.readIt]? = some buf) (hb : buf.data[bytes.length]? = some b) :
    Inv crc32 bufferSize queueSize calls { s with worker := .update len (bytes ++ [b]) } := by
  have hw := h.worker
  unfold State.WorkerOk at hw
  rw [hpc] at hw
  obtain ⟨⟨chunk, hchunk, hlen, hread⟩, hcrc⟩ := hw
  obtain ⟨buf', hbuf', hfull⟩ := h.read_full (by rw [hpc]; rfl) hchunk
  obtain rfl : buf = buf' := Option.some.inj (hbuf.symm.trans hbuf')
  refine h.workerGoes (w := .update len (bytes ++ [b])) (by rw [hpc]; rfl) ?_
  refine ⟨⟨chunk, hchunk, hlen, ?_⟩, hcrc⟩
  have hbyte : chunk[bytes.length]? = some b := by
    rw [← hfull.data, List.getElem?_take_of_lt (hlen ▸ hlt)]
    exact hb
  rw [List.length_append, List.length_singleton, List.take_add_one, hbyte, ← hread]
  rfl

/-- The checksum is taken of the bytes once all are read. -/
theorem Inv.take_checksum (h : Inv crc32 bufferSize queueSize calls s) {len : Nat} {bytes : List UInt8}
    (hpc : s.worker = .update len bytes) (hge : ¬ bytes.length < len) :
    Inv crc32 bufferSize queueSize calls { s with
      checksum := crc32 bytes s.checksum, worker := .setEmpty bytes } := by
  have hw := h.worker
  unfold State.WorkerOk at hw
  rw [hpc] at hw
  obtain ⟨⟨chunk, hchunk, hlen, hread⟩, hcrc⟩ := hw
  have hall : bytes = chunk := by rw [hread, List.take_of_length_le (by omega)]
  subst hall
  exact { h with
    readAt := by
      have := h.readAt
      rwa [hpc] at this
    worker := ⟨hchunk, by rw [← hcrc]⟩ }

/-- What the thread that calls is about stays what it is when a buffer is handed back. -/
theorem Inv.caller_eaten (h : Inv crc32 bufferSize queueSize calls s) (hb : s.worker.behind = 0)
    (hlt : s.eaten.length < s.sent.length) (buf : Buffer) (pending : UInt32) (w : Worker)
    (chunk : List UInt8) :
    State.CallerOk bufferSize { s with
      queue := s.queue.set s.readIt buf, pending := pending, worker := w
      eaten := s.eaten ++ [chunk] } := by
  have hc := h.caller
  -- the buffer that is written is not the one that is handed back
  have hother : s.caller.behind = 0 → s.sent.length < s.eaten.length + s.queue.length →
      s.readIt ≠ s.writeIt := by
    intro hbc hroom
    rw [h.read_slot hb, h.write_slot hbc]
    exact (h.ring.slot_ne hroom (Nat.le_refl _) (by omega) (by omega)).symm
  have hwrites : ∀ {bytes : List UInt8} {i : Nat}, s.caller.behind = 0 → s.Writes bufferSize bytes i →
      State.Writes bufferSize { s with
        queue := s.queue.set s.readIt buf, pending := pending, worker := w
        eaten := s.eaten ++ [chunk] } bytes i := by
    rintro bytes i hbc ⟨hroom, hi, buf', hbuf', hfree⟩
    refine ⟨?_, hi, buf', ?_, hfree⟩
    · simp only [List.length_append, List.length_singleton, List.length_set]
      omega
    · rw [List.getElem?_set_ne (hother hbc hroom)]
      exact hbuf'
  unfold State.CallerOk at hc ⊢
  cases hpc : s.caller with
  | copy bytes i =>
    rw [hpc] at hc
    exact ⟨hc.1, hwrites (by rw [hpc]; rfl) hc.2⟩
  | setLen bytes =>
    rw [hpc] at hc
    exact ⟨hc.1, hwrites (by rw [hpc]; rfl) hc.2⟩
  | setFull bytes =>
    rw [hpc] at hc
    obtain ⟨hroom, buf', hbuf', hfull⟩ := hc
    refine ⟨?_, buf', ?_, hfull⟩
    · simp only [List.length_append, List.length_singleton, List.length_set]
      omega
    · rw [List.getElem?_set_ne (hother (by rw [hpc]; rfl) hroom)]
      exact hbuf'
  | readChecksum =>
    rw [hpc] at hc
    change s.sent.length = s.eaten.length at hc
    omega
  | ready | waitEmpty _ | asleepEmpty _ | notifyRead | nextWrite | waitPending | asleepPending
  | setFinished | notifyFinished | join | gone =>
    rw [hpc] at hc
    exact hc

/-- The buffer is handed back. -/
theorem Inv.set_empty (h : Inv crc32 bufferSize queueSize calls s) {bytes : List UInt8} {buf : Buffer}
    (hpc : s.worker = .setEmpty bytes) (hbuf : s.queue[s.readIt]? = some buf) :
    Inv crc32 bufferSize queueSize calls { s with
      queue := s.queue.set s.readIt { buf with empty := true }
      pending := s.pending - 1
      worker := .notifyWrite
      eaten := s.eaten ++ [bytes] } := by
  have hw := h.worker
  unfold State.WorkerOk at hw
  rw [hpc] at hw
  obtain ⟨hchunk, hcrc⟩ := hw
  have hlt := (List.getElem?_eq_some_iff.mp hchunk).1
  have hpending := h.pending
  have hslot := h.read_slot (by rw [hpc]; rfl)
  obtain ⟨buf', hbuf', hfull⟩ := h.read_full (by rw [hpc]; rfl) hchunk
  obtain rfl : buf = buf' := Option.some.inj (hbuf.symm.trans hbuf')
  have hfree : Free bufferSize { buf with empty := true } := ⟨rfl, hfull.size⟩
  exact {
    ring := by
      rw [hslot]
      simpa using h.ring.take hlt hfree
    inOrder := by
      obtain ⟨rest, hrest⟩ := h.inOrder
      rw [← hrest] at hchunk ⊢
      cases rest with
      | nil => simp at hchunk
      | cons first rest =>
        obtain rfl : first = bytes := by simpa using hchunk
        exact ⟨rest, by simp⟩
    pos := by
      rw [List.length_set]
      exact h.pos
    length := by
      rw [List.length_set]
      exact h.length
    pending := by
      simp only [List.length_append, List.length_singleton]
      rw [toNat_pred (by omega)]
      omega
    writeAt := by
      rw [List.length_set]
      exact h.writeAt
    readAt := by
      simp only [Worker.behind, List.length_append, List.length_singleton, List.length_set]
      exact ⟨by omega, hslot⟩
    caller := h.caller_eaten (by rw [hpc]; rfl) hlt _ _ _ _
    history := h.history
    worker := by
      change s.checksum = crcOf crc32 (s.eaten ++ [bytes])
      rw [crcOf_concat, hcrc]
    answers := h.answers }

theorem workerStep_inv (h : Inv crc32 bufferSize queueSize calls s) (hstep : workerStep crc32 s = some s') :
    Inv crc32 bufferSize queueSize calls s' := by
  have hw := h.worker
  unfold State.WorkerOk at hw
  cases workerStep_move hstep with
  | @found buf hpc hbuf hempty =>
    rw [hpc] at hw
    rw [h.read_slot (by rw [hpc]; rfl)] at hbuf
    have hnot : ¬ Free bufferSize buf := by
      intro hfree
      rw [hfree.empty] at hempty
      cases hempty
    obtain ⟨chunk, hchunk, -⟩ := h.ring.pending hbuf hnot
    exact h.workerGoes (w := .enter) (by rw [hpc]; rfl) ⟨(List.getElem?_eq_some_iff.mp hchunk).1, hw⟩
  | exit hpc _ _ _ =>
    rw [hpc] at hw
    exact h.workerGoes (w := .exited) (by rw [hpc]; rfl) hw
  | sleep hpc _ _ _ =>
    rw [hpc] at hw
    exact h.workerGoes (w := .asleep) (by rw [hpc]; rfl) hw
  | @enter buf hpc hbuf =>
    rw [hpc] at hw
    have hchunk := List.getElem?_eq_getElem hw.1
    obtain ⟨buf', hbuf', hfull⟩ := h.read_full (by rw [hpc]; rfl) hchunk
    obtain rfl : buf = buf' := Option.some.inj (hbuf.symm.trans hbuf')
    refine h.workerGoes (w := .update buf.len []) (by rw [hpc]; rfl) ?_
    exact ⟨⟨_, hchunk, hfull.len, by simp⟩, hw.2⟩
  | byte hpc hlen hbuf hb => exact h.read_byte hpc hlen hbuf hb
  | update hpc hlen => exact h.take_checksum hpc hlen
  | setEmpty hpc hbuf _ => exact h.set_empty hpc hbuf
  | notifyWrite hpc =>
    rw [hpc] at hw
    exact h.wakeCaller.workerGoes (w := .nextRead) (by rw [hpc]; rfl) hw
  | nextRead hpc =>
    rw [hpc] at hw
    exact { h with
      readAt := by
        obtain ⟨hpos, hslot⟩ := h.readAt
        rw [hpc] at hpos hslot
        refine ⟨Nat.zero_le _, ?_⟩
        simp only [Worker.behind] at hpos hslot
        rw [hslot, nextIt_eq h.pos, Nat.sub_add_cancel hpos]
        rfl
      worker := hw }

theorem step_inv (s : State) (i : Input) (s' : State) (h : Inv crc32 bufferSize queueSize calls s)
    (hstep : step crc32 s i = some s') : Inv crc32 bufferSize queueSize calls s' := by
  cases i with
  | caller => exact callerStep_inv h hstep
  | worker => exact workerStep_inv h hstep
  | wakeCaller =>
    simp only [step] at hstep
    split at hstep
    · cases hstep
    · cases hstep
      exact h.wakeCaller
  | wakeWorker =>
    simp only [step] at hstep
    split at hstep
    · cases hstep
    · cases hstep
      exact h.wakeWorker

theorem start_inv (hq : 1 ≤ queueSize) :
    Inv crc32 bufferSize queueSize calls (start bufferSize queueSize calls) where
  ring := by
    refine Ring.start fun buf hbuf => ?_
    rw [List.eq_of_mem_replicate hbuf]
    exact ⟨rfl, List.length_replicate⟩
  inOrder := List.prefix_refl _
  pos := by
    rw [start, List.length_replicate]
    exact UInt32.le_iff_toNat_le.mp hq
  length := List.length_replicate
  pending := rfl
  writeAt := ⟨Nat.zero_le _, (Nat.zero_mod _).symm⟩
  readAt := ⟨Nat.zero_le _, (Nat.zero_mod _).symm⟩
  caller := trivial
  worker := rfl
  history := rfl
  answers := rfl

/-- Nobody sleeps on a condition that holds, unless the notification is on its way. -/
structure Woken (bufferSize : Nat) (s : State) : Prop where
  fits : ∀ bytes, Call.update bytes ∈ s.calls → bytes.length ≤ bufferSize
  ended : s.finished = true ↔ s.caller = .notifyFinished ∨ s.caller = .join ∨ s.caller = .gone
  empty : ∀ bytes, s.caller = .asleepEmpty bytes →
    s.sent.length = s.eaten.length + s.queue.length ∨ s.worker = .notifyWrite
  pending : s.caller = .asleepPending → s.eaten.length < s.sent.length ∨ s.worker = .notifyWrite
  full : s.worker = .asleep →
    s.sent.length = s.eaten.length ∧ s.finished = false ∨ s.caller = .notifyRead ∨
      s.caller = .notifyFinished
  exited : s.worker = .exited → s.sent.length = s.eaten.length ∧ s.finished = true
  gone : s.caller = .gone → s.worker = .exited

/-- A buffer at `writeIt` that is not empty: the ring is full. -/
theorem Inv.ring_full (h : Inv crc32 bufferSize queueSize calls s) (hb : s.caller.behind = 0) {buf : Buffer}
    (hbuf : s.queue[s.writeIt]? = some buf) (hfull : buf.empty = false) :
    s.sent.length = s.eaten.length + s.queue.length := by
  rcases Nat.lt_or_ge s.sent.length (s.eaten.length + s.queue.length) with hlt | hge
  · obtain ⟨buf', hbuf', hfree⟩ := h.ring.spare _ (Nat.le_refl _) hlt
    rw [← h.write_slot hb, hbuf] at hbuf'
    cases hbuf'
    have := hfree.empty
    rw [hfull] at this
    cases this
  · exact Nat.le_antisymm h.ring.fits hge

/-- A buffer at `readIt` that is empty: everything was handed back. -/
theorem Inv.ring_empty (h : Inv crc32 bufferSize queueSize calls s) (hb : s.worker.behind = 0) {buf : Buffer}
    (hbuf : s.queue[s.readIt]? = some buf) (hempty : buf.empty = true) :
    s.sent.length = s.eaten.length := by
  by_contra hne
  have hlt : s.eaten.length < s.sent.length := by
    have := h.ring.taken
    omega
  obtain ⟨buf', hbuf', hfull⟩ := h.read_full hb (List.getElem?_eq_getElem hlt)
  rw [hbuf] at hbuf'
  cases hbuf'
  have := hfull.empty
  rw [hempty] at this
  cases this

/-- The thread that calls goes on to where it neither sleeps nor ends. -/
theorem Woken.callerGoes (hs : Woken bufferSize s) {c : Caller} {queue : List Buffer} {calls' : List Call}
    {returned : List UInt32} {writeIt : Nat}
    (hbefore : s.caller ≠ .notifyRead ∧ s.caller ≠ .notifyFinished ∧ s.caller ≠ .join ∧ s.caller ≠ .gone)
    (hempty : ∀ bytes, c ≠ .asleepEmpty bytes) (hpending : c ≠ .asleepPending)
    (hafter : c ≠ .notifyFinished ∧ c ≠ .join ∧ c ≠ .gone) (hcalls : ∀ call ∈ calls', call ∈ s.calls) :
    Woken bufferSize { s with
      queue := queue, writeIt := writeIt, calls := calls', returned := returned, caller := c } where
  fits bytes hb := hs.fits bytes (hcalls _ hb)
  ended := by simpa [hbefore, hafter] using hs.ended
  empty bytes hc := absurd hc (hempty bytes)
  pending hc := absurd hc hpending
  full hw := .inl (by simpa [hbefore] using hs.full hw)
  exited := hs.exited
  gone hc := absurd hc hafter.2.2

theorem callerStep_woken (h : Inv crc32 bufferSize queueSize calls s) (hs : Woken bufferSize s)
    (hstep : callerStep s = some s') : Woken bufferSize s' := by
  cases callerStep_move hstep with
  | update hpc hcalls _ _ =>
    exact hs.callerGoes (by simp [hpc]) (by simp) (by simp) (by simp) (by simp +contextual [hcalls])
  | checksum hpc hcalls =>
    exact hs.callerGoes (by simp [hpc]) (by simp) (by simp) (by simp) (by simp +contextual [hcalls])
  | sleepEmpty hpc hbuf hempty =>
    exact { hs with
      ended := by simpa [hpc] using hs.ended
      empty := fun _ _ => .inl (h.ring_full (by rw [hpc]; rfl) hbuf hempty)
      pending := by simp
      full := by simpa [hpc] using hs.full
      gone := by simp }
  | finish hpc | found hpc | copy hpc | copied hpc | setLen hpc | nextWrite hpc | nonePending hpc | readChecksum hpc =>
    exact hs.callerGoes (by simp [hpc]) (by simp) (by simp) (by simp) (by simp)
  | setFull hpc _ =>
    exact { hs with
      ended := by simpa [hpc] using hs.ended
      empty := by simp
      pending := by simp
      full := fun _ => .inr (.inl rfl)
      exited := fun hw => by
        -- the worker ends only after the last call
        have := hs.ended.mp (hs.exited hw).2
        simp [hpc] at this
      gone := by simp }
  | notifyRead hpc | notifyFinished hpc =>
    exact { hs with
      ended := by simpa [hpc] using hs.ended
      empty := by simp
      pending := by simp
      full := fun hw => absurd hw s.worker.notified_ne
      exited := fun hw => hs.exited (s.worker.notified_exited hw)
      gone := by simp }
  | sleepPending hpc hpos =>
    exact { hs with
      ended := by simpa [hpc] using hs.ended
      empty := by simp
      pending := fun _ => by
        have := UInt32.lt_iff_toNat_lt.mp hpos
        have := h.pending
        simp only [UInt32.toNat_zero] at *
        exact .inl (by omega)
      full := by simpa [hpc] using hs.full
      gone := by simp }
  | setFinished hpc =>
    exact { hs with
      ended := by simp
      empty := by simp
      pending := by simp
      full := fun _ => .inr (.inr rfl)
      exited := fun hw => ⟨(hs.exited hw).1, rfl⟩
      gone := by simp }
  | join hpc hw =>
    exact { hs with
      ended := by simpa [hpc] using hs.ended
      empty := by simp
      pending := by simp
      full := fun h => by simp [hw] at h
      gone := fun _ => hw }

/-- The worker goes on to where it neither sleeps nor ends. -/
theorem Woken.workerGoes (hs : Woken bufferSize s) {w : Worker} {checksum : UInt32} {readIt : Nat}
    (hbefore : s.worker ≠ .notifyWrite ∧ s.worker ≠ .exited) (hfull : w ≠ .asleep) (hover : w ≠ .exited) :
    Woken bufferSize { s with readIt := readIt, checksum := checksum, worker := w } where
  fits := hs.fits
  ended := hs.ended
  empty bytes hc := .inl ((hs.empty bytes hc).resolve_right hbefore.1)
  pending hc := .inl ((hs.pending hc).resolve_right hbefore.1)
  full hw := absurd hw hfull
  exited hw := absurd hw hover
  gone hc := absurd (hs.gone hc) hbefore.2

theorem workerStep_woken (h : Inv crc32 bufferSize queueSize calls s) (hs : Woken bufferSize s)
    (hstep : workerStep crc32 s = some s') : Woken bufferSize s' := by
  cases workerStep_move hstep with
  | exit hpc hbuf hempty hfinished =>
    exact { hs with
      empty := fun bytes hc => .inl ((hs.empty bytes hc).resolve_right (by simp [hpc]))
      pending := fun hc => .inl ((hs.pending hc).resolve_right (by simp [hpc]))
      full := by simp
      exited := fun _ => ⟨h.ring_empty (by rw [hpc]; rfl) hbuf hempty, hfinished⟩
      gone := fun _ => rfl }
  | sleep hpc hbuf hempty hfinished =>
    exact { hs with
      empty := fun bytes hc => .inl ((hs.empty bytes hc).resolve_right (by simp [hpc]))
      pending := fun hc => .inl ((hs.pending hc).resolve_right (by simp [hpc]))
      full := fun _ => .inl ⟨h.ring_empty (by rw [hpc]; rfl) hbuf hempty, hfinished⟩
      exited := by simp
      gone := fun hc => by simpa [hpc] using hs.gone hc }
  | found hpc | enter hpc | byte hpc | update hpc | nextRead hpc =>
    exact hs.workerGoes (by simp [hpc]) (by simp) (by simp)
  | setEmpty hpc _ _ =>
    exact { hs with
      empty := fun _ _ => .inr rfl
      pending := fun _ => .inr rfl
      full := by simp
      exited := by simp
      gone := fun hc => by simpa [hpc] using hs.gone hc }
  | notifyWrite hpc =>
    exact { hs with
      ended := s.caller.notified_ended ▸ hs.ended
      empty := fun bytes hc => absurd hc (s.caller.notified_ne.1 bytes)
      pending := fun hc => absurd hc s.caller.notified_ne.2
      full := by simp
      exited := by simp
      gone := fun hc => by simpa [hpc] using hs.gone (s.caller.notified_gone hc) }

theorem step_woken (h : Inv crc32 bufferSize queueSize calls s) (hs : Woken bufferSize s) {i : Input}
    (hstep : step crc32 s i = some s') : Woken bufferSize s' := by
  cases i with
  | caller => exact callerStep_woken h hs hstep
  | worker => exact workerStep_woken h hs hstep
  | wakeCaller =>
    simp only [step] at hstep
    split at hstep
    · cases hstep
    · cases hstep
      exact { hs with
        ended := s.caller.notified_ended ▸ hs.ended
        empty := fun bytes hc => absurd hc (s.caller.notified_ne.1 bytes)
        pending := fun hc => absurd hc s.caller.notified_ne.2
        full := fun hw => by
          rcases hs.full hw with hfull | hc | hc
          · exact .inl hfull
          · exact .inr (.inl (by simp only [hc, Caller.notified]))
          · exact .inr (.inr (by simp only [hc, Caller.notified]))
        gone := fun hc => hs.gone (s.caller.notified_gone hc) }
  | wakeWorker =>
    simp only [step] at hstep
    split at hstep
    · cases hstep
    · cases hstep
      exact { hs with
        empty := fun bytes hc => (hs.empty bytes hc).imp_right fun hw => by simp only [hw, Worker.notified]
        pending := fun hc => (hs.pending hc).imp_right fun hw => by simp only [hw, Worker.notified]
        full := fun hw => absurd hw s.worker.notified_ne
        exited := fun hw => hs.exited (s.worker.notified_exited hw)
        gone := fun hc => by simp only [hs.gone hc, Worker.notified] }

/-- A thread that is not asleep takes its step. -/
theorem Inv.worker_enabled (h : Inv crc32 bufferSize queueSize calls s) (hne : s.worker ≠ .asleep)
    (hexit : s.worker ≠ .exited) : (workerStep crc32 s).isSome = true := by
  obtain ⟨buf, hbuf⟩ : ∃ buf, s.queue[s.readIt]? = some buf := by
    rw [h.readAt.2]
    exact ⟨_, List.getElem?_eq_getElem (Nat.mod_lt _ h.pos)⟩
  have hw := h.worker
  unfold State.WorkerOk at hw
  cases hpc : s.worker with
  | waitFull | enter => simp [workerStep, hpc, hbuf]
  | asleep => exact absurd hpc hne
  | update len bytes =>
    rw [hpc] at hw
    obtain ⟨⟨chunk, hchunk, hlen, hread⟩, -⟩ := hw
    simp only [workerStep, hpc]
    split
    · rename_i hlt
      obtain ⟨buf', hbuf', hfull⟩ := h.read_full (by rw [hpc]; rfl) hchunk
      have hbound : bytes.length < buf'.data.length := by
        have := congrArg List.length hfull.data
        rw [List.length_take] at this
        omega
      rw [hbuf', Option.bind_some, List.getElem?_eq_getElem hbound]
      rfl
    · rfl
  | setEmpty bytes =>
    rw [hpc] at hw
    have hlt := (List.getElem?_eq_some_iff.mp hw.1).1
    have hpending := h.pending
    have hfits := h.ring.fits
    have hassert : (s.pending - 1).toNat ≤ s.queue.length := by
      rw [toNat_pred (by omega)]
      omega
    simp [workerStep, hpc, hbuf, hassert]
  | notifyWrite | nextRead => simp [workerStep, hpc]
  | exited => exact absurd hpc hexit

theorem Inv.caller_enabled (h : Inv crc32 bufferSize queueSize calls s) (hs : Woken bufferSize s)
    (hne : ∀ bytes, s.caller ≠ .asleepEmpty bytes) (hne' : s.caller ≠ .asleepPending)
    (hjoin : s.caller ≠ .join) (hgone : s.caller ≠ .gone) : (callerStep s).isSome = true := by
  obtain ⟨buf, hbuf⟩ : ∃ buf, s.queue[s.writeIt]? = some buf := by
    rw [h.writeAt.2]
    exact ⟨_, List.getElem?_eq_getElem (Nat.mod_lt _ h.pos)⟩
  cases hpc : s.caller with
  | ready =>
    simp only [callerStep, hpc]
    split
    · rename_i bytes rest hcalls
      have hassert : bytes.length ≤ buf.data.length := by
        rw [h.write_size (by rw [hpc]; rfl) hbuf]
        exact hs.fits bytes (by rw [hcalls]; exact List.mem_cons_self)
      rw [hbuf, Option.bind_some, if_pos hassert]
      rfl
    · rfl
    · rfl
  | copy bytes i =>
    simp only [callerStep, hpc]
    split
    · rw [hbuf]
      rfl
    · rfl
  | waitEmpty _ | setLen _ | setFull _ =>
    simp [callerStep, hpc, hbuf]
  | notifyRead | nextWrite | waitPending | readChecksum | setFinished | notifyFinished =>
    simp [callerStep, hpc]
  | asleepEmpty bytes => exact absurd hpc (hne bytes)
  | asleepPending => exact absurd hpc hne'
  | join => exact absurd hpc hjoin
  | gone => exact absurd hpc hgone

/-- One of the threads can always go on by itself, until the last call has returned. -/
theorem progress (h : Inv crc32 bufferSize queueSize calls s) (hs : Woken bufferSize s) (hgone : s.caller ≠ .gone) :
    (callerStep s).isSome = true ∨ (workerStep crc32 s).isSome = true := by
  have hpos := h.pos
  cases hpc : s.caller with
  | asleepEmpty bytes =>
    refine .inr (h.worker_enabled (fun hw => ?_) fun hw => ?_)
    · have hfull := (hs.empty bytes hpc).resolve_right (by simp [hw])
      have := hs.full hw
      simp only [hpc, reduceCtorEq, or_false] at this
      omega
    · have := hs.ended.mp (hs.exited hw).2
      simp [hpc] at this
  | asleepPending =>
    refine .inr (h.worker_enabled (fun hw => ?_) fun hw => ?_)
    · have hlt := (hs.pending hpc).resolve_right (by simp [hw])
      have := hs.full hw
      simp only [hpc, reduceCtorEq, or_false] at this
      omega
    · have := hs.ended.mp (hs.exited hw).2
      simp [hpc] at this
  | join =>
    by_cases hexit : s.worker = .exited
    · exact .inl (by simp [callerStep, hpc, hexit])
    · refine .inr (h.worker_enabled (fun hw => ?_) hexit)
      have hfin : s.finished = true := hs.ended.mpr (.inr (.inl hpc))
      have := hs.full hw
      simp [hpc, hfin] at this
  | gone => exact absurd hpc hgone
  | ready | waitEmpty _ | copy _ _ | setLen _ | setFull _ | notifyRead | nextWrite | waitPending
  | readChecksum | setFinished | notifyFinished =>
    exact .inl (h.caller_enabled hs (by simp [hpc]) (by simp [hpc]) (by simp [hpc]) hgone)

/-- The steps that the worker takes for a chunk, and what goes before and after. -/
def chunkLeft (bytes : List UInt8) : Int := bytes.length + 7

def chunksLeft : List (List UInt8) → Int
  | [] => 0
  | bytes :: chunks => chunkLeft bytes + chunksLeft chunks

def callsLeft : List Call → Int
  | [] => 0
  | .update bytes :: calls => 9 + bytes.length + chunkLeft bytes + callsLeft calls
  | .checksum :: calls => 4 + callsLeft calls

def Caller.left : Caller → Int
  | .ready => 5
  | .waitEmpty bytes => 13 + bytes.length + chunkLeft bytes
  | .asleepEmpty bytes => 12 + bytes.length + chunkLeft bytes
  | .copy bytes i => 11 + (bytes.length - i) + chunkLeft bytes
  | .setLen bytes => 10 + chunkLeft bytes
  | .setFull bytes => 9 + chunkLeft bytes
  | .notifyRead => 8
  | .nextWrite => 6
  | .waitPending => 8
  | .asleepPending => 7
  | .readChecksum => 6
  | .setFinished => 4
  | .notifyFinished => 3
  | .join => 1
  | .gone => 0

/-- Beside what is left for the chunks that were not handed back, the one at hand included. -/
def Worker.left : Worker → Int
  | .waitFull => 1
  | .asleep => 0
  | .enter => 0
  | .update _ bytes => -1 - bytes.length
  | .setEmpty bytes => -2 - bytes.length
  | .notifyWrite => 4
  | .nextRead => 2
  | .exited => 0

/-- The steps that are left, if nobody is woken for no reason. -/
def State.left (s : State) : Int :=
  callsLeft s.calls + s.caller.left + s.worker.left + chunksLeft (s.sent.drop s.eaten.length)

theorem chunksLeft_nonneg (chunks : List (List UInt8)) : 0 ≤ chunksLeft chunks := by
  induction chunks with
  | nil => exact Int.le_refl 0
  | cons bytes chunks ih =>
    simp only [chunksLeft, chunkLeft]
    omega

theorem chunksLeft_concat (chunks : List (List UInt8)) (bytes : List UInt8) :
    chunksLeft (chunks ++ [bytes]) = chunksLeft chunks + chunkLeft bytes := by
  induction chunks with
  | nil => simp [chunksLeft]
  | cons first chunks ih =>
    simp only [List.cons_append, chunksLeft, ih]
    omega

theorem callsLeft_nonneg (calls : List Call) : 0 ≤ callsLeft calls := by
  induction calls with
  | nil => exact Int.le_refl 0
  | cons call calls ih =>
    cases call <;> simp only [callsLeft, chunkLeft] <;> omega

theorem chunksLeft_drop {chunks : List (List UInt8)} {k : Nat} {bytes : List UInt8}
    (h : chunks[k]? = some bytes) :
    chunksLeft (chunks.drop k) = chunkLeft bytes + chunksLeft (chunks.drop (k + 1)) := by
  obtain ⟨hlt, rfl⟩ := List.getElem?_eq_some_iff.mp h
  rw [List.drop_eq_getElem_cons hlt, chunksLeft]

theorem Inv.left_nonneg (h : Inv crc32 bufferSize queueSize calls s) : 0 ≤ s.left := by
  have hcalls := callsLeft_nonneg s.calls
  have hw := h.worker
  have hchunks := chunksLeft_nonneg (s.sent.drop s.eaten.length)
  have hcaller : 0 ≤ s.caller.left := by
    have hc := h.caller
    unfold State.CallerOk at hc
    cases hpc : s.caller with
    | copy bytes i =>
      rw [hpc] at hc
      have := hc.2.2.1
      simp only [Caller.left, chunkLeft]
      omega
    | _ =>
      simp only [Caller.left, chunkLeft]
      omega
  have hworker : 0 ≤ s.worker.left + chunksLeft (s.sent.drop s.eaten.length) := by
    unfold State.WorkerOk at hw
    cases hpc : s.worker with
    | update len bytes =>
      rw [hpc] at hw
      obtain ⟨⟨chunk, hchunk, -, hread⟩, -⟩ := hw
      have hlen := congrArg List.length hread
      rw [List.length_take] at hlen
      have := chunksLeft_nonneg (s.sent.drop (s.eaten.length + 1))
      rw [chunksLeft_drop hchunk]
      simp only [Worker.left, chunkLeft]
      omega
    | setEmpty bytes =>
      rw [hpc] at hw
      have := chunksLeft_nonneg (s.sent.drop (s.eaten.length + 1))
      rw [chunksLeft_drop hw.1]
      simp only [Worker.left, chunkLeft]
      omega
    | _ =>
      simp only [Worker.left]
      omega
  simp only [State.left]
  omega

theorem Worker.notified_left (w : Worker) : w.notified.left ≤ w.left + 1 := by
  cases w <;> simp only [Worker.notified, Worker.left] <;> omega

theorem Caller.notified_left (c : Caller) : c.notified.left ≤ c.left + 1 := by
  cases c <;> simp only [Caller.notified, Caller.left] <;> omega

theorem callerStep_left (h : Inv crc32 bufferSize queueSize calls s) (hstep : callerStep s = some s') :
    s'.left + 1 ≤ s.left := by
  cases callerStep_move hstep with
  | update hpc hcalls | checksum hpc hcalls | finish hpc hcalls =>
    simp only [State.left, hpc, hcalls, Caller.left, callsLeft]
    omega
  | copied hpc hb =>
    have hc := h.caller
    simp only [State.CallerOk, hpc] at hc
    have := List.getElem?_eq_none_iff.mp hb
    have := hc.2.2.1
    simp only [State.left, hpc, Caller.left]
    omega
  | setFull hpc _ =>
    have htaken := h.ring.taken
    simp only [State.left, hpc, Caller.left, List.drop_append_of_le_length htaken, chunksLeft_concat]
    omega
  | notifyRead hpc | notifyFinished hpc =>
    have hwake := s.worker.notified_left
    simp only [State.left, hpc, Caller.left]
    omega
  | found hpc | sleepEmpty hpc | copy hpc | setLen hpc | nextWrite hpc | sleepPending hpc | nonePending hpc
  | readChecksum hpc | setFinished hpc | join hpc =>
    simp only [State.left, hpc, Caller.left]
    omega

theorem workerStep_left (h : Inv crc32 bufferSize queueSize calls s) (hstep : workerStep crc32 s = some s') :
    s'.left + 1 ≤ s.left := by
  cases workerStep_move hstep with
  | byte hpc =>
    simp only [State.left, hpc, Worker.left, List.length_append, List.length_singleton]
    omega
  | setEmpty hpc _ _ =>
    have hw := h.worker
    unfold State.WorkerOk at hw
    rw [hpc] at hw
    simp only [State.left, hpc, Worker.left, chunksLeft_drop hw.1, chunkLeft, List.length_append,
      List.length_singleton]
    omega
  | notifyWrite hpc =>
    have hwake := s.caller.notified_left
    simp only [State.left, hpc, Worker.left]
    omega
  | enter hpc =>
    simp only [State.left, hpc, Worker.left, List.length_nil]
    omega
  | found hpc | exit hpc | sleep hpc | update hpc | nextRead hpc =>
    simp only [State.left, hpc, Worker.left]
    omega

/-- The steps that a thread takes by itself. -/
def Input.own : Input → Bool
  | .caller | .worker => true
  | .wakeCaller | .wakeWorker => false

theorem step_left (h : Inv crc32 bufferSize queueSize calls s) {i : Input} (hstep : step crc32 s i = some s') :
    s'.left + (if i.own then 1 else -1) ≤ s.left := by
  cases i with
  | caller => exact callerStep_left h hstep
  | worker => exact workerStep_left h hstep
  | wakeCaller =>
    have := s.caller.notified_left
    simp only [step] at hstep
    split at hstep
    · cases hstep
    · cases hstep
      simp only [State.left, Input.own, Bool.false_eq_true, if_false]
      omega
  | wakeWorker =>
    have := s.worker.notified_left
    simp only [step] at hstep
    split at hstep
    · cases hstep
    · cases hstep
      simp only [State.left, Input.own, Bool.false_eq_true, if_false]
      omega

end

/-- The thread that calls is writing a buffer. -/
def Caller.writes : Caller → Bool
  | .copy _ _ | .setLen _ | .setFull _ => true
  | _ => false

/-- The worker is reading a buffer. -/
def Worker.reads : Worker → Bool
  | .enter | .update _ _ | .setEmpty _ => true
  | _ => false

/-- What holds at every moment of `calls`, with `queueSize` buffers. -/
structure Exact (crc32 : List UInt8 → UInt32 → UInt32) (queueSize : Nat) (calls : List Call)
    (s : State) : Prop where
  /-- The chunks are handed over in the order of the calls, and handed back in that order. -/
  sent : s.sent <+: updates calls
  eaten : s.eaten <+: s.sent
  /-- What was not handed back is in its buffer as it was given. -/
  kept : ∀ k chunk, s.eaten.length ≤ k → s.sent[k]? = some chunk →
    ∃ buf, s.queue[k % queueSize]? = some buf ∧ buf.empty = false ∧ buf.data.take buf.len = chunk
  /-- A buffer is written only when it was handed back. -/
  written : s.caller.writes = true → ∃ buf, s.queue[s.writeIt]? = some buf ∧ buf.empty = true
  apart : s.caller.writes = true → s.worker.reads = true → s.writeIt ≠ s.readIt
  pending : s.pending.toNat ≤ queueSize
  /-- `Checksum` returns what it would at once. -/
  answers : s.returned <+: checksums crc32 0 calls
  finished : s.caller = .gone → s.eaten = updates calls ∧ s.returned = checksums crc32 0 calls

section

variable {crc32 : List UInt8 → UInt32 → UInt32} {bufferSize : Nat} {queueSize : UInt32} {calls : List Call}
  {s : State}

/-- The buffer that is being written is free. -/
theorem Inv.writing (h : Inv crc32 bufferSize queueSize calls s) (hwrites : s.caller.writes = true) :
    s.caller.behind = 0 ∧ s.sent.length < s.eaten.length + s.queue.length ∧
      ∃ buf, s.queue[s.writeIt]? = some buf ∧ buf.empty = true := by
  have hc := h.caller
  unfold State.CallerOk at hc
  cases hpc : s.caller with
  | copy bytes i | setLen bytes =>
    rw [hpc] at hc
    obtain ⟨-, hroom, -, buf, hbuf, hfree, -⟩ := hc
    exact ⟨rfl, hroom, buf, hbuf, hfree.empty⟩
  | setFull bytes =>
    rw [hpc] at hc
    obtain ⟨hroom, buf, hbuf, -, hempty⟩ := hc
    exact ⟨rfl, hroom, buf, hbuf, hempty⟩
  | _ =>
    rw [hpc] at hwrites
    cases hwrites

/-- The buffer that is being read is the first that was not handed back. -/
theorem Inv.reading (h : Inv crc32 bufferSize queueSize calls s) (hreads : s.worker.reads = true) :
    s.worker.behind = 0 ∧ s.eaten.length < s.sent.length := by
  have hw := h.worker
  unfold State.WorkerOk at hw
  cases hpc : s.worker with
  | enter =>
    rw [hpc] at hw
    exact ⟨rfl, hw.1⟩
  | update len bytes =>
    rw [hpc] at hw
    obtain ⟨⟨chunk, hchunk, -⟩, -⟩ := hw
    exact ⟨rfl, (List.getElem?_eq_some_iff.mp hchunk).1⟩
  | setEmpty bytes =>
    rw [hpc] at hw
    exact ⟨rfl, (List.getElem?_eq_some_iff.mp hw.1).1⟩
  | _ =>
    rw [hpc] at hreads
    cases hreads

theorem Inv.exact (h : Inv crc32 bufferSize queueSize calls s) (hs : Woken bufferSize s) :
    Exact crc32 s.queue.length calls s where
  sent := ⟨_, h.history.symm⟩
  eaten := h.inOrder
  kept k chunk hk hchunk := by
    obtain ⟨buf, hbuf, hfull⟩ := h.ring.filled k chunk hk hchunk
    exact ⟨buf, hbuf, hfull.empty, by rw [hfull.len]; exact hfull.data⟩
  written hwrites := (h.writing hwrites).2.2
  apart hwrites hreads := by
    obtain ⟨hbc, hroom, -⟩ := h.writing hwrites
    obtain ⟨hbw, hlt⟩ := h.reading hreads
    rw [h.write_slot hbc, h.read_slot hbw]
    exact h.ring.slot_ne hroom (Nat.le_refl _) (by omega) (by omega)
  pending := by
    have := h.pending
    have := h.ring.fits
    omega
  answers := ⟨_, h.answers.symm⟩
  finished hgone := by
    have hcalls : s.calls = [] := by
      have hc := h.caller
      rwa [State.CallerOk, hgone] at hc
    have hhist := h.history
    have hans := h.answers
    have hall : s.eaten = s.sent := h.inOrder.eq_of_length (hs.exited (hs.gone hgone)).1.symm
    rw [hgone, hcalls] at hhist hans
    simp only [Caller.current, List.append_nil, updates, checksums] at hhist hans
    exact ⟨by rw [hall, hhist], hans.symm⟩

theorem start_woken
    (hcalls : ∀ bytes, Call.update bytes ∈ calls → bytes.length ≤ bufferSize) :
    Woken bufferSize (start bufferSize queueSize calls) where
  fits := hcalls
  ended := by simp [start]
  empty := by simp [start]
  pending := by simp [start]
  full := by simp [start]
  exited := by simp [start]
  gone := by simp [start]

end

/-- The checksum taken by the worker is the checksum taken at once, whatever the interleaving; and
until the last call has returned one of the threads can go on by itself, which they do only so often. -/
theorem asyncCRC32_exact (crc32 : List UInt8 → UInt32 → UInt32) {bufferSize : Nat} {queueSize : UInt32}
    {calls : List Call} (hqueue : 1 ≤ queueSize)
    (hcalls : ∀ bytes, Call.update bytes ∈ calls → bytes.length ≤ bufferSize) {l : List Input} {s : State}
    (hrun : run (step crc32) (start bufferSize queueSize calls) l = some s) :
    Exact crc32 queueSize.toNat calls s ∧
      (s.caller ≠ .gone → ∃ i s', i.own = true ∧ step crc32 s i = some s') ∧
      l.countP Input.own ≤ callsLeft calls + 6 + l.countP fun i => !i.own := by
  have hsteps := run_countP_le
    (P := fun s => Inv crc32 bufferSize queueSize calls s ∧ Woken bufferSize s) (Φ := State.left)
    (p := Input.own) (fun s i s' hs h =>
      ⟨⟨step_inv s i s' hs.1 h, step_woken hs.1 hs.2 h⟩, step_left hs.1 h⟩)
    l ⟨start_inv hqueue, start_woken hcalls⟩ hrun
  obtain ⟨hinv, hwoken⟩ := run_invariant
    (P := fun s => Inv crc32 bufferSize queueSize calls s ∧ Woken bufferSize s)
    (fun s i s' hs h => ⟨step_inv s i s' hs.1 h, step_woken hs.1 hs.2 h⟩)
    l ⟨start_inv hqueue, start_woken hcalls⟩ hrun
  refine ⟨hinv.length ▸ hinv.exact hwoken, fun hgone => ?_, ?_⟩
  · rcases progress hinv hwoken hgone with h | h
    · obtain ⟨s', h⟩ := Option.isSome_iff_exists.mp h
      exact ⟨.caller, s', rfl, h⟩
    · obtain ⟨s', h⟩ := Option.isSome_iff_exists.mp h
      exact ⟨.worker, s', rfl, h⟩
  · have hnonneg := hinv.left_nonneg
    have hstart : (start bufferSize queueSize calls).left = callsLeft calls + 5 + 1 + 0 := rfl
    omega

/-- An entry of the table of `sliceby8`. -/
def tableEntry : Nat → UInt32 → UInt32
  | 0, c => c
  | k + 1, c => tableEntry k (if c &&& 1 = 1 then (0xEDB88320 : UInt32) ^^^ (c >>> 1) else c >>> 1)

/-- `sliceby8::crc32` byte by byte. -/
def bytewiseCRC32 (bytes : List UInt8) (checksum : UInt32) : UInt32 :=
  ~~~(bytes.foldl (fun c b => tableEntry 8 ((c ^^^ b.toUInt32) &&& 0xFF) ^^^ (c >>> 8)) (~~~checksum))

/-- Two chunks through one buffer, and the thread that calls woken once for no reason. -/
def oneBuffer : List Input :=
  List.replicate 10 .caller ++ [.wakeCaller, .caller] ++ List.replicate 6 .worker ++
    List.replicate 9 .caller ++ List.replicate 7 .worker ++ List.replicate 5 .caller ++
    [.worker, .worker, .caller]

theorem asyncCRC32_exact_one_buffer :
    ∃ s, run (step bytewiseCRC32) (start 1 1 [.update [49], .update [50], .checksum]) oneBuffer = some s ∧
      s.returned = [0x4F5344CD] ∧
      Exact bytewiseCRC32 1 [.update [49], .update [50], .checksum] s := by
  obtain ⟨s, hrun, hret⟩ : ∃ s, run (step bytewiseCRC32)
      (start 1 1 [.update [49], .update [50], .checksum]) oneBuffer = some s ∧ s.returned = [0x4F5344CD] :=
    run_ends (by decide +kernel)
  exact ⟨s, hrun, hret, (asyncCRC32_exact bytewiseCRC32 (by decide) (by simp) hrun).1⟩

end AsyncCRC32
end Util
end Ebftpd
