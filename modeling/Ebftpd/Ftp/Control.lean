import Ebftpd.Lib.Framing
import Ebftpd.Lib.Run
import Ebftpd.Util.String

/-!
# Ebftpd.Ftp.Control

`ControlImpl::NextCommand` (`src/ftp/controlimpl.cpp`) over `TCPSocket::Getline`
(`util/util/net/tcpsocket.cpp`). The call polls the socket and then reads a line through a private
buffer that one `read` fills with whatever the socket holds. Behind the first line the buffer may
hold a second one, and then the poll waits for the socket although a line is there.

The input of a step is what happens next: a segment arrives, the client hangs up, or the call goes
on. One call follows the other. The connection is not encrypted.

* `step_framed`: the lines returned are the frames of what was taken out of the buffer.
* `lines_begin`: however the stream is cut, the lines come in one order, from the first on.
* `nextCommand_framing`: where no `read` returns two line ends, all of them come.
-/

namespace Ebftpd
namespace Ftp
namespace Control

open Util Lib

def trimRightIf (s chars : Str) : Str := (s.reverse.dropWhile chars.contains).reverse

/-- The characters in front that are beyond 240. -/
def stripTelnetChars (commandLine : Str) : Str := commandLine.dropWhile fun c => 240 < c.toNat

/-- What `NextCommand` makes of a line as it was read. -/
def command (line : Str) : Str := stripTelnetChars (trimRightIf (trimRightIf line ['\n']) ['\r'])

inductive Pc where
  | polling
  -- in `Getline`, with the line so far
  | reading (line : Str)
  | timeout
  | endOfStream
  deriving DecidableEq

structure Conn where
  -- everything received so far
  stream : Str
  -- what of it is still in the socket
  received : Str
  hungUp : Bool
  -- `getcharBuffer`, as far as it was not read
  buffer : Str
  pc : Pc
  -- what was returned, in order
  lines : List Str

def Conn.init : Conn := ⟨[], [], false, [], .polling, []⟩

/-- `BUFSIZ`. -/
def defaultBufferSize : Nat := 8192

inductive Event where
  | segment (bytes : Str)
  | hangUp
  -- `poll` returns with `POLLIN`, or because the time is up
  | poll
  | timeout
  | getchar
  | read (n : Nat)
  | endOfStream
  deriving DecidableEq

def readable (s : Conn) : Bool := !s.received.isEmpty || s.hungUp

/-- `GetcharBuffered` and the end of the loop it is in. -/
def getchar (s : Conn) (line : Str) (c : Char) (buffer : Str) : Conn :=
  if c = '\n' then
    { s with buffer := buffer, pc := .polling, lines := s.lines ++ [command (line ++ [c])] }
  else { s with buffer := buffer, pc := .reading (line ++ [c]) }

def step (s : Conn) (e : Event) : Option Conn :=
  match e, s.pc with
  | .segment _, .timeout => none
  | .segment _, .endOfStream => none
  | .segment bytes, _ =>
    if s.hungUp then none
    else some { s with stream := s.stream ++ bytes, received := s.received ++ bytes }
  | .hangUp, _ => some { s with hungUp := true }
  | .poll, .polling => if readable s then some { s with pc := .reading [] } else none
  | .timeout, .polling => if readable s then none else some { s with pc := .timeout }
  | .getchar, .reading line =>
    match s.buffer with
    | c :: buffer => some (getchar s line c buffer)
    | [] => none
  | .read n, .reading _ =>
    if s.buffer = [] ∧ 0 < n ∧ n ≤ s.received.length ∧ n ≤ defaultBufferSize then
      some { s with buffer := s.received.take n, received := s.received.drop n }
    else none
  | .endOfStream, .reading _ =>
    if s.buffer = [] ∧ s.received = [] ∧ s.hungUp then some { s with pc := .endOfStream } else none
  | _, _ => none

/-- The call cannot go on by itself. -/
def Blocked (s : Conn) : Prop :=
  step s .poll = none ∧ step s .getchar = none ∧ ∀ n, step s (.read n) = none

/-- The bytes up to a line end, as a command line. -/
def lineOf (frame : Str) : Str := command (frame ++ ['\n'])

/-- What a stream says, line by line. -/
def linesOf (stream : Str) : List Str := (Framing.frames '\n' stream).map lineOf

/-! ## What was read -/

/-- What was taken out of the buffer so far ends in the line that is being read. -/
def Pc.line : Pc → Str
  | .reading line => line
  | _ => []

structure Framed (s : Conn) (consumed : Str) : Prop where
  stream : s.stream = consumed ++ (s.buffer ++ s.received)
  lines : s.lines = linesOf consumed
  line : s.pc = .polling ∨ (∃ l, s.pc = .reading l) → Framing.rest '\n' consumed = s.pc.line

theorem init_framed : Framed .init [] := ⟨rfl, rfl, fun _ => rfl⟩

theorem getchar_framed {s : Conn} {consumed line buffer : Str} {c : Char} (hs : Framed s consumed)
    (hpc : s.pc = .reading line) (hbuffer : s.buffer = c :: buffer) :
    Framed (getchar s line c buffer) (consumed ++ [c]) := by
  have hline : Framing.rest '\n' consumed = line := by
    rw [hs.line (.inr ⟨line, hpc⟩), hpc]
    rfl
  have hstream : s.stream = consumed ++ [c] ++ (buffer ++ s.received) := by
    rw [hs.stream, hbuffer]
    simp
  unfold getchar
  by_cases hc : c = '\n'
  · subst hc
    rw [if_pos rfl]
    refine ⟨hstream, ?_, fun _ => Framing.rest_delim consumed⟩
    simp [linesOf, Framing.frames_delim, hs.lines, hline, lineOf]
  · rw [if_neg hc]
    refine ⟨hstream, ?_, fun _ => ?_⟩
    · rw [linesOf, Framing.frames_concat hc]
      exact hs.lines
    · rw [Framing.rest_concat hc, hline]
      rfl

/-- What each step does. -/
inductive Effect (s : Conn) : Event → Conn → Prop
  | segment (bytes : Str) (hpc : s.pc = .polling ∨ ∃ line, s.pc = .reading line) :
    Effect s (.segment bytes) { s with stream := s.stream ++ bytes, received := s.received ++ bytes }
  | hangUp : Effect s .hangUp { s with hungUp := true }
  | poll (hpc : s.pc = .polling) (h : readable s = true) : Effect s .poll { s with pc := .reading [] }
  | timeout (hpc : s.pc = .polling) (h : readable s = false) : Effect s .timeout { s with pc := .timeout }
  | getchar (line : Str) (c : Char) (buffer : Str) (hpc : s.pc = .reading line)
    (hbuffer : s.buffer = c :: buffer) : Effect s .getchar (getchar s line c buffer)
  | read (n : Nat) (line : Str) (hpc : s.pc = .reading line) (hbuffer : s.buffer = []) :
    Effect s (.read n) { s with buffer := s.received.take n, received := s.received.drop n }
  | endOfStream (line : Str) (hpc : s.pc = .reading line) (hbuffer : s.buffer = [])
    (hreceived : s.received = []) : Effect s .endOfStream { s with pc := .endOfStream }

theorem step_effect {s s' : Conn} {e : Event} (h : step s e = some s') : Effect s e s' := by
  cases e with
  | segment bytes =>
    cases hpc : s.pc with
    | timeout => simp [step, hpc] at h
    | endOfStream => simp [step, hpc] at h
    | polling =>
      simp only [step, hpc] at h
      split at h
      · cases h
      · cases h
        rw [← hpc]
        exact .segment bytes (.inl hpc)
    | reading line =>
      simp only [step, hpc] at h
      split at h
      · cases h
      · cases h
        rw [← hpc]
        exact .segment bytes (.inr ⟨line, hpc⟩)
  | hangUp =>
    simp only [step, Option.some.injEq] at h
    exact h ▸ .hangUp
  | poll =>
    cases hpc : s.pc with
    | polling =>
      simp only [step, hpc] at h
      split at h
      · cases h
        exact .poll hpc ‹_›
      · cases h
    | _ => simp [step, hpc] at h
  | timeout =>
    cases hpc : s.pc with
    | polling =>
      simp only [step, hpc] at h
      split at h
      · cases h
      · cases h
        exact .timeout hpc (by simpa using ‹¬readable s = true›)
    | _ => simp [step, hpc] at h
  | getchar =>
    cases hpc : s.pc with
    | reading line =>
      simp only [step, hpc] at h
      split at h
      · cases h
        exact .getchar line _ _ hpc ‹_›
      · cases h
    | _ => simp [step, hpc] at h
  | read n =>
    cases hpc : s.pc with
    | reading line =>
      simp only [step, hpc] at h
      split at h
      · rename_i hread
        cases h
        rw [← hpc]
        exact .read n line hpc hread.1
      · cases h
    | _ => simp [step, hpc] at h
  | endOfStream =>
    cases hpc : s.pc with
    | reading line =>
      simp only [step, hpc] at h
      split at h
      · rename_i hend
        cases h
        exact .endOfStream line hpc hend.1 hend.2.1
      · cases h
    | _ => simp [step, hpc] at h

/-- What was returned is always what was taken out of the buffer, line by line. -/
theorem step_framed {s s' : Conn} {e : Event} {consumed : Str} (hs : Framed s consumed)
    (h : step s e = some s') : ∃ consumed', Framed s' consumed' := by
  cases step_effect h with
  | segment bytes hpc =>
    refine ⟨consumed, ?_, hs.lines, hs.line⟩
    rw [hs.stream]
    simp
  | hangUp => exact ⟨consumed, hs.stream, hs.lines, hs.line⟩
  | poll hpc _ => exact ⟨consumed, hs.stream, hs.lines, fun _ => by rw [hs.line (.inl hpc), hpc]; rfl⟩
  | timeout hpc _ =>
    refine ⟨consumed, hs.stream, hs.lines, ?_⟩
    rintro (hpolling | ⟨l, hreading⟩)
    · cases hpolling
    · cases hreading
  | getchar line c buffer hpc hbuffer => exact ⟨consumed ++ [c], getchar_framed hs hpc hbuffer⟩
  | read n line hpc hbuffer =>
    refine ⟨consumed, ?_, hs.lines, hs.line⟩
    rw [hs.stream, hbuffer]
    simp
  | endOfStream line hpc hbuffer hreceived =>
    refine ⟨consumed, hs.stream, hs.lines, ?_⟩
    rintro (hpolling | ⟨l, hreading⟩)
    · cases hpolling
    · cases hreading

theorem run_framed (events : List Event) {s : Conn} (h : run step .init events = some s) :
    ∃ consumed, Framed s consumed :=
  run_invariant (P := fun s => ∃ consumed, Framed s consumed)
    (fun _ _ _ ⟨_, hs⟩ hstep => step_framed hs hstep) events ⟨[], init_framed⟩ h

/-- Whatever was returned is the beginning of what the stream says. -/
theorem lines_begin (events : List Event) {s : Conn} (h : run step .init events = some s) :
    s.lines <+: linesOf s.stream := by
  obtain ⟨consumed, hs⟩ := run_framed events h
  rw [hs.lines, hs.stream, linesOf, linesOf, Framing.frames_append, List.map_append]
  exact List.prefix_append _ _

/-! ## One line in a read -/

/-- No `read` returns two line ends. -/
def OneLine (s : Conn) (e : Event) : Prop :=
  ∀ n, e = .read n → (s.received.take n).count '\n' ≤ 1

instance (s : Conn) : ∀ e, Decidable (OneLine s e)
  | .read n =>
    decidable_of_iff ((s.received.take n).count '\n' ≤ 1)
      ⟨fun h _ he => by cases he; exact h, fun h => h n rfl⟩
  | .segment _ => .isTrue fun _ he => by cases he
  | .hangUp => .isTrue fun _ he => by cases he
  | .poll => .isTrue fun _ he => by cases he
  | .timeout => .isTrue fun _ he => by cases he
  | .getchar => .isTrue fun _ he => by cases he
  | .endOfStream => .isTrue fun _ he => by cases he

/-- Between two calls no line waits in the private buffer. -/
structure NoneWaiting (s : Conn) : Prop where
  polling : s.pc = .polling → '\n' ∉ s.buffer
  reading : ∀ line, s.pc = .reading line → s.buffer.count '\n' ≤ 1
  ended : s.pc = .timeout ∨ s.pc = .endOfStream → '\n' ∉ s.buffer ∧ s.received = []

theorem not_readable {s : Conn} (h : readable s = false) : s.received = [] := by
  simp only [readable, Bool.or_eq_false_iff, Bool.not_eq_false', List.isEmpty_iff] at h
  exact h.1

theorem step_noneWaiting {s s' : Conn} {e : Event} (hs : NoneWaiting s) (hone : OneLine s e)
    (h : step s e = some s') : NoneWaiting s' := by
  cases step_effect h with
  | segment bytes hpc =>
    refine ⟨hs.polling, hs.reading, ?_⟩
    rintro (hover | hover) <;> rcases hpc with hpc | ⟨line, hpc⟩ <;> simp [hpc] at hover
  | hangUp => exact ⟨hs.polling, hs.reading, hs.ended⟩
  | poll hpc _ =>
    refine ⟨by simp, fun _ _ => ?_, by simp⟩
    have := List.count_eq_zero.mpr (hs.polling hpc)
    show s.buffer.count '\n' ≤ 1
    omega
  | timeout hpc hnot => exact ⟨by simp, by simp, fun _ => ⟨hs.polling hpc, not_readable hnot⟩⟩
  | getchar line c buffer hpc hbuffer =>
    have hcount := hs.reading line hpc
    rw [hbuffer, List.count_cons] at hcount
    unfold getchar
    split
    · rename_i hc
      refine ⟨fun _ => ?_, by simp, by simp⟩
      simp only [hc, beq_self_eq_true, if_true] at hcount
      have hzero : buffer.count '\n' = 0 := by omega
      exact List.count_eq_zero.mp hzero
    · refine ⟨by simp, fun _ _ => ?_, by simp⟩
      show buffer.count '\n' ≤ 1
      omega
  | read n line hpc hbuffer =>
    refine ⟨by simp [hpc], fun _ _ => hone n rfl, ?_⟩
    simp [hpc]
  | endOfStream line hpc hbuffer hreceived =>
    exact ⟨by simp, by simp, fun _ => ⟨by simp [hbuffer], hreceived⟩⟩

/-- A call that cannot go on has returned every line there is. -/
theorem blocked_lines {s : Conn} {consumed : Str} (hs : Framed s consumed) (hwait : NoneWaiting s)
    (hblocked : Blocked s) : s.lines = linesOf s.stream ∧ '\n' ∉ s.buffer ++ s.received := by
  obtain ⟨hpoll, hgetchar, hread⟩ := hblocked
  have hnone : '\n' ∉ s.buffer ++ s.received := by
    cases hpc : s.pc with
    | polling =>
      have hnot : readable s = false := by simpa [step, hpc] using hpoll
      simpa [not_readable hnot] using hwait.polling hpc
    | reading line =>
      have hbuffer : s.buffer = [] := by
        cases hb : s.buffer with
        | nil => rfl
        | cons c buffer => simp [step, hpc, hb] at hgetchar
      have hreceived : s.received = [] := by
        cases hr : s.received with
        | nil => rfl
        | cons c received =>
          have := hread 1
          simp [step, hpc, hbuffer, hr, defaultBufferSize] at this
      simp [hbuffer, hreceived]
    | timeout =>
      have := hwait.ended (.inl hpc)
      simpa [this.2] using this.1
    | endOfStream =>
      have := hwait.ended (.inr hpc)
      simpa [this.2] using this.1
  refine ⟨?_, hnone⟩
  rw [hs.lines, hs.stream, linesOf, linesOf, Framing.frames_append, Framing.feed_open hnone,
    List.append_nil]

/-- Over every way the stream is cut into segments and every interleaving of their arrivals with the
calls, where no `read` returns two line ends: as long as a whole line has been received and not
read, the call goes on and reports neither that the time is up nor the end of the stream; a call
that waits has returned all the lines of the stream, so another run on the same stream that waits has
returned the same. -/
theorem nextCommand_framing (events : List Event) {s : Conn} (hrun : run step .init events = some s)
    (hone : Meets step OneLine .init events) :
    ('\n' ∈ s.buffer ++ s.received →
      ¬Blocked s ∧ step s .timeout = none ∧ step s .endOfStream = none) ∧
    (Blocked s → s.lines = linesOf s.stream) ∧
    ∀ (events' : List Event) (s' : Conn), run step .init events' = some s' →
      Meets step OneLine .init events' → s'.stream = s.stream → Blocked s → Blocked s' →
      s'.lines = s.lines := by
  have hinit : NoneWaiting .init := ⟨fun _ => by simp [Conn.init], by simp [Conn.init], by simp [Conn.init]⟩
  have hlines : ∀ (l : List Event) (t : Conn), run step .init l = some t →
      Meets step OneLine .init l → Blocked t →
      t.lines = linesOf t.stream ∧ '\n' ∉ t.buffer ++ t.received := by
    intro l t ht hm hblocked
    obtain ⟨consumed, hframed⟩ := run_framed l ht
    have hwait := run_invariant_of_meets (P := NoneWaiting) (fun _ _ _ h hc => step_noneWaiting h hc)
      l hinit hm ht
    exact blocked_lines hframed hwait hblocked
  have hwait := run_invariant_of_meets (P := NoneWaiting) (fun _ _ _ h hc => step_noneWaiting h hc)
    events hinit hone hrun
  refine ⟨fun hline => ⟨fun hblocked => (hlines events s hrun hone hblocked).2 hline, ?_, ?_⟩,
    fun hblocked => (hlines events s hrun hone hblocked).1, ?_⟩
  · cases htime : step s .timeout with
    | none => rfl
    | some t =>
      cases step_effect htime with
      | timeout hpc hnot =>
        rw [not_readable hnot, List.append_nil] at hline
        exact absurd hline (hwait.polling hpc)
  · cases hend : step s .endOfStream with
    | none => rfl
    | some t =>
      cases step_effect hend with
      | endOfStream line hpc hbuffer hreceived =>
        rw [hbuffer, hreceived] at hline
        cases hline
  · intro events' s' hrun' hone' hstream hblocked hblocked'
    rw [(hlines events' s' hrun' hone' hblocked').1, (hlines events s hrun hone hblocked).1, hstream]

/-- Two commands, each in a segment of its own. -/
def oneByOne : List Event :=
  [.segment ['A', '\n'], .poll, .read 2, .getchar, .getchar,
    .segment ['B', '\n'], .poll, .read 2, .getchar, .getchar]

/-- The same two commands in one segment. -/
def pipelined : List Event := [.segment ['A', '\n', 'B', '\n'], .poll, .read 4, .getchar, .getchar]

theorem nextCommand_framing_oneByOne :
    ∃ s, run step .init oneByOne = some s ∧ s.lines = linesOf s.stream := by
  refine ⟨_, rfl, ?_⟩
  exact (nextCommand_framing oneByOne rfl (by decide)).2.1 ⟨rfl, rfl, fun _ => rfl⟩

/-- The second call waits, and reports that the time is up, although its line was received; the
segments that hold one line each give both. -/
theorem pipelined_line_waits :
    ∃ s s', run step .init oneByOne = some s ∧ run step .init pipelined = some s' ∧
      s'.stream = s.stream ∧ Blocked s ∧ Blocked s' ∧ s.lines = [['A'], ['B']] ∧ s'.lines = [['A']] ∧
      s'.buffer = ['B', '\n'] ∧ (step s' .timeout).isSome = true :=
  ⟨_, _, rfl, rfl, rfl, ⟨rfl, rfl, fun _ => rfl⟩, ⟨rfl, rfl, fun _ => rfl⟩, rfl, rfl, rfl, rfl⟩

end Control
end Ftp
end Ebftpd
