import Ebftpd.Ftp.Control
import Ebftpd.Ftp.Login

/-!
# Ebftpd.Ftp.Secure

`AUTH` on a control connection: `AUTHCommand::Execute` (`src/cmd/rfc/commands.cpp`),
`ControlImpl::NegotiateTLS` and `NextCommand` (`src/ftp/controlimpl.cpp`), `TCPSocket::HandshakeTLS`,
`Read` and `GetcharBuffered` (`util/util/net/tcpsocket.cpp`) under the loop in `ClientImpl::Handle`.

The handshake does not touch `getcharBuffer`. What one `read` fetched together with the line of `AUTH`,
whoever sent it, is taken behind the handshake for what the client sends over TLS. Each byte carries whether
it came out of the session.

What the session makes of the bytes in the socket is OpenSSL's, so a step says how many it takes and what it
decrypts.

* `spoiled_run`: the lines with plain bytes in them, and those that can still come of the buffer.
* `handshake_iff`: when all lines behind a handshake came through the session.
* `enforced_run`: a user whose connections must be encrypted, where every handshake found the buffer empty.
-/

namespace Ebftpd
namespace Ftp
namespace Secure

open Util Lib Acl

structure Byte where
  char : Char
  -- it came out of `SSL_read`
  secure : Bool
  deriving DecidableEq

def Byte.plain (b : Byte) : Bool := !b.secure

inductive Pc where
  | polling
  -- in `Getline`, with the line so far
  | reading (line : List Byte)
  -- behind `NextCommand`
  | executing (line : List Byte)
  | over
  deriving DecidableEq

structure Conn where
  -- what is in the socket, as it came
  received : Str
  -- `tls`: what its session has decrypted and not handed out
  session : Option Str
  -- `getcharBuffer`, as far as it was not read
  buffer : List Byte
  pc : Pc
  -- what `NextCommand` returned, in order
  lines : List (List Byte)
  connection : Connection

/-- A connection with what was fetched together with the line of a bouncer. -/
def start (received buffer : Str) : Conn where
  received := received
  session := none
  buffer := buffer.map (⟨·, false⟩)
  pc := .polling
  lines := []
  connection := {}

/-! ## Commands -/

/-- `AUTHCommand::Execute`, up to `NegotiateTLS`. -/
def auth (context : Bool) (args : List Str) : Bool :=
  context && (args[0]? == some "SSL".toList || args[0]? == some "TLS".toList)

/-- Whether `ExecuteCommand` comes to `NegotiateTLS`. -/
def negotiates (context : Bool) (c : Client) (commandLine : Str) : Bool :=
  match split commandLine " ".toList true with
  | [] => false
  | arg0 :: args =>
    toUpperCopy arg0 == "AUTH".toList &&
      match lookup "AUTH".toList with
      | none => false
      | some d =>
        d.checkArgs ("AUTH".toList :: args) && (checkState c d.requiredState).1 && auth context args

/-- What one turn of the loop meets behind `NextCommand`. -/
structure Turn where
  -- `TLSServerContext::Get`
  context : Bool
  -- what `SSL_accept` takes out of the socket, if it succeeds
  handshake : Option Nat
  reload : Option (UserID → Option User)
  outside : Outside

/-- `NegotiateTLS`, behind the reply of `AUTH`. -/
def Turn.taken (turn : Turn) (c : Client) (commandLine : Str) : Option Nat :=
  if negotiates turn.context c commandLine && !turn.outside.lost then turn.handshake else none

def Turn.input (turn : Turn) (isTLS : Bool) (commandLine : Str) : Input where
  line := commandLine
  reload := turn.reload
  outside := { turn.outside with effects := { turn.outside.effects with isTLS := isTLS } }

/-- `NextCommand` makes a command line of what was read. -/
def commandLine (line : List Byte) : Str := Control.command (line.map Byte.char)

inductive Event where
  | segment (bytes : Str)
  -- `poll` returns with `POLLIN`
  | poll
  | getchar
  -- `read`
  | read (n : Nat)
  -- `SSL_read` takes bytes out of the socket
  | decrypt (n : Nat) (chars : Str)
  -- `SSL_read` returns
  | readTLS (n : Nat)
  | execute (turn : Turn)
  -- what ends the session otherwise: the time is up, the end of the stream, an error
  | fail

def getchar (s : Conn) (line : List Byte) (b : Byte) (buffer : List Byte) : Conn :=
  if b.char = '\n' then
    { s with buffer := buffer, pc := .executing (line ++ [b]), lines := s.lines ++ [line ++ [b]] }
  else { s with buffer := buffer, pc := .reading (line ++ [b]) }

variable (hashPassword : Str → Str → Str) (peer : Peer)

/-- `ExecuteCommand`. A handshake that fails throws. -/
def execute (s : Conn) (line : List Byte) (turn : Turn) : Option Conn :=
  let c := s.connection.client
  let taken := turn.taken c (commandLine line)
  match handle hashPassword peer s.connection (turn.input taken.isSome (commandLine line)) with
  | none => none
  | some connection =>
    if connection.client.state = .Finished ∨
        negotiates turn.context c (commandLine line) = true ∧ taken = none then
      some { s with pc := .over, connection := connection }
    else
      match taken with
      | none => some { s with pc := .polling, connection := connection }
      | some n =>
        -- `tls.reset`, with an earlier session if there was one
        some { s with
          received := s.received.drop n
          session := some []
          pc := .polling
          connection := connection }

def step (s : Conn) (e : Event) : Option Conn :=
  match e, s.pc with
  | .segment _, .over => none
  | .segment bytes, _ => some { s with received := s.received ++ bytes }
  | .poll, .polling => if s.received = [] then none else some { s with pc := .reading [] }
  | .getchar, .reading line =>
    match s.buffer with
    | b :: buffer => some (getchar s line b buffer)
    | [] => none
  | .read n, .reading _ =>
    if s.session = none ∧ s.buffer = [] ∧ 0 < n ∧ n ≤ s.received.length ∧ n ≤ Control.defaultBufferSize then
      some { s with
        received := s.received.drop n
        buffer := (s.received.take n).map (⟨·, false⟩) }
    else none
  | .decrypt n chars, .reading _ =>
    if s.session = some [] ∧ s.buffer = [] ∧ 0 < n ∧ n ≤ s.received.length then
      some { s with received := s.received.drop n, session := some chars }
    else none
  | .readTLS n, .reading _ =>
    match s.session with
    | none => none
    | some pending =>
      if s.buffer = [] ∧ 0 < n ∧ n ≤ pending.length ∧ n ≤ Control.defaultBufferSize then
        some { s with
          session := some (pending.drop n)
          buffer := (pending.take n).map (⟨·, true⟩) }
      else none
  | .execute turn, .executing line => execute hashPassword peer s line turn
  | .fail, .over => none
  | .fail, _ => some { s with pc := .over }
  | _, _ => none

/-! ## What a command does to `isTLS` -/

/-- `TLSControl` applies to the user. -/
def Enforced (o : Outside) (user : User) : Prop :=
  (o.cfg.tlsControl.evaluate (user.aclInfo o.gidToName)).1 = true

/-- An accepted `USER` of a user whose connections must be encrypted. -/
def LoginEvent.Enforced : LoginEvent → Prop
  | .accepted _ o user => Secure.Enforced o user
  | _ => False

structure TLSEffect (o : Outside) (c : Client) (r : Outcome) : Prop where
  isTLS : r.client.isTLS = c.isTLS ∨ r.client.isTLS = (c.isTLS || o.effects.isTLS)
  enforced : ∀ e, r.event = some e → LoginEvent.Enforced e → c.isTLS = true

variable {hashPassword : Str → Str → Str} {peer : Peer} {o : Outside} {c : Client} {r : Outcome}

theorem TLSEffect.quiet (hevent : r.event = none) (hisTLS : r.client.isTLS = c.isTLS) : TLSEffect o c r := by
  refine ⟨.inl hisTLS, fun e he => ?_⟩
  rw [hevent] at he
  cases he

theorem user_tls (o : Outside) (c : Client) (argStr : Str) : TLSEffect o c (user o c argStr) := by
  unfold user
  simp only
  split
  · exact .quiet rfl rfl
  · exact .quiet rfl rfl
  · split
    · exact .quiet rfl rfl
    · split
      · exact .quiet rfl rfl
      · rename_i hcontrol
        refine ⟨.inl rfl, fun e he henforced => ?_⟩
        cases he
        have henforced : (o.cfg.tlsControl.evaluate _).1 = true := henforced
        simpa [henforced] using hcontrol

theorem passVerified_isTLS (peer : Peer) (o : Outside) (c : Client) (u : User) :
    (passVerified peer o c u).1.isTLS = c.isTLS := by
  unfold passVerified
  simp only
  repeat' split
  all_goals rfl

theorem pass_tls (o : Outside) (c : Client) (argStr : Str) :
    TLSEffect o c (pass hashPassword peer o c argStr) := by
  unfold pass
  simp only
  generalize (if (argStr.head? == some '-') = true then argStr.drop 1 else argStr) = password
  split
  · exact .quiet rfl rfl
  · split
    · exact .quiet rfl rfl
    · split
      · refine ⟨.inl (passVerified_isTLS ..), fun e he henforced => ?_⟩
        cases he
        cases henforced
      · split <;>
        · refine ⟨.inl rfl, fun e he henforced => ?_⟩
          cases he
          cases henforced

theorem other_tls (o : Outside) (c : Client) : TLSEffect o c (other o c) := by
  unfold other
  simp only
  split
  · split <;> exact ⟨.inr rfl, fun _ he => nomatch he⟩
  · exact ⟨.inr rfl, fun _ he => nomatch he⟩

theorem executeCommand_tls (hashPassword : Str → Str → Str) (peer : Peer) (o : Outside) (c : Client)
    (line : Str) : TLSEffect o c (executeCommand hashPassword peer o c line) := by
  unfold executeCommand
  simp only
  split
  · exact .quiet rfl rfl
  · split
    · exact .quiet rfl rfl
    · split
      · exact .quiet rfl rfl
      · split
        · exact .quiet rfl rfl
        · split
          · exact .quiet rfl rfl
          · split
            · exact .quiet rfl rfl
            · split
              · exact .quiet rfl rfl
              · unfold Ftp.execute
                split
                · exact user_tls o c _
                · split
                  · exact pass_tls o c _
                  · split
                    · exact .quiet rfl rfl
                    · exact other_tls o c

/-- `AUTH` comes to `NegotiateTLS` for a logged out client, and does no more. -/
theorem executeCommand_negotiates (hashPassword : Str → Str → Str) (peer : Peer) (o : Outside) {context : Bool}
    {line : Str} (h : negotiates context c line = true) : c.state = .LoggedOut ∧
      executeCommand hashPassword peer o c line = replied { c with isTLS := c.isTLS || o.effects.isTLS } none := by
  have hauth : lookup "AUTH".toList = some ⟨1, 1, .LoggedOut, true, "SITE AUTH TLS|SSL"⟩ := by decide
  unfold negotiates at h
  split at h
  · cases h
  rename_i arg0 args hsplit
  simp only [hauth, Bool.and_eq_true, beq_iff_eq] at h
  obtain ⟨hname, ⟨hargs, hcheck⟩, -⟩ := h
  have hstate : c.state = .LoggedOut :=
    checkState_eq (Prod.ext hcheck rfl) (by decide) (by decide)
  have hline : line.isEmpty = false := by
    cases line with
    | nil => cases hsplit; cases hname
    | cons ch line => rfl
  refine ⟨hstate, ?_⟩
  unfold executeCommand
  have hcheck : checkState c .LoggedOut = (true, none) := by simp [checkState, hstate]
  simp only [hline, hsplit, hname, hauth, hargs, hcheck, Ftp.execute, other, hstate]
  rfl

/-- One turn of the loop. -/
theorem handle_tls {v v' : Connection} {input : Input} (h : handle hashPassword peer v input = some v') :
    (v'.client.isTLS = v.client.isTLS ∨
      v'.client.isTLS = (v.client.isTLS || input.outside.effects.isTLS)) ∧
    ∀ e ∈ v'.log, LoginEvent.Enforced e → e ∈ v.log ∨ v.client.isTLS = true := by
  unfold handle at h
  split at h
  · cases h
  split at h
  · cases h
    exact ⟨.inl rfl, fun e he _ => .inl he⟩
  rename_i c hreload
  cases h
  have hsame : c.isTLS = v.client.isTLS := by
    obtain rfl | ⟨-, loadUID, hload⟩ := reloaded_eq hreload
    · rfl
    · obtain ⟨_, _, _, _, _, rfl⟩ := reloadUser_eq hload
      rfl
  have heffect := executeCommand_tls hashPassword peer input.outside c input.line
  rw [← hsame]
  constructor
  · unfold Outcome.clientAfter
    split
    · exact heffect.isTLS
    · exact heffect.isTLS
  · intro e he henforced
    obtain hnew | hold := List.mem_append.mp he
    · exact .inr (heffect.enforced e (Option.mem_toList.mp hnew) henforced)
    · exact .inl hold

/-- `AUTH`, where its reply is written. -/
theorem handle_negotiates {v v' : Connection} {input : Input} {context : Bool}
    (h : handle hashPassword peer v input = some v') (hlost : input.outside.lost = false)
    (hauth : negotiates context v.client input.line = true) :
    v' = ⟨{ v.client with isTLS := v.client.isTLS || input.outside.effects.isTLS }, v.log⟩ ∧
      v.client.state = .LoggedOut := by
  obtain ⟨hstate, hcommand⟩ :=
    executeCommand_negotiates hashPassword peer input.outside hauth
  have hreload : reloaded v.client input.reload = some v.client := by
    unfold reloaded
    split
    · rfl
    · rw [if_neg (by rw [hstate]; decide)]
  refine ⟨?_, hstate⟩
  rw [handle, if_neg (by rw [hstate]; decide), hreload] at h
  simp only [hcommand, Outcome.clientAfter, hlost] at h
  exact (Option.some.inj h).symm

/-! ## Steps -/

/-- What each step does. -/
inductive Effect (hashPassword : Str → Str → Str) (peer : Peer) (s : Conn) : Event → Conn → Prop
  | segment (bytes : Str) (hpc : s.pc ≠ .over) :
    Effect hashPassword peer s (.segment bytes) { s with received := s.received ++ bytes }
  | poll (hpc : s.pc = .polling) : Effect hashPassword peer s .poll { s with pc := .reading [] }
  | getchar (line : List Byte) (b : Byte) (buffer : List Byte) (hpc : s.pc = .reading line)
    (hbuffer : s.buffer = b :: buffer) : Effect hashPassword peer s .getchar (getchar s line b buffer)
  | read (n : Nat) (hsession : s.session = none) (hbuffer : s.buffer = []) :
    Effect hashPassword peer s (.read n)
      { s with received := s.received.drop n, buffer := (s.received.take n).map (⟨·, false⟩) }
  | decrypt (n : Nat) (chars : Str) (hsession : s.session = some []) :
    Effect hashPassword peer s (.decrypt n chars)
      { s with received := s.received.drop n, session := some chars }
  | readTLS (n : Nat) (pending : Str) (hsession : s.session = some pending) (hbuffer : s.buffer = []) :
    Effect hashPassword peer s (.readTLS n)
      { s with session := some (pending.drop n), buffer := (pending.take n).map (⟨·, true⟩) }
  | execute (turn : Turn) (line : List Byte) (pc : Pc) (connection : Connection) (hpc : s.pc = .executing line)
    (hover : pc = .polling ∨ pc = .over) (htaken : turn.taken s.connection.client (commandLine line) = none)
    (hhandle : handle hashPassword peer s.connection (turn.input false (commandLine line)) = some connection) :
    Effect hashPassword peer s (.execute turn) { s with pc := pc, connection := connection }
  | handshake (turn : Turn) (line : List Byte) (n : Nat) (connection : Connection)
    (hpc : s.pc = .executing line) (htaken : turn.taken s.connection.client (commandLine line) = some n)
    (hconnection : connection =
      { s.connection with client := { s.connection.client with isTLS := true } }) :
    Effect hashPassword peer s (.execute turn)
      { s with
        received := s.received.drop n
        session := some []
        pc := .polling
        connection := connection }
  | fail : Effect hashPassword peer s .fail { s with pc := .over }

variable {s s' : Conn} {e : Event} {line : List Byte} {turn : Turn}

theorem taken_some {n : Nat} {commandLine : Str} (h : turn.taken c commandLine = some n) :
    negotiates turn.context c commandLine = true ∧ turn.outside.lost = false := by
  unfold Turn.taken at h
  split at h
  · rename_i hauth
    simpa using hauth
  · cases h

theorem execute_effect (hpc : s.pc = .executing line) (h : execute hashPassword peer s line turn = some s') :
    Effect hashPassword peer s (.execute turn) s' := by
  simp only [execute] at h
  cases htaken : turn.taken s.connection.client (commandLine line) with
  | none =>
    simp only [htaken, Option.isSome_none] at h
    split at h
    · cases h
    · rename_i connection hhandle
      split at h
      · cases h
        exact .execute turn line .over connection hpc (.inr rfl) htaken hhandle
      · cases h
        exact .execute turn line .polling connection hpc (.inl rfl) htaken hhandle
  | some n =>
    obtain ⟨hauth, hlost⟩ := taken_some htaken
    simp only [htaken, Option.isSome_some] at h
    split at h
    · cases h
    · rename_i connection hhandle
      obtain ⟨hconnection, hstate⟩ := handle_negotiates hhandle hlost hauth
      have hconnection : connection =
          { s.connection with client := { s.connection.client with isTLS := true } } := by
        rw [hconnection]
        simp [Turn.input]
      have hfinished : connection.client.state ≠ .Finished := by
        rw [hconnection]
        intro hfinished
        have hfinished : s.connection.client.state = .Finished := hfinished
        rw [hstate] at hfinished
        cases hfinished
      rw [if_neg (by simp [hfinished])] at h
      cases h
      exact .handshake turn line n connection hpc htaken hconnection

theorem step_effect (h : step hashPassword peer s e = some s') : Effect hashPassword peer s e s' := by
  cases e with
  | segment bytes =>
    have hpc : s.pc ≠ .over := by
      intro hpc
      simp [step, hpc] at h
    have hs' : s' = { s with received := s.received ++ bytes } := by
      revert hpc
      cases hs : s.pc with
      | polling | reading line | executing line =>
        intro _
        simp only [step, hs, Option.some.injEq] at h
        exact h.symm
      | _ => exact fun hpc => absurd rfl hpc
    subst hs'
    exact .segment bytes hpc
  | poll =>
    cases hpc : s.pc with
    | polling =>
      simp only [step, hpc] at h
      split at h
      · cases h
      · cases h
        exact .poll hpc
    | _ => simp [step, hpc] at h
  | getchar =>
    cases hpc : s.pc with
    | reading line =>
      simp only [step, hpc] at h
      split at h
      · cases h
        exact .getchar line _ _ hpc ‹_›
      · cases h
    | _ => simp [step, hpc] at h
  | read n =>
    cases hpc : s.pc with
    | reading line =>
      simp only [step, hpc] at h
      split at h
      · rename_i hread
        cases h
        rw [← hpc]
        exact .read n hread.1 hread.2.1
      · cases h
    | _ => simp [step, hpc] at h
  | decrypt n chars =>
    cases hpc : s.pc with
    | reading line =>
      simp only [step, hpc] at h
      split at h
      · rename_i hdecrypt
        cases h
        rw [← hpc]
        exact .decrypt n chars hdecrypt.1
      · cases h
    | _ => simp [step, hpc] at h
  | readTLS n =>
    cases hpc : s.pc with
    | reading line =>
      simp only [step, hpc] at h
      split at h
      · cases h
      · rename_i pending hsession
        split at h
        · rename_i hread
          cases h
          rw [← hpc]
          exact .readTLS n pending hsession hread.1
        · cases h
    | _ => simp [step, hpc] at h
  | execute turn =>
    cases hpc : s.pc with
    | executing line =>
      simp only [step, hpc] at h
      exact execute_effect hpc h
    | _ => simp [step, hpc] at h
  | fail =>
    have hs' : s' = { s with pc := .over } := by
      cases hs : s.pc with
      | polling | reading line | executing line =>
        simp only [step, hs, Option.some.injEq] at h
        exact h.symm
      | _ => simp [step, hs] at h
    subst hs'
    exact .fail

/-! ## Plain bytes -/

/-- All of it came through the session. -/
def Through (bytes : List Byte) : Prop := ∀ b ∈ bytes, b.secure = true

instance (bytes : List Byte) : Decidable (Through bytes) :=
  inferInstanceAs (Decidable (∀ b ∈ bytes, b.secure = true))

/-- Some of it did not. -/
def spoils (bytes : List Byte) : Bool := bytes.any Byte.plain

theorem spoils_false {bytes : List Byte} : spoils bytes = false ↔ Through bytes := by
  simp [spoils, Through, Byte.plain]

theorem spoils_append (bytes bytes' : List Byte) : spoils (bytes ++ bytes') = (spoils bytes || spoils bytes') :=
  List.any_append

def Pc.bytes : Pc → List Byte
  | .reading line => line
  | _ => []

/-- The line ends in the buffer that did not come through the session. -/
def plainEnds (bytes : List Byte) : Nat := bytes.countP fun b => b.plain && b.char == '\n'

theorem plainEnds_of_through {bytes : List Byte} (h : Through bytes) : plainEnds bytes = 0 := by
  rw [plainEnds, List.countP_eq_zero]
  intro b hb
  simp [Byte.plain, h b hb]

/-- How many lines there are with plain bytes, and how many may still come of what was read. -/
def spoiled (s : Conn) : Nat :=
  s.lines.countP spoils + plainEnds s.buffer + (spoils (s.pc.bytes ++ s.buffer)).toNat

/-- One `read` or `SSL_read` fills the buffer. -/
def Uniform (bytes : List Byte) : Prop := Through bytes ∨ ∀ b ∈ bytes, b.secure = false

theorem Uniform.tail {b : Byte} {bytes : List Byte} (h : Uniform (b :: bytes)) : Uniform bytes :=
  h.imp (fun h b hb => h b (.tail _ hb)) (fun h b hb => h b (.tail _ hb))

theorem Uniform.map (secure : Bool) (chars : Str) : Uniform (chars.map (⟨·, secure⟩)) := by
  cases secure with
  | true => exact .inl fun b hb => by obtain ⟨_, -, rfl⟩ := List.mem_map.mp hb; rfl
  | false => exact .inr fun b hb => by obtain ⟨_, -, rfl⟩ := List.mem_map.mp hb; rfl

/-- How a connection stands. -/
structure Consistent (s : Conn) : Prop where
  isTLS : s.connection.client.isTLS = s.session.isSome
  uniform : Uniform s.buffer
  enforced : ∀ e ∈ s.connection.log, LoginEvent.Enforced e → s.session.isSome = true

theorem start_consistent (received buffer : Str) : Consistent (start received buffer) where
  isTLS := rfl
  uniform := .map false buffer
  enforced := fun _ he => nomatch he

theorem step_consistent (hs : Consistent s) (h : step hashPassword peer s e = some s') : Consistent s' := by
  cases step_effect h with
  | segment bytes _ => exact ⟨hs.isTLS, hs.uniform, hs.enforced⟩
  | poll _ => exact ⟨hs.isTLS, hs.uniform, hs.enforced⟩
  | getchar line b buffer _ hbuffer =>
    have huniform : Uniform buffer := (hbuffer ▸ hs.uniform).tail
    unfold getchar
    split
    · exact ⟨hs.isTLS, huniform, hs.enforced⟩
    · exact ⟨hs.isTLS, huniform, hs.enforced⟩
  | read n _ _ => exact ⟨hs.isTLS, .map false _, hs.enforced⟩
  | decrypt n chars hsession =>
    have hisSome : s.session.isSome = true := by rw [hsession]; rfl
    exact ⟨hs.isTLS.trans hisSome, hs.uniform, fun _ _ _ => rfl⟩
  | readTLS n pending hsession _ =>
    have hisSome : s.session.isSome = true := by rw [hsession]; rfl
    exact ⟨hs.isTLS.trans hisSome, .map true _, fun _ _ _ => rfl⟩
  | execute turn line pc connection _ _ _ hhandle =>
    obtain ⟨hisTLS, hlog⟩ := handle_tls hhandle
    have hsame : connection.client.isTLS = s.connection.client.isTLS := by
      simpa [Turn.input] using hisTLS
    refine ⟨hsame.trans hs.isTLS, hs.uniform, fun e he henforced => ?_⟩
    obtain hold | hnow := hlog e he henforced
    · exact hs.enforced e hold henforced
    · exact hs.isTLS.symm.trans hnow
  | handshake turn line n connection _ _ hconnection =>
    refine ⟨?_, hs.uniform, fun _ _ _ => rfl⟩
    rw [hconnection]
    rfl
  | fail => exact ⟨hs.isTLS, hs.uniform, hs.enforced⟩

theorem run_consistent {received buffer : Str} (l : List Event)
    (hrun : run (step hashPassword peer) (start received buffer) l = some s) : Consistent s :=
  run_invariant (fun _ _ _ hs h => step_consistent hs h) l (start_consistent received buffer) hrun

/-! ## Behind a handshake -/

/-- There is a session, and no more than `k` lines have plain bytes or will have. -/
structure Bounded (k : Nat) (s : Conn) : Prop where
  session : s.session.isSome = true
  uniform : Uniform s.buffer
  spoiled : spoiled s ≤ k

theorem getchar_spoiled {b : Byte} {buffer : List Byte} (hpc : s.pc = .reading line)
    (hbuffer : s.buffer = b :: buffer) (huniform : Uniform s.buffer) :
    spoiled (getchar s line b buffer) ≤ spoiled s := by
  have hline : s.pc.bytes = line := by rw [hpc]; rfl
  have hends : plainEnds s.buffer = (b.plain && b.char == '\n').toNat + plainEnds buffer := by
    rw [hbuffer, plainEnds, List.countP_cons, plainEnds]
    cases b.plain && b.char == '\n' <;> simp [Nat.add_comm]
  have hflag : spoils (s.pc.bytes ++ s.buffer) = (spoils (line ++ [b]) || spoils buffer) := by
    rw [hline, hbuffer, ← spoils_append, List.append_assoc]
    rfl
  have hbefore : spoiled s = s.lines.countP spoils + ((b.plain && b.char == '\n').toNat + plainEnds buffer) +
      (spoils (line ++ [b]) || spoils buffer).toNat := by
    rw [spoiled, hends, hflag]
  rw [hbefore]
  unfold getchar
  split
  · rename_i hend
    have hlines : (s.lines ++ [line ++ [b]]).countP spoils =
        s.lines.countP spoils + (spoils (line ++ [b])).toNat := by
      rw [List.countP_append]
      cases hspoils : spoils (line ++ [b]) <;> simp [hspoils]
    simp only [spoiled, Pc.bytes, List.nil_append, hlines, hend, beq_self_eq_true, Bool.and_true]
    cases hplain : b.plain with
    | true =>
      have hspoils : spoils (line ++ [b]) = true := by simp [spoils, hplain]
      have hle := Bool.toNat_le (spoils buffer)
      simp only [hspoils, Bool.true_or, Bool.toNat_true]
      omega
    | false =>
      -- the rest of the buffer is from the same `SSL_read`
      have hthrough : spoils buffer = false := by
        rw [spoils_false]
        obtain hthrough | hplains := huniform
        · exact fun b' hb' => hthrough b' (by rw [hbuffer]; exact .tail _ hb')
        · have hb := hplains b (by rw [hbuffer]; exact .head _)
          simp [Byte.plain, hb] at hplain
      simp only [hthrough, Bool.or_false, Bool.toNat_false]
      omega
  · simp only [spoiled, Pc.bytes, spoils_append]
    omega

theorem step_bounded {k : Nat} (hs : Bounded k s) (h : step hashPassword peer s e = some s') : Bounded k s' := by
  cases step_effect h with
  | segment bytes _ => exact ⟨hs.session, hs.uniform, hs.spoiled⟩
  | poll hpc =>
    refine ⟨hs.session, hs.uniform, ?_⟩
    have hline : s.pc.bytes = [] := by rw [hpc]; rfl
    have hspoiled := hs.spoiled
    rw [spoiled, hline] at hspoiled
    exact hspoiled
  | getchar line b buffer hpc hbuffer =>
    have hspoiled := Nat.le_trans (getchar_spoiled hpc hbuffer hs.uniform) hs.spoiled
    have huniform : Uniform buffer := (hbuffer ▸ hs.uniform).tail
    refine ⟨?_, ?_, hspoiled⟩
    · unfold getchar
      split <;> exact hs.session
    · unfold getchar
      split <;> exact huniform
  | read n hsession _ =>
    have hsome := hs.session
    rw [hsession] at hsome
    cases hsome
  | decrypt n chars _ => exact ⟨rfl, hs.uniform, hs.spoiled⟩
  | readTLS n pending _ hbuffer =>
    refine ⟨rfl, .map true _, ?_⟩
    have hthrough : Through ((pending.take n).map (⟨·, true⟩)) := by
      intro b hb
      obtain ⟨_, -, rfl⟩ := List.mem_map.mp hb
      rfl
    have hspoiled := hs.spoiled
    simp only [spoiled, hbuffer, spoils_append] at hspoiled
    simp only [spoiled, spoils_append, plainEnds_of_through hthrough, spoils_false.mpr hthrough, Bool.or_false]
    simp only [plainEnds, List.countP_nil, spoils, List.any_nil, Bool.or_false] at hspoiled
    exact hspoiled
  | execute turn line pc connection hpc hover _ _ =>
    refine ⟨hs.session, hs.uniform, ?_⟩
    have hline : s.pc.bytes = [] := by rw [hpc]; rfl
    have hline' : pc.bytes = [] := by rcases hover with rfl | rfl <;> rfl
    have hspoiled := hs.spoiled
    rw [spoiled, hline] at hspoiled
    rw [spoiled, hline']
    exact hspoiled
  | handshake turn line n connection hpc _ _ =>
    refine ⟨rfl, hs.uniform, ?_⟩
    have hline : s.pc.bytes = [] := by rw [hpc]; rfl
    have hspoiled := hs.spoiled
    rw [spoiled, hline] at hspoiled
    exact hspoiled
  | fail =>
    refine ⟨hs.session, hs.uniform, Nat.le_trans ?_ hs.spoiled⟩
    simp only [spoiled, spoils_append, Pc.bytes]
    cases spoils s.pc.bytes <;> cases spoils s.buffer <;> simp [spoils]

/-- Where there is a session, the lines with plain bytes are bounded by those there are and by what is
left of them in the buffer. -/
theorem spoiled_run (l : List Event) (hsession : s.session.isSome = true) (huniform : Uniform s.buffer)
    (hrun : run (step hashPassword peer) s l = some s') : s'.lines.countP spoils ≤ spoiled s := by
  have hs : Bounded (spoiled s) s := ⟨hsession, huniform, Nat.le_refl _⟩
  have hs' := run_invariant (fun _ _ _ hs h => step_bounded hs h) l hs hrun
  have hle : s'.lines.countP spoils ≤ spoiled s' := by
    rw [spoiled]
    omega
  exact Nat.le_trans hle hs'.spoiled

theorem step_lines (h : step hashPassword peer s e = some s') : s.lines <+: s'.lines := by
  cases step_effect h with
  | getchar line b buffer _ _ =>
    unfold getchar
    split
    · exact List.prefix_append _ _
    · exact List.prefix_rfl
  | _ => exact List.prefix_rfl

theorem run_lines (l : List Event) (hrun : run (step hashPassword peer) s l = some s') : s.lines <+: s'.lines :=
  run_invariant (P := fun s1 => s.lines <+: s1.lines) (fun _ _ _ hs h => hs.trans (step_lines h)) l
    List.prefix_rfl hrun

/-- What was returned since. -/
def since (s s' : Conn) : List (List Byte) := s'.lines.drop s.lines.length

theorem since_eq (l : List Event) (hrun : run (step hashPassword peer) s l = some s') :
    s'.lines = s.lines ++ since s s' :=
  List.prefix_iff_eq_append.mp (run_lines l hrun) |>.symm

/-- A line that was begun is returned, with the first byte of the buffer if there is one. -/
theorem getline_returns (hashPassword : Str → Str → Str) (peer : Peer) (line : List Byte) {buffer : List Byte}
    (hpc : s.pc = .reading line) (hsession : s.session = some []) (hbuffer : s.buffer = buffer)
    (hreceived : s.received ≠ []) :
    ∃ l s' ended, run (step hashPassword peer) s l = some s' ∧ s'.lines = s.lines ++ [ended] ∧
      line ++ buffer.take 1 <+: ended := by
  induction buffer generalizing s line with
  | nil =>
    -- the client sends the line end
    obtain ⟨c, received, hcons⟩ := List.exists_cons_of_ne_nil hreceived
    refine ⟨[.decrypt 1 ['\n'], .readTLS 1, .getchar],
      { s with
        received := received
        session := some []
        buffer := []
        pc := .executing (line ++ [⟨'\n', true⟩])
        lines := s.lines ++ [line ++ [⟨'\n', true⟩]] },
      line ++ [⟨'\n', true⟩], ?_, rfl, ?_⟩
    · simp [run, step, hpc, hsession, hbuffer, hcons, getchar, Control.defaultBufferSize]
    · simp
  | cons b buffer ih =>
    have hgetchar : step hashPassword peer s .getchar = some (getchar s line b buffer) := by
      simp [step, hpc, hbuffer]
    by_cases hend : b.char = '\n'
    · refine ⟨[.getchar], getchar s line b buffer, line ++ [b], by simp [run, hgetchar], ?_, ?_⟩
      · rw [getchar, if_pos hend]
      · exact List.prefix_rfl
    · have hnext : getchar s line b buffer = { s with buffer := buffer, pc := .reading (line ++ [b]) } := if_neg hend
      obtain ⟨l, s', ended, hrun, hlines, hprefix⟩ :=
        ih (s := getchar s line b buffer) (line ++ [b]) (by rw [hnext]) (by rw [hnext]; exact hsession)
          (by rw [hnext]) (by rw [hnext]; exact hreceived)
      refine ⟨.getchar :: l, s', ended, by rw [run, hgetchar]; exact hrun, ?_, ?_⟩
      · rw [hlines, hnext]
      · exact (List.prefix_append _ _).trans hprefix

theorem handshake_state (hpc : s.pc = .executing line)
    (htaken : (turn.taken s.connection.client (commandLine line)).isSome = true)
    (hstep : step hashPassword peer s (.execute turn) = some s') :
    s'.pc = .polling ∧ s'.session = some [] ∧ s'.buffer = s.buffer ∧ s'.lines = s.lines := by
  cases step_effect hstep with
  | execute _ line' _ _ hpc' _ hnone _ =>
    rw [hpc] at hpc'
    cases hpc'
    rw [hnone] at htaken
    cases htaken
  | handshake => exact ⟨rfl, rfl, rfl, rfl⟩

/-- What the plain bytes that are left can do. -/
theorem spoiled_line (hpc : s.pc = .polling) (hsession : s.session = some []) (huniform : Uniform s.buffer)
    (hplain : ¬ Through s.buffer) :
    ∃ l s', run (step hashPassword peer) s l = some s' ∧ ∃ ended ∈ since s s', ¬ Through ended := by
  obtain hthrough | hplains := huniform
  · exact absurd hthrough hplain
  obtain ⟨b, buffer, hbuffer⟩ : ∃ b buffer, s.buffer = b :: buffer := by
    cases hbuffer : s.buffer with
    | nil => exact absurd (fun b hb => nomatch hbuffer ▸ hb) hplain
    | cons b buffer => exact ⟨b, buffer, rfl⟩
  -- something more has to arrive for `poll` to return
  obtain ⟨l, s', ended, hrun, hlines, hprefix⟩ :=
    getline_returns hashPassword peer []
      (s := { s with received := s.received ++ ['\n'], pc := .reading [] }) rfl hsession hbuffer (by simp)
  have hstart : run (step hashPassword peer) s (.segment ['\n'] :: .poll :: l) = some s' := by
    simp only [run, step, hpc]
    rw [if_neg (by simp)]
    exact hrun
  refine ⟨_, s', hstart, ended, ?_, fun hthrough => ?_⟩
  · rw [since, hlines]
    simp
  · have hb : b ∈ ended := hprefix.subset (by simp)
    have hsecure := hthrough b hb
    rw [hplains b (by rw [hbuffer]; exact .head _)] at hsecure
    cases hsecure

/-- Behind a handshake every line comes through the session, whatever arrives, if and only if it found no plain
byte in the buffer; in any case only so many lines are spoiled as those bytes begin. -/
theorem handshake_iff {received buffer : Str} (l : List Event)
    (hrun : run (step hashPassword peer) (start received buffer) l = some s) (hpc : s.pc = .executing line)
    (htaken : (turn.taken s.connection.client (commandLine line)).isSome = true)
    (hstep : step hashPassword peer s (.execute turn) = some s') :
    ((∀ l' s'', run (step hashPassword peer) s' l' = some s'' → ∀ line' ∈ since s' s'', Through line') ↔
      Through s.buffer) ∧
    ∀ l' s'', run (step hashPassword peer) s' l' = some s'' →
      (since s' s'').countP spoils ≤ plainEnds s.buffer + (spoils s.buffer).toNat := by
  obtain ⟨hpc', hsession, hbuffer, hlines⟩ := handshake_state hpc htaken hstep
  have huniform : Uniform s'.buffer := hbuffer ▸ (run_consistent l hrun).uniform
  have hbound : ∀ l' s'', run (step hashPassword peer) s' l' = some s'' →
      (since s' s'').countP spoils ≤ plainEnds s.buffer + (spoils s.buffer).toNat := by
    intro l' s'' hrun'
    have hspoiled := spoiled_run l' (by rw [hsession]; rfl) huniform hrun'
    have hline : s'.pc.bytes = [] := by rw [hpc']; rfl
    rw [since_eq l' hrun', List.countP_append, spoiled, hline, hbuffer, List.nil_append] at hspoiled
    omega
  refine ⟨⟨fun hall => ?_, fun hthrough l' s'' hrun' line' hline' => ?_⟩, hbound⟩
  · by_contra hplain
    obtain ⟨l', s'', hrun', ended, hended, hspoiled⟩ :=
      spoiled_line hpc' hsession huniform (hbuffer ▸ hplain)
    exact hspoiled (hall l' s'' hrun' ended hended)
  · have hnone := hbound l' s'' hrun'
    rw [plainEnds_of_through hthrough, spoils_false.mpr hthrough, Bool.toNat_false, Nat.add_zero,
      Nat.le_zero, List.countP_eq_zero] at hnone
    rw [← spoils_false, ← Bool.not_eq_true]
    exact hnone line' hline'

/-! ## Enforced encryption -/

/-- A handshake finds no plain byte in the buffer. -/
def Drained (s : Conn) : Event → Prop
  | .execute turn =>
    match s.pc with
    | .executing line =>
      (turn.taken s.connection.client (commandLine line)).isSome = true → Through s.buffer
    | _ => True
  | _ => True

instance (s : Conn) : ∀ e, Decidable (Drained s e)
  | .execute turn =>
    match h : s.pc with
    | .executing line => decidable_of_iff ((turn.taken s.connection.client (commandLine line)).isSome = true →
        Through s.buffer) (by simp only [Drained, h])
    | .polling => .isTrue (by simp only [Drained, h])
    | .reading _ => .isTrue (by simp only [Drained, h])
    | .over => .isTrue (by simp only [Drained, h])
  | .segment _ => .isTrue trivial
  | .poll => .isTrue trivial
  | .getchar => .isTrue trivial
  | .read _ => .isTrue trivial
  | .decrypt _ _ => .isTrue trivial
  | .readTLS _ => .isTrue trivial
  | .fail => .isTrue trivial

/-- With a session there is no plain byte left. -/
structure Clean (s : Conn) : Prop where
  buffer : s.session.isSome = true → Through s.buffer
  line : s.session.isSome = true → ∀ line, s.pc = .reading line ∨ s.pc = .executing line → Through line

theorem getchar_clean {b : Byte} {buffer : List Byte} (hs : Clean s) (hpc : s.pc = .reading line)
    (hbuffer : s.buffer = b :: buffer) : Clean (getchar s line b buffer) := by
  have hthrough : s.session.isSome = true → Through buffer ∧ Through (line ++ [b]) := by
    intro hsession
    have hread := hs.buffer hsession
    rw [hbuffer] at hread
    refine ⟨fun b' hb' => hread b' (.tail _ hb'), fun b' hb' => ?_⟩
    obtain hline | hlast := List.mem_append.mp hb'
    · exact hs.line hsession line (.inl hpc) b' hline
    · exact List.mem_singleton.mp hlast ▸ hread b (.head _)
  unfold getchar
  split
  · refine ⟨fun h => (hthrough h).1, fun h line' hline' => ?_⟩
    simp only [reduceCtorEq, Pc.executing.injEq, false_or] at hline'
    exact hline' ▸ (hthrough h).2
  · refine ⟨fun h => (hthrough h).1, fun h line' hline' => ?_⟩
    simp only [reduceCtorEq, Pc.reading.injEq, or_false] at hline'
    exact hline' ▸ (hthrough h).2

theorem step_clean (hs : Clean s) (hdrained : Drained s e) (h : step hashPassword peer s e = some s') : Clean s' := by
  cases step_effect h with
  | segment bytes _ => exact ⟨hs.buffer, hs.line⟩
  | poll _ =>
    refine ⟨hs.buffer, fun _ line hline => ?_⟩
    simp only [reduceCtorEq, Pc.reading.injEq, or_false] at hline
    exact hline ▸ fun _ hb => nomatch hb
  | getchar line b buffer hpc hbuffer => exact getchar_clean hs hpc hbuffer
  | read n hsession _ =>
    refine ⟨fun hsome => ?_, hs.line⟩
    rw [hsession] at hsome
    cases hsome
  | decrypt n chars hsession =>
    have hisSome : s.session.isSome = true := by rw [hsession]; rfl
    exact ⟨fun _ => hs.buffer hisSome, fun _ => hs.line hisSome⟩
  | readTLS n pending hsession _ =>
    have hisSome : s.session.isSome = true := by rw [hsession]; rfl
    refine ⟨fun _ b hb => ?_, fun _ => hs.line hisSome⟩
    obtain ⟨_, -, rfl⟩ := List.mem_map.mp hb
    rfl
  | execute turn line pc connection _ hover _ _ =>
    refine ⟨hs.buffer, fun _ line hline => ?_⟩
    obtain rfl | rfl := hover <;> simp at hline
  | handshake turn line n connection hpc htaken _ =>
    refine ⟨fun _ => ?_, fun _ line hline => by simp at hline⟩
    simp only [Drained, hpc] at hdrained
    exact hdrained (by rw [htaken]; rfl)
  | fail => exact ⟨hs.buffer, fun _ line hline => by simp at hline⟩

/-- Where every handshake finds the buffer without plain bytes: from the accepted `USER` of a user whose
connections must be encrypted on, that line with it, every line that is executed came through the session. -/
theorem enforced_run {received buffer : Str} (l : List Event)
    (hdrained : Meets (step hashPassword peer) Drained (start received buffer) l)
    (hrun : run (step hashPassword peer) (start received buffer) l = some s) (hpc : s.pc = .executing line)
    (hstep : step hashPassword peer s (.execute turn) = some s') {e : LoginEvent}
    (he : e ∈ s'.connection.log) (henforced : LoginEvent.Enforced e) : Through line := by
  have hconsistent := run_consistent l hrun
  have hclean : Clean s := by
    refine run_invariant_of_meets (fun _ _ _ hs hd h => step_clean hs hd h) l ?_ hdrained hrun
    exact ⟨fun h => (nomatch h), fun h => (nomatch h)⟩
  have hlog : e ∈ s.connection.log ∨ s.connection.client.isTLS = true := by
    cases step_effect hstep with
    | execute _ _ _ _ _ _ _ hhandle => exact (handle_tls hhandle).2 e he henforced
    | handshake _ _ _ connection _ _ hconnection =>
      rw [hconnection] at he
      exact .inl he
  have hsession : s.session.isSome = true := by
    obtain hold | hisTLS := hlog
    · exact hconsistent.enforced e hold henforced
    · exact hconsistent.isTLS.symm.trans hisTLS
  exact hclean.line hsession line (.inr hpc)

/-! ## One segment and two -/

instance (o : Outside) (user : User) : Decidable (Enforced o user) :=
  inferInstanceAs (Decidable (_ = true))

instance : DecidablePred LoginEvent.Enforced
  | .accepted _ o user => inferInstanceAs (Decidable (Secure.Enforced o user))
  | .verified _ _ => .isFalse id
  | .refused => .isFalse id

def examplePeer : Peer := ⟨"*".toList, "10.0.0.7".toList, "10.0.0.7".toList⟩

/-- Everybody has to encrypt. -/
def exampleTurn : Turn where
  context := true
  handshake := some 0
  reload := none
  outside :=
    { exampleOutside with cfg := { exampleOutside.cfg with tlsControl := ACL.fromString "*".toList } }

/-- A line and the one behind it in a segment. -/
def together (line behind : String) : List Event :=
  [.segment (line.toList ++ behind.toList), .poll, .read (line.length + behind.length)] ++
    List.replicate line.length .getchar

/-- `USER` is put behind `AUTH` by somebody else. -/
theorem handshake_iff_injected :
    ∃ s s', run (step exampleHash examplePeer) (start [] []) (together "AUTH TLS\r\n" "USER alice\r\n") = some s ∧
      step exampleHash examplePeer s (.execute exampleTurn) = some s' ∧
      ¬ ∀ l' s'', run (step exampleHash examplePeer) s' l' = some s'' →
        ∀ line' ∈ since s' s'', Through line' := by
  obtain ⟨s, hrun, hpc, htaken, hstep, hplain⟩ : ∃ s,
      run (step exampleHash examplePeer) (start [] []) (together "AUTH TLS\r\n" "USER alice\r\n") = some s ∧
        s.pc = .executing ("AUTH TLS\r\n".toList.map (⟨·, false⟩)) ∧
        (exampleTurn.taken s.connection.client
          (commandLine ("AUTH TLS\r\n".toList.map (⟨·, false⟩)))).isSome = true ∧
        (step exampleHash examplePeer s (.execute exampleTurn)).isSome = true ∧ ¬ Through s.buffer :=
    run_ends (by decide)
  obtain ⟨s', hstep⟩ := Option.isSome_iff_exists.mp hstep
  exact ⟨s, s', hrun, hstep, fun hall =>
    hplain ((handshake_iff (together "AUTH TLS\r\n" "USER alice\r\n") hrun hpc htaken hstep).1.mp hall)⟩

/-- `AUTH` alone, and `USER` over TLS. -/
def apart : List Event :=
  together "AUTH TLS\r\n" "" ++
    [.execute exampleTurn, .segment ['*'], .poll, .decrypt 1 "USER alice\r\n".toList, .readTLS 12] ++
      List.replicate 12 .getchar

theorem enforced_run_apart :
    ∃ s s' line, run (step exampleHash examplePeer) (start [] []) apart = some s ∧
      step exampleHash examplePeer s (.execute exampleTurn) = some s' ∧ s.pc = .executing line ∧
      (∃ e ∈ s'.connection.log, LoginEvent.Enforced e) ∧ Through line := by
  have hdrained : Meets (step exampleHash examplePeer) Drained (start [] []) apart := by decide
  obtain ⟨s, hrun, hpc, hstep⟩ : ∃ s,
      run (step exampleHash examplePeer) (start [] []) apart = some s ∧
        s.pc = .executing ("USER alice\r\n".toList.map (⟨·, true⟩)) ∧
        (step exampleHash examplePeer s (.execute exampleTurn)).any
          (fun s' => decide (∃ e ∈ s'.connection.log, LoginEvent.Enforced e)) = true :=
    run_ends (by decide)
  obtain ⟨s', hstep, haccepted⟩ := (Option.any_eq_true _ _).mp hstep
  obtain ⟨e, he, henforced⟩ := of_decide_eq_true haccepted
  exact ⟨s, s', _, hrun, hstep, hpc, ⟨e, he, henforced⟩,
    enforced_run apart hdrained hrun hpc hstep he henforced⟩

/-- In one segment the `USER` that nobody encrypted is accepted. -/
example : ∃ s, run (step exampleHash examplePeer) (start [] [])
    (together "AUTH TLS\r\n" "USER alice\r\n" ++ [.execute exampleTurn, .segment ['*'], .poll] ++
      List.replicate 12 .getchar ++ [.execute exampleTurn]) = some s ∧
    (∃ e ∈ s.connection.log, LoginEvent.Enforced e) ∧ s.lines.countP spoils = 2 :=
  run_ends (by decide)

end Secure
end Ftp
end Ebftpd
