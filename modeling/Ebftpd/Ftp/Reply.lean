import Ebftpd.Lib.Framing
import Ebftpd.Util.String

/-!
# Ebftpd.Ftp.Reply

Replies on the control connection (`src/ftp/controlimpl.cpp`). A reply may be preceded by parts:
those with a code are written at once, those that are deferred wait for the code of the reply. In
single line mode no part is written. The socket takes what is written.

* `respond_eq`: what a reply with its parts writes, and that nothing is pending behind it.
* `readReply_replyText`: who reads replies the way RFC 959 says finds exactly one.
-/

namespace Ebftpd
namespace Ftp
namespace Control

open Util Lib

inductive ReplyCode where
  | CodeDeferred
  | CodeNotSet
  | NoCode
  | CommandOkay
  | ServiceReady
  | CommandUnrecognised
  | SyntaxError
  | NotImplemented
  | BadCommandSequence
  | ParameterNotImplemented
  | SystemStatus
  | DirectoryStatus
  | FileStatus
  | HelpMessage
  | SystemType
  | ClosingControl
  | ServiceUnavailable
  | DataAlreadyOpen
  | DataOpenNoTransfer
  | CantOpenDataConnection
  | DataClosedOkay
  | DataCloseAborted
  | PassiveMode
  | LongPassiveMode
  | ExtendedPassiveMode
  | UserLoggedIn
  | UserLoggedInSecure
  | SecurityExchangeOkay
  | NotLoggedIn
  | NeedPassword
  | NeedAccount
  | NeedAccountToStor
  | TransferStatusOkay
  | FileActionOkay
  | PathCreated
  | PendingMoreInfo
  | ActionNotOkay
  | ActionAbortedError
  | PageTypeUnknown
  | NoDiskFree
  | BadFilename
  | InvalidRESTParameter
  | ProtocolNotSupported
  deriving DecidableEq

def ReplyCode.value : ReplyCode → Int
  | .CodeDeferred => -2
  | .CodeNotSet => -1
  | .NoCode => 0
  | .CommandOkay => 200
  | .ServiceReady => 220
  | .CommandUnrecognised => 500
  | .SyntaxError => 501
  | .NotImplemented => 502
  | .BadCommandSequence => 503
  | .ParameterNotImplemented => 504
  | .SystemStatus => 211
  | .DirectoryStatus => 212
  | .FileStatus => 213
  | .HelpMessage => 214
  | .SystemType => 215
  | .ClosingControl => 221
  | .ServiceUnavailable => 421
  | .DataAlreadyOpen => 125
  | .DataOpenNoTransfer => 225
  | .CantOpenDataConnection => 425
  | .DataClosedOkay => 226
  | .DataCloseAborted => 426
  | .PassiveMode => 227
  | .LongPassiveMode => 228
  | .ExtendedPassiveMode => 229
  | .UserLoggedIn => 230
  | .UserLoggedInSecure => 232
  | .SecurityExchangeOkay => 234
  | .NotLoggedIn => 530
  | .NeedPassword => 331
  | .NeedAccount => 332
  | .NeedAccountToStor => 532
  | .TransferStatusOkay => 150
  | .FileActionOkay => 250
  | .PathCreated => 257
  | .PendingMoreInfo => 350
  | .ActionNotOkay => 550
  | .ActionAbortedError => 451
  | .PageTypeUnknown => 551
  | .NoDiskFree => 452
  | .BadFilename => 553
  | .InvalidRESTParameter => 554
  | .ProtocolNotSupported => 522

def intText (z : Int) : Str :=
  if z < 0 then '-' :: Nat.toDigits 10 z.natAbs else Nat.toDigits 10 z.natAbs

/-- `os << std::setw(3) << code`. -/
def ReplyCode.text (code : ReplyCode) : Str :=
  let text := intText code.value
  List.replicate (3 - text.length) ' ' ++ text

/-- The part of `ControlImpl` that replies use, and the bytes written to the socket so far. -/
structure ControlImpl where
  lastCode : ReplyCode
  singleLineReplies : Bool
  deferred : List Str
  written : Str

inductive Fault where
  | protocolError
  | assertion

def crlf : Str := ['\r', '\n']

/-- The line `SendReply` writes. -/
def replyLine (code : ReplyCode) (part : Bool) (message : Str) : Str :=
  (if code ≠ .NoCode then code.text ++ (if part then ['-'] else [' ']) else []) ++ message ++ crlf

def sendReply (code : ReplyCode) (part : Bool) (message : Str) (ctl : ControlImpl) :
    Except Fault ControlImpl :=
  if ctl.singleLineReplies && part then .ok ctl
  else
    let ctl := { ctl with written := ctl.written ++ replyLine code part message }
    if ctl.lastCode ≠ code ∧ ctl.lastCode ≠ .CodeNotSet ∧ code ≠ .NoCode then .error .protocolError
    else .ok (if code ≠ .NoCode then { ctl with lastCode := code } else ctl)

def multiReply (code : ReplyCode) (final : Bool) : List Str → ControlImpl → Except Fault ControlImpl
  | [], _ => .error .assertion
  | [message], ctl => sendReply code (!final) message ctl
  | message :: m :: messages, ctl =>
    match sendReply code true message ctl with
    | .ok ctl => multiReply code final (m :: messages) ctl
    | .error e => .error e

def splitLines (messages : Str) : List Str := split messages ['\n'] false

def partReply (code : ReplyCode) (messages : Str) (ctl : ControlImpl) : Except Fault ControlImpl :=
  if code = .CodeNotSet then .error .assertion
  else if code = .CodeDeferred then .ok { ctl with deferred := ctl.deferred ++ splitLines messages }
  else multiReply code false (splitLines messages) ctl

/-- What is deferred, under the code of the reply. -/
def flushDeferred (code : ReplyCode) (ctl : ControlImpl) : Except Fault ControlImpl :=
  if ctl.deferred.isEmpty then .ok ctl
  else
    match multiReply code false ctl.deferred ctl with
    | .ok ctl => .ok { ctl with deferred := [] }
    | .error e => .error e

def reply (code : ReplyCode) (messages : Str) (ctl : ControlImpl) : Except Fault ControlImpl :=
  if code = .CodeNotSet ∨ code = .CodeDeferred then .error .assertion
  else
    match flushDeferred code ctl with
    | .error e => .error e
    | .ok ctl =>
      match multiReply code true (splitLines messages) ctl with
      | .ok ctl => .ok { ctl with lastCode := .CodeNotSet }
      | .error e => .error e

/-! ## A reply and its parts -/

/-- One `PartReply` before a reply: with the code of the reply, or deferred. -/
inductive Part where
  | immediate (messages : Str)
  | deferred (messages : Str)

def Part.send (code : ReplyCode) : Part → ControlImpl → Except Fault ControlImpl
  | .immediate messages => partReply code messages
  | .deferred messages => partReply .CodeDeferred messages

def sendParts (code : ReplyCode) : List Part → ControlImpl → Except Fault ControlImpl
  | [], ctl => .ok ctl
  | part :: parts, ctl =>
    match part.send code ctl with
    | .ok ctl => sendParts code parts ctl
    | .error e => .error e

def respond (code : ReplyCode) (parts : List Part) (messages : Str) (ctl : ControlImpl) :
    Except Fault ControlImpl :=
  match sendParts code parts ctl with
  | .ok ctl => reply code messages ctl
  | .error e => .error e

def Part.immediateLines : Part → List Str
  | .immediate messages => splitLines messages
  | .deferred _ => []

def Part.deferredLines : Part → List Str
  | .immediate _ => []
  | .deferred messages => splitLines messages

/-- The lines before the last, in the order they are written. -/
def partLines (parts : List Part) (messages : Str) : List Str :=
  parts.flatMap Part.immediateLines ++ parts.flatMap Part.deferredLines ++
    (splitLines messages).dropLast

def lastLine (messages : Str) : Str := Framing.rest '\n' messages

/-- One reply: each line but the last behind the code and a hyphen, the last behind the code and a
space. -/
def replyText (code : ReplyCode) (lines : List Str) (last : Str) : Str :=
  lines.flatMap (fun line => code.text ++ '-' :: line ++ crlf) ++ (code.text ++ ' ' :: last ++ crlf)

theorem splitLoop_eq_feed {delim : Char → Bool} {d : Char} (hdelim : ∀ c, delim c = true ↔ c = d)
    (prev : Bool) (cur s : Str) :
    splitLoop delim false prev cur s = (Framing.feed d cur s).1 ++ [(Framing.feed d cur s).2] := by
  induction s generalizing prev cur with
  | nil => rfl
  | cons c cs ih =>
    simp only [splitLoop, Framing.feed, hdelim, Bool.false_and, Bool.false_eq_true, if_false]
    by_cases hc : c = d
    · rw [if_pos hc, if_pos hc, ih]
      rfl
    · rw [if_neg hc, if_neg hc, ih]

theorem splitLines_eq (messages : Str) :
    splitLines messages = Framing.frames '\n' messages ++ [lastLine messages] :=
  splitLoop_eq_feed (fun c => by simp) false [] messages

theorem splitLines_ne_nil (messages : Str) : splitLines messages ≠ [] := by
  simp [splitLines_eq]

theorem splitLines_dropLast (messages : Str) :
    (splitLines messages).dropLast ++ [lastLine messages] = splitLines messages := by
  rw [splitLines_eq, List.dropLast_concat]

/-! ## What is written -/

/-- `text` written, with `last` as the last code. -/
def ControlImpl.sent (ctl : ControlImpl) (text : Str) (last : ReplyCode) : ControlImpl :=
  { ctl with written := ctl.written ++ text, lastCode := last }

section Write

variable {code : ReplyCode} {ctl : ControlImpl}

@[simp] theorem sent_lastCode (text : Str) (last : ReplyCode) : (ctl.sent text last).lastCode = last := rfl

@[simp] theorem sent_singleLineReplies (text : Str) (last : ReplyCode) :
    (ctl.sent text last).singleLineReplies = ctl.singleLineReplies := rfl

@[simp] theorem sent_deferred (text : Str) (last : ReplyCode) :
    (ctl.sent text last).deferred = ctl.deferred := rfl

@[simp] theorem sent_sent (text text' : Str) (last last' : ReplyCode) :
    (ctl.sent text last).sent text' last' = ctl.sent (text ++ text') last' := by
  simp [ControlImpl.sent]

theorem sent_nil : ctl.sent [] ctl.lastCode = ctl := by
  simp [ControlImpl.sent]

/-- What parts write. -/
def partText (single : Bool) (code : ReplyCode) (lines : List Str) : Str :=
  if single then [] else lines.flatMap (replyLine code true)

theorem partText_nil (single : Bool) (code : ReplyCode) : partText single code [] = [] := by
  simp [partText]

theorem partText_append (single : Bool) (code : ReplyCode) (l₁ l₂ : List Str) :
    partText single code (l₁ ++ l₂) = partText single code l₁ ++ partText single code l₂ := by
  cases single with
  | true => rfl
  | false => simp [partText]

theorem partText_cons (single : Bool) (code : ReplyCode) (line : Str) (lines : List Str) :
    partText single code (line :: lines) = partText single code [line] ++ partText single code lines :=
  partText_append single code [line] lines

/-- The last code is the one of the reply, or there is none yet. -/
def Under (code last : ReplyCode) : Prop := last = code ∨ last = .CodeNotSet

variable (hcode : 0 < code.value)

include hcode

theorem ne_noCode : code ≠ .NoCode := by
  rintro rfl
  exact absurd hcode (by decide)

theorem ne_notSet : code ≠ .CodeNotSet := by
  rintro rfl
  exact absurd hcode (by decide)

theorem ne_deferred : code ≠ .CodeDeferred := by
  rintro rfl
  exact absurd hcode (by decide)

theorem sendReply_eq (hlast : Under code ctl.lastCode) (part : Bool) (message : Str) :
    sendReply code part message ctl =
      if ctl.singleLineReplies && part then .ok ctl
      else .ok (ctl.sent (replyLine code part message) code) := by
  have hfault : ¬(ctl.lastCode ≠ code ∧ ctl.lastCode ≠ .CodeNotSet ∧ code ≠ .NoCode) := by
    rintro ⟨hne, hset, -⟩
    exact hlast.elim hne hset
  unfold sendReply
  simp only [if_neg hfault, if_pos (ne_noCode hcode)]
  rfl

theorem sendReply_final (hlast : Under code ctl.lastCode) (message : Str) :
    sendReply code false message ctl = .ok (ctl.sent (replyLine code false message) code) := by
  rw [sendReply_eq hcode hlast, Bool.and_false]
  rfl

theorem sendReply_part (hlast : Under code ctl.lastCode) (message : Str) :
    ∃ last, Under code last ∧ sendReply code true message ctl =
      .ok (ctl.sent (partText ctl.singleLineReplies code [message]) last) := by
  rw [sendReply_eq hcode hlast]
  cases hsingle : ctl.singleLineReplies with
  | true => exact ⟨ctl.lastCode, hlast, congrArg _ sent_nil.symm⟩
  | false => exact ⟨code, .inl rfl, by simp [partText]⟩

theorem multiReply_part {lines : List Str} (hlines : lines ≠ []) :
    ∀ ctl : ControlImpl, Under code ctl.lastCode →
      ∃ last, Under code last ∧ multiReply code false lines ctl =
        .ok (ctl.sent (partText ctl.singleLineReplies code lines) last) := by
  induction lines with
  | nil => exact absurd rfl hlines
  | cons message lines ih =>
    intro ctl hlast
    obtain ⟨last, hunder, hsend⟩ := sendReply_part hcode hlast message
    cases lines with
    | nil => exact ⟨last, hunder, hsend⟩
    | cons m messages =>
      obtain ⟨last', hunder', hrest⟩ := ih (by simp)
        (ctl.sent (partText ctl.singleLineReplies code [message]) last) hunder
      refine ⟨last', hunder', ?_⟩
      rw [partText_cons]
      simp only [multiReply, hsend, hrest, sent_singleLineReplies, sent_sent]

theorem multiReply_final (last : Str) (lines : List Str) :
    ∀ ctl : ControlImpl, Under code ctl.lastCode →
      multiReply code true (lines ++ [last]) ctl =
        .ok (ctl.sent (partText ctl.singleLineReplies code lines ++ replyLine code false last) code) := by
  induction lines with
  | nil =>
    intro ctl hlast
    rw [List.nil_append, multiReply, Bool.not_true, sendReply_final hcode hlast, partText_nil]
    rfl
  | cons message lines ih =>
    intro ctl hlast
    obtain ⟨last', hunder, hsend⟩ := sendReply_part hcode hlast message
    have hrest := ih (ctl.sent (partText ctl.singleLineReplies code [message]) last') hunder
    obtain ⟨m, messages, hcons⟩ : ∃ m messages, lines ++ [last] = m :: messages :=
      List.exists_cons_of_ne_nil (by simp)
    rw [partText_cons, List.cons_append, hcons]
    rw [hcons] at hrest
    simp only [multiReply, hsend, hrest, sent_singleLineReplies, sent_sent, List.append_assoc]

theorem partReply_eq (hlast : Under code ctl.lastCode) (messages : Str) :
    ∃ last, Under code last ∧ partReply code messages ctl =
      .ok (ctl.sent (partText ctl.singleLineReplies code (splitLines messages)) last) := by
  obtain ⟨last, hunder, hsend⟩ := multiReply_part hcode (splitLines_ne_nil messages) ctl hlast
  refine ⟨last, hunder, ?_⟩
  rw [partReply, if_neg (ne_notSet hcode), if_neg (ne_deferred hcode), hsend]

/-- Parts that are immediate are written, the others wait. -/
theorem sendParts_eq (parts : List Part) :
    ∀ ctl : ControlImpl, Under code ctl.lastCode →
      ∃ last, Under code last ∧ sendParts code parts ctl =
        .ok { ctl.sent
            (partText ctl.singleLineReplies code (parts.flatMap Part.immediateLines)) last with
          deferred := ctl.deferred ++ parts.flatMap Part.deferredLines } := by
  induction parts with
  | nil =>
    intro ctl hlast
    exact ⟨ctl.lastCode, hlast, by simp [sendParts, partText_nil, sent_nil]⟩
  | cons part parts ih =>
    intro ctl hlast
    cases part with
    | immediate messages =>
      obtain ⟨last, hunder, hpart⟩ := partReply_eq hcode hlast messages
      obtain ⟨last', hunder', hrest⟩ := ih
        (ctl.sent (partText ctl.singleLineReplies code (splitLines messages)) last) hunder
      refine ⟨last', hunder', ?_⟩
      rw [sendParts, Part.send, hpart]
      simp only [hrest, List.flatMap_cons, Part.immediateLines, Part.deferredLines, partText_append,
        List.nil_append, sent_singleLineReplies, sent_deferred, sent_sent]
    | deferred messages =>
      obtain ⟨last', hunder', hrest⟩ := ih
        { ctl with deferred := ctl.deferred ++ splitLines messages } hlast
      refine ⟨last', hunder', ?_⟩
      have hpart : partReply .CodeDeferred messages ctl =
          .ok { ctl with deferred := ctl.deferred ++ splitLines messages } := rfl
      rw [sendParts, Part.send, hpart]
      simp only [hrest, List.flatMap_cons, Part.immediateLines, Part.deferredLines,
        List.nil_append, List.append_assoc]
      rfl

theorem flushDeferred_eq (hlast : Under code ctl.lastCode) :
    ∃ last, Under code last ∧ flushDeferred code ctl =
      .ok { ctl.sent (partText ctl.singleLineReplies code ctl.deferred) last with deferred := [] } := by
  unfold flushDeferred
  by_cases hdeferred : ctl.deferred = []
  · obtain ⟨lastCode, single, deferred, written⟩ := ctl
    obtain rfl : deferred = [] := hdeferred
    exact ⟨lastCode, hlast, by simp [partText_nil, ControlImpl.sent]⟩
  · obtain ⟨last, hunder, hsend⟩ := multiReply_part hcode hdeferred ctl hlast
    refine ⟨last, hunder, ?_⟩
    rw [if_neg (by simpa using hdeferred), hsend]

theorem reply_eq (hlast : Under code ctl.lastCode) (messages : Str) :
    reply code messages ctl =
      .ok { ctl.sent
          (partText ctl.singleLineReplies code (ctl.deferred ++ (splitLines messages).dropLast) ++
            replyLine code false (lastLine messages)) .CodeNotSet with
        deferred := [] } := by
  obtain ⟨last, hunder, hflush⟩ := flushDeferred_eq hcode hlast
  have hfinal := multiReply_final hcode (lastLine messages) (splitLines messages).dropLast
    { ctl.sent (partText ctl.singleLineReplies code ctl.deferred) last with deferred := [] } hunder
  rw [splitLines_dropLast] at hfinal
  have hassert : ¬(code = .CodeNotSet ∨ code = .CodeDeferred) := by
    rintro (h | h)
    · exact ne_notSet hcode h
    · exact ne_deferred hcode h
  rw [reply, if_neg hassert, hflush, partText_append]
  simp only [hfinal]
  simp [ControlImpl.sent]

theorem replyText_eq (lines : List Str) (last : Str) :
    replyText code lines last = lines.flatMap (replyLine code true) ++ replyLine code false last := by
  have hpart : replyLine code true = fun line => code.text ++ '-' :: line ++ crlf := by
    funext line
    simp [replyLine, ne_noCode hcode]
  rw [hpart]
  simp [replyText, replyLine, ne_noCode hcode]

/-- A reply with its parts, where nothing was pending: in single line mode its last line, otherwise
the whole reply; and nothing is pending. -/
theorem respond_eq (parts : List Part) (messages : Str) (hset : ctl.lastCode = .CodeNotSet)
    (hdeferred : ctl.deferred = []) :
    respond code parts messages ctl =
      .ok { ctl with
        written := ctl.written ++
          if ctl.singleLineReplies then replyText code [] (lastLine messages)
          else replyText code (partLines parts messages) (lastLine messages) } := by
  obtain ⟨last, hunder, hparts⟩ := sendParts_eq hcode parts ctl (.inr hset)
  rw [respond, hparts]
  simp only
  rw [reply_eq hcode]
  case hlast => exact hunder
  simp only [replyText_eq hcode, ControlImpl.sent, hdeferred, List.nil_append]
  cases ctl.singleLineReplies with
  | true => simp [partText, hset]
  | false => simp [partText, partLines, hset]

end Write

/-! ## Reading a reply -/

/-- The lines of a reply that has begun, up to the one behind the code and a space. -/
def readMore (code : Str) : List Str → Option (List Str × List Str)
  | [] => none
  | line :: lines =>
    if startsWith line (code ++ [' ']) then some ([line], lines)
    else
      match readMore code lines with
      | some (more, rest) => some (line :: more, rest)
      | none => none

/-- RFC 959, 4.2: a hyphen behind the code of the first line says that more lines follow. -/
def readReply : List Str → Option (List Str × List Str)
  | [] => none
  | first :: lines =>
    if first[3]? = some '-' then
      match readMore (first.take 3) lines with
      | some (more, rest) => some (first :: more, rest)
      | none => none
    else some ([first], lines)

section Read

variable {code : ReplyCode} (hcode : 0 < code.value)

include hcode

/-- A code is written as three characters, none of which ends a line. -/
theorem text_code : ∃ a b c, code.text = [a, b, c] ∧ '\n' ∉ code.text := by
  cases code
  all_goals first
    | exact absurd hcode (by decide)
    | exact ⟨_, _, _, rfl, by decide⟩

theorem frames_line {line : Str} (hline : '\n' ∉ line) (mark : Char) (hmark : mark ≠ '\n') (l : Str) :
    Framing.frames '\n' (code.text ++ mark :: line ++ crlf ++ l) =
      (code.text ++ mark :: line ++ ['\r']) :: Framing.frames '\n' l := by
  obtain ⟨_, _, _, -, htext⟩ := text_code hcode
  have hfree : '\n' ∉ code.text ++ mark :: line ++ ['\r'] := by
    simp [htext, hline, Ne.symm hmark]
  have hcut := congrArg Prod.fst (Framing.feed_frame hfree [] l)
  simpa [crlf, Framing.frames] using hcut

/-- The lines of a reply, as they come out of the stream. -/
def framed (code : ReplyCode) (lines : List Str) (last : Str) : List Str :=
  lines.map (fun line => code.text ++ '-' :: line ++ ['\r']) ++ [code.text ++ ' ' :: last ++ ['\r']]

theorem frames_replyText {last : Str} (hlast : '\n' ∉ last) (l : Str) {lines : List Str}
    (hlines : ∀ line ∈ lines, '\n' ∉ line) :
    Framing.frames '\n' (replyText code lines last ++ l) =
      framed code lines last ++ Framing.frames '\n' l := by
  induction lines with
  | nil =>
    rw [replyText, List.flatMap_nil, List.nil_append, frames_line hcode hlast ' ' (by decide)]
    rfl
  | cons line lines ih =>
    have hrest : ∀ line ∈ lines, '\n' ∉ line := fun l hl => hlines l (List.mem_cons_of_mem _ hl)
    have hcons : replyText code (line :: lines) last ++ l =
        code.text ++ '-' :: line ++ crlf ++ (replyText code lines last ++ l) := by
      simp [replyText]
    rw [hcons, frames_line hcode (hlines line (List.mem_cons_self ..)) '-' (by decide), ih hrest]
    rfl

theorem readMore_framed (lines : List Str) (last : Str) (rest : List Str) :
    readMore code.text (framed code lines last ++ rest) = some (framed code lines last, rest) := by
  obtain ⟨a, b, c, htext, -⟩ := text_code hcode
  induction lines with
  | nil => simp [framed, readMore, startsWith, htext]
  | cons line lines ih =>
    have hcons : framed code (line :: lines) last =
        (code.text ++ '-' :: line ++ ['\r']) :: framed code lines last := rfl
    rw [hcons, List.cons_append, readMore, ih]
    simp [startsWith, htext]

/-- Who reads a reply finds its lines and no others, whatever follows. -/
theorem readReply_replyText {last : Str} (hlast : '\n' ∉ last) (l : Str) {lines : List Str}
    (hlines : ∀ line ∈ lines, '\n' ∉ line) :
    readReply (Framing.frames '\n' (replyText code lines last ++ l)) =
      some (framed code lines last, Framing.frames '\n' l) := by
  obtain ⟨a, b, c, htext, -⟩ := text_code hcode
  rw [frames_replyText hcode hlast l hlines]
  cases lines with
  | nil => simp [framed, readReply, htext]
  | cons line lines =>
    have hcons : framed code (line :: lines) last =
        (code.text ++ '-' :: line ++ ['\r']) :: framed code lines last := rfl
    have htake : (code.text ++ '-' :: line ++ ['\r']).take 3 = code.text := by simp [htext]
    have hmark : (code.text ++ '-' :: line ++ ['\r'])[3]? = some '-' := by simp [htext]
    rw [hcons, List.cons_append, readReply, if_pos hmark, htake, readMore_framed hcode]

end Read

theorem splitLines_free (messages : Str) : ∀ line ∈ splitLines messages, '\n' ∉ line := by
  intro line hline
  rw [splitLines_eq, List.mem_append, List.mem_singleton] at hline
  rcases hline with hframe | rfl
  · exact Framing.frames_free messages line hframe
  · exact Framing.rest_free messages

theorem partLines_free (parts : List Part) (messages : Str) :
    ∀ line ∈ partLines parts messages, '\n' ∉ line := by
  intro line hline
  simp only [partLines, List.mem_append, List.mem_flatMap] at hline
  rcases hline with (⟨part, -, himmediate⟩ | ⟨part, -, hdeferred⟩) | hlast
  · cases part with
    | immediate m => exact splitLines_free m line himmediate
    | deferred m => cases himmediate
  · cases part with
    | immediate m => cases hdeferred
    | deferred m => exact splitLines_free m line hdeferred
  · exact splitLines_free messages line (List.dropLast_subset _ hlast)

/-- A reply with any parts before it, where nothing was pending, writes exactly one reply: the parts
written at once, the deferred ones, then the message, of which only the last line is written in
single line mode. No error is thrown, and nothing is pending behind it. -/
theorem respond_wellFormed (code : ReplyCode) (hcode : 0 < code.value) (parts : List Part)
    (messages : Str) (ctl : ControlImpl) (hset : ctl.lastCode = .CodeNotSet)
    (hdeferred : ctl.deferred = []) :
    ∃ lines, lines = (if ctl.singleLineReplies then [] else partLines parts messages) ∧
      (∃ ctl', respond code parts messages ctl = .ok ctl' ∧
        ctl'.written = ctl.written ++ replyText code lines (lastLine messages) ∧
        ctl'.lastCode = .CodeNotSet ∧ ctl'.deferred = [] ∧
        ctl'.singleLineReplies = ctl.singleLineReplies) ∧
      ∀ l, readReply (Framing.frames '\n' (replyText code lines (lastLine messages) ++ l)) =
        some (framed code lines (lastLine messages), Framing.frames '\n' l) := by
  refine ⟨_, rfl, ⟨_, respond_eq hcode parts messages hset hdeferred, ?_, hset, hdeferred, rfl⟩, ?_⟩
  · cases ctl.singleLineReplies with
    | true => rfl
    | false => rfl
  · intro l
    refine readReply_replyText hcode (Framing.rest_free messages) l ?_
    cases ctl.singleLineReplies with
    | true => simp
    | false => exact partLines_free parts messages

def exampleControl : ControlImpl := ⟨.CodeNotSet, false, [], []⟩

/-- A deferred part of two lines, one written at once, and the end of a transfer. -/
theorem respond_wellFormed_transfer :
    ∃ ctl', respond .DataClosedOkay
        [.deferred ['a', '\n', 'b'], .immediate ['c']] ['d'] exampleControl = .ok ctl' ∧
      ctl'.written = replyText .DataClosedOkay [['c'], ['a'], ['b']] ['d'] := by
  obtain ⟨lines, rfl, ⟨ctl', hrespond, hwritten, -⟩, -⟩ :=
    respond_wellFormed .DataClosedOkay (by decide) [.deferred ['a', '\n', 'b'], .immediate ['c']] ['d']
      exampleControl rfl rfl
  exact ⟨ctl', hrespond, by rw [hwritten]; rfl⟩

end Control
end Ftp
end Ebftpd
