import Ebftpd.Cmd.Cwd
import Ebftpd.Ftp.LoginCounter
import Ebftpd.Util.Passwd

/-!
# Ebftpd.Ftp.Client

A client's control connection (`src/ftp/clientimpl.cpp`): the command table
(`src/cmd/rfc/factory.cpp`), the check of the state a command requires, `USER`, `PASS` and `QUIT`,
and the loop that reads a line, reloads the user if it was flagged, and executes the command.

`Outside` is everything a command meets that is not the client's own: the database, the clock, the
configuration, the file system, the login counter. It is another one for every command. Commands
other than these three may end the session, and those of a logged in user may set its tagline; the
rest of what they do is not modelled here. A reply that cannot be written ends the session too.

An `Outcome` also says what the command means for the login (`LoginEvent`); nothing reads it back.
-/

namespace Ebftpd
namespace Ftp

open Util Acl

inductive ClientState where
  | LoggedOut
  | WaitingPassword
  | LoggedIn
  | Finished
  | NotBeforeAuth
  | AnyState
  deriving DecidableEq

structure Reply where
  code : Nat
  text : Str
  deriving DecidableEq

structure CommandDef where
  minimumArgs : Int
  maximumArgs : Int
  requiredState : ClientState
  implemented : Bool
  usage : String
  deriving DecidableEq

/-- `Factory::Factory`. -/
def defs : List (String × CommandDef) :=
  [("ABOR", ⟨0, 0, .AnyState, true, "SITE ABOR"⟩),
   ("ACCT", ⟨0, -1, .AnyState, false, "NOT IMPLEMENTED"⟩),
   ("ADAT", ⟨0, -1, .AnyState, false, "NOT IMPLEMENTED"⟩),
   ("ALLO", ⟨0, -1, .AnyState, false, "NOT IMPLEMENTED"⟩),
   ("APPE", ⟨0, -1, .AnyState, false, "NOT IMPLEMENTED"⟩),
   ("AUTH", ⟨1, 1, .LoggedOut, true, "SITE AUTH TLS|SSL"⟩),
   ("CCC", ⟨0, -1, .AnyState, false, "NOT IMPLEMENTED"⟩),
   ("CDUP", ⟨0, 0, .LoggedIn, true, "CDUP"⟩),
   ("CPSV", ⟨0, 0, .LoggedIn, true, "CPSV"⟩),
   ("CWD", ⟨1, -1, .LoggedIn, true, "CWD <path>"⟩),
   ("DELE", ⟨1, -1, .LoggedIn, true, "DELE <path>"⟩),
   ("ENC", ⟨0, -1, .AnyState, false, "NOT IMPLEMENTED"⟩),
   ("EPRT", ⟨1, 1, .LoggedIn, true, "EPRT <port-string>"⟩),
   ("EPSV", ⟨0, 1, .LoggedIn, true, "EPSV [MODE|EXTENDED|NORMAL]"⟩),
   ("FEAT", ⟨0, 0, .AnyState, true, "FEAT"⟩),
   ("HELP", ⟨0, 1, .AnyState, true, "HELP [<command>]"⟩),
   ("LANG", ⟨0, -1, .AnyState, false, "NOT IMPLEMENTED"⟩),
   ("LIST", ⟨0, -1, .LoggedIn, true, "LIST [-<options>] [<path>]"⟩),
   ("LPRT", ⟨1, 1, .LoggedIn, true, "LPRT <port-string>"⟩),
   ("LPSV", ⟨0, 0, .LoggedIn, true, "LPSV"⟩),
   ("MDTM", ⟨1, -1, .LoggedIn, true, "MDTM <path>"⟩),
   ("MFF", ⟨1, -1, .LoggedIn, false, "MFF <fact> [ ; <fact> ..] <path>"⟩),
   ("MFCT", ⟨2, 2, .LoggedIn, false, "MFCT <time-val> <path>"⟩),
   ("MFMT", ⟨2, 2, .LoggedIn, true, "MFMT <time-val> <path>"⟩),
   ("MIC", ⟨0, -1, .AnyState, false, "NOT IMPLEMENTED"⟩),
   ("MKD", ⟨1, -1, .LoggedIn, true, "MKD <path>"⟩),
   ("MLSD", ⟨0, -1, .AnyState, false, "NOT IMPLEMENTED"⟩),
   ("MLST", ⟨0, -1, .AnyState, false, "NOT IMPLEMENTED"⟩),
   ("MODE", ⟨1, 1, .LoggedIn, true, "MODE S|B|C"⟩),
   ("NLST", ⟨0, -1, .LoggedIn, true, "NLST [-<options>] [<path>]"⟩),
   ("NOOP", ⟨0, 0, .AnyState, true, "NOOP"⟩),
   ("OPTS", ⟨0, -1, .AnyState, false, "NOT IMPLEMENTED"⟩),
   ("PASS", ⟨0, -1, .WaitingPassword, true, "PASS <password>"⟩),
   ("PASV", ⟨0, 0, .LoggedIn, true, "PASV"⟩),
   ("PORT", ⟨1, 1, .LoggedIn, true, "PORT <port-string>"⟩),
   ("PBSZ", ⟨1, 1, .AnyState, true, "PBSZ <size>"⟩),
   ("PROT", ⟨1, 1, .AnyState, true, "PROT C|P"⟩),
   ("PWD", ⟨0, 0, .LoggedIn, true, "PWD"⟩),
   ("QUIT", ⟨0, 0, .AnyState, true, "QUIT"⟩),
   ("REIN", ⟨0, -1, .AnyState, false, "NOT IMPLEMENTED"⟩),
   ("REST", ⟨1, 1, .AnyState, true, "REST <offset>"⟩),
   ("RETR", ⟨1, -1, .LoggedIn, true, "RETR <path>"⟩),
   ("RMD", ⟨1, -1, .LoggedIn, true, "RMD <path>"⟩),
   ("RNFR", ⟨1, -1, .LoggedIn, true, "REFR <path>"⟩),
   ("RNTO", ⟨1, -1, .LoggedIn, true, "RNTO <path>"⟩),
   ("SITE", ⟨1, -1, .LoggedIn, true, "STIE <command> [<arguments>..]"⟩),
   ("SIZE", ⟨1, -1, .LoggedIn, true, "SIZE <path>"⟩),
   ("SMNT", ⟨0, -1, .AnyState, false, "NOT IMPLEMENTED"⟩),
   ("SSCN", ⟨0, 1, .LoggedIn, true, "SSCN [ON|OFF]"⟩),
   ("STAT", ⟨0, -1, .LoggedIn, true, "STAT [[-<options] [<path>]]"⟩),
   ("STOR", ⟨1, -1, .LoggedIn, true, "STOR <path>"⟩),
   ("STOU", ⟨0, 0, .LoggedIn, true, "STOU"⟩),
   ("STRU", ⟨0, -1, .AnyState, false, "NOT IMPLEMENTED"⟩),
   ("SYST", ⟨0, 0, .LoggedIn, true, "SYST"⟩),
   ("TYPE", ⟨1, 1, .LoggedIn, true, "TYPE I|A"⟩),
   ("USER", ⟨1, -1, .LoggedOut, true, "USER <user>"⟩)]

def lookup (command : Str) : Option CommandDef := (defs.find? fun d => d.1.toList == command).map (·.2)

def CommandDef.checkArgs (d : CommandDef) (args : List Str) : Bool :=
  let argsSize : Int := args.length - 1
  decide (argsSize ≥ d.minimumArgs) && (d.maximumArgs == -1 || decide (argsSize ≤ d.maximumArgs))

/-- Where the client comes from. -/
structure Peer where
  ident : Str
  ip : Str
  hostname : Str

def Peer.hostnameAndIP (peer : Peer) : Str :=
  (if peer.hostname.isEmpty then peer.ip else peer.hostname) ++ '(' :: peer.ip ++ [')']

/-- The members of `ClientImpl` that the login reads and writes. -/
structure Client where
  state : ClientState := .LoggedOut
  user : Option User := none
  passwordAttemps : Nat := 0
  kickLogin : Bool := false
  isTLS : Bool := false
  singleLineReplies : Bool := false
  workDirectory : Option Str := none

def maxPasswordAttemps : Nat := 3

/-- What a command other than `USER`, `PASS` and `QUIT` does to the client. -/
structure Effects where
  isTLS : Bool := false
  tagline : Option Str := none
  finished : Bool := false

/-- What one command meets outside the client. -/
structure Outside where
  cfg : Cfg.Config
  gidToName : GroupID → Str
  -- `User::Load` by name, or the message of what it throws
  load : Str → Except Str (Option User)
  ipMasks : UserID → Option (List Str)
  -- `fnmatch` with `FNM_CASEFOLD`
  wildcardMatchCase : Str → Str → Bool
  errnoMessage : Errno → Str
  siteopOnly : Bool
  -- the local day
  today : Int
  now : Int
  world : Fs.World
  -- `LoginCounter::Start`, behind the kick of a kick login
  counter : CounterResult
  -- what `PASS` shows before its last line
  welcome : Str
  goodbye : Str
  -- whether the pre command scripts let the command pass
  cscripts : Bool
  effects : Effects
  -- whether the connection is lost on a reply
  lost : Bool

inductive LoginEvent where
  -- `USER` was accepted, with the record it loaded
  | accepted (name : Str) (o : Outside) (user : User)
  -- `PASS` was executed and the password verified
  | verified (password : Str) (o : Outside)
  -- `PASS` was executed and the password did not verify
  | refused

/-- The fields a command writes to the database from the record in memory. -/
inductive Save where
  | loggedIn
  | tagline
  deriving DecidableEq

/-- The fields a `Save` sets in the record `r`, from the record `user` in memory. -/
def Save.fields (user r : User) : Save → User
  | .loggedIn => { r with loggedIn := user.loggedIn, lastLogin := user.lastLogin }
  | .tagline => { r with tagline := user.tagline }

/-- Whether `UpdateLog` is called. -/
def Save.updateLog : Save → Bool
  | .loggedIn => false
  | .tagline => true

structure Outcome where
  client : Client
  reply : Option Reply
  event : Option LoginEvent
  save : Option Save

/-- The client behind a command, where the connection may be lost on its reply. -/
def Outcome.clientAfter (r : Outcome) (lost : Bool) : Client :=
  if lost then { r.client with state := .Finished } else r.client

/-- A command that replies and does no more. -/
def replied (c : Client) (reply : Option Reply) : Outcome := ⟨c, reply, none, none⟩

def verifyPassword (hashPassword : Str → Str → Str) (user : User) (password : Str) : Bool :=
  Passwd.hexEncode (hashPassword password (Passwd.hexDecode user.salt)) == user.password

/-- `acl::IdentIPAllowed` for one user. -/
def identIPAllowed (o : Outside) (uid : UserID) (identAddress : Str) : Bool :=
  match o.ipMasks uid with
  | none => false
  | some masks => masks.any (o.wildcardMatchCase · identAddress)

def postCheckAddress (peer : Peer) (o : Outside) (uid : UserID) : Bool :=
  identIPAllowed o uid (peer.ident ++ '@' :: peer.ip) ||
    (peer.ip != peer.hostname && identIPAllowed o uid (peer.ident ++ '@' :: peer.hostname))

/-- `CheckState`: whether the command may go on, and the reply if it may not. -/
def checkState (c : Client) (reqdState : ClientState) : Bool × Option Reply :=
  if c.state = reqdState ∨ reqdState = .AnyState then (true, none)
  else if c.state = .LoggedIn then (false, some ⟨530, "Already logged in.".toList⟩)
  else if c.state = .WaitingPassword then (false, some ⟨503, "Expecting PASS comamnd.".toList⟩)
  else if c.state = .LoggedOut ∧ reqdState = .WaitingPassword then
    (false, some ⟨503, "Expecting USER command first.".toList⟩)
  else if reqdState = .NotBeforeAuth then
    if !c.isTLS then (false, some ⟨503, "AUTH command must be issued first.".toList⟩) else (true, none)
  else if c.state = .LoggedOut then (false, some ⟨530, "Not logged in.".toList⟩)
  else (false, none)

/-- `USERCommand::Execute`. -/
def user (o : Outside) (c : Client) (argStr : Str) : Outcome :=
  let kickLogin := argStr.head? == some '!'
  let name := if kickLogin then argStr.drop 1 else argStr
  let denied := replied c (some ⟨530, "User ".toList ++ name ++ " access denied.".toList⟩)
  match o.load name with
  | .error message => replied c (some ⟨530, message⟩)
  | .ok none => denied
  | .ok (some user) =>
    if user.hasFlag .Template then denied
    else if (o.cfg.tlsControl.evaluate (user.aclInfo o.gidToName)).1 && !c.isTLS then
      replied c (some ⟨530, "TLS is enforced on control connections.".toList⟩)
    else
      { client := { c with state := .WaitingPassword, user := some user, kickLogin := kickLogin }
        reply := some ⟨331, "Password required for ".toList ++ name ++ ".".toList⟩
        event := some (.accepted name o user)
        save := none }

/-- `PASS` behind a password that verified. -/
def passVerified (peer : Peer) (o : Outside) (c : Client) (user : User) : Client × Reply × Option Save :=
  let finish (c : Client) (text : Str) : Client × Reply × Option Save :=
    ({ c with state := .Finished }, ⟨421, text⟩, none)
  if !postCheckAddress peer o user.id then
    finish c ("Login not allowed from ".toList ++ peer.ident ++ '@' :: peer.hostnameAndIP ++ ['.'])
  else if user.hasFlag .Deleted then finish c "You have been deleted. Goodbye.".toList
  else if o.siteopOnly && !user.hasFlag .Siteop then
    (c, ⟨421, "Server has been shutdown.".toList⟩, none)
  else
    match Cmd.enter ⟨o.cfg, user, o.gidToName⟩ o.world with
    | .error e => finish c ("Unable to change to site root directory: ".toList ++ o.errnoMessage e)
    | .ok dir =>
      let c := { c with workDirectory := some dir }
      if user.expired o.today then finish c "Your account has expired.".toList
      else
        match o.counter with
        | .PersonalFail =>
          finish c ("You've reached your maximum of ".toList ++ (toString user.numLogins).toList ++
            " login(s).".toList)
        | .GlobalFail =>
          finish c "The server has reached it's maximum number of logged in users.".toList
        | .Okay =>
          ({ c with state := .LoggedIn, user := some (user.setLoggedIn o.now) },
            ⟨230, o.welcome ++ "User ".toList ++ user.name ++ " logged in.".toList⟩, some .loggedIn)

/-- `PASSCommand::Execute`. A client waits for a password with a user only, so there is one. -/
def pass (hashPassword : Str → Str → Str) (peer : Peer) (o : Outside) (c : Client) (argStr : Str) :
    Outcome :=
  let single := argStr.head? == some '-'
  let password := if single then argStr.drop 1 else argStr
  let c := { c with singleLineReplies := c.singleLineReplies || single }
  -- `cmd::SyntaxError`
  if password.isEmpty then replied c (some ⟨501, "Syntax: PASS <password>".toList⟩)
  else
    match c.user with
    | none => replied c none
    | some user =>
      let c := { c with passwordAttemps := c.passwordAttemps + 1 }
      if verifyPassword hashPassword user password then
        let (c, reply, save) := passVerified peer o c user
        ⟨c, some reply, some (.verified password o), save⟩
      else if c.passwordAttemps ≥ maxPasswordAttemps then
        ⟨{ c with state := .Finished },
          some ⟨530, "Password attempts exceeded, disconnecting.".toList⟩, some .refused, none⟩
      else
        ⟨{ c with state := .LoggedOut }, some ⟨530, "Login incorrect.".toList⟩, some .refused, none⟩

/-- `QUITCommand::Execute`. -/
def quit (o : Outside) (c : Client) : Outcome :=
  let goodbye := if c.state = .LoggedIn then o.goodbye else []
  replied { c with state := .Finished }
    (some ⟨221, if goodbye.isEmpty then "Bye bye".toList else goodbye⟩)

def other (o : Outside) (c : Client) : Outcome :=
  let c := { c with isTLS := c.isTLS || o.effects.isTLS }
  if c.state = .LoggedIn then
    let c := { c with state := if o.effects.finished then .Finished else .LoggedIn }
    match o.effects.tagline with
    | none => replied c none
    | some tagline => ⟨{ c with user := c.user.map (·.setTagline tagline) }, none, none, some .tagline⟩
  else replied c none

def execute (hashPassword : Str → Str → Str) (peer : Peer) (o : Outside) (c : Client)
    (command argStr : Str) : Outcome :=
  if command = "USER".toList then user o c argStr
  else if command = "PASS".toList then pass hashPassword peer o c argStr
  else if command = "QUIT".toList then quit o c
  else other o c

def executeCommand (hashPassword : Str → Str → Str) (peer : Peer) (o : Outside) (c : Client)
    (commandLine : Str) : Outcome :=
  if commandLine.isEmpty then replied c none
  else
    match split commandLine " ".toList true with
    -- `ProtocolError`, which nothing catches
    | [] => replied { c with state := .Finished } none
    | arg0 :: args =>
      let argStr := trimCopy (commandLine.drop arg0.length)
      let command := toUpperCopy arg0
      match lookup command with
      | none => replied c (some ⟨500, "Command not understood".toList⟩)
      | some d =>
        if !d.checkArgs (command :: args) then replied c (some ⟨501, ("Syntax: " ++ d.usage).toList⟩)
        else
          match checkState c d.requiredState with
          | (false, reply) => replied c reply
          | (true, _) =>
            if c.state = .LoggedIn ∧ !o.cscripts then replied c none
            else if !d.implemented then replied c (some ⟨502, "Command not implemented".toList⟩)
            else execute hashPassword peer o c command argStr

/-- `ReloadUser`: the client with the record loaded again, or `none` when it has to end. -/
def reloadUser (loadUID : UserID → Option User) (c : Client) : Option Client :=
  match c.user with
  | none => none
  | some user =>
    match loadUID user.id with
    | none => none
    | some loaded => if loaded.hasFlag .Deleted then none else some { c with user := some loaded }

/-- A connection: the client, and what its commands meant for the login, the latest first. -/
structure Connection where
  client : Client := {}
  log : List LoginEvent := []

/-- What one turn of the loop in `Handle` meets: the line, what `ReloadUser` loads from if the flag
`userUpdated` is set, and what the command meets. -/
structure Input where
  line : Str
  reload : Option (UserID → Option User) := none
  outside : Outside

/-- The client behind `if (userUpdated && !ReloadUser()) break`. The flag is only ever set for a
logged in client. -/
def reloaded (c : Client) (reload : Option (UserID → Option User)) : Option Client :=
  match reload with
  | none => some c
  | some loadUID => if c.state = .LoggedIn then reloadUser loadUID c else some c

/-- One turn of the loop in `Handle`. -/
def handle (hashPassword : Str → Str → Str) (peer : Peer) (s : Connection) (input : Input) :
    Option Connection :=
  if s.client.state = .Finished then none
  else
    match reloaded s.client input.reload with
    | none => some { s with client := { s.client with state := .Finished } }
    | some c =>
      let r := executeCommand hashPassword peer input.outside c input.line
      some { client := r.clientAfter input.outside.lost, log := r.event.toList ++ s.log }

end Ftp
end Ebftpd
