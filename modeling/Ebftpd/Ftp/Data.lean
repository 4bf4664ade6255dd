import Ebftpd.Util.Error

/-!
# Ebftpd.Ftp.Data

The data connection of a client (`src/ftp/data.cpp`, `src/ftp/data.hpp`): how it is prepared by a
passive or an active command, opened for a transfer and closed behind it. The mode, the listener and
the socket are set at different points of these functions, and several of their steps throw.

What a call outside returns comes with `SetupCalls` and `OpenCalls`. The role in the handshake and
the endpoints that are only printed are left out.

* `initPassive_selected`, `initActive_selected`: when the selected mode has a listener behind it.
* `openFor_selected`, `close_selected`: opening and closing leave it there.
-/

namespace Ebftpd
namespace Ftp

open Util

inductive PassiveType where
  | PASV | EPSV | LPSV | CPSV | None
  deriving DecidableEq

inductive TransferType where
  | Upload | Download | List | None
  deriving DecidableEq

inductive EPSVMode where
  | Extended | Normal
  deriving DecidableEq

/-- A `NetworkError` and what is thrown for it. -/
inductive NetError where
  | network (message : String)
  | timeout
  | endOfStream
  | system (errno : Errno)
  deriving DecidableEq

structure Data where
  -- `listener.IsListening()`
  listening : Bool
  -- `socket.IsConnected()`
  connected : Bool
  protection : Bool
  pasvType : PassiveType
  epsvMode : EPSVMode
  -- `dataType` is `ASCII`
  ascii : Bool
  restartOffset : Int
  -- `state.Type()`
  transferType : TransferType

namespace Data

/-- `Data::Data`, with the mode that `epsv_fxp` asks for. -/
def init (epsvMode : EPSVMode) : Data where
  listening := false
  connected := false
  protection := false
  pasvType := .None
  epsvMode := epsvMode
  ascii := false
  restartOffset := 0
  transferType := .None

/-- One turn of the loop over the ports: `Listen` or `Connect` on the next one. -/
inductive Attempt where
  | okay
  -- `EADDRINUSE`
  | inUse
  | failed (e : NetError)

/-- The loop over the ports; the list ends where the first port comes round again. -/
def tryPorts : List Attempt → Except NetError Unit
  | [] => .error (.network "All ports exhausted.")
  | .okay :: _ => .ok ()
  | .inUse :: attempts => tryPorts attempts
  | .failed e :: _ => .error e

structure SetupCalls where
  -- the search for a local address
  address : Except NetError Unit
  attempts : List Attempt
  -- `IPAddress(natAddr)`; an active connection does not ask
  natAddr : Except NetError Unit

/-- The steps of `InitPassive` and `InitActive` that come before the listener or the socket is
there. -/
def SetupCalls.setUp (calls : SetupCalls) : Except NetError Unit :=
  match calls.address with
  | .error e => .error e
  | .ok () => tryPorts calls.attempts

def initPassive (calls : SetupCalls) (pasvType : PassiveType) (data : Data) :
    Except NetError Unit × Data :=
  let data := { data with connected := false, listening := false }
  match calls.setUp with
  | .error e => (.error e, data)
  | .ok () => (calls.natAddr, { data with listening := true, pasvType := pasvType })

def initActive (calls : SetupCalls) (data : Data) : Except NetError Unit × Data :=
  let data := { data with pasvType := .None, connected := false, listening := false }
  match calls.setUp with
  | .error e => (.error e, data)
  | .ok () => (.ok (), { data with connected := true })

structure OpenCalls where
  -- `listener.Accept`
  accept : Except NetError Unit
  -- `IsFXP`, and what the ACLs say to it
  isFXP : Bool
  allowFxp : Bool
  -- `HandshakeTLS`
  handshake : Except NetError Unit

inductive Opened where
  -- `assert(listener.IsListening())`
  | assertion
  | failed (e : NetError)
  | okay
  deriving DecidableEq

def fxpMessage (transferType : TransferType) : String :=
  "FXP " ++ (if transferType = .Upload then "upload from" else "download to") ++ " not allowed."

/-- `Data::Open` behind the accepted or connected socket. -/
def openSocket (transferType : TransferType) (calls : OpenCalls) (data : Data) : Opened × Data :=
  if transferType ≠ .List ∧ calls.isFXP ∧ !calls.allowFxp then
    (.failed (.network (fxpMessage transferType)), { data with connected := false })
  else
    match (if data.protection then calls.handshake else .ok ()) with
    | .error e => (.failed e, data)
    | .ok () => (.okay, { data with transferType := transferType })

/-- `Data::Open`. -/
def openFor (transferType : TransferType) (calls : OpenCalls) (data : Data) : Opened × Data :=
  if data.pasvType ≠ .None then
    if !data.listening then (.assertion, data)
    else
      match calls.accept with
      | .error e => (.failed e, data)
      | .ok () => openSocket transferType calls { data with connected := true }
  else if !data.connected then (.failed (.network "Invalid command sequence"), data)
  else openSocket transferType calls data

def close (data : Data) : Data :=
  { data with restartOffset := 0, connected := false, transferType := .None }

/-! ## The selected mode -/

/-- A passive mode is selected only with a listener behind it. -/
def Selected (data : Data) : Prop := data.pasvType ≠ .None → data.listening = true

instance (data : Data) : Decidable (Selected data) := inferInstanceAs (Decidable (_ → _))

theorem init_selected (epsvMode : EPSVMode) : Selected (init epsvMode) := fun h => absurd rfl h

/-- The listener is closed in front of everything that fails, the mode is set behind it. -/
theorem initPassive_selected (calls : SetupCalls) (pasvType : PassiveType) (data : Data) :
    Selected (initPassive calls pasvType data).2 ↔
      (calls.setUp.isOk = true ∨ data.pasvType = .None) := by
  unfold initPassive
  split
  · rename_i e hsetup
    simp [Selected, hsetup, Except.isOk, Except.toBool]
  · rename_i hsetup
    simp [Selected, hsetup, Except.isOk, Except.toBool]

theorem initActive_selected (calls : SetupCalls) (data : Data) : Selected (initActive calls data).2 := by
  unfold initActive
  split
  · exact fun h => absurd rfl h
  · exact fun h => absurd rfl h

theorem initPassive_offset (calls : SetupCalls) (pasvType : PassiveType) (data : Data) :
    (initPassive calls pasvType data).2.restartOffset = data.restartOffset := by
  unfold initPassive
  split
  · rfl
  · rfl

theorem initActive_offset (calls : SetupCalls) (data : Data) :
    (initActive calls data).2.restartOffset = data.restartOffset := by
  unfold initActive
  split
  · rfl
  · rfl

/-- What `Open` leaves as it was. -/
structure SameSetup (data data' : Data) : Prop where
  listening : data'.listening = data.listening
  pasvType : data'.pasvType = data.pasvType
  restartOffset : data'.restartOffset = data.restartOffset

theorem openSocket_same (transferType : TransferType) (calls : OpenCalls) (data : Data) :
    SameSetup data (openSocket transferType calls data).2 := by
  unfold openSocket
  split
  · exact ⟨rfl, rfl, rfl⟩
  · split
    · exact ⟨rfl, rfl, rfl⟩
    · exact ⟨rfl, rfl, rfl⟩

theorem openFor_same (transferType : TransferType) (calls : OpenCalls) (data : Data) :
    SameSetup data (openFor transferType calls data).2 := by
  unfold openFor
  split
  · split
    · exact ⟨rfl, rfl, rfl⟩
    · split
      · exact ⟨rfl, rfl, rfl⟩
      · obtain ⟨h₁, h₂, h₃⟩ := openSocket_same transferType calls { data with connected := true }
        exact ⟨h₁, h₂, h₃⟩
  · split
    · exact ⟨rfl, rfl, rfl⟩
    · exact openSocket_same transferType calls data

theorem openFor_selected {transferType : TransferType} {calls : OpenCalls} {data : Data}
    (h : Selected data) : Selected (openFor transferType calls data).2 := by
  obtain ⟨hlistening, hpasv, -⟩ := openFor_same transferType calls data
  unfold Selected
  rw [hlistening, hpasv]
  exact h

theorem close_selected {data : Data} (h : Selected data) : Selected data.close := h

theorem openSocket_assertion (transferType : TransferType) (calls : OpenCalls) (data : Data) :
    (openSocket transferType calls data).1 ≠ .assertion := by
  unfold openSocket
  split
  · simp
  · split
    · simp
    · simp

/-- The assertion of `Open` fails exactly where a passive mode is selected without a listener. -/
theorem openFor_assertion (transferType : TransferType) (calls : OpenCalls) (data : Data) :
    (openFor transferType calls data).1 = .assertion ↔ ¬Selected data := by
  unfold openFor Selected
  by_cases hpasv : data.pasvType = .None
  · rw [if_neg (by simpa using hpasv)]
    split
    · simp [hpasv]
    · simp [hpasv, openSocket_assertion]
  · rw [if_pos hpasv]
    cases hlistening : data.listening with
    | false => simp [hpasv]
    | true =>
      simp only [Bool.not_true, Bool.false_eq_true, if_false]
      split
      · simp
      · simp [openSocket_assertion]

end Data
end Ftp
end Ebftpd
