import Ebftpd.Ftp.Data
import Ebftpd.Util.Net.IPAddress

/-!
# Ebftpd.Ftp.Remote

What is decided by the address of the other end of a connection: `Data::IsFXP` (`src/ftp/data.cpp`),
and in `src/ftp/clientimpl.cpp` the text that `Accept` keeps of the address and the bouncers that
`InnerRun` looks for. The address of a remote endpoint comes out of a socket and has no text yet.

* `addressEquality_exact`: the equality of addresses, and `IsFXP` with it.
* `openSocket_same`: a transfer between the two ends of the control connection needs no permission.
* `innerRun_same`: the forms of one address are admitted alike.
-/

namespace Ebftpd
namespace Ftp
namespace Remote

open Util Util.Net Util.Net.IPAddress

variable {held : Nat → IPAddress.Data} {depth : Nat} {ip addr socket control : Object}

/-- `IsFXP`, of the remote addresses of the data socket and the control connection. -/
def isFXP (held : Nat → IPAddress.Data) (depth : Nat) (socket control : Object) : Option Bool :=
  (socket.equals held depth control).map (!·)

theorem isFXP_eq (held : Nat → IPAddress.Data) (depth : Nat) (socket control : Object) :
    isFXP held (depth + 3) socket control = some (decide (socket.address.plain ≠ control.address.plain)) := by
  rw [isFXP, Object.equals_eq, Option.map_some, decide_not]

/-- `Equals` returns for every two addresses and holds if and only if they are identical without a
mapping, so it is an equivalence; `IsFXP` is its negation. -/
theorem addressEquality_exact (held : Nat → IPAddress.Data) :
    (∀ (depth : Nat) (ip addr : Object),
      ip.equals held (depth + 3) addr = some (decide (ip.address.plain = addr.address.plain))) ∧
    Equivalence (Object.Same held) ∧
    ∀ (depth : Nat) (socket control : Object),
      isFXP held (depth + 3) socket control = some (decide (socket.address.plain ≠ control.address.plain)) :=
  ⟨Object.equals_eq held, Object.same_equivalence held, isFXP_eq held⟩

/-- An end that is the same address is never asked for the permission of an FXP transfer. -/
theorem openSocket_same (h : Object.Same held socket control) {calls : Data.OpenCalls}
    (hcalls : isFXP held (depth + 3) socket control = some calls.isFXP) (transferType : TransferType) (data : Data) :
    data.openSocket transferType calls = data.openSocket transferType { calls with allowFxp := true } := by
  have hsame := Object.same_iff.mp h
  have hfalse : calls.isFXP = false := by
    rw [isFXP_eq, decide_eq_false (not_not.mpr hsame)] at hcalls
    exact (Option.some.inj hcalls).symm
  simp [Data.openSocket, hfalse]

/-! ## Bouncers -/

/-- What `Accept` keeps: the text of the address without its mapping. -/
def acceptIP (inet : Inet) (held : IPAddress.Data) (ip : Object) : Str :=
  if ip.isMappedv4 then (ip.toUnmappedv4 held).toString inet else ip.toString inet

structure Bouncers where
  bouncerIp : List Str
  bouncerOnly : Bool

/-- `IsBouncer`. -/
def Bouncers.isBouncer (cfg : Bouncers) (ip : Str) : Bool := cfg.bouncerIp.any (ip == ·)

/-- The control connection's `WaitForIdnt`, which is empty behind its timeout, and `IdntParse`. -/
structure IdntCalls where
  waitForIdnt : Str
  idntParse : Str → Bool

inductive Admission where
  -- the event that is logged
  | refused (event : String)
  | served

/-- `InnerRun`, in front of `HostnameLookup`. -/
def innerRun (cfg : Bouncers) (calls : IdntCalls) (held : Nat → IPAddress.Data) (depth : Nat) (ip : Str)
    (remote : Object) : Option Admission :=
  if !cfg.isBouncer ip then
    if cfg.bouncerOnly then
      (remote.isLoopback held depth).map fun loopback => if !loopback then .refused "NONBOUNCER" else .served
    else some .served
  else if calls.waitForIdnt.isEmpty then
    if cfg.bouncerOnly then some (.refused "IDNTTIMEOUT") else some .served
  else if !calls.idntParse calls.waitForIdnt then some (.refused "BADIDNT")
  else some .served

/-- The text of an address without a representation. -/
def text (inet : Inet) : Address → Str
  | .v4 addr => inet.ntop .IPv4 addr
  | .v6 addr => inet.ntop .IPv6 addr

theorem text_ofOctets (inet : Inet) (family : IPFamily) (data : Octets family) :
    text inet (.ofOctets family data) = inet.ntop family data := by
  cases family <;> rfl

theorem toString_eq {inet : Inet} (h : ip.asString = []) : ip.toString inet = text inet ip.address := by
  rw [Object.toString, h, List.isEmpty_nil, if_pos rfl, Object.address, text_ofOctets]

/-- All forms of an address are kept as one text. -/
theorem acceptIP_eq {inet : Inet} {held : IPAddress.Data} (h : ip.asString = []) :
    acceptIP inet held ip = text inet ip.address.plain := by
  unfold acceptIP
  cases hmapped : ip.isMappedv4 with
  | true => rw [if_pos rfl, toString_eq rfl, ← Object.plain_mapped hmapped]
  | false => rw [if_neg Bool.false_ne_true, toString_eq h, Object.plain_unmapped hmapped]

/-- Whether a client is admitted depends on its address without a mapping. -/
theorem innerRun_same (cfg : Bouncers) (calls : IdntCalls) (inet : Inet) (h : Object.Same held ip addr)
    (hip : ip.asString = []) (haddr : addr.asString = []) :
    innerRun cfg calls held (depth + 2) (acceptIP inet (held depth) ip) ip =
      innerRun cfg calls held (depth + 2) (acceptIP inet (held depth) addr) addr := by
  have hsame := Object.same_iff.mp h
  rw [acceptIP_eq hip, acceptIP_eq haddr, hsame]
  unfold innerRun
  rw [Object.isLoopback_eq, Object.isLoopback_eq, hsame]

end Remote
end Ftp
end Ebftpd
