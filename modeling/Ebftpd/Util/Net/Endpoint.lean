import Ebftpd.Util.String
import Mathlib.Data.List.TakeWhile

/-!
# Ebftpd.Util.Net.Endpoint

`IPAddress` (`util/util/net/ipaddress.cpp`) and `Endpoint` (`util/util/net/endpoint.cpp`): an
address with the text it was read from, and a socket address beside the address and the port it
holds. `inet_pton` and `inet_ntop` are parameters.

* `Endpoint.Agrees`: the socket address, the address, its text and the port say the same. Every
  constructor gives such an endpoint.
-/

namespace Ebftpd
namespace Util
namespace Net

inductive IPFamily where
  | IPv4
  | IPv6
  deriving DecidableEq

/-- The bytes of an `in_addr` or an `in6_addr`. -/
def IPFamily.size : IPFamily → Nat
  | .IPv4 => 4
  | .IPv6 => 16

abbrev Octets (family : IPFamily) := { data : List UInt8 // data.length = family.size }

/-- `inet_pton` and `inet_ntop`. -/
structure Inet where
  pton : (family : IPFamily) → Str → Option (Octets family)
  ntop : (family : IPFamily) → Octets family → Str

/-- What the code relies on: a printed address is read back, by its own family only, and has no
bar in it. -/
structure Inet.Documented (inet : Inet) : Prop where
  inverts : ∀ family data, inet.pton family (inet.ntop family data) = some data
  family : ∀ data, inet.pton .IPv4 (inet.ntop .IPv6 data) = none
  plain : ∀ family data, ∀ c ∈ inet.ntop family data, c ≠ '|' ∧ c ≠ '\x00'

/-! ## Addresses -/

structure IPAddress where
  family : IPFamily
  data : Octets family
  -- the text it was read from; a copy has none, and `ToString` prints one where there is none
  asString : Str

namespace IPAddress

def ofData (family : IPFamily) (data : Octets family) : IPAddress := ⟨family, data, []⟩

/-- `FromString`; `InvalidIPAddressError` is `none`. -/
def fromString (inet : Inet) (addr : Str) : Option IPAddress :=
  match inet.pton .IPv4 (cStr addr) with
  | some data => some ⟨.IPv4, data, addr⟩
  | none =>
    match inet.pton .IPv6 (cStr addr) with
    | some data => some ⟨.IPv6, data, addr⟩
    | none => none

def toString (inet : Inet) (ip : IPAddress) : Str :=
  if ip.asString.isEmpty then inet.ntop ip.family ip.data else ip.asString

/-- The copy constructor. -/
def copy (ip : IPAddress) : IPAddress := ofData ip.family ip.data

/-- `IN6_IS_ADDR_V4MAPPED`. -/
def mappedPrefix : List UInt8 := List.replicate 10 0 ++ [255, 255]

def isMappedv4 (ip : IPAddress) : Bool := ip.family == .IPv6 && mappedPrefix.isPrefixOf ip.data.1

variable {inet : Inet}

theorem fromString_asString {addr : Str} {ip : IPAddress} (h : fromString inet addr = some ip) :
    ip.asString = addr := by
  unfold fromString at h
  split at h
  · cases h
    rfl
  · split at h <;> cases h
    rfl

theorem fromString_isSome_iff {addr : Str} :
    (fromString inet addr).isSome = true ↔
      (inet.pton .IPv4 (cStr addr)).isSome = true ∨ (inet.pton .IPv6 (cStr addr)).isSome = true := by
  unfold fromString
  split
  · rename_i h
    simp [h]
  · rename_i h
    split
    · rename_i h'
      simp [h']
    · rename_i h'
      simp [h, h']

/-- A printed address is read back. -/
theorem fromString_ntop (hinet : inet.Documented) (family : IPFamily) (data : Octets family) :
    fromString inet (inet.ntop family data) = some ⟨family, data, inet.ntop family data⟩ := by
  have hcut : cStr (inet.ntop family data) = inet.ntop family data :=
    cStr_of_notMem fun hnul => (hinet.plain family data _ hnul).2 rfl
  cases family with
  | IPv4 => rw [fromString, hcut, hinet.inverts]
  | IPv6 => rw [fromString, hcut, hinet.family, hinet.inverts]

end IPAddress

/-! ## Endpoints -/

/-- `ntohs`, the bytes being in network order. -/
def ntohs (port : UInt8 × UInt8) : Nat := 256 * port.1.toNat + port.2.toNat

/-- `htons`, of the port taken modulo `2^16`. -/
def htons (port : Int) : UInt8 × UInt8 :=
  (UInt8.ofNat ((port % 65536).toNat / 256), UInt8.ofNat ((port % 65536).toNat % 256))

theorem ntohs_lt (port : UInt8 × UInt8) : ntohs port < 65536 := by
  have h₁ : port.1.toNat < 256 := port.1.toNat_lt
  have h₂ : port.2.toNat < 256 := port.2.toNat_lt
  unfold ntohs
  omega

theorem ntohs_htons {port : Int} (h₀ : 0 ≤ port) (h₁ : port < 65536) : (ntohs (htons port) : Int) = port := by
  simp only [ntohs, htons, UInt8.toNat_ofNat', Int.emod_eq_of_lt h₀ h₁]
  omega

/-- `sockaddr_in` and `sockaddr_in6`. -/
structure SockAddr where
  family : IPFamily
  addr : Octets family
  port : UInt8 × UInt8

structure Endpoint where
  addr : SockAddr
  ip : IPAddress
  port : Int

namespace Endpoint

/-- `Endpoint(const struct sockaddr_in&)`, `Endpoint(const struct sockaddr_in6&)`. -/
def ofAddr (addr : SockAddr) : Endpoint where
  addr := addr
  ip := .ofData addr.family addr.addr
  port := ntohs addr.port

/-- `Endpoint(const IPAddress&, int32_t)`. -/
def ofIP (ip : IPAddress) (port : Int) : Endpoint where
  addr := ⟨ip.family, ip.data, htons port⟩
  ip := ip.copy
  port := port

/-- `Endpoint(const std::string&, int32_t)`. -/
def ofString (inet : Inet) (addr : Str) (port : Int) : Option Endpoint :=
  (IPAddress.fromString inet addr).map fun ip => ⟨⟨ip.family, ip.data, htons port⟩, ip, port⟩

/-- What an endpoint is: family, address and port. -/
def value (ep : Endpoint) : IPFamily × List UInt8 × Int := (ep.ip.family, ep.ip.data.1, ep.port)

structure Agrees (inet : Inet) (ep : Endpoint) : Prop where
  family : ep.addr.family = ep.ip.family
  addr : ep.addr.addr.1 = ep.ip.data.1
  port : (ntohs ep.addr.port : Int) = ep.port
  /-- The text is that of the address, and has no bar. -/
  text : ep.ip.asString = [] ∨
    IPAddress.fromString inet ep.ip.asString = some ep.ip ∧ '|' ∉ ep.ip.asString

variable {inet : Inet}

theorem ofAddr_agrees (addr : SockAddr) : (ofAddr addr).Agrees inet :=
  ⟨rfl, rfl, rfl, .inl rfl⟩

theorem ofIP_agrees (ip : IPAddress) {port : Int} (h₀ : 0 ≤ port) (h₁ : port < 65536) :
    (ofIP ip port).Agrees inet :=
  ⟨rfl, rfl, ntohs_htons h₀ h₁, .inl rfl⟩

theorem ofString_agrees {addr : Str} {port : Int} {ep : Endpoint}
    (h : ofString inet addr port = some ep) (h₀ : 0 ≤ port) (h₁ : port < 65536) (hbar : '|' ∉ addr) :
    ep.Agrees inet := by
  obtain ⟨ip, hip, rfl⟩ := Option.map_eq_some_iff.1 h
  have htext := IPAddress.fromString_asString hip
  refine ⟨rfl, rfl, ntohs_htons h₀ h₁, .inr ?_⟩
  rw [htext]
  exact ⟨hip, hbar⟩

theorem value_ofAddr {ep : Endpoint} (h : ep.Agrees inet) : (ofAddr ep.addr).value = ep.value := by
  simp only [value, ofAddr, IPAddress.ofData, h.family, h.addr, h.port]

/-- The text an endpoint is written with is read as its address. -/
theorem fromString_toString (hinet : inet.Documented) {ep : Endpoint} (h : ep.Agrees inet) :
    ∃ ip, IPAddress.fromString inet (ep.ip.toString inet) = some ip ∧
      ip.family = ep.ip.family ∧ ip.data.1 = ep.ip.data.1 ∧ '|' ∉ ep.ip.toString inet := by
  unfold IPAddress.toString
  rcases h.text with htext | ⟨htext, hbar⟩
  · rw [htext, List.isEmpty_nil, if_pos rfl]
    exact ⟨_, IPAddress.fromString_ntop hinet _ _, rfl, rfl,
      fun hc => (hinet.plain _ _ _ hc).1 rfl⟩
  · split
    · exact ⟨_, IPAddress.fromString_ntop hinet _ _, rfl, rfl,
        fun hc => (hinet.plain _ _ _ hc).1 rfl⟩
    · exact ⟨ep.ip, htext, rfl, rfl, hbar⟩

end Endpoint

end Net
end Util
end Ebftpd
