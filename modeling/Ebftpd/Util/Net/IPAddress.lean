import Ebftpd.Util.Net.Endpoint
import Mathlib.Logic.Relation

/-!
# Ebftpd.Util.Net.IPAddress

`IPAddress` as it lies in memory (`util/util/net/ipaddress.hpp`): a union of sixteen bytes. An IPv4
address takes the first four of them, and `unmapped.in4` lies over the last four. The bytes behind
`dataLen` are what the memory held before; every `held` below stands for them. `read` is the address
of `Util.Net.Endpoint`, which is without them.

* `equals_eq`: `Equals` calls itself twice at most, and compares the addresses that are left when a
  mapped one is replaced by its IPv4 address.
* `same_equivalence`: so it is an equivalence.
* `isLoopback_eq`: `IsLoopback` asks the same address.
-/

namespace Ebftpd
namespace Util
namespace Net

/-- `INADDR_LOOPBACK`, in network order. -/
def loopbackv4 : List UInt8 := [127, 0, 0, 1]

/-- `IN6_IS_ADDR_LOOPBACK`. -/
def loopbackv6 : List UInt8 := List.replicate 15 0 ++ [1]

theorem IPFamily.size_le (family : IPFamily) : family.size ≤ 16 := by cases family <;> decide

theorem IPFamily.size_inj {family family' : IPFamily} (h : family.size = family'.size) : family = family' := by
  cases family <;> cases family' <;> first | rfl | cases h

/-! ## Addresses without a representation -/

inductive Address where
  | v4 (addr : Octets .IPv4)
  | v6 (addr : Octets .IPv6)
  deriving DecidableEq

namespace Address

def ofOctets : (family : IPFamily) → Octets family → Address
  | .IPv4, addr => .v4 addr
  | .IPv6, addr => .v6 addr

theorem ofOctets_inj {family family' : IPFamily} {addr : Octets family} {addr' : Octets family'} :
    ofOctets family addr = ofOctets family' addr' ↔ family = family' ∧ addr.1 = addr'.1 := by
  cases family <;> cases family' <;> simp [ofOctets, Subtype.ext_iff]

theorem mapped_length (addr : Octets .IPv4) :
    (IPAddress.mappedPrefix ++ addr.1).length = IPFamily.IPv6.size := by
  rw [List.length_append, addr.2]
  rfl

/-- `::ffff:a.b.c.d`. -/
def mapped (addr : Octets .IPv4) : Octets .IPv6 := ⟨IPAddress.mappedPrefix ++ addr.1, mapped_length addr⟩

theorem drop_length (addr : Octets .IPv6) : (addr.1.drop 12).length = IPFamily.IPv4.size := by
  rw [List.length_drop, addr.2]
  rfl

/-- The last four bytes. -/
def low (addr : Octets .IPv6) : Octets .IPv4 := ⟨addr.1.drop 12, drop_length addr⟩

/-- A mapped address is replaced by its IPv4 address. -/
def plain : Address → Address
  | .v4 addr => .v4 addr
  | .v6 addr => if addr = mapped (low addr) then .v4 (low addr) else .v6 addr

@[simp] theorem low_mapped (addr : Octets .IPv4) : low (mapped addr) = addr := Subtype.ext rfl

theorem plain_mapped (addr : Octets .IPv4) : plain (.v6 (mapped addr)) = .v4 addr := by
  rw [plain, low_mapped, if_pos rfl]

theorem plain_of_ne {addr : Octets .IPv6} (h : ∀ addr', addr ≠ mapped addr') : plain (.v6 addr) = .v6 addr :=
  if_neg (h (low addr))

/-- The prefix is all that makes an address a mapped one. -/
theorem exists_mapped_iff {addr : Octets .IPv6} :
    (∃ addr', addr = mapped addr') ↔ IPAddress.mappedPrefix.isPrefixOf addr.1 = true := by
  rw [List.isPrefixOf_iff_prefix]
  constructor
  · rintro ⟨addr', rfl⟩
    exact List.prefix_append _ _
  · rintro ⟨rest, hrest⟩
    refine ⟨low addr, Subtype.ext ?_⟩
    change addr.1 = IPAddress.mappedPrefix ++ addr.1.drop 12
    rw [← hrest]
    rfl

/-- `127.0.0.1` and `::1`. -/
def loopback : Address → Bool
  | .v4 addr => addr.1 == loopbackv4
  | .v6 addr => addr.1 == loopbackv6

end Address

/-! ## Addresses in memory -/

namespace IPAddress

/-- `union Data`. -/
abbrev Data := Octets .IPv6

theorem memcpy_length {family : IPFamily} (held : Data) (addr : Octets family) :
    (addr.1 ++ held.1.drop family.size).length = IPFamily.IPv6.size := by
  have hsize := family.size_le
  have hheld : held.1.length = 16 := held.2
  rw [List.length_append, List.length_drop, addr.2, hheld]
  exact Nat.add_sub_of_le hsize

/-- `memcpy(&data, addr, family.size)`. -/
def memcpy {family : IPFamily} (held : Data) (addr : Octets family) : Data :=
  ⟨addr.1 ++ held.1.drop family.size, memcpy_length held addr⟩

structure Object where
  data : Data
  dataLen : Nat
  family : IPFamily
  asString : Str
  len_eq : dataLen = family.size

namespace Object

/-- `IPAddress(const void*, socklen_t)`; the callers give it an `in_addr` or an `in6_addr`. -/
def ofAddr {family : IPFamily} (held : Data) (addr : Octets family) : Object :=
  ⟨memcpy held addr, family.size, family, [], rfl⟩

theorem take_length (ip : Object) : (ip.data.1.take ip.dataLen).length = ip.family.size := by
  have hdata : ip.data.1.length = 16 := ip.data.2
  rw [List.length_take, hdata, ip.len_eq]
  exact Nat.min_eq_left ip.family.size_le

/-- The bytes in use. -/
def octets (ip : Object) : Octets ip.family := ⟨ip.data.1.take ip.dataLen, ip.take_length⟩

/-- The copy constructor. -/
def copy (held : Data) (ip : Object) : Object :=
  ⟨memcpy held ip.octets, ip.dataLen, ip.family, [], ip.len_eq⟩

/-- `FromString`, over a union that is set to 0. -/
def fromString (inet : Inet) (addr : Str) : Option Object :=
  let zero : Data := ⟨List.replicate 16 0, rfl⟩
  match inet.pton .IPv4 (cStr addr) with
  | some data => some ⟨memcpy zero data, 4, .IPv4, addr, rfl⟩
  | none =>
    match inet.pton .IPv6 (cStr addr) with
    | some data => some ⟨memcpy zero data, 16, .IPv6, addr, rfl⟩
    | none => none

def toString (inet : Inet) (ip : Object) : Str :=
  if ip.asString.isEmpty then inet.ntop ip.family ip.octets else ip.asString

def isMappedv4 (ip : Object) : Bool :=
  if ip.family ≠ .IPv6 then false else mappedPrefix.isPrefixOf ip.data.1

/-- `ToUnmappedv4`, which reads `unmapped.in4` of any address. -/
def toUnmappedv4 (held : Data) (ip : Object) : Object := ofAddr held (Address.low ip.data)

/-- `Equals`, and how deep it may call itself. The objects that `ToUnmappedv4` returns are new ones. -/
def equals (held : Nat → Data) : Nat → Object → Object → Option Bool
  | 0, _, _ => none
  | depth + 1, ip, addr =>
    if ip.isMappedv4 then equals held depth (ip.toUnmappedv4 (held depth)) addr
    else if addr.isMappedv4 then equals held depth ip (addr.toUnmappedv4 (held depth))
    else if ip.dataLen ≠ addr.dataLen then some false
    else some (ip.data.1.take ip.dataLen == addr.data.1.take ip.dataLen)

def isLoopback (held : Nat → Data) : Nat → Object → Option Bool
  | 0, _ => none
  | depth + 1, ip =>
    if ip.family = .IPv4 then some (ip.data.1.take 4 == loopbackv4)
    else if ip.isMappedv4 then isLoopback held depth (ip.toUnmappedv4 (held depth))
    else some (ip.data.1 == loopbackv6)

/-! ## What the object says -/

def read (ip : Object) : IPAddress := ⟨ip.family, ip.octets, ip.asString⟩

def address (ip : Object) : Address := .ofOctets ip.family ip.octets

variable {held : Data} {ip addr : Object}

theorem take_memcpy {family : IPFamily} (held : Data) (addr : Octets family) :
    (memcpy held addr).1.take family.size = addr.1 :=
  List.take_left' addr.2

theorem read_ofAddr {family : IPFamily} (addr : Octets family) :
    (ofAddr held addr).read = .ofData family addr := by
  have hbytes : (ofAddr held addr).octets = addr := Subtype.ext (take_memcpy held addr)
  rw [read, hbytes]
  rfl

theorem read_copy : (ip.copy held).read = ip.read.copy := by
  have hbytes : (ip.copy held).octets = ip.octets := by
    refine Subtype.ext ?_
    change (memcpy held ip.octets).1.take ip.dataLen = ip.octets.1
    rw [ip.len_eq]
    exact take_memcpy held ip.octets
  rw [read, hbytes]
  rfl

theorem read_fromString (inet : Inet) (text : Str) :
    (fromString inet text).map read = IPAddress.fromString inet text := by
  unfold fromString IPAddress.fromString
  cases inet.pton .IPv4 (cStr text) with
  | some data => exact congrArg some (congrArg (IPAddress.mk .IPv4 · text) (Subtype.ext (take_memcpy _ data)))
  | none =>
    cases inet.pton .IPv6 (cStr text) with
    | some data => exact congrArg some (congrArg (IPAddress.mk .IPv6 · text) (Subtype.ext (take_memcpy _ data)))
    | none => rfl

theorem toString_read (inet : Inet) : ip.read.toString inet = ip.toString inet := rfl

/-- An IPv6 address is all of the union. -/
theorem octets_v6 (h : ip.family = .IPv6) : ip.octets.1 = ip.data.1 := by
  change ip.data.1.take ip.dataLen = ip.data.1
  rw [ip.len_eq, h]
  exact List.take_of_length_le (le_of_eq ip.data.2)

theorem isMappedv4_read : ip.read.isMappedv4 = ip.isMappedv4 := by
  unfold isMappedv4 IPAddress.isMappedv4
  change (ip.family == .IPv6 && mappedPrefix.isPrefixOf ip.octets.1) = _
  by_cases h : ip.family = .IPv6
  · rw [octets_v6 h, if_neg (not_not.mpr h), beq_iff_eq.mpr h, Bool.true_and]
  · rw [if_pos h, beq_eq_false_iff_ne.mpr h, Bool.false_and]

theorem address_eq_iff : ip.address = addr.address ↔
    ip.dataLen = addr.dataLen ∧ ip.data.1.take ip.dataLen = addr.data.1.take addr.dataLen := by
  rw [address, address, Address.ofOctets_inj]
  refine and_congr_left fun _ => ?_
  rw [ip.len_eq, addr.len_eq]
  exact ⟨congrArg IPFamily.size, IPFamily.size_inj⟩

theorem address_v6 (h : ip.family = .IPv6) : ip.address = .v6 ip.data := by
  have hof : ip.address = Address.ofOctets .IPv6 ip.data :=
    Address.ofOctets_inj.mpr ⟨h, octets_v6 h⟩
  exact hof

theorem address_v4 (h : ip.family = .IPv4) :
    ip.address = .v4 ⟨ip.octets.1, ip.octets.2.trans (congrArg IPFamily.size h)⟩ := by
  have hof : ip.address = Address.ofOctets .IPv4 ⟨ip.octets.1, ip.octets.2.trans (congrArg IPFamily.size h)⟩ :=
    Address.ofOctets_inj.mpr ⟨h, rfl⟩
  exact hof

theorem ne_v6_iff : ip.family ≠ .IPv6 ↔ ip.family = .IPv4 := by
  cases ip.family <;> decide

theorem family_of_mapped (h : ip.isMappedv4 = true) : ip.family = .IPv6 := by
  unfold isMappedv4 at h
  split at h
  · cases h
  · rename_i hfamily
    exact not_not.mp hfamily

theorem isMappedv4_toUnmappedv4 : (ip.toUnmappedv4 held).isMappedv4 = false := rfl

theorem address_toUnmappedv4 : (ip.toUnmappedv4 held).address = .v4 (Address.low ip.data) :=
  congrArg Address.v4 (Subtype.ext (take_memcpy held (Address.low ip.data)))

/-- What the overlay reads is the address behind the mapped one. -/
theorem plain_mapped (h : ip.isMappedv4 = true) : ip.address.plain = (ip.toUnmappedv4 held).address := by
  have hfamily := family_of_mapped h
  have hprefix : mappedPrefix.isPrefixOf ip.data.1 = true := by
    rwa [isMappedv4, if_neg (not_not.mpr hfamily)] at h
  obtain ⟨addr, haddr⟩ := Address.exists_mapped_iff.mpr hprefix
  rw [address_toUnmappedv4, address_v6 hfamily, haddr, Address.plain_mapped, Address.low_mapped]

theorem plain_unmapped (h : ip.isMappedv4 = false) : ip.address.plain = ip.address := by
  by_cases hfamily : ip.family = .IPv6
  · have hprefix : ¬ mappedPrefix.isPrefixOf ip.data.1 = true := by
      rw [isMappedv4, if_neg (not_not.mpr hfamily)] at h
      simp [h]
    rw [address_v6 hfamily]
    exact Address.plain_of_ne fun addr he => hprefix (Address.exists_mapped_iff.mp ⟨addr, he⟩)
  · rw [address_v4 (ne_v6_iff.mp hfamily)]
    rfl

theorem plain_toUnmappedv4 (h : ip.isMappedv4 = true) :
    (ip.toUnmappedv4 held).address.plain = ip.address.plain := by
  rw [plain_mapped h, plain_unmapped isMappedv4_toUnmappedv4]

/-! ## Equality -/

section Equals

variable {held : Nat → Data} {depth : Nat}

theorem equals_left (h : ip.isMappedv4 = true) :
    equals held (depth + 1) ip addr = equals held depth (ip.toUnmappedv4 (held depth)) addr :=
  if_pos h

theorem equals_right (hip : ip.isMappedv4 = false) (h : addr.isMappedv4 = true) :
    equals held (depth + 1) ip addr = equals held depth ip (addr.toUnmappedv4 (held depth)) := by
  rw [equals, if_neg (Bool.eq_false_iff.mp hip), if_pos h]

theorem equals_unmapped (hip : ip.isMappedv4 = false) (haddr : addr.isMappedv4 = false) :
    equals held (depth + 1) ip addr = some (decide (ip.address = addr.address)) := by
  rw [equals, if_neg (Bool.eq_false_iff.mp hip), if_neg (Bool.eq_false_iff.mp haddr)]
  by_cases hlen : ip.dataLen = addr.dataLen
  · have hbytes : (ip.address = addr.address) ↔
        ip.data.1.take ip.dataLen = addr.data.1.take ip.dataLen := by
      rw [address_eq_iff, ← hlen]
      exact and_iff_right rfl
    rw [if_neg (not_not.mpr hlen), Bool.beq_eq_decide_eq, decide_eq_decide.mpr hbytes]
  · have hne : ip.address ≠ addr.address := fun he => hlen (address_eq_iff.mp he).1
    rw [if_pos hlen, decide_eq_false hne]

/-- An answer is right, however deep the calls were. -/
theorem equals_sound : ∀ {depth : Nat} {ip addr : Object} {same : Bool},
    equals held depth ip addr = some same → same = decide (ip.address.plain = addr.address.plain) := by
  intro depth
  induction depth with
  | zero =>
    intro ip addr same h
    cases h
  | succ depth ih =>
    intro ip addr same h
    cases hip : ip.isMappedv4 with
    | true =>
      rw [equals_left hip] at h
      rw [ih h, plain_toUnmappedv4 hip]
    | false =>
      cases haddr : addr.isMappedv4 with
      | true =>
        rw [equals_right hip haddr] at h
        rw [ih h, plain_toUnmappedv4 haddr]
      | false =>
        rw [equals_unmapped hip haddr] at h
        rw [plain_unmapped hip, plain_unmapped haddr]
        exact (Option.some.inj h).symm

/-- What is still to be replaced. -/
def layers (ip addr : Object) : Nat := ip.isMappedv4.toNat + addr.isMappedv4.toNat

/-- Each call of `Equals` by itself has one mapped address less. -/
theorem equals_returns : ∀ {depth : Nat} {ip addr : Object},
    layers ip addr < depth → (equals held depth ip addr).isSome = true := by
  intro depth
  induction depth with
  | zero =>
    intro ip addr h
    exact absurd h (Nat.not_lt_zero _)
  | succ depth ih =>
    intro ip addr h
    cases hip : ip.isMappedv4 with
    | true =>
      rw [equals_left hip]
      refine ih ?_
      simp only [layers, hip, isMappedv4_toUnmappedv4, Bool.toNat_true, Bool.toNat_false] at h ⊢
      omega
    | false =>
      cases haddr : addr.isMappedv4 with
      | true =>
        rw [equals_right hip haddr]
        refine ih ?_
        simp only [layers, hip, haddr, isMappedv4_toUnmappedv4, Bool.toNat_true, Bool.toNat_false] at h ⊢
        omega
      | false =>
        rw [equals_unmapped hip haddr]
        rfl

theorem layers_le (ip addr : Object) : layers ip addr ≤ 2 :=
  Nat.add_le_add (Bool.toNat_le _) (Bool.toNat_le _)

/-- `Equals` returns, whatever the addresses are, and compares what they are without a mapping. -/
theorem equals_eq (held : Nat → Data) (depth : Nat) (ip addr : Object) :
    equals held (depth + 3) ip addr = some (decide (ip.address.plain = addr.address.plain)) := by
  have hlayers := layers_le ip addr
  have hreturns : (equals held (depth + 3) ip addr).isSome = true := equals_returns (by omega)
  obtain ⟨same, hsame⟩ := Option.isSome_iff_exists.mp hreturns
  rw [hsame, equals_sound hsame]

example (held : Data) :
    let addr : Octets .IPv4 := ⟨[10, 0, 0, 7], rfl⟩
    equals (fun _ => held) 3 (ofAddr held (Address.mapped addr)) (ofAddr held addr) = some true := rfl

/-- `operator==`. -/
def Same (held : Nat → Data) (ip addr : Object) : Prop := ∃ depth, equals held depth ip addr = some true

theorem same_iff : Same held ip addr ↔ ip.address.plain = addr.address.plain := by
  constructor
  · rintro ⟨depth, h⟩
    exact of_decide_eq_true (equals_sound h).symm
  · intro h
    exact ⟨3, by rw [equals_eq held 0, decide_eq_true h]⟩

theorem same_equivalence (held : Nat → Data) : Equivalence (Same held) := by
  have hsame : Same held = fun ip addr => ip.address.plain = addr.address.plain :=
    funext fun _ => funext fun _ => propext same_iff
  rw [hsame]
  exact eq_equivalence.comap fun ip : Object => ip.address.plain

/-- A copy is the same address, whatever the memory behind it held. -/
theorem same_copy (h : Data) : Same held (ip.copy h) ip := by
  have hcopy : (ip.copy h).address = ip.address := by
    have hread : (ip.copy h).read = ip.read.copy := read_copy
    exact Address.ofOctets_inj.mpr ⟨rfl, congrArg (fun a : IPAddress => a.data.1) hread⟩
  exact same_iff.mpr (by rw [hcopy])

end Equals

/-! ## Loopback -/

theorem isLoopback_unmapped {held : Nat → Data} {depth : Nat} (h : ip.isMappedv4 = false) :
    isLoopback held (depth + 1) ip = some ip.address.loopback := by
  rw [isLoopback]
  by_cases hfamily : ip.family = .IPv4
  · have hlen : ip.dataLen = 4 := by rw [ip.len_eq, hfamily]; rfl
    rw [if_pos hfamily, address_v4 hfamily, ← hlen]
    rfl
  · have hv6 : ip.family = .IPv6 := not_not.mp fun h => hfamily (ne_v6_iff.mp h)
    rw [if_neg hfamily, if_neg (Bool.eq_false_iff.mp h), address_v6 hv6]
    rfl

/-- `IsLoopback` asks the address without its mapping. -/
theorem isLoopback_eq (held : Nat → Data) (depth : Nat) (ip : Object) :
    isLoopback held (depth + 2) ip = some ip.address.plain.loopback := by
  cases h : ip.isMappedv4 with
  | true =>
    have hfamily : ip.family ≠ .IPv4 := by rw [family_of_mapped h]; decide
    rw [isLoopback, if_neg hfamily, if_pos h, isLoopback_unmapped isMappedv4_toUnmappedv4, ← plain_mapped h]
  | false => rw [isLoopback_unmapped h, plain_unmapped h]

end Object
end IPAddress
end Net
end Util
end Ebftpd
