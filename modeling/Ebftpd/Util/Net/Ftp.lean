import Ebftpd.Util.Cast
import Ebftpd.Util.Error
import Ebftpd.Util.Net.Endpoint

/-!
# Ebftpd.Util.Net.Ftp

The address texts of `PORT`, `LPRT` and `EPRT` (`util/util/net/ftp.cpp`), read into an endpoint and
written from one.

* `fields_commas`: the numbers of a text come back from its split, each at its index.
* `endpointFromPORT_commas`, `endpointFromLPRT_commas`, `endpointFromEPRT_bars`: what is read from
  the numbers of an address.
* `codec_roundtrip`: the three formats give back the endpoint they were written from, `PORT` the
  IPv4 one of an IPv4-mapped address.
-/

namespace Ebftpd
namespace Util
namespace Net
namespace Ftp

/-- A failed `util::Error`, with a message or an `errno`. -/
inductive Failure where
  | message (text : String)
  | errno (errno : Errno)

/-- `EPFNOSUPPORT`. -/
def epfnosupport : Errno := .other 96

/-- `split[i]`. -/
def field (fields : List Str) (i : Nat) : Str := fields.getD i []

/-- The bytes of the fields with these indexes. -/
def octetsAt (fields : List Str) : (is : List Nat) → Option { data : List UInt8 // data.length = is.length }
  | [] => some ⟨[], rfl⟩
  | i :: is =>
    match octet (field fields i), octetsAt fields is with
    | some a, some rest => some ⟨a :: rest.1, congrArg (· + 1) rest.2⟩
    | _, _ => none

def portAt (fields : List Str) (i j : Nat) : Option (UInt8 × UInt8) :=
  match octet (field fields i), octet (field fields j) with
  | some p₀, some p₁ => some (p₀, p₁)
  | _, _ => none

/-! ## Reading -/

def endpointFromPORT (portString : Str) : Except Failure Endpoint :=
  let fields := split portString ",".toList false
  if fields.length ≠ 6 then .error (.message "Invalid port string.")
  else
    match octetsAt fields [0, 1, 2, 3], portAt fields 4 5 with
    | some a, some p => .ok (.ofAddr ⟨.IPv4, a, p⟩)
    | _, _ => .error (.message "Unknown error")

/-- What `EndpointFromLPRTv4` and `EndpointFromLPRTv6` share: the number of fields, the indexes of
the address, of the length of the port and of the port. -/
def endpointFromLPRTof (family : IPFamily) (count : Nat) (is : List Nat)
    (his : is.length = family.size) (portLen p₀ p₁ : Nat) (portString : Str) :
    Except Failure Endpoint :=
  let fields := split portString ",".toList false
  let invalid : Except Failure Endpoint := .error (.message "Invalid port string.")
  if fields.length ≠ count then invalid
  else
    match octet (field fields 1) with
    | none => invalid
    | some addrLen =>
      if addrLen.toNat ≠ family.size then invalid
      else
        match octetsAt fields is, octet (field fields portLen) with
        | some a, some len =>
          if len ≠ 2 then invalid
          else
            match portAt fields p₀ p₁ with
            | some p => .ok (.ofAddr ⟨family, ⟨a.1, a.2.trans his⟩, p⟩)
            | none => invalid
        | _, _ => invalid

def endpointFromLPRTv4 (portString : Str) : Except Failure Endpoint :=
  endpointFromLPRTof .IPv4 9 [2, 3, 4, 5] rfl 6 7 8 portString

def endpointFromLPRTv6 (portString : Str) : Except Failure Endpoint :=
  endpointFromLPRTof .IPv6 21 [2, 3, 4, 5, 6, 7, 8, 9, 10, 11, 12, 13, 14, 15, 16, 17] rfl 18 19 20
    portString

def endpointFromLPRT (portString : Str) : Except Failure Endpoint :=
  match portString with
  | [] => .error (.message "Empty port string")
  | c :: _ =>
    if c = '4' then endpointFromLPRTv4 portString
    else if c = '6' then endpointFromLPRTv6 portString
    else .error (.errno epfnosupport)

def endpointFromEPRT (inet : Inet) (portString : Str) : Except Failure Endpoint :=
  let fields := split portString "|".toList false
  if fields.length ≠ 5 ∨ field fields 0 ≠ [] ∨ field fields 4 ≠ [] then
    .error (.message "Invalid port string.")
  else
    match octet (field fields 1), lexicalCastUInt16 (field fields 3) with
    | some family, some port =>
      if family ≠ 1 ∧ family ≠ 2 then .error (.message "Invalid port string.")
      else
        match Endpoint.ofString inet (field fields 2) port with
        | some ep => .ok ep
        | none => .error (.message "Invalid IP address or family")
    | _, _ => .error (.message "Invalid port string.")

/-! ## Writing -/

def joined (sep : Char) (numbers : List Nat) : Str := [sep].intercalate (numbers.map decimal)

/-- `os << a << ',' << b << …`. -/
def commas (numbers : List Nat) : Str := joined ',' numbers

/-- `int(a[i])`, of the bytes in the socket address. -/
def byteAt (ep : Endpoint) (i : Nat) : Nat := (ep.addr.addr.1.getD i 0).toNat

def endpointToPORTv4Mappedv6 (ep : Endpoint) : Str :=
  commas [byteAt ep 12, byteAt ep 13, byteAt ep 14, byteAt ep 15,
    ep.addr.port.1.toNat, ep.addr.port.2.toNat]

def endpointToPORTv4 (ep : Endpoint) : Str :=
  commas [byteAt ep 0, byteAt ep 1, byteAt ep 2, byteAt ep 3,
    ep.addr.port.1.toNat, ep.addr.port.2.toNat]

def endpointToPORT (ep : Endpoint) : Except Failure Str :=
  if ep.ip.family ≠ .IPv4 then
    if IPAddress.mappedPrefix.isPrefixOf ep.addr.addr.1 then .ok (endpointToPORTv4Mappedv6 ep)
    else .error (.errno epfnosupport)
  else .ok (endpointToPORTv4 ep)

def endpointToLPRTv4 (ep : Endpoint) : Str :=
  commas [4, 4, byteAt ep 0, byteAt ep 1, byteAt ep 2, byteAt ep 3,
    2, ep.addr.port.1.toNat, ep.addr.port.2.toNat]

def endpointToLPRTv6 (ep : Endpoint) : Str :=
  commas [6, 16, byteAt ep 0, byteAt ep 1, byteAt ep 2, byteAt ep 3,
    byteAt ep 4, byteAt ep 5, byteAt ep 6, byteAt ep 7, byteAt ep 8, byteAt ep 9,
    byteAt ep 10, byteAt ep 11, byteAt ep 12, byteAt ep 13, byteAt ep 14, byteAt ep 15,
    2, ep.addr.port.1.toNat, ep.addr.port.2.toNat]

def endpointToLPRT (ep : Endpoint) : Str :=
  if ep.ip.family = .IPv4 then endpointToLPRTv4 ep else endpointToLPRTv6 ep

def endpointToEPRT (inet : Inet) (ep : Endpoint) (full : Bool) : Str :=
  let family := if ep.ip.family = .IPv4 then 1 else 2
  if full then
    "|".toList ++ decimal family ++ "|".toList ++ ep.ip.toString inet ++ "|".toList ++
      signedDecimal ep.port ++ "|".toList
  else "|||".toList ++ signedDecimal ep.port ++ "|".toList

/-! ## Fields -/

theorem not_mem_decimal {c : Char} (hc : c.isDigit = false) (n : Nat) : c ∉ decimal n := by
  intro h
  rw [Nat.isDigit_of_mem_toDigits (by decide) (by decide) h] at hc
  cases hc

theorem joined_cons_cons (sep : Char) (n m : Nat) (numbers : List Nat) :
    joined sep (n :: m :: numbers) = decimal n ++ sep :: joined sep (m :: numbers) := by
  simp [joined]

theorem fields_joined {sep : Char} (hsep : sep.isDigit = false) {numbers : List Nat}
    (h : numbers ≠ []) : split (joined sep numbers) [sep] false = numbers.map decimal := by
  rw [split_eq_splitOn, joined, List.splitOn_intercalate]
  · intro text htext
    obtain ⟨n, -, rfl⟩ := List.mem_map.1 htext
    exact not_mem_decimal hsep n
  · simpa using h

theorem fields_commas {numbers : List Nat} (h : numbers ≠ []) :
    split (commas numbers) ",".toList false = numbers.map decimal :=
  fields_joined (by decide) h

/-- A block of the fields, by its indexes. -/
theorem field_block (pre mid post : List Str) :
    (List.range' pre.length mid.length).map (field (pre ++ mid ++ post)) = mid := by
  refine List.ext_getElem (by simp) fun i h _ => ?_
  have hi : i < mid.length := by simpa using h
  simp [field, List.getElem?_append_right, List.getElem?_append_left, hi]

theorem field_after {front : List Str} (back : List Str) {i : Nat} (k : Nat) (hi : i = front.length + k) :
    field (front ++ back) i = field back k := by
  rw [field, field, hi, List.getD_eq_getElem?_getD, List.getElem?_append_right (by simp),
    Nat.add_sub_cancel_left, List.getD_eq_getElem?_getD]

theorem octetsAt_eq {fields : List Str} {is : List Nat} {data : List UInt8}
    (h : is.map (field fields) = data.map fun a => decimal a.toNat) :
    (octetsAt fields is).map Subtype.val = some data := by
  induction is generalizing data with
  | nil =>
    cases data with
    | nil => rfl
    | cons a data => simp at h
  | cons i is ih =>
    cases data with
    | nil => simp at h
    | cons a data =>
      simp only [List.map_cons, List.cons.injEq] at h
      obtain ⟨rest, hrest, hval⟩ := Option.map_eq_some_iff.1 (ih h.2)
      simp only [octetsAt, h.1, octet_decimal, hrest, Option.map_some, hval]

theorem octetsAt_block (pre post : List Nat) (data : List UInt8) {is : List Nat}
    (his : is = List.range' pre.length data.length) :
    (octetsAt ((pre ++ data.map UInt8.toNat ++ post).map decimal) is).map Subtype.val = some data := by
  refine octetsAt_eq ?_
  have hblock := field_block (pre.map decimal) ((data.map UInt8.toNat).map decimal) (post.map decimal)
  rw [List.length_map, List.length_map, List.length_map, ← List.map_append, ← List.map_append] at hblock
  rw [his, hblock, List.map_map]
  rfl

theorem portAt_eq {fields : List Str} {i j : Nat} {p : UInt8 × UInt8}
    (hi : field fields i = decimal p.1.toNat) (hj : field fields j = decimal p.2.toNat) :
    portAt fields i j = some p := by
  rw [portAt, hi, hj, octet_decimal, octet_decimal]

/-! ## What is read from the numbers of an address -/

theorem endpointFromPORT_commas (data : Octets .IPv4) (p : UInt8 × UInt8) :
    endpointFromPORT (commas (data.1.map UInt8.toNat ++ [p.1.toNat, p.2.toNat])) =
      .ok (.ofAddr ⟨.IPv4, data, p⟩) := by
  have hlen : data.1.length = 4 := data.2
  have his : [0, 1, 2, 3] = List.range' ([] : List Nat).length data.1.length := by
    rw [hlen]
    rfl
  obtain ⟨a, ha, hval⟩ := Option.map_eq_some_iff.1 <|
    octetsAt_block [] [p.1.toNat, p.2.toNat] data.1 his
  rw [List.nil_append] at ha
  have hport : portAt ((data.1.map UInt8.toNat ++ [p.1.toNat, p.2.toNat]).map decimal) 4 5 = some p := by
    refine portAt_eq ?_ ?_ <;> simp [field, hlen]
  rw [endpointFromPORT, fields_commas (by simp), if_neg (by simp [hlen]), ha, hport]
  simp only [show a = data from Subtype.ext hval]

theorem endpointFromLPRTof_commas {family : IPFamily} {count : Nat} {is : List Nat}
    (his : is.length = family.size) {portLen p₀ p₁ : Nat} (version : Nat) (data : Octets family)
    (p : UInt8 × UInt8) (hcount : count = 5 + family.size)
    (hrange : is = List.range' 2 family.size) (hlen : portLen = 2 + family.size)
    (hp₀ : p₀ = 3 + family.size) (hp₁ : p₁ = 4 + family.size) :
    endpointFromLPRTof family count is his portLen p₀ p₁
        (commas ([version, family.size] ++ data.1.map UInt8.toNat ++
          [2, p.1.toNat, p.2.toNat])) = .ok (.ofAddr ⟨family, data, p⟩) := by
  obtain ⟨size, hsize⟩ : ∃ n : UInt8, n.toNat = family.size := by
    cases family with
    | IPv4 => exact ⟨4, rfl⟩
    | IPv6 => exact ⟨16, rfl⟩
  have hdata : data.1.length = family.size := data.2
  have hrange' : is = List.range' [version, family.size].length data.1.length := by
    rw [hdata, hrange]
    rfl
  obtain ⟨a, ha, hval⟩ := Option.map_eq_some_iff.1 <|
    octetsAt_block [version, family.size] [2, p.1.toNat, p.2.toNat] data.1 hrange'
  have hfront : (([version, family.size] ++ data.1.map UInt8.toNat).map decimal).length =
      2 + family.size := by
    simp only [List.length_append, List.length_map, List.length_cons, List.length_nil, hdata]
  have haddrLen : octet (field (([version, family.size] ++ data.1.map UInt8.toNat ++
      [2, p.1.toNat, p.2.toNat]).map decimal) 1) = some size := by
    rw [show field _ 1 = decimal size.toNat by simp [field, hsize], octet_decimal]
  have hportLen : octet (field (([version, family.size] ++ data.1.map UInt8.toNat ++
      [2, p.1.toNat, p.2.toNat]).map decimal) portLen) = some 2 := by
    rw [List.map_append, field_after _ 0 (by rw [hfront, hlen]; rfl)]
    exact octet_decimal 2
  have hport : portAt (([version, family.size] ++ data.1.map UInt8.toNat ++
      [2, p.1.toNat, p.2.toNat]).map decimal) p₀ p₁ = some p := by
    rw [List.map_append]
    refine portAt_eq ?_ ?_
    · exact field_after _ 1 (by rw [hfront, hp₀]; omega)
    · exact field_after _ 2 (by rw [hfront, hp₁]; omega)
  rw [endpointFromLPRTof, fields_commas (by simp), if_neg (by simp [hdata, hcount]; omega)]
  simp only [haddrLen, hsize, ne_eq, not_true_eq_false, if_false, ha, hportLen, hport]
  rw [show (⟨a.1, a.2.trans his⟩ : Octets family) = data from Subtype.ext hval]

theorem endpointFromEPRT_bars {inet : Inet} {number port : Nat} {addr : Str} {ip : IPAddress}
    (hnumber : number = 1 ∨ number = 2) (haddr : '|' ∉ addr)
    (hip : IPAddress.fromString inet addr = some ip) (hport : port < 65536) :
    endpointFromEPRT inet ("|".toList ++ decimal number ++ "|".toList ++ addr ++ "|".toList ++
        decimal port ++ "|".toList) = .ok ⟨⟨ip.family, ip.data, htons port⟩, ip, port⟩ := by
  have hfields : split ("|".toList ++ decimal number ++ "|".toList ++ addr ++ "|".toList ++
      decimal port ++ "|".toList) "|".toList false = [[], decimal number, addr, decimal port, []] := by
    have hbars : "|".toList ++ decimal number ++ "|".toList ++ addr ++ "|".toList ++
        decimal port ++ "|".toList = ['|'].intercalate [[], decimal number, addr, decimal port, []] := by
      simp [List.intercalate, List.intersperse]
    rw [hbars, show "|".toList = ['|'] from rfl, split_eq_splitOn, List.splitOn_intercalate]
    · intro text htext
      simp only [List.mem_cons, List.not_mem_nil, or_false] at htext
      rcases htext with rfl | rfl | rfl | rfl | rfl
      · exact List.not_mem_nil
      · exact not_mem_decimal (by decide) number
      · exact haddr
      · exact not_mem_decimal (by decide) port
      · exact List.not_mem_nil
    · exact List.cons_ne_nil _ _
  obtain ⟨f, hf, hfam⟩ : ∃ f, octet (decimal number) = some f ∧ ¬(f ≠ 1 ∧ f ≠ 2) := by
    rcases hnumber with rfl | rfl
    · exact ⟨1, octet_decimal 1, by decide⟩
    · exact ⟨2, octet_decimal 2, by decide⟩
  rw [endpointFromEPRT, hfields]
  simp only [field, List.getD_cons_succ, List.getD_cons_zero, List.length_cons, List.length_nil,
    ne_eq, not_true_eq_false, or_self, if_false, hf, lexicalCastUInt16_decimal hport]
  rw [if_neg hfam, Endpoint.ofString, hip]
  rfl

/-! ## What is written -/

/-- The last `count` bytes of the address, one by one. -/
theorem drop_addr_eq {ep : Endpoint} (start count : Nat) (h : ep.addr.addr.1.length = start + count) :
    (ep.addr.addr.1.drop start).map UInt8.toNat = (List.range' start count).map (byteAt ep) := by
  refine List.ext_getElem (by simp [h]) fun i _ hlt => ?_
  have hi : start + i < ep.addr.addr.1.length := by
    rw [List.length_map, List.length_range'] at hlt
    omega
  simp [byteAt, hi]

theorem endpointToPORTv4_eq {ep : Endpoint} (h : ep.addr.addr.1.length = 4) :
    endpointToPORTv4 ep = commas (ep.addr.addr.1.map UInt8.toNat ++
      [ep.addr.port.1.toNat, ep.addr.port.2.toNat]) := by
  rw [show ep.addr.addr.1.map UInt8.toNat = _ from drop_addr_eq 0 4 h]
  rfl

theorem endpointToPORTv4Mappedv6_eq {ep : Endpoint} (h : ep.addr.addr.1.length = 16) :
    endpointToPORTv4Mappedv6 ep = commas ((ep.addr.addr.1.drop 12).map UInt8.toNat ++
      [ep.addr.port.1.toNat, ep.addr.port.2.toNat]) := by
  rw [drop_addr_eq 12 4 h]
  rfl

theorem endpointToLPRTv4_eq {ep : Endpoint} (h : ep.addr.addr.1.length = 4) :
    endpointToLPRTv4 ep = commas ([4, 4] ++ ep.addr.addr.1.map UInt8.toNat ++
      [2, ep.addr.port.1.toNat, ep.addr.port.2.toNat]) := by
  rw [show ep.addr.addr.1.map UInt8.toNat = _ from drop_addr_eq 0 4 h]
  rfl

theorem endpointToLPRTv6_eq {ep : Endpoint} (h : ep.addr.addr.1.length = 16) :
    endpointToLPRTv6 ep = commas ([6, 16] ++ ep.addr.addr.1.map UInt8.toNat ++
      [2, ep.addr.port.1.toNat, ep.addr.port.2.toNat]) := by
  rw [show ep.addr.addr.1.map UInt8.toNat = _ from drop_addr_eq 0 16 h]
  rfl

/-! ## Round trips -/

theorem commas_cons (n : Nat) (numbers : List Nat) : ∃ t, commas (n :: numbers) = decimal n ++ t := by
  cases numbers with
  | nil => exact ⟨[], by simp [commas, joined]⟩
  | cons m numbers => exact ⟨_, joined_cons_cons ',' n m numbers⟩

theorem endpointFromLPRT_four (numbers : List Nat) :
    endpointFromLPRT (commas (4 :: numbers)) = endpointFromLPRTv4 (commas (4 :: numbers)) := by
  obtain ⟨t, ht⟩ := commas_cons 4 numbers
  rw [ht, show decimal 4 = ['4'] from rfl]
  rfl

theorem endpointFromLPRT_six (numbers : List Nat) :
    endpointFromLPRT (commas (6 :: numbers)) = endpointFromLPRTv6 (commas (6 :: numbers)) := by
  obtain ⟨t, ht⟩ := commas_cons 6 numbers
  rw [ht, show decimal 6 = ['6'] from rfl]
  rfl

theorem endpointFromLPRT_endpointToLPRT {ep : Endpoint} (hfamily : ep.addr.family = ep.ip.family) :
    endpointFromLPRT (endpointToLPRT ep) = .ok (.ofAddr ep.addr) := by
  obtain ⟨⟨family, data, p⟩, ip, port⟩ := ep
  unfold endpointToLPRT
  rw [← hfamily]
  cases family with
  | IPv4 =>
    rw [if_pos rfl, endpointToLPRTv4_eq data.2, List.cons_append, List.cons_append,
      endpointFromLPRT_four]
    exact endpointFromLPRTof_commas rfl 4 data p rfl rfl rfl rfl rfl
  | IPv6 =>
    rw [if_neg (by simp), endpointToLPRTv6_eq data.2, List.cons_append, List.cons_append,
      endpointFromLPRT_six]
    exact endpointFromLPRTof_commas rfl 6 data p rfl rfl rfl rfl rfl

theorem endpointFromPORT_endpointToPORTv4 {ep : Endpoint} (data : Octets .IPv4)
    (hdata : ep.addr.addr.1 = data.1) :
    endpointFromPORT (endpointToPORTv4 ep) = .ok (.ofAddr ⟨.IPv4, data, ep.addr.port⟩) := by
  rw [endpointToPORTv4_eq (hdata ▸ data.2), hdata, endpointFromPORT_commas]

theorem endpointFromPORT_endpointToPORTv4Mappedv6 {ep : Endpoint} (data : Octets .IPv4)
    (hlen : ep.addr.addr.1.length = 16) (hdata : ep.addr.addr.1.drop 12 = data.1) :
    endpointFromPORT (endpointToPORTv4Mappedv6 ep) = .ok (.ofAddr ⟨.IPv4, data, ep.addr.port⟩) := by
  rw [endpointToPORTv4Mappedv6_eq hlen, hdata, endpointFromPORT_commas]

theorem endpointFromEPRT_endpointToEPRT {inet : Inet} (hinet : inet.Documented) {ep : Endpoint}
    (h : ep.Agrees inet) :
    ∃ ep', endpointFromEPRT inet (endpointToEPRT inet ep true) = .ok ep' ∧
      ep'.value = ep.value ∧ ep'.Agrees inet := by
  obtain ⟨ip, hip, hfamily, hdata, hbar⟩ := Endpoint.fromString_toString hinet h
  have hport : ep.port = (ntohs ep.addr.port : Int) := h.port.symm
  have hlt := ntohs_lt ep.addr.port
  have htext : signedDecimal ep.port = decimal (ntohs ep.addr.port) := by
    rw [hport, signedDecimal, if_neg (by omega), Int.natAbs_natCast]
  have hnumber : (if ep.ip.family = .IPv4 then 1 else 2) = 1 ∨
      (if ep.ip.family = .IPv4 then 1 else 2) = 2 := by
    split
    · exact .inl rfl
    · exact .inr rfl
  have hread : Endpoint.ofString inet (ep.ip.toString inet) ep.port =
      some ⟨⟨ip.family, ip.data, htons ep.port⟩, ip, ep.port⟩ := by
    rw [Endpoint.ofString, hip]
    rfl
  refine ⟨_, ?_, ?_, Endpoint.ofString_agrees hread (by omega) (by omega) hbar⟩
  · rw [endpointToEPRT, if_pos rfl, htext, endpointFromEPRT_bars hnumber hbar hip hlt, hport]
  · simp only [Endpoint.value, hfamily, hdata]

theorem codec_roundtrip (inet : Inet) (hinet : inet.Documented) (ep : Endpoint)
    (h : ep.Agrees inet) :
    (∃ ep', endpointFromLPRT (endpointToLPRT ep) = .ok ep' ∧ ep'.value = ep.value ∧
      ep'.Agrees inet) ∧
    (∃ ep', endpointFromEPRT inet (endpointToEPRT inet ep true) = .ok ep' ∧ ep'.value = ep.value ∧
      ep'.Agrees inet) ∧
    (ep.ip.family = .IPv4 →
      ∃ text ep', endpointToPORT ep = .ok text ∧ endpointFromPORT text = .ok ep' ∧
        ep'.value = ep.value ∧ ep'.Agrees inet) ∧
    (ep.ip.isMappedv4 = true →
      ∃ text ep', endpointToPORT ep = .ok text ∧ endpointFromPORT text = .ok ep' ∧
        ep'.value = (.IPv4, ep.ip.data.1.drop 12, ep.port) ∧ ep'.Agrees inet) ∧
    (ep.ip.family = .IPv6 → ep.ip.isMappedv4 = false →
      endpointToPORT ep = .error (.errno epfnosupport)) := by
  have hlen : ep.addr.addr.1.length = ep.ip.family.size := by
    rw [h.addr, ep.ip.data.2]
  refine ⟨⟨_, endpointFromLPRT_endpointToLPRT h.family, Endpoint.value_ofAddr h,
    Endpoint.ofAddr_agrees _⟩, endpointFromEPRT_endpointToEPRT hinet h, ?_, ?_, ?_⟩
  · intro hv4
    have hlen4 : ep.addr.addr.1.length = IPFamily.IPv4.size := by rw [hlen, hv4]
    refine ⟨endpointToPORTv4 ep, _, by rw [endpointToPORT, if_neg (by simp [hv4])],
      endpointFromPORT_endpointToPORTv4 ⟨_, hlen4⟩ rfl, ?_, Endpoint.ofAddr_agrees _⟩
    simp only [Endpoint.value, Endpoint.ofAddr, IPAddress.ofData, hv4, h.addr, h.port]
  · intro hmapped
    obtain ⟨hv6, hpre⟩ := Bool.and_eq_true_iff.1 hmapped
    have hv6 : ep.ip.family = .IPv6 := by simpa using hv6
    have hlen6 : ep.addr.addr.1.length = 16 := by rw [hlen, hv6, IPFamily.size]
    have hdrop : (ep.addr.addr.1.drop 12).length = IPFamily.IPv4.size := by
      rw [List.length_drop, hlen6, IPFamily.size]
    refine ⟨endpointToPORTv4Mappedv6 ep, _,
      by rw [endpointToPORT, if_pos (by simp [hv6]), h.addr, if_pos hpre],
      endpointFromPORT_endpointToPORTv4Mappedv6 ⟨_, hdrop⟩ hlen6 rfl, ?_, Endpoint.ofAddr_agrees _⟩
    simp only [Endpoint.value, Endpoint.ofAddr, IPAddress.ofData, h.addr, h.port]
  · intro hv6 hmapped
    have hpre : IPAddress.mappedPrefix.isPrefixOf ep.ip.data.1 = false := by
      simpa [IPAddress.isMappedv4, hv6] using hmapped
    rw [endpointToPORT, if_pos (by simp [hv6]), h.addr, hpre]
    rfl

/-! ## The addresses of an example -/

/-- `2001:db8::1`. -/
def sampleData : Octets .IPv6 := ⟨[0x20, 0x01, 0x0d, 0xb8, 0, 0, 0, 0, 0, 0, 0, 0, 0, 0, 0, 1], rfl⟩

/-- Dotted decimals for IPv4. The sample is written as usual, other IPv6 addresses byte by byte. -/
def sampleNtop : (family : IPFamily) → Octets family → Str
  | .IPv4, data => joined '.' (data.1.map UInt8.toNat)
  | .IPv6, data =>
    if data = sampleData then "2001:db8::1".toList else joined ':' (data.1.map UInt8.toNat)

def sampleOctets (family : IPFamily) (is : List Nat) (his : is.length = family.size)
    (fields : List Str) : Option (Octets family) :=
  if fields.length = family.size then (octetsAt fields is).map fun a => ⟨a.1, a.2.trans his⟩
  else none

def sampleParse : (family : IPFamily) → Str → Option (Octets family)
  | .IPv4, s => sampleOctets .IPv4 [0, 1, 2, 3] rfl (split s ".".toList false)
  | .IPv6, s =>
    if s = "2001:db8::1".toList then some sampleData
    else
      sampleOctets .IPv6 [0, 1, 2, 3, 4, 5, 6, 7, 8, 9, 10, 11, 12, 13, 14, 15] rfl
        (split s ":".toList false)

def sampleInet : Inet where
  pton family s := (sampleParse family s).filter fun data => sampleNtop family data = s
  ntop := sampleNtop

theorem mem_joined {sep c : Char} {numbers : List Nat} (h : c ∈ joined sep numbers) :
    c = sep ∨ c.isDigit = true := by
  have hdigit : ∀ n, c ∈ decimal n → c.isDigit = true := fun n hc =>
    Nat.isDigit_of_mem_toDigits (by decide) (by decide) hc
  induction numbers with
  | nil => simp [joined] at h
  | cons n numbers ih =>
    cases numbers with
    | nil => exact .inr (hdigit n (by simpa [joined] using h))
    | cons m numbers =>
      rw [joined_cons_cons, List.mem_append, List.mem_cons] at h
      rcases h with h | h | h
      · exact .inr (hdigit n h)
      · exact .inl h
      · exact ih h

theorem sampleOctets_eq {family : IPFamily} {is : List Nat} (his : is.length = family.size)
    (hrange : is = List.range' 0 family.size) {sep : Char} (hsep : sep.isDigit = false)
    (data : Octets family) :
    sampleOctets family is his (split (joined sep (data.1.map UInt8.toNat)) [sep] false) = some data := by
  have hlen : data.1.length = family.size := data.2
  have hne : data.1.map UInt8.toNat ≠ [] := by
    intro h
    rw [List.map_eq_nil_iff] at h
    rw [h] at hlen
    cases family <;> cases hlen
  have hblock := octetsAt_block [] [] data.1 (by rw [hrange, hlen]; rfl : is = _)
  rw [List.nil_append, List.append_nil] at hblock
  obtain ⟨a, ha, hval⟩ := Option.map_eq_some_iff.1 hblock
  rw [sampleOctets, fields_joined hsep hne, if_pos (by simp [hlen]), ha]
  exact congrArg some (Subtype.ext hval)

theorem sampleParse_sampleNtop (family : IPFamily) (data : Octets family) :
    sampleParse family (sampleNtop family data) = some data := by
  cases family with
  | IPv4 => exact sampleOctets_eq rfl rfl (by decide) data
  | IPv6 =>
    simp only [sampleParse, sampleNtop]
    split
    · rename_i hsample
      rw [if_pos rfl, hsample]
    · rename_i hother
      split
      · rename_i htext
        -- the usual text has not sixteen fields
        have hnone : sampleOctets .IPv6 [0, 1, 2, 3, 4, 5, 6, 7, 8, 9, 10, 11, 12, 13, 14, 15] rfl
            (split "2001:db8::1".toList ":".toList false) = none := if_neg (by decide)
        rw [← htext] at hnone
        cases hnone.symm.trans (sampleOctets_eq rfl rfl (by decide) data)
      · exact sampleOctets_eq rfl rfl (by decide) data

theorem mem_sampleNtop {family : IPFamily} {data : Octets family} {c : Char}
    (h : c ∈ sampleNtop family data) : c ≠ '|' ∧ c ≠ '\x00' ∧ (family = .IPv6 → c ≠ '.') := by
  have hjoined : ∀ {sep numbers}, c ∈ joined sep numbers → sep = '.' ∨ sep = ':' →
      c ≠ '|' ∧ c ≠ '\x00' ∧ (sep = ':' → c ≠ '.') := by
    intro sep numbers hc hsep
    rcases mem_joined hc with rfl | hdigit
    · rcases hsep with rfl | rfl <;> decide
    · refine ⟨?_, ?_, fun _ => ?_⟩ <;> rintro rfl <;> exact absurd hdigit (by decide)
  cases family with
  | IPv4 =>
    have hc := hjoined h (.inl rfl)
    exact ⟨hc.1, hc.2.1, fun hv6 => by cases hv6⟩
  | IPv6 =>
    simp only [sampleNtop] at h
    split at h
    · have hall : ("2001:db8::1".toList.all fun c => c != '|' && c != '\x00' && c != '.') = true := by
        decide
      have hc := List.all_eq_true.1 hall c h
      simp only [Bool.and_eq_true, bne_iff_ne] at hc
      exact ⟨hc.1.1, hc.1.2, fun _ => hc.2⟩
    · have hc := hjoined h (.inr rfl)
      exact ⟨hc.1, hc.2.1, fun _ => hc.2.2 rfl⟩

theorem sampleInet_documented : sampleInet.Documented where
  inverts family data := by
    simp only [sampleInet, sampleParse_sampleNtop, Option.filter_some, decide_true, if_true]
  family data := by
    have hdot : '.' ∉ sampleNtop .IPv6 data := fun h => (mem_sampleNtop h).2.2 rfl rfl
    have hparse : sampleParse .IPv4 (sampleNtop .IPv6 data) = none := by
      simp only [sampleParse]
      rw [show ".".toList = ['.'] from rfl, split_eq_splitOn, List.splitOn_eq_singleton hdot]
      rfl
    simp only [sampleInet, hparse, Option.filter_none]
  plain family data c h := ⟨(mem_sampleNtop h).1, (mem_sampleNtop h).2.1⟩

def sampleEndpoint : Endpoint := .ofAddr ⟨.IPv6, sampleData, (0x10, 0x92)⟩

theorem codec_roundtrip_sample :
    endpointToEPRT sampleInet sampleEndpoint true = "|2|2001:db8::1|4242|".toList ∧
    ∃ ep', endpointFromEPRT sampleInet (endpointToEPRT sampleInet sampleEndpoint true) = .ok ep' ∧
      ep'.value = sampleEndpoint.value ∧ ep'.Agrees sampleInet :=
  ⟨by decide, (codec_roundtrip sampleInet sampleInet_documented sampleEndpoint
    (Endpoint.ofAddr_agrees _)).2.1⟩

end Ftp
end Net
end Util
end Ebftpd
