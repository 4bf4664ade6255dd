import Ebftpd.Util.Net.Ftp

/-!
# Ebftpd.Util.Net.Grammar

The texts the address parsers accept beside the grammars of the commands (RFC 959, RFC 1639 and
RFC 2428 in `doc/specs`).

* `accepts_endpointFromPORT`, `accepts_endpointFromLPRT`, `accepts_endpointFromEPRT`: acceptance by
  the fields of the text, each number as the casts read it.
* `isPORT_iff`, `isLPRT_iff`, `isEPRT_iff`: the grammars by the fields of the text.
* `endpointFrom_grammar`: a parser accepts its grammar and the loose texts besides: numbers behind a
  sign, a version field that only begins with the version, lengths and families written otherwise,
  addresses of the other family.
-/

namespace Ebftpd
namespace Util
namespace Net
namespace Ftp

def Accepts (result : Except Failure Endpoint) : Prop := ∃ ep, result = .ok ep

/-! ## The grammars -/

/-- Comma separated numbers of a byte. -/
def IsBytes (count : Nat) (s : Str) : Prop :=
  ∃ numbers : List Str, numbers.length = count ∧ (∀ n ∈ numbers, IsDecimal 255 n) ∧
    s = [','].intercalate numbers

def IsPORT (s : Str) : Prop := IsBytes 6 s

/-- Version and length of the address. -/
def lprtPrefix : IPFamily → Str
  | .IPv4 => "4,4,".toList
  | .IPv6 => "6,16,".toList

def IsLPRT (s : Str) : Prop :=
  ∃ family addr port, IsBytes (IPFamily.size family) addr ∧ IsBytes 2 port ∧
    s = lprtPrefix family ++ addr ++ ",2,".toList ++ port

def IsAddress (inet : Inet) (family : IPFamily) (addr : Str) : Prop :=
  '|' ∉ addr ∧ '\x00' ∉ addr ∧ (inet.pton family addr).isSome = true

def eprtPrefix : IPFamily → Str
  | .IPv4 => "|1|".toList
  | .IPv6 => "|2|".toList

def IsEPRT (inet : Inet) (s : Str) : Prop :=
  ∃ family addr port, IsAddress inet family addr ∧ IsDecimal 65535 port ∧
    s = eprtPrefix family ++ addr ++ "|".toList ++ port ++ "|".toList

/-! ## Bytes in fields -/

/-- A number as the casts read it: a plus sign may stand before it, a minus sign before zero. -/
def IsByte (s : Str) : Prop := IsDecimal 255 s ∨ IsSigned 255 s

/-- A number of this value, maybe behind a plus sign. -/
def Valued (value : Nat) (s : Str) : Prop :=
  ∃ ds, (s = ds ∨ s = '+' :: ds) ∧ IsDecimal 255 ds ∧ digitsValue ds = value

theorem octet_eq_some_iff_valued {s : Str} {b : UInt8} (hb : b ≠ 0) :
    octet s = some b ↔ Valued b.toNat s := by
  have hpos : b.toNat ≠ 0 := fun h => hb (UInt8.toNat_inj.1 h)
  have hlt : b.toNat < 256 := b.toNat_lt
  constructor
  · intro h
    obtain ⟨⟨neg, ds⟩, hsign⟩ : ∃ p, stollSign s = p := ⟨_, rfl⟩
    obtain ⟨⟨hne, hdigits⟩, hval⟩ := (octet_eq_some hsign).1 h
    rcases stollSign_eq hsign with ⟨rfl, -⟩ | ⟨rfl, hs⟩
    · rw [stollValue, if_pos rfl] at hval
      omega
    · rw [stollValue, if_neg Bool.false_ne_true] at hval
      exact ⟨ds, hs.symm, ⟨hne, hdigits, by omega⟩, by omega⟩
  · rintro ⟨ds, rfl | rfl, hdec, hval⟩
    · exact (octet_of_isDecimal hdec).2 hval
    · refine (@octet_eq_some _ ds false rfl b).2 ⟨⟨hdec.1, hdec.2.1⟩, ?_⟩
      rw [stollValue, if_neg Bool.false_ne_true, hval]

theorem valued_decimal {n : Nat} (h : n ≤ 255) : Valued n (decimal n) :=
  ⟨_, .inl rfl, isDecimal_decimal h, digitsValue_decimal n⟩

theorem octetsAt_isSome_iff {fields : List Str} {is : List Nat} :
    (octetsAt fields is).isSome = true ↔ ∀ f ∈ is.map (field fields), IsByte f := by
  induction is with
  | nil => simp [octetsAt]
  | cons i is ih =>
    rw [List.map_cons, List.forall_mem_cons, ← ih, IsByte, ← octet_isSome_iff, octetsAt]
    cases octet (field fields i) with
    | none => simp
    | some a => cases octetsAt fields is <;> simp

theorem portAt_isSome_iff {fields : List Str} {i j : Nat} :
    (portAt fields i j).isSome = true ↔ IsByte (field fields i) ∧ IsByte (field fields j) := by
  rw [IsByte, IsByte, ← octet_isSome_iff, ← octet_isSome_iff, portAt]
  cases octet (field fields i) with
  | none => simp
  | some a => cases octet (field fields j) <;> simp

/-! ## PORT -/

/-- All the fields, by their indexes. -/
theorem map_field (fields : List Str) : (List.range' 0 fields.length).map (field fields) = fields := by
  have hblock := field_block [] fields []
  rw [List.nil_append, List.append_nil] at hblock
  exact hblock

/-- The six fields of a text. -/
def FitsPORT (s : Str) (fields : List Str) : Prop :=
  split s ",".toList false = fields ∧ fields.length = 6

theorem accepts_endpointFromPORT (s : Str) :
    Accepts (endpointFromPORT s) ↔ ∃ fields, FitsPORT s fields ∧ ∀ f ∈ fields, IsByte f := by
  simp only [FitsPORT, and_assoc, exists_eq_left']
  rw [endpointFromPORT, Accepts]
  generalize split s ",".toList false = fields
  by_cases hlen : fields.length = 6
  · have hall := map_field fields
    rw [hlen, show List.range' 0 6 = [0, 1, 2, 3] ++ [4, 5] from rfl, List.map_append] at hall
    have hbytes : (∀ f ∈ fields, IsByte f) ↔
        (octetsAt fields [0, 1, 2, 3]).isSome = true ∧ (portAt fields 4 5).isSome = true := by
      rw [octetsAt_isSome_iff, portAt_isSome_iff]
      conv_lhs => rw [← hall]
      simp only [List.forall_mem_append, List.map_cons, List.map_nil, List.forall_mem_cons,
        List.not_mem_nil, false_imp_iff, implies_true, and_true]
    rw [hbytes, if_neg (not_not.2 hlen)]
    cases octetsAt fields [0, 1, 2, 3] with
    | none => simp
    | some a => cases portAt fields 4 5 <;> simp [hlen]
  · simp [hlen]

theorem mem_decimal_isDigit {max : Nat} {s : Str} (h : IsDecimal max s) {c : Char}
    (hc : c.isDigit = false) : c ∉ s := by
  intro hmem
  rw [List.all_eq_true.1 h.2.1 c hmem] at hc
  cases hc

theorem split_commas {fields : List Str} (hne : fields ≠ [])
    (h : ∀ f ∈ fields, ∃ max, IsDecimal max f) :
    split ([','].intercalate fields) ",".toList false = fields := by
  rw [show ",".toList = [','] from rfl, split_eq_splitOn, List.splitOn_intercalate]
  · intro f hf
    obtain ⟨max, hmax⟩ := h f hf
    exact mem_decimal_isDigit hmax (by decide)
  · exact hne

theorem intercalate_split (s : Str) (d : Char) : [d].intercalate (split s [d] false) = s := by
  rw [split_eq_splitOn, List.intercalate_splitOn]

theorem isPORT_iff (s : Str) :
    IsPORT s ↔ ∃ fields, FitsPORT s fields ∧ ∀ f ∈ fields, IsDecimal 255 f := by
  constructor
  · rintro ⟨numbers, hlen, hdec, rfl⟩
    have hne : numbers ≠ [] := by
      rintro rfl
      cases hlen
    exact ⟨numbers, ⟨split_commas hne fun f hf => ⟨255, hdec f hf⟩, hlen⟩, hdec⟩
  · rintro ⟨fields, ⟨rfl, hlen⟩, hdec⟩
    exact ⟨_, hlen, hdec, (intercalate_split s ',').symm⟩

/-- Acceptance and a grammar, both by the one shape a text has: they agree where no accepted shape is
loose. -/
theorem agree_iff_of_shape {X : Type} {fits accepted strict loose : X → Prop}
    (hunique : ∀ x y, fits x → fits y → x = y) (hstrict : ∀ x, fits x → strict x → accepted x)
    (hloose : ∀ x, fits x → accepted x → (strict x ↔ ¬loose x)) :
    ((∃ x, fits x ∧ accepted x) ↔ ∃ x, fits x ∧ strict x) ↔ ¬∃ x, fits x ∧ accepted x ∧ loose x := by
  constructor
  · rintro h ⟨x, hfits, hacc, hl⟩
    obtain ⟨y, hfits', hs⟩ := h.1 ⟨x, hfits, hacc⟩
    rw [hunique y x hfits' hfits] at hs
    exact (hloose x hfits hacc).1 hs hl
  · intro h
    constructor
    · rintro ⟨x, hfits, hacc⟩
      exact ⟨x, hfits, (hloose x hfits hacc).2 fun hl => h ⟨x, hfits, hacc, hl⟩⟩
    · rintro ⟨x, hfits, hs⟩
      exact ⟨x, hfits, hstrict x hfits hs⟩

theorem isByte_of_isDecimal {fields : List Str} (h : ∀ f ∈ fields, IsDecimal 255 f) :
    ∀ f ∈ fields, IsByte f :=
  fun f hf => .inl (h f hf)

theorem all_isDecimal_iff {fields : List Str} (h : ∀ f ∈ fields, IsByte f) :
    (∀ f ∈ fields, IsDecimal 255 f) ↔ ¬∃ f ∈ fields, IsSigned 255 f := by
  constructor
  · rintro hdec ⟨f, hf, hsigned⟩
    exact hsigned.not_isDecimal (hdec f hf)
  · intro hno f hf
    rcases h f hf with hdec | hsigned
    · exact hdec
    · exact absurd ⟨f, hf, hsigned⟩ hno

/-- A loose `PORT` text: six numbers, some behind a sign. -/
def LoosePORT (s : Str) : Prop :=
  ∃ fields, FitsPORT s fields ∧ (∀ f ∈ fields, IsByte f) ∧ ∃ f ∈ fields, IsSigned 255 f

theorem endpointFromPORT_grammar (s : Str) :
    (Accepts (endpointFromPORT s) ↔ IsPORT s) ↔ ¬LoosePORT s := by
  rw [accepts_endpointFromPORT, isPORT_iff, LoosePORT]
  exact agree_iff_of_shape (fun x y hx hy => hx.1.symm.trans hy.1)
    (fun x _ hdec => isByte_of_isDecimal hdec) (fun x _ hbyte => all_isDecimal_iff hbyte)

/-! ## LPRT -/

/-- The fields of an `LPRT` text for an address of the family. -/
structure LongShape where
  family : IPFamily
  version : Str
  addrLen : Str
  addr : List Str
  portLen : Str
  p₀ : Str
  p₁ : Str

def versionChar : IPFamily → Char
  | .IPv4 => '4'
  | .IPv6 => '6'

theorem versionChar_injective : Function.Injective versionChar := by
  intro family family' h
  cases family <;> cases family' <;> first | rfl | exact absurd h (by decide)

theorem versionChar_ne (family : IPFamily) : versionChar family ≠ ',' := by
  cases family <;> decide

namespace LongShape

def fields (x : LongShape) : List Str :=
  x.version :: x.addrLen :: (x.addr ++ [x.portLen, x.p₀, x.p₁])

/-- The bytes of the address and of the port. -/
def bytes (x : LongShape) : List Str := x.addr ++ [x.p₀, x.p₁]

structure Fits (s : Str) (x : LongShape) : Prop where
  split : split s ",".toList false = x.fields
  addr : x.addr.length = x.family.size
  version : x.version.head? = some (versionChar x.family)

structure Accepted (x : LongShape) : Prop where
  addrLen : Valued x.family.size x.addrLen
  portLen : Valued 2 x.portLen
  bytes : ∀ f ∈ x.bytes, IsByte f

structure Strict (x : LongShape) : Prop where
  version : x.version = [versionChar x.family]
  addrLen : x.addrLen = decimal x.family.size
  portLen : x.portLen = decimal 2
  bytes : ∀ f ∈ x.bytes, IsDecimal 255 f

/-- The version field goes on, a length is written in another way, or a number is signed. -/
def Loose (x : LongShape) : Prop :=
  x.version ≠ [versionChar x.family] ∨ x.addrLen ≠ decimal x.family.size ∨ x.portLen ≠ decimal 2 ∨
    ∃ f ∈ x.bytes, IsSigned 255 f

theorem fits_unique {s : Str} (x y : LongShape) (hx : x.Fits s) (hy : y.Fits s) : x = y := by
  have hfields := hx.split.symm.trans hy.split
  obtain ⟨family, version, addrLen, addr, portLen, p₀, p₁⟩ := x
  obtain ⟨family', version', addrLen', addr', portLen', p₀', p₁'⟩ := y
  simp only [fields, List.cons.injEq] at hfields
  obtain ⟨rfl, rfl, hrest⟩ := hfields
  have hchar : versionChar family = versionChar family' :=
    Option.some.inj (hx.version.symm.trans hy.version)
  obtain rfl := versionChar_injective hchar
  have hlen : addr.length = addr'.length := hx.addr.trans hy.addr.symm
  obtain ⟨rfl, htail⟩ := List.append_inj hrest hlen
  simp only [List.cons.injEq, and_true] at htail
  obtain ⟨rfl, rfl, rfl⟩ := htail
  rfl

theorem strict_accepted (x : LongShape) (h : x.Strict) : x.Accepted := by
  refine ⟨?_, ?_, isByte_of_isDecimal h.bytes⟩
  · rw [h.addrLen]
    exact valued_decimal (by cases x.family <;> decide)
  · rw [h.portLen]
    exact valued_decimal (by decide)

theorem strict_iff (x : LongShape) (h : x.Accepted) : x.Strict ↔ ¬x.Loose := by
  constructor
  · rintro hs (hv | ha | hp | hsigned)
    · exact hv hs.version
    · exact ha hs.addrLen
    · exact hp hs.portLen
    · exact (all_isDecimal_iff h.bytes).1 hs.bytes hsigned
  · intro hno
    simp only [Loose, not_or, not_not] at hno
    exact ⟨hno.1, hno.2.1, hno.2.2.1, (all_isDecimal_iff h.bytes).2 hno.2.2.2⟩

end LongShape

theorem exists_fields_eq {fields : List Str} {n : Nat} (h : fields.length = 5 + n) :
    ∃ version addrLen addr portLen p₀ p₁, addr.length = n ∧
      fields = version :: addrLen :: (addr ++ [portLen, p₀, p₁]) := by
  have hhead : (fields.take 2).length = 2 := by
    rw [List.length_take]
    omega
  have htail : ((fields.drop 2).drop n).length = 3 := by
    rw [List.length_drop, List.length_drop]
    omega
  obtain ⟨version, addrLen, hfront⟩ := List.length_eq_two.1 hhead
  obtain ⟨portLen, p₀, p₁, hback⟩ := List.length_eq_three.1 htail
  refine ⟨version, addrLen, (fields.drop 2).take n, portLen, p₀, p₁, ?_, ?_⟩
  · rw [List.length_take, List.length_drop]
    omega
  · have hfields := List.take_append_drop 2 fields
    rw [hfront] at hfields
    rw [← hback, List.take_append_drop]
    exact hfields.symm

theorem accepts_endpointFromLPRTof {family : IPFamily} {count : Nat} {is : List Nat}
    (his : is.length = family.size) {portLen p₀ p₁ : Nat} (hcount : count = 5 + family.size)
    (hrange : is = List.range' 2 family.size) (hlen : portLen = 2 + family.size)
    (hp₀ : p₀ = 3 + family.size) (hp₁ : p₁ = 4 + family.size) {s : Str} {x : LongShape}
    (hsplit : split s ",".toList false = x.fields) (haddr : x.addr.length = family.size)
    (hfamily : x.family = family) :
    Accepts (endpointFromLPRTof family count is his portLen p₀ p₁ s) ↔ x.Accepted := by
  obtain ⟨size, hsize, hne⟩ : ∃ n : UInt8, n.toNat = family.size ∧ n ≠ 0 := by
    cases family with
    | IPv4 => exact ⟨4, rfl, by decide⟩
    | IPv6 => exact ⟨16, rfl, by decide⟩
  have hcount' : x.fields.length = count := by
    simp only [LongShape.fields, List.length_cons, List.length_append, List.length_nil, haddr, hcount]
    omega
  have haddrs : is.map (field x.fields) = x.addr := by
    have hblock := field_block [x.version, x.addrLen] x.addr [x.portLen, x.p₀, x.p₁]
    rw [haddr] at hblock
    rw [hrange]
    exact hblock
  have hfront : (x.version :: x.addrLen :: x.addr).length = 2 + family.size := by
    simp only [List.length_cons, haddr]
    omega
  have hafter : ∀ k i, i = 2 + family.size + k → field x.fields i = field [x.portLen, x.p₀, x.p₁] k :=
    fun k i hi => @field_after (x.version :: x.addrLen :: x.addr) _ i k (by rw [hfront, hi])
  have hportLen : field x.fields portLen = x.portLen := hafter 0 portLen (by omega)
  have hport₀ : field x.fields p₀ = x.p₀ := hafter 1 p₀ (by omega)
  have hport₁ : field x.fields p₁ = x.p₁ := hafter 2 p₁ (by omega)
  have hacc : x.Accepted ↔ octet x.addrLen = some size ∧ (octetsAt x.fields is).isSome = true ∧
      octet x.portLen = some 2 ∧ (portAt x.fields p₀ p₁).isSome = true := by
    rw [octetsAt_isSome_iff, portAt_isSome_iff, haddrs, hport₀, hport₁,
      octet_eq_some_iff_valued hne, octet_eq_some_iff_valued (by decide), hsize]
    constructor
    · intro h
      have hbytes := h.bytes
      simp only [LongShape.bytes, List.forall_mem_append, List.forall_mem_cons, List.not_mem_nil,
        false_imp_iff, implies_true, and_true] at hbytes
      exact ⟨hfamily ▸ h.addrLen, hbytes.1, h.portLen, hbytes.2⟩
    · rintro ⟨hal, hal', hpl, hp⟩
      refine ⟨hfamily ▸ hal, hpl, ?_⟩
      simp only [LongShape.bytes, List.forall_mem_append, List.forall_mem_cons, List.not_mem_nil,
        false_imp_iff, implies_true, and_true]
      exact ⟨hal', hp⟩
  rw [hacc, Accepts, endpointFromLPRTof]
  simp only [hsplit, hcount', hportLen, ne_eq, not_true_eq_false, if_false,
    show field x.fields 1 = x.addrLen from rfl]
  cases octet x.addrLen with
  | none => simp
  | some a =>
    have ha : some a = some size ↔ a.toNat = family.size := by
      rw [Option.some.injEq, ← UInt8.toNat_inj, hsize]
    rw [ha]
    by_cases hsz : a.toNat = family.size
    · simp only [hsz, not_true_eq_false, if_false, true_and]
      cases octetsAt x.fields is with
      | none => simp
      | some data =>
        cases octet x.portLen with
        | none => simp
        | some len =>
          by_cases hlen2 : len = 2
          · cases portAt x.fields p₀ p₁ <;> simp [hlen2]
          · simp [hlen2]
    · simp [hsz]

theorem length_of_accepts {family : IPFamily} {count : Nat} {is : List Nat}
    {his : is.length = family.size} {portLen p₀ p₁ : Nat} {s : Str}
    (h : Accepts (endpointFromLPRTof family count is his portLen p₀ p₁ s)) :
    (split s ",".toList false).length = count := by
  by_contra hlen
  obtain ⟨ep, hep⟩ := h
  rw [endpointFromLPRTof, if_pos hlen] at hep
  cases hep

/-- The first field begins as the text does. -/
theorem head?_of_split {s version : Str} {rest : List Str}
    (h : split s ",".toList false = version :: rest) {c : Char} (hc : c ≠ ',') :
    s.head? = some c ↔ version.head? = some c := by
  have hs := intercalate_split s ','
  rw [show [','] = ",".toList from rfl, h] at hs
  rw [← hs]
  cases version with
  | cons d version => cases rest <;> simp
  | nil =>
    cases rest with
    | nil => simp
    | cons f rest => simp [List.intercalate_cons_cons, hc.symm]

theorem accepts_endpointFromLPRT (s : Str) :
    Accepts (endpointFromLPRT s) ↔ ∃ x : LongShape, x.Fits s ∧ x.Accepted := by
  have hshape : ∀ family, (split s ",".toList false).length = 5 + IPFamily.size family →
      s.head? = some (versionChar family) → ∃ x : LongShape, x.Fits s ∧ x.family = family := by
    intro family hcount hhead
    obtain ⟨version, addrLen, addr, portLen, p₀, p₁, hlen, hfields⟩ := exists_fields_eq hcount
    exact ⟨⟨family, version, addrLen, addr, portLen, p₀, p₁⟩,
      ⟨hfields, hlen, (head?_of_split hfields (versionChar_ne family)).1 hhead⟩, rfl⟩
  have hv4 : ∀ x : LongShape, x.Fits s → x.family = .IPv4 →
      (Accepts (endpointFromLPRTv4 s) ↔ x.Accepted) := fun x hx hfamily =>
    accepts_endpointFromLPRTof rfl rfl rfl rfl rfl rfl hx.split (by rw [hx.addr, hfamily]) hfamily
  have hv6 : ∀ x : LongShape, x.Fits s → x.family = .IPv6 →
      (Accepts (endpointFromLPRTv6 s) ↔ x.Accepted) := fun x hx hfamily =>
    accepts_endpointFromLPRTof rfl rfl rfl rfl rfl rfl hx.split (by rw [hx.addr, hfamily]) hfamily
  constructor
  · rintro ⟨ep, hep⟩
    cases s with
    | nil => cases hep
    | cons c t =>
      simp only [endpointFromLPRT] at hep
      split at hep
      · rename_i hc
        have hacc : Accepts (endpointFromLPRTv4 (c :: t)) := ⟨ep, hep⟩
        obtain ⟨x, hx, hfamily⟩ := hshape .IPv4 (length_of_accepts hacc) (by rw [hc]; rfl)
        exact ⟨x, hx, (hv4 x hx hfamily).1 hacc⟩
      · split at hep
        · rename_i hc
          have hacc : Accepts (endpointFromLPRTv6 (c :: t)) := ⟨ep, hep⟩
          obtain ⟨x, hx, hfamily⟩ := hshape .IPv6 (length_of_accepts hacc) (by rw [hc]; rfl)
          exact ⟨x, hx, (hv6 x hx hfamily).1 hacc⟩
        · cases hep
  · rintro ⟨x, hx, hacc⟩
    have hhead := (head?_of_split hx.split (versionChar_ne x.family)).2 hx.version
    cases s with
    | nil => cases hhead
    | cons c t =>
      have hc : c = versionChar x.family := by simpa using hhead
      cases hfamily : x.family with
      | IPv4 =>
        rw [hfamily] at hc
        rw [show endpointFromLPRT (c :: t) = endpointFromLPRTv4 (c :: t) from if_pos hc]
        exact (hv4 x hx hfamily).2 hacc
      | IPv6 =>
        rw [hfamily] at hc
        have hnot : c ≠ '4' := by
          rw [hc]
          decide
        rw [show endpointFromLPRT (c :: t) = endpointFromLPRTv6 (c :: t) from
          (if_neg hnot).trans (if_pos hc)]
        exact (hv6 x hx hfamily).2 hacc

theorem intercalate_append {sep : Char} {l m : List Str} (hl : l ≠ []) (hm : m ≠ []) :
    [sep].intercalate (l ++ m) = [sep].intercalate l ++ [sep] ++ [sep].intercalate m := by
  induction l with
  | nil => exact absurd rfl hl
  | cons f l ih =>
    cases l with
    | nil => simp [List.intercalate_cons_of_ne_nil hm]
    | cons g l =>
      rw [List.cons_append, List.intercalate_cons_of_ne_nil (by simp), ih (List.cons_ne_nil g l),
        List.intercalate_cons_cons]
      simp only [List.append_assoc]

/-- The text of a strict shape. -/
theorem LongShape.Strict.text {x : LongShape} (h : x.Strict) (haddr : x.addr.length = x.family.size) :
    [','].intercalate x.fields = lprtPrefix x.family ++ [','].intercalate x.addr ++ ",2,".toList ++
      [','].intercalate [x.p₀, x.p₁] := by
  have hne : x.addr ≠ [] := by
    intro hnil
    rw [hnil] at haddr
    cases hfamily : x.family <;> rw [hfamily] at haddr <;> cases haddr
  have hpre : lprtPrefix x.family = [versionChar x.family] ++ [','] ++ decimal x.family.size ++ [','] := by
    cases x.family <;> rfl
  have hfields : x.fields = ([x.version, x.addrLen] ++ x.addr) ++ ([x.portLen] ++ [x.p₀, x.p₁]) := rfl
  rw [hfields, intercalate_append (by simp) (by simp), intercalate_append (by simp) hne,
    intercalate_append (by simp) (by simp), h.version, h.addrLen, h.portLen, hpre,
    List.intercalate_cons_cons, List.intercalate_singleton, List.intercalate_singleton,
    show ",2,".toList = [','] ++ decimal 2 ++ [','] from rfl]
  simp only [List.append_assoc]

theorem isDecimal_versionChar (family : IPFamily) : IsDecimal 9 [versionChar family] := by
  cases family <;> decide

theorem isLPRT_iff (s : Str) : IsLPRT s ↔ ∃ x : LongShape, x.Fits s ∧ x.Strict := by
  constructor
  · rintro ⟨family, addr, port, ⟨numbers, hlen, hdec, rfl⟩, ⟨ports, hports, hpdec, rfl⟩, rfl⟩
    obtain ⟨p₀, p₁, rfl⟩ := List.length_eq_two.1 hports
    let x : LongShape :=
      ⟨family, [versionChar family], decimal family.size, numbers, decimal 2, p₀, p₁⟩
    have hbytes : ∀ f ∈ x.bytes, IsDecimal 255 f := by
      intro f hf
      rcases List.mem_append.1 hf with hf | hf
      · exact hdec f hf
      · exact hpdec f hf
    have hstrict : x.Strict := ⟨rfl, rfl, rfl, hbytes⟩
    have hdecimal : ∀ f ∈ x.fields, ∃ max, IsDecimal max f := by
      intro f hf
      simp only [LongShape.fields, List.mem_cons, List.mem_append, List.not_mem_nil, or_false] at hf
      rcases hf with rfl | rfl | hf | rfl | rfl | rfl
      · exact ⟨9, isDecimal_versionChar family⟩
      · exact ⟨16, isDecimal_decimal (by cases family <;> decide)⟩
      · exact ⟨255, hdec f hf⟩
      · exact ⟨2, isDecimal_decimal le_rfl⟩
      · exact ⟨255, hpdec _ (by simp)⟩
      · exact ⟨255, hpdec _ (by simp)⟩
    refine ⟨x, ⟨?_, hlen, rfl⟩, hstrict⟩
    rw [← hstrict.text hlen, split_commas (by simp [LongShape.fields]) hdecimal]
  · rintro ⟨x, hx, hstrict⟩
    refine ⟨x.family, _, _, ⟨x.addr, hx.addr, ?_, rfl⟩, ⟨[x.p₀, x.p₁], rfl, ?_, rfl⟩, ?_⟩
    · exact fun f hf => hstrict.bytes f (List.mem_append_left _ hf)
    · exact fun f hf => hstrict.bytes f (List.mem_append_right _ hf)
    · rw [← hstrict.text hx.addr, ← hx.split]
      exact (intercalate_split s ',').symm

def LooseLPRT (s : Str) : Prop := ∃ x : LongShape, x.Fits s ∧ x.Accepted ∧ x.Loose

theorem endpointFromLPRT_grammar (s : Str) :
    (Accepts (endpointFromLPRT s) ↔ IsLPRT s) ↔ ¬LooseLPRT s := by
  rw [accepts_endpointFromLPRT, isLPRT_iff, LooseLPRT]
  exact agree_iff_of_shape LongShape.fits_unique (fun x _ => x.strict_accepted)
    (fun x _ => x.strict_iff)

/-! ## EPRT -/

/-- The fields of an `EPRT` text between its bars. -/
structure ExtendedShape where
  family : Str
  addr : Str
  port : Str

/-- A port behind a sign, which the cast takes modulo `2^16`. -/
def IsSignedPort (s : Str) : Prop := ∃ ds, (s = '+' :: ds ∨ s = '-' :: ds) ∧ IsDecimal 65535 ds

theorem IsSignedPort.not_isDecimal {s : Str} (h : IsSignedPort s) {max : Nat} : ¬IsDecimal max s := by
  rintro ⟨-, hdigits, -⟩
  obtain ⟨ds, rfl | rfl, -⟩ := h
  · exact absurd (List.all_eq_true.1 hdigits '+' (by simp)) (by decide)
  · exact absurd (List.all_eq_true.1 hdigits '-' (by simp)) (by decide)

def familyNumber : IPFamily → Str
  | .IPv4 => "1".toList
  | .IPv6 => "2".toList

theorem familyNumber_injective : Function.Injective familyNumber := by
  intro family family' h
  cases family <;> cases family' <;> first | rfl | exact absurd h (by decide)

namespace ExtendedShape

def fields (x : ExtendedShape) : List Str := [[], x.family, x.addr, x.port, []]

def Fits (s : Str) (x : ExtendedShape) : Prop := split s "|".toList false = x.fields

structure Accepted (inet : Inet) (x : ExtendedShape) : Prop where
  family : Valued 1 x.family ∨ Valued 2 x.family
  port : IsDecimal 65535 x.port ∨ IsSignedPort x.port
  addr : (inet.pton .IPv4 (cStr x.addr)).isSome = true ∨ (inet.pton .IPv6 (cStr x.addr)).isSome = true

def Strict (inet : Inet) (x : ExtendedShape) : Prop :=
  ∃ family, x.family = familyNumber family ∧ IsAddress inet family x.addr ∧ IsDecimal 65535 x.port

/-- The family is written in another way, the port is signed, or the address is cut short or not one
of the family. -/
def Loose (inet : Inet) (x : ExtendedShape) : Prop :=
  (x.family ≠ familyNumber .IPv4 ∧ x.family ≠ familyNumber .IPv6) ∨ IsSignedPort x.port ∨
    '\x00' ∈ x.addr ∨
    ∃ family, x.family = familyNumber family ∧ (inet.pton family x.addr).isSome = false

theorem fields_injective {x y : ExtendedShape} (h : x.fields = y.fields) : x = y := by
  obtain ⟨family, addr, port⟩ := x
  obtain ⟨family', addr', port'⟩ := y
  simp only [fields, List.cons.injEq, and_true, true_and] at h
  obtain ⟨rfl, rfl, rfl⟩ := h
  rfl

theorem accepted_iff {inet : Inet} {x : ExtendedShape} :
    x.Accepted inet ↔ (octet x.family = some 1 ∨ octet x.family = some 2) ∧
      (lexicalCastUInt16 x.port).isSome = true ∧ (IPAddress.fromString inet x.addr).isSome = true := by
  rw [octet_eq_some_iff_valued (by decide), octet_eq_some_iff_valued (by decide),
    lexicalCastUInt16_isSome_iff, IPAddress.fromString_isSome_iff]
  exact ⟨fun h => ⟨h.family, h.port, h.addr⟩, fun h => ⟨h.1, h.2.1, h.2.2⟩⟩

theorem strict_accepted {inet : Inet} (x : ExtendedShape) (h : x.Strict inet) : x.Accepted inet := by
  obtain ⟨family, hfamily, ⟨-, hnul, haddr⟩, hport⟩ := h
  refine ⟨?_, .inl hport, ?_⟩
  · rw [hfamily]
    cases family with
    | IPv4 => exact .inl ⟨_, .inl rfl, by decide, by decide⟩
    | IPv6 => exact .inr ⟨_, .inl rfl, by decide, by decide⟩
  · rw [cStr_of_notMem hnul]
    cases family with
    | IPv4 => exact .inl haddr
    | IPv6 => exact .inr haddr

theorem strict_iff {inet : Inet} {s : Str} (x : ExtendedShape) (hx : x.Fits s) (h : x.Accepted inet) :
    x.Strict inet ↔ ¬x.Loose inet := by
  have hbar : '|' ∉ x.addr := by
    refine @not_mem_of_mem_split s _ _ ?_
    rw [show ['|'] = "|".toList from rfl, hx]
    simp [fields]
  constructor
  · rintro ⟨family, hfamily, ⟨-, hnul, haddr⟩, hport⟩ (hother | hsigned | hcut | ⟨family', hfamily', hno⟩)
    · cases family with
      | IPv4 => exact hother.1 hfamily
      | IPv6 => exact hother.2 hfamily
    · exact hsigned.not_isDecimal hport
    · exact hnul hcut
    · rw [familyNumber_injective (hfamily.symm.trans hfamily'), hno] at haddr
      cases haddr
  · intro hno
    simp only [Loose, not_or, not_and_or, not_not, not_exists] at hno
    obtain ⟨hfamily, hsigned, hnul, haddr⟩ := hno
    have hport : IsDecimal 65535 x.port := h.port.resolve_right hsigned
    obtain ⟨family, hfam⟩ : ∃ family, x.family = familyNumber family := by
      rcases hfamily with hfam | hfam
      · exact ⟨_, hfam⟩
      · exact ⟨_, hfam⟩
    have hsome : (inet.pton family x.addr).isSome = true :=
      eq_true_of_ne_false ((haddr family).resolve_left (not_not.2 hfam))
    exact ⟨family, hfam, ⟨hbar, hnul, hsome⟩, hport⟩

end ExtendedShape

theorem exists_fields_iff {fields : List Str} :
    ¬(fields.length ≠ 5 ∨ field fields 0 ≠ [] ∨ field fields 4 ≠ []) ↔
      ∃ x : ExtendedShape, fields = x.fields := by
  constructor
  · intro h
    simp only [not_or, not_not] at h
    obtain ⟨hlen, hfirst, hlast⟩ := h
    have hall := map_field fields
    rw [hlen] at hall
    have hlist : fields = [field fields 0, field fields 1, field fields 2, field fields 3,
      field fields 4] := hall.symm
    rw [hfirst, hlast] at hlist
    exact ⟨⟨field fields 1, field fields 2, field fields 3⟩, hlist⟩
  · rintro ⟨x, rfl⟩
    simp [ExtendedShape.fields, field]

theorem accepts_endpointFromEPRT (inet : Inet) (s : Str) :
    Accepts (endpointFromEPRT inet s) ↔ ∃ x : ExtendedShape, x.Fits s ∧ x.Accepted inet := by
  rw [Accepts, endpointFromEPRT]
  simp only [ExtendedShape.Fits]
  generalize split s "|".toList false = fields
  by_cases hshape : fields.length ≠ 5 ∨ field fields 0 ≠ [] ∨ field fields 4 ≠ []
  · rw [if_pos hshape]
    constructor
    · rintro ⟨ep, hep⟩
      cases hep
    · rintro ⟨x, hx, -⟩
      exact absurd hshape (exists_fields_iff.2 ⟨x, hx⟩)
  · rw [if_neg hshape]
    obtain ⟨x, rfl⟩ := exists_fields_iff.1 hshape
    have honly : (∃ y : ExtendedShape, x.fields = y.fields ∧ y.Accepted inet) ↔ x.Accepted inet := by
      constructor
      · rintro ⟨y, hy, hacc⟩
        rw [ExtendedShape.fields_injective hy]
        exact hacc
      · exact fun hacc => ⟨x, rfl, hacc⟩
    rw [honly, ExtendedShape.accepted_iff,
      show field x.fields 1 = x.family from rfl, show field x.fields 2 = x.addr from rfl,
      show field x.fields 3 = x.port from rfl]
    cases octet x.family with
    | none => simp
    | some f =>
      cases lexicalCastUInt16 x.port with
      | none => simp
      | some port =>
        simp only [Endpoint.ofString, Option.some.injEq, Option.isSome_some, true_and]
        by_cases hf : f = 1 ∨ f = 2
        · rw [if_neg (by rw [← not_or]; exact not_not.2 hf)]
          cases IPAddress.fromString inet x.addr <;> simp [hf]
        · rw [if_pos (not_or.1 hf)]
          simp [hf]

theorem ExtendedShape.text (x : ExtendedShape) : ['|'].intercalate x.fields =
    "|".toList ++ x.family ++ "|".toList ++ x.addr ++ "|".toList ++ x.port ++ "|".toList := by
  simp [ExtendedShape.fields]

theorem isEPRT_iff (inet : Inet) (s : Str) :
    IsEPRT inet s ↔ ∃ x : ExtendedShape, x.Fits s ∧ x.Strict inet := by
  have hpre : ∀ family, eprtPrefix family = "|".toList ++ familyNumber family ++ "|".toList := by
    intro family
    cases family <;> rfl
  have hbar : ∀ family, '|' ∉ familyNumber family := by
    intro family
    cases family <;> decide
  constructor
  · rintro ⟨family, addr, port, haddr, hport, rfl⟩
    let x : ExtendedShape := ⟨familyNumber family, addr, port⟩
    refine ⟨x, ?_, family, rfl, haddr, hport⟩
    rw [hpre, ← x.text, ExtendedShape.Fits, show "|".toList = ['|'] from rfl, split_eq_splitOn,
      List.splitOn_intercalate]
    · intro f hf
      simp only [ExtendedShape.fields, List.mem_cons, List.not_mem_nil, or_false] at hf
      rcases hf with rfl | rfl | rfl | rfl | rfl
      · exact List.not_mem_nil
      · exact hbar family
      · exact haddr.1
      · exact mem_decimal_isDigit hport (by decide)
      · exact List.not_mem_nil
    · exact List.cons_ne_nil _ _
  · rintro ⟨x, hx, family, hfamily, haddr, hport⟩
    refine ⟨family, x.addr, x.port, haddr, hport, ?_⟩
    rw [hpre, ← hfamily, ← x.text, ← hx]
    exact (intercalate_split s '|').symm

def LooseEPRT (inet : Inet) (s : Str) : Prop :=
  ∃ x : ExtendedShape, x.Fits s ∧ x.Accepted inet ∧ x.Loose inet

theorem endpointFromEPRT_grammar (inet : Inet) (s : Str) :
    (Accepts (endpointFromEPRT inet s) ↔ IsEPRT inet s) ↔ ¬LooseEPRT inet s := by
  rw [accepts_endpointFromEPRT, isEPRT_iff, LooseEPRT]
  exact agree_iff_of_shape (fun x y hx hy => ExtendedShape.fields_injective (hx.symm.trans hy))
    (fun x _ => x.strict_accepted)
    (fun x hx => x.strict_iff hx)

/-! ## The three parsers -/

theorem endpointFrom_grammar (inet : Inet) (s : Str) :
    ((Accepts (endpointFromPORT s) ↔ IsPORT s) ↔ ¬LoosePORT s) ∧
    ((Accepts (endpointFromLPRT s) ↔ IsLPRT s) ↔ ¬LooseLPRT s) ∧
    ((Accepts (endpointFromEPRT inet s) ↔ IsEPRT inet s) ↔ ¬LooseEPRT inet s) :=
  ⟨endpointFromPORT_grammar s, endpointFromLPRT_grammar s, endpointFromEPRT_grammar inet s⟩

/-- A signed number, a version field that goes on and an IPv6 address under family 1. -/
theorem endpointFrom_loose :
    ¬(Accepts (endpointFromPORT "1,2,3,4,+5,6".toList) ↔ IsPORT "1,2,3,4,+5,6".toList) ∧
    ¬(Accepts (endpointFromLPRT "4x,4,1,2,3,4,2,5,6".toList) ↔
      IsLPRT "4x,4,1,2,3,4,2,5,6".toList) ∧
    ¬(Accepts (endpointFromEPRT sampleInet "|1|2001:db8::1|21|".toList) ↔
      IsEPRT sampleInet "|1|2001:db8::1|21|".toList) := by
  refine ⟨?_, ?_, ?_⟩
  · rw [endpointFromPORT_grammar, not_not]
    have hall : ∀ f ∈ ["1".toList, "2".toList, "3".toList, "4".toList, "+5".toList, "6".toList],
        (octet f).isSome = true := by decide
    exact ⟨_, ⟨by decide, rfl⟩, fun f hf => octet_isSome_iff.1 (hall f hf), "+5".toList, by decide,
      .inl ⟨"5".toList, rfl, by decide⟩⟩
  · rw [endpointFromLPRT_grammar, not_not]
    exact ⟨⟨.IPv4, "4x".toList, "4".toList, ["1".toList, "2".toList, "3".toList, "4".toList],
      "2".toList, "5".toList, "6".toList⟩, ⟨by decide, rfl, rfl⟩,
      ⟨valued_decimal (n := 4) (by decide), valued_decimal (n := 2) (by decide),
        isByte_of_isDecimal (by decide)⟩, .inl (by decide)⟩
  · rw [endpointFromEPRT_grammar, not_not]
    have hfits : split "|1|2001:db8::1|21|".toList "|".toList false =
        ExtendedShape.fields ⟨"1".toList, "2001:db8::1".toList, "21".toList⟩ := by decide
    exact ⟨_, hfits, ⟨.inl (valued_decimal (n := 1) (by decide)), .inl (by decide), .inr (by decide)⟩,
      .inr (.inr (.inr ⟨.IPv4, rfl, by decide⟩))⟩

end Ftp
end Net
end Util
end Ebftpd
