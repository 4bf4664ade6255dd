import Mathlib.Data.Bool.AllAny
import Ebftpd.Acl.Acl

/-!
# Ebftpd.Acl.IPStrength

How strong an address mask is (`src/acl/ipstrength.hpp`), and what the `secure_ip` rules make of it
(`src/acl/misc.cpp`). The scan of the address counts the separators of both kinds of address, and it
takes the first letter for a host name.

* `scan_kept`: what the scan says of a literal, cut off by a wildcard or whole.
* `right_iff`: it is right if and only if no hexadecimal letter and no empty group is in front of the
  first wildcard.
* `monotone_iff`: and a longer prefix is as good for every rule, unless a letter comes in.
-/

namespace Ebftpd
namespace Acl

open Util

structure IPStrength where
  numOctets : Nat
  isHostname : Bool
  hasIdent : Bool

def wildcards : Str := "*?[]".toList

/-- The ident in front of the last `@`, and the address behind it (`find_last_of('@')`). -/
def cutIdent (ip : Str) : Option Str × Str :=
  match ip.reverse.dropWhile (· != '@') with
  | [] => (none, ip)
  | _ :: before => (some before.reverse, (ip.reverse.takeWhile (· != '@')).reverse)

/-- The scan of the address: the octets, and whether it stopped at a host name. -/
def scanAddress : Nat → Str → Nat × Bool
  | numOctets, [] => (numOctets + 1, false)
  | numOctets, c :: cs =>
    if c = '.' ∨ c = ':' then scanAddress (numOctets + 1) cs
    else if c.isDigit then scanAddress numOctets cs
    else if wildcards.contains c then (numOctets, false)
    else if isAlpha c ∨ c = '-' then (numOctets, true)
    else scanAddress numOctets cs

/-- `IPStrength(std::string)`. -/
def IPStrength.ofMask (ip : Str) : IPStrength where
  numOctets := (scanAddress 0 (cutIdent ip).2).1
  isHostname := (scanAddress 0 (cutIdent ip).2).2
  hasIdent := (cutIdent ip).1.any fun ident => !ident.any wildcards.contains

def IPStrength.allowed (s userStrength : IPStrength) : Except String Unit :=
  let address : Except String Unit :=
    if userStrength.isHostname then
      if !s.isHostname then .error "Hostname's not allowed." else .ok ()
    else if userStrength.numOctets < s.numOctets then .error "Not enough octets specified."
    else .ok ()
  match address with
  | .error e => .error e
  | .ok () => if !userStrength.hasIdent && s.hasIdent then .error "No ident specified." else .ok ()

/-- `SecureIP`: the first rule whose ACL is for the user decides; `minimum` is what it asks for where it
refuses. -/
def secureIP (info : ACLInfo) (ip : Str) : List (IPStrength × ACL) → IPStrength → Bool × IPStrength
  | [], minimum => (true, minimum)
  | (strength, acl) :: rules, minimum =>
    if (acl.evaluate info).1 then
      match strength.allowed (.ofMask ip) with
      | .ok () => (true, minimum)
      | .error _ => (false, strength)
    else secureIP info ip rules minimum

/-! ## Masks of a literal -/

def isSeparator (c : Char) : Bool := c == '.' || c == ':'

/-- The hexadecimal digits of an IPv6 group that are letters. -/
def hexLetter (c : Char) : Bool := "abcdefABCDEF".toList.contains c

/-- The text of an IPv4 or an IPv6 address. -/
structure Literal where
  text : Str
  chars : ∀ c ∈ text, c.isDigit = true ∨ hexLetter c = true ∨ isSeparator c = true

/-- A literal, whole or with wildcards for what stands behind a prefix, and an ident part or none. -/
structure Mask (literal : Literal) where
  ident : Option Str
  kept : Str
  wild : Str
  kept_prefix : kept <+: literal.text
  wild_chars : ∀ c ∈ wild, c ∈ wildcards
  whole : wild = [] → kept = literal.text

variable {literal : Literal}

namespace Mask

def text (m : Mask literal) : Str :=
  match m.ident with
  | none => m.kept ++ m.wild
  | some ident => ident ++ '@' :: (m.kept ++ m.wild)

/-- What stands between the separators, up to the first wildcard: all of it in a whole literal, and what
has a separator behind it otherwise. -/
def complete (m : Mask literal) : List Str :=
  if m.wild = [] then m.kept.splitOnP isSeparator else (m.kept.splitOnP isSeparator).dropLast

/-- The complete groups; where zeros are left out there is none. -/
def groups (m : Mask literal) : List Str := m.complete.filter fun group => !group.isEmpty

def strength (m : Mask literal) : IPStrength := .ofMask m.text

/-- The strength says what the mask is. -/
structure Right (m : Mask literal) : Prop where
  address : m.strength.isHostname = false
  octets : m.strength.numOctets = m.groups.length
  ident : m.strength.hasIdent = true ↔ ∃ ident, m.ident = some ident ∧ ∀ c ∈ ident, c ∉ wildcards

def Lettered (m : Mask literal) : Prop := ∃ c ∈ m.kept, hexLetter c = true

/-- No letter stands in front of the first wildcard, and no group is left out. -/
def Plain (m : Mask literal) : Prop := ¬ m.Lettered ∧ [] ∉ m.complete

end Mask

/-! ## The scan -/

theorem wildcard_char : ∀ c ∈ wildcards, ¬ (c = '.' ∨ c = ':') ∧ c.isDigit = false ∧ c ≠ '@' :=
  List.all_iff_forall_prop.mp (by decide)

theorem hexLetter_char {c : Char} (h : hexLetter c = true) :
    ¬ (c = '.' ∨ c = ':') ∧ c.isDigit = false ∧ wildcards.contains c = false ∧ isAlpha c = true ∧ c ≠ '@' := by
  have hall : ∀ c ∈ "abcdefABCDEF".toList, ¬ (c = '.' ∨ c = ':') ∧ c.isDigit = false ∧
      wildcards.contains c = false ∧ isAlpha c = true ∧ c ≠ '@' :=
    List.all_iff_forall_prop.mp (by decide)
  exact hall c (List.contains_iff_mem.mp h)

theorem isSeparator_iff {c : Char} : isSeparator c = true ↔ c = '.' ∨ c = ':' := by simp [isSeparator]

theorem scanAddress_cons (n : Nat) (c : Char) (cs : Str) : scanAddress n (c :: cs) =
    if c = '.' ∨ c = ':' then scanAddress (n + 1) cs
    else if c.isDigit then scanAddress n cs
    else if wildcards.contains c then (n, false)
    else if isAlpha c ∨ c = '-' then (n, true)
    else scanAddress n cs := rfl

/-- The scan goes through digits and separators. -/
theorem scanAddress_digits {kept : Str} (h : ∀ c ∈ kept, c.isDigit = true ∨ isSeparator c = true) (n : Nat)
    (rest : Str) : scanAddress n (kept ++ rest) = scanAddress (n + kept.countP isSeparator) rest := by
  induction kept generalizing n with
  | nil => rfl
  | cons c kept ih =>
    have hkept := ih fun d hd => h d (List.mem_cons_of_mem _ hd)
    rw [List.cons_append, scanAddress_cons]
    by_cases hsep : c = '.' ∨ c = ':'
    · rw [if_pos hsep, hkept, List.countP_cons_of_pos (isSeparator_iff.mpr hsep), Nat.add_assoc, Nat.add_comm 1]
    · have hno : ¬ isSeparator c = true := fun hc => hsep (isSeparator_iff.mp hc)
      have hdigit : c.isDigit = true := (h c List.mem_cons_self).resolve_right hno
      rw [if_neg hsep, if_pos hdigit, hkept, List.countP_cons_of_neg hno]

/-- The first letter makes it a host name. -/
theorem scanAddress_letter {kept : Str}
    (h : ∀ c ∈ kept, c.isDigit = true ∨ hexLetter c = true ∨ isSeparator c = true)
    (hletter : ∃ c ∈ kept, hexLetter c = true) (n : Nat) (rest : Str) :
    (scanAddress n (kept ++ rest)).2 = true := by
  induction kept generalizing n with
  | nil =>
    obtain ⟨c, hc, -⟩ := hletter
    cases hc
  | cons c kept ih =>
    rw [List.cons_append, scanAddress_cons]
    by_cases hc : hexLetter c = true
    · obtain ⟨hsep, hdigit, hwild, halpha, -⟩ := hexLetter_char hc
      rw [if_neg hsep, hdigit, hwild, if_neg (by simp), if_neg (by simp), if_pos (.inl halpha)]
    · have hrest : ∃ d ∈ kept, hexLetter d = true := by
        obtain ⟨d, hd, hhex⟩ := hletter
        rcases List.mem_cons.mp hd with rfl | hd
        · exact absurd hhex hc
        · exact ⟨d, hd, hhex⟩
      have hkept := ih (fun d hd => h d (List.mem_cons_of_mem _ hd)) hrest
      by_cases hsep : c = '.' ∨ c = ':'
      · rw [if_pos hsep]
        exact hkept _
      · have hno : ¬ isSeparator c = true := fun hc => hsep (isSeparator_iff.mp hc)
        have hdigit : c.isDigit = true := by
          rcases h c List.mem_cons_self with hd | hx | hs
          · exact hd
          · exact absurd hx hc
          · exact absurd hs hno
        rw [if_neg hsep, if_pos hdigit]
        exact hkept _

theorem scanAddress_wild {wild : Str} (h : ∀ c ∈ wild, c ∈ wildcards) (n : Nat) :
    scanAddress n wild = (if wild = [] then n + 1 else n, false) := by
  cases wild with
  | nil => rfl
  | cons c wild =>
    have hc := h c List.mem_cons_self
    obtain ⟨hsep, hdigit, -⟩ := wildcard_char c hc
    rw [scanAddress_cons, if_neg hsep, hdigit, if_neg (by simp), if_pos (List.contains_iff_mem.mpr hc), if_neg (by simp)]

theorem cutIdent_none {address : Str} (h : '@' ∉ address) : cutIdent address = (none, address) := by
  have hall : address.reverse.dropWhile (· != '@') = [] := by
    rw [List.dropWhile_eq_nil_iff]
    intro c hc
    rw [bne_iff_ne]
    rintro rfl
    exact h (List.mem_reverse.mp hc)
  rw [cutIdent, hall]

theorem cutIdent_some {address : Str} (h : '@' ∉ address) (ident : Str) :
    cutIdent (ident ++ '@' :: address) = (some ident, address) := by
  have hall : ∀ c ∈ address.reverse, (c != '@') = true := by
    intro c hc
    rw [bne_iff_ne]
    rintro rfl
    exact h (List.mem_reverse.mp hc)
  have hrev : (ident ++ '@' :: address).reverse = address.reverse ++ '@' :: ident.reverse := by simp
  rw [cutIdent, hrev, List.dropWhile_append_of_pos hall, List.takeWhile_append_of_pos hall]
  simp

theorem length_splitOnP (p : Char → Bool) (s : Str) : (s.splitOnP p).length = s.countP p + 1 := by
  induction s with
  | nil => simp [List.splitOnP_nil]
  | cons c s ih =>
    rw [List.splitOnP_cons_eq_if_modifyHead]
    by_cases hc : p c = true
    · rw [if_pos hc, List.length_cons, ih, List.countP_cons_of_pos hc]
    · rw [if_neg hc, List.length_modifyHead, ih, List.countP_cons_of_neg hc]

/-! ## What the strength says -/

namespace Mask

variable (m : Mask literal)

theorem kept_chars : ∀ c ∈ m.kept, c.isDigit = true ∨ hexLetter c = true ∨ isSeparator c = true :=
  fun c hc => literal.chars c (m.kept_prefix.mem hc)

theorem address_free : '@' ∉ m.kept ++ m.wild := by
  intro h
  rcases List.mem_append.mp h with h | h
  · rcases m.kept_chars _ h with h | h | h
    · exact absurd h (by decide)
    · exact (hexLetter_char h).2.2.2.2 rfl
    · exact absurd h (by decide)
  · exact (wildcard_char _ (m.wild_chars _ h)).2.2 rfl

theorem cutIdent_text : cutIdent m.text = (m.ident, m.kept ++ m.wild) := by
  unfold text
  cases m.ident with
  | none => exact cutIdent_none m.address_free
  | some ident => exact cutIdent_some m.address_free ident

theorem length_complete : m.complete.length = m.kept.countP isSeparator + if m.wild = [] then 1 else 0 := by
  unfold complete
  split
  · exact length_splitOnP isSeparator m.kept
  · rw [List.length_dropLast, length_splitOnP]
    rfl

/-- A mask with a letter is taken for a host name, any other has its complete pieces counted. -/
theorem strength_of_lettered (h : m.Lettered) : m.strength.isHostname = true := by
  simp only [strength, IPStrength.ofMask, cutIdent_text]
  exact scanAddress_letter m.kept_chars h 0 m.wild

theorem strength_of_plain (h : ¬ m.Lettered) :
    m.strength.isHostname = false ∧ m.strength.numOctets = m.complete.length := by
  have hkept : ∀ c ∈ m.kept, c.isDigit = true ∨ isSeparator c = true := by
    intro c hc
    rcases m.kept_chars c hc with hd | hx | hs
    · exact .inl hd
    · exact absurd ⟨c, hc, hx⟩ h
    · exact .inr hs
  simp only [strength, IPStrength.ofMask, cutIdent_text, scanAddress_digits hkept, scanAddress_wild m.wild_chars,
    length_complete, true_and]
  split <;> omega

theorem hasIdent_iff :
    m.strength.hasIdent = true ↔ ∃ ident, m.ident = some ident ∧ ∀ c ∈ ident, c ∉ wildcards := by
  simp only [strength, IPStrength.ofMask, cutIdent_text]
  cases m.ident with
  | none => simp
  | some ident => simp

theorem length_groups : m.complete.length = m.groups.length ↔ [] ∉ m.complete := by
  rw [eq_comm, groups, List.length_filter_eq_length_iff]
  constructor
  · intro h hnil
    exact absurd (h _ hnil) (by simp)
  · intro h group hgroup
    cases group with
    | nil => exact absurd hgroup h
    | cons c group => rfl

/-- The strength is right if and only if no letter and no empty group is in front of the wildcards. -/
theorem right_iff : m.Right ↔ m.Plain := by
  constructor
  · intro h
    have hplain : ¬ m.Lettered := fun hl => by
      have := m.strength_of_lettered hl
      rw [h.address] at this
      cases this
    exact ⟨hplain, m.length_groups.mp ((m.strength_of_plain hplain).2.symm.trans h.octets)⟩
  · rintro ⟨hplain, hgroups⟩
    obtain ⟨haddress, hoctets⟩ := m.strength_of_plain hplain
    exact ⟨haddress, hoctets.trans (m.length_groups.mpr hgroups), m.hasIdent_iff⟩

end Mask

/-! ## Longer prefixes -/

/-- Two masks of a literal, one with a longer prefix of it, and the same ident part. -/
structure Lengthening (literal : Literal) where
  shorter : Mask literal
  longer : Mask literal
  same_ident : longer.ident = shorter.ident
  longer_prefix : shorter.kept <+: longer.kept
  stays_whole : shorter.wild = [] → longer.wild = []

/-- Under any rules a mask that is allowed stays allowed when it gets longer. -/
def Lengthening.Monotone (l : Lengthening literal) : Prop :=
  ∀ (info : ACLInfo) (rules : List (IPStrength × ACL)) (minimum : IPStrength),
    (secureIP info l.shorter.text rules minimum).1 = true → (secureIP info l.longer.text rules minimum).1 = true

/-- What one rule allows by more octets and as much else. -/
theorem allowed_mono {s a b : IPStrength} (hident : b.hasIdent = a.hasIdent) (hhost : b.isHostname = a.isHostname)
    (hoctets : b.isHostname = false → a.numOctets ≤ b.numOctets) (h : s.allowed a = .ok ()) :
    s.allowed b = .ok () := by
  unfold IPStrength.allowed at h ⊢
  rw [hident, hhost]
  cases hb : a.isHostname with
  | true => simpa [hb] using h
  | false =>
    rw [hb] at hhost
    have hle := hoctets hhost
    simp only [hb, Bool.false_eq_true, if_false] at h ⊢
    by_cases hlt : a.numOctets < s.numOctets
    · rw [if_pos hlt] at h
      cases h
    · rw [if_neg hlt] at h
      rwa [if_neg (by omega)]

theorem secureIP_mono {ip ip' : Str} (info : ACLInfo)
    (h : ∀ s : IPStrength, s.allowed (.ofMask ip) = .ok () → s.allowed (.ofMask ip') = .ok ()) :
    ∀ (rules : List (IPStrength × ACL)) (minimum : IPStrength),
      (secureIP info ip rules minimum).1 = true → (secureIP info ip' rules minimum).1 = true := by
  intro rules minimum
  induction rules with
  | nil => exact fun _ => rfl
  | cons rule rules ih =>
    obtain ⟨strength, acl⟩ := rule
    simp only [secureIP]
    split
    · cases hallowed : strength.allowed (.ofMask ip) with
      | ok u =>
        rw [h strength hallowed]
        exact id
      | error e => exact fun hfalse => by cases hfalse
    · exact ih

namespace Lengthening

variable (l : Lengthening literal)

theorem lettered (h : l.shorter.Lettered) : l.longer.Lettered := by
  obtain ⟨c, hc, hhex⟩ := h
  exact ⟨c, l.longer_prefix.mem hc, hhex⟩

theorem hasIdent_eq : l.longer.strength.hasIdent = l.shorter.strength.hasIdent := by
  simp only [Mask.strength, IPStrength.ofMask, Mask.cutIdent_text, l.same_ident]

theorem complete_le : l.shorter.complete.length ≤ l.longer.complete.length := by
  rw [Mask.length_complete, Mask.length_complete]
  have hcount := l.longer_prefix.sublist.countP_le (p := isSeparator)
  by_cases hwhole : l.shorter.wild = []
  · rw [if_pos hwhole, if_pos (l.stays_whole hwhole)]
    omega
  · rw [if_neg hwhole]
    omega

/-- Every rule allows the longer mask with the shorter if no letter comes in: the shorter one is a host
name already, or neither is. -/
theorem allowed_longer (h : l.longer.Lettered → l.shorter.Lettered) (s : IPStrength)
    (hallowed : s.allowed l.shorter.strength = .ok ()) : s.allowed l.longer.strength = .ok () := by
  by_cases hlong : l.longer.Lettered
  · have hhost := l.longer.strength_of_lettered hlong
    refine allowed_mono l.hasIdent_eq (hhost.trans (l.shorter.strength_of_lettered (h hlong)).symm) ?_ hallowed
    intro hfalse
    rw [hhost] at hfalse
    cases hfalse
  · obtain ⟨hhost, hoctets⟩ := l.longer.strength_of_plain hlong
    obtain ⟨hhost', hoctets'⟩ := l.shorter.strength_of_plain fun hl => hlong (l.lettered hl)
    refine allowed_mono l.hasIdent_eq (hhost.trans hhost'.symm) (fun _ => ?_) hallowed
    rw [hoctets, hoctets']
    exact l.complete_le

theorem everyone_evaluate (info : ACLInfo) : (ACL.evaluate ⟨[.flag "*".toList false], none⟩ info).1 = true := rfl

/-- A letter that comes in makes the mask a host name, and a rule that asks for nothing else refuses it. -/
theorem refused_longer (hlong : l.longer.Lettered) (hshort : ¬ l.shorter.Lettered) : ¬ l.Monotone := by
  intro h
  have hrule := h ⟨[], [], []⟩ [(⟨0, false, false⟩, ⟨[.flag "*".toList false], none⟩)] ⟨2, false, true⟩
  simp only [secureIP, everyone_evaluate, if_true] at hrule
  have hshorter : IPStrength.allowed ⟨0, false, false⟩ (.ofMask l.shorter.text) = .ok () := by
    have : (IPStrength.ofMask l.shorter.text).isHostname = false := (l.shorter.strength_of_plain hshort).1
    simp [IPStrength.allowed, this]
  have hlonger : IPStrength.allowed ⟨0, false, false⟩ (.ofMask l.longer.text) = .error "Hostname's not allowed." := by
    have : (IPStrength.ofMask l.longer.text).isHostname = true := l.longer.strength_of_lettered hlong
    simp [IPStrength.allowed, this]
  rw [hshorter, hlonger] at hrule
  exact absurd (hrule rfl) (by simp)

theorem monotone_iff : l.Monotone ↔ (l.longer.Lettered → l.shorter.Lettered) := by
  constructor
  · intro h hlong
    by_contra hshort
    exact l.refused_longer hlong hshort h
  · intro h info rules minimum
    exact secureIP_mono info (fun s => l.allowed_longer h s) rules minimum

end Lengthening

/-- The strength of a mask is right if and only if no letter and no empty group is in front of its first
wildcard, and a longer prefix is as good as a shorter one under all rules if and only if it does not
bring in the first letter. -/
theorem ipStrength_iff (literal : Literal) :
    (∀ m : Mask literal, m.Right ↔ m.Plain) ∧
    ∀ l : Lengthening literal, l.Monotone ↔ (l.longer.Lettered → l.shorter.Lettered) :=
  ⟨fun m => m.right_iff, fun l => l.monotone_iff⟩

/-- The complete pieces of a prefix are the first pieces of the text. -/
theorem dropLast_splitOnP_initial (p : Char → Bool) (a b : Str) :
    (a.splitOnP p).dropLast <+: (a ++ b).splitOnP p := by
  induction a with
  | nil => simp [List.splitOnP_nil]
  | cons c a ih =>
    obtain ⟨u, us, hus⟩ := List.exists_cons_of_ne_nil (List.splitOnP_ne_nil p a)
    rw [List.cons_append, List.splitOnP_cons_eq_if_modifyHead, List.splitOnP_cons_eq_if_modifyHead]
    rw [hus] at ih ⊢
    by_cases hc : p c = true
    · rw [if_pos hc, if_pos hc, List.dropLast_cons_of_ne_nil (by simp)]
      exact List.cons_prefix_cons.mpr ⟨rfl, ih⟩
    · rw [if_neg hc, if_neg hc, List.modifyHead_cons]
      cases us with
      | nil => exact List.nil_prefix
      | cons v us =>
        rw [List.dropLast_cons_of_ne_nil (by simp)] at ih ⊢
        obtain ⟨rest, hrest⟩ := ih
        rw [← hrest, List.cons_append, List.modifyHead_cons]
        exact List.cons_prefix_cons.mpr ⟨rfl, List.prefix_append _ _⟩

/-- A dotted literal with all its groups has only right masks. -/
theorem dotted_right (hdotted : ∀ c ∈ literal.text, c.isDigit = true ∨ c = '.')
    (hgroups : [] ∉ literal.text.splitOnP isSeparator) (m : Mask literal) : m.Right := by
  refine m.right_iff.mpr ⟨?_, fun hnil => hgroups ?_⟩
  · rintro ⟨c, hc, hhex⟩
    obtain ⟨hsep, hdigit, -⟩ := hexLetter_char hhex
    rcases hdotted c (m.kept_prefix.mem hc) with h | h
    · rw [hdigit] at h
      cases h
    · exact hsep (.inl h)
  · unfold Mask.complete at hnil
    split at hnil
    · rename_i hwhole
      rwa [← m.whole hwhole]
    · obtain ⟨rest, hrest⟩ := m.kept_prefix
      rw [← hrest]
      exact (dropLast_splitOnP_initial isSeparator m.kept rest).mem hnil

theorem documentation_chars : ∀ c ∈ "2001:db8::1".toList,
    c.isDigit = true ∨ hexLetter c = true ∨ isSeparator c = true :=
  List.all_iff_forall_prop.mp (by decide)

def documentation : Literal := ⟨"2001:db8::1".toList, documentation_chars⟩

theorem documentation_kept : "2001:db8:".toList <+: documentation.text := by decide

theorem documentation_wild : ∀ c ∈ "*".toList, c ∈ wildcards := List.all_iff_forall_prop.mp (by decide)

theorem documentation_whole : "*".toList = [] → "2001:db8:".toList = documentation.text := by decide

def documentationMask : Mask documentation where
  ident := some "*".toList
  kept := "2001:db8:".toList
  wild := "*".toList
  kept_prefix := documentation_kept
  wild_chars := documentation_wild
  whole := documentation_whole

/-- A mask of an IPv6 network is taken for a host name. -/
theorem documentation_hostname : ¬ documentationMask.Right := by
  intro h
  exact absurd h.address (by decide)

end Acl
end Ebftpd
