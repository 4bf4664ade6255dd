import Ebftpd.Ftp.Client
import Ebftpd.Ftp.Remote
import Ebftpd.Util.Net.Ftp

/-!
# Ebftpd.Ftp.Idnt

The line that a bouncer sends in front of what its client sends: `IdntParse` and `IdntUpdate` in
`src/ftp/clientimpl.cpp`. The word in front of the first space is not looked at.

* `idntParse_iff`: the lines that are accepted and what is kept of them.
* `idntParse_direct`: the client is kept as if it had connected itself.
-/

namespace Ebftpd
namespace Ftp
namespace Idnt

open Util Util.Net Util.Net.IPAddress

/-- `find_first_of` a character. -/
def findFirstOf (ch : Char) (s : Str) : Option Nat := s.findIdx? (· == ch)

/-- `find_last_of` a character. -/
def findLastOf (ch : Char) (s : Str) : Option Nat :=
  (findFirstOf ch s.reverse).map fun pos => s.length - 1 - pos

variable (inet : Inet) (held : IPAddress.Data) (peer : Peer)

/-- The hostname stays to be looked up where the bouncer repeats the address. -/
def idntUpdate (ident ip hostname : Str) : Option Peer :=
  match Object.fromString inet ip with
  | none => none
  | some ipa =>
    let ip := if ipa.isMappedv4 then (ipa.toUnmappedv4 held).toString inet else ip
    some { ident, ip, hostname := if ip ≠ hostname then hostname else peer.hostname }

def idntParse (command : Str) : Option Peer :=
  match split command " ".toList false with
  | [_, arg] =>
    match findFirstOf '@' arg with
    | none => none
    | some pos1 =>
      match findLastOf ':' arg with
      | none => none
      | some pos2 =>
        if pos2 ≤ pos1 then none
        else
          let ident := arg.take pos1
          let ip := (arg.drop (pos1 + 1)).take (pos2 - pos1 - 1)
          let hostname := arg.drop (pos2 + 1)
          if ident.isEmpty || hostname.isEmpty || ip.isEmpty then none
          else idntUpdate inet held peer ident ip hostname
  | _ => none

/-- A line with these three. -/
structure Line (command ident ip hostname : Str) : Prop where
  written : ∃ word, ' ' ∉ word ∧ command = word ++ ' ' :: (ident ++ '@' :: (ip ++ ':' :: hostname))
  ident : ident ≠ [] ∧ ' ' ∉ ident ∧ '@' ∉ ident
  ip : ip ≠ [] ∧ ' ' ∉ ip
  hostname : hostname ≠ [] ∧ ' ' ∉ hostname ∧ ':' ∉ hostname

/-! ## Finding a character -/

theorem findFirstOf_iff {ch : Char} {s : Str} {pos : Nat} :
    findFirstOf ch s = some pos ↔ ∃ a b, s = a ++ ch :: b ∧ ch ∉ a ∧ a.length = pos := by
  induction s generalizing pos with
  | nil => simp [findFirstOf]
  | cons c s ih =>
    rw [findFirstOf, List.findIdx?_cons]
    by_cases hc : c = ch
    · subst hc
      simp only [beq_self_eq_true, if_true, Option.some.injEq]
      constructor
      · rintro rfl
        exact ⟨[], s, rfl, List.not_mem_nil, rfl⟩
      · rintro ⟨a, b, hs, ha, rfl⟩
        cases a with
        | nil => rfl
        | cons d a =>
          cases hs
          exact absurd (List.mem_cons_self ..) ha
    · have hfalse : (c == ch) = false := by simpa using hc
      rw [hfalse, if_neg Bool.false_ne_true, Option.map_eq_some_iff]
      constructor
      · rintro ⟨pos', hpos, rfl⟩
        obtain ⟨a, b, rfl, ha, rfl⟩ := ih.mp hpos
        exact ⟨c :: a, b, rfl, List.not_mem_cons_of_ne_of_not_mem (Ne.symm hc) ha, rfl⟩
      · rintro ⟨a, b, hs, ha, rfl⟩
        cases a with
        | nil =>
          cases hs
          exact absurd rfl hc
        | cons d a =>
          cases hs
          exact ⟨a.length, ih.mpr ⟨a, b, rfl, List.not_mem_of_not_mem_cons ha, rfl⟩, rfl⟩

theorem findLastOf_iff {ch : Char} {s : Str} {pos : Nat} :
    findLastOf ch s = some pos ↔ ∃ a b, s = a ++ ch :: b ∧ ch ∉ b ∧ a.length = pos := by
  rw [findLastOf, Option.map_eq_some_iff]
  constructor
  · rintro ⟨pos', hpos, rfl⟩
    rw [findFirstOf_iff] at hpos
    obtain ⟨a, b, hs, ha, rfl⟩ := hpos
    have hsplit : s = b.reverse ++ ch :: a.reverse := by
      rw [← List.reverse_reverse s, hs]
      simp
    refine ⟨b.reverse, a.reverse, hsplit, by simpa using ha, ?_⟩
    rw [hsplit]
    simp
  · rintro ⟨a, b, rfl, hb, rfl⟩
    refine ⟨b.length, ?_, by simp⟩
    rw [findFirstOf_iff]
    exact ⟨b.reverse, a.reverse, by simp, by simpa using hb, by simp⟩

theorem split_two {command word arg : Str} :
    split command " ".toList false = [word, arg] ↔ command = word ++ ' ' :: arg ∧ ' ' ∉ word ∧ ' ' ∉ arg := by
  change split command [' '] false = _ ↔ _
  constructor
  · intro h
    have hnot : ∀ tok ∈ [word, arg], ' ' ∉ tok := fun tok htok => not_mem_of_mem_split (h ▸ htok)
    refine ⟨?_, hnot word (by simp), hnot arg (by simp)⟩
    rw [split_eq_splitOn] at h
    have hjoin : [' '].intercalate (command.splitOn ' ') = command := List.intercalate_splitOn ' '
    rw [h] at hjoin
    simpa [List.intercalate] using hjoin.symm
  · rintro ⟨rfl, hword, harg⟩
    have hnot : ∀ tok ∈ [word, arg], ' ' ∉ tok := by simp [hword, harg]
    have hsplit := List.splitOn_intercalate ' ' hnot (List.cons_ne_nil word [arg])
    rw [split_eq_splitOn]
    simpa [List.intercalate] using hsplit

/-! ## Lines -/

variable {inet held peer}

/-- The parts around the first at sign and the last colon. -/
theorem parts_eq {arg ident hostname : Str} (ip : Str) (hident : '@' ∉ ident) (hhostname : ':' ∉ hostname)
    (harg : arg = ident ++ '@' :: (ip ++ ':' :: hostname)) :
    findFirstOf '@' arg = some ident.length ∧ findLastOf ':' arg = some (ident.length + 1 + ip.length) ∧
      arg.take ident.length = ident ∧
      (arg.drop (ident.length + 1)).take (ident.length + 1 + ip.length - ident.length - 1) = ip ∧
      arg.drop (ident.length + 1 + ip.length + 1) = hostname := by
  have hlast : arg = (ident ++ '@' :: ip) ++ ':' :: hostname := by
    rw [harg]
    simp
  have hdrop : arg.drop (ident.length + 1) = ip ++ ':' :: hostname := by
    rw [harg, List.append_cons]
    exact List.drop_left' (by simp)
  have hcount : ident.length + 1 + ip.length - ident.length - 1 = ip.length := by omega
  refine ⟨?_, ?_, ?_, ?_, ?_⟩
  · rw [findFirstOf_iff]
    exact ⟨ident, _, harg, hident, rfl⟩
  · rw [findLastOf_iff]
    exact ⟨ident ++ '@' :: ip, hostname, hlast, hhostname, by simp; omega⟩
  · rw [harg]
    exact List.take_left' rfl
  · rw [hdrop, hcount]
    exact List.take_left' rfl
  · rw [hlast, List.append_cons]
    exact List.drop_left' (by simp; omega)

theorem exists_parts {arg : Str} {pos1 pos2 : Nat} (h1 : findFirstOf '@' arg = some pos1)
    (h2 : findLastOf ':' arg = some pos2) (hlt : ¬ pos2 ≤ pos1) :
    ∃ ident ip hostname, '@' ∉ ident ∧ ':' ∉ hostname ∧ arg = ident ++ '@' :: (ip ++ ':' :: hostname) ∧
      pos1 = ident.length ∧ pos2 = ident.length + 1 + ip.length := by
  rw [findFirstOf_iff] at h1
  rw [findLastOf_iff] at h2
  obtain ⟨ident, rest, hfirst, hident, rfl⟩ := h1
  obtain ⟨front, hostname, hlast, hhostname, rfl⟩ := h2
  have hsign : ident ++ ['@'] <+: arg := ⟨rest, by rw [hfirst, List.append_assoc]; rfl⟩
  have hfront : front <+: arg := ⟨':' :: hostname, hlast.symm⟩
  have hlength : (ident ++ ['@']).length ≤ front.length := by
    rw [List.length_append, List.length_singleton]
    omega
  have hprefix := List.prefix_of_prefix_length_le hsign hfront hlength
  obtain ⟨ip, rfl⟩ := hprefix
  refine ⟨ident, ip, hostname, hident, hhostname, by rw [hlast]; simp, rfl, ?_⟩
  rw [List.length_append, List.length_append]
  rfl

theorem idntParse_iff {command : Str} {peer' : Peer} :
    idntParse inet held peer command = some peer' ↔
      ∃ ident ip hostname, Line command ident ip hostname ∧
        idntUpdate inet held peer ident ip hostname = some peer' := by
  constructor
  · intro h
    unfold idntParse at h
    split at h
    · rename_i word arg hsplit
      rw [split_two] at hsplit
      obtain ⟨hcommand, hword, harg⟩ := hsplit
      split at h
      · cases h
      · rename_i pos1 h1
        split at h
        · cases h
        · rename_i pos2 h2
          split at h
          · cases h
          · rename_i hlt
            obtain ⟨ident, ip, hostname, hident, hhostname, rfl, rfl, rfl⟩ := exists_parts h1 h2 hlt
            obtain ⟨-, -, htake, hmiddle, hdrop⟩ := parts_eq ip hident hhostname rfl
            simp only [htake, hmiddle, hdrop] at h
            split at h
            · cases h
            · rename_i hsome
              simp only [Bool.or_eq_true, List.isEmpty_iff, not_or] at hsome
              simp only [List.mem_append, List.mem_cons, not_or] at harg
              exact ⟨ident, ip, hostname, ⟨⟨word, hword, hcommand⟩, ⟨hsome.1.1, harg.1, hident⟩,
                ⟨hsome.2, harg.2.2.1⟩, ⟨hsome.1.2, harg.2.2.2.2, hhostname⟩⟩, h⟩
    · cases h
  · rintro ⟨ident, ip, hostname, ⟨⟨word, hword, hcommand⟩, hident, hip, hhostname⟩, h⟩
    have harg : ' ' ∉ ident ++ '@' :: (ip ++ ':' :: hostname) := by
      simp [hident.2.1, hip.2, hhostname.2.1]
    obtain ⟨h1, h2, htake, hmiddle, hdrop⟩ := parts_eq ip hident.2.2 hhostname.2.2 rfl
    have hsplit : split command " ".toList false = [word, ident ++ '@' :: (ip ++ ':' :: hostname)] := by
      rw [split_two]
      exact ⟨hcommand, hword, harg⟩
    have hlt : ¬ ident.length + 1 + ip.length ≤ ident.length := by omega
    have hsome : (ident.isEmpty || hostname.isEmpty || ip.isEmpty) = false := by
      simp [hident.1, hip.1, hhostname.1]
    simp only [idntParse, hsplit, h1, h2, if_neg hlt, htake, hmiddle, hdrop, hsome,
      Bool.false_eq_true, if_false]
    exact h

/-! ## Clients behind a bouncer -/

/-- The address is kept as the text that a connection from there would have. -/
theorem kept_direct (held : IPAddress.Data) (hinet : inet.Documented) {ip : Object} (hip : ip.asString = []) :
    ∃ ipa, Object.fromString inet (ip.toString inet) = some ipa ∧
      (if ipa.isMappedv4 then (ipa.toUnmappedv4 held).toString inet else ip.toString inet) =
        Remote.acceptIP inet held ip := by
  have htext : ip.toString inet = inet.ntop ip.family ip.octets := by
    rw [Object.toString, hip, List.isEmpty_nil, if_pos rfl]
  have hread := Object.read_fromString inet (ip.toString inet)
  rw [htext, fromString_ntop hinet, Option.map_eq_some_iff] at hread
  obtain ⟨ipa, hipa, hsame⟩ := hread
  have haddress : ipa.address = ip.address := by
    change Address.ofOctets ipa.read.family ipa.read.data = _
    rw [hsame]
    rfl
  have hmapped : ipa.isMappedv4 = ip.isMappedv4 := by
    rw [← Object.isMappedv4_read, ← Object.isMappedv4_read, hsame]
    rfl
  refine ⟨ipa, htext ▸ hipa, ?_⟩
  rw [Remote.acceptIP_eq hip, hmapped]
  cases h : ip.isMappedv4 with
  | true =>
    rw [if_pos rfl, Remote.toString_eq rfl, ← Object.plain_mapped (hmapped.trans h), haddress]
  | false => rw [if_neg Bool.false_ne_true, Remote.toString_eq hip, Object.plain_unmapped h]

/-- A bouncer that writes the address of its client as the server would, and a name for it, has it kept as if it
had connected itself; a name that is the address leaves the name to be looked up. -/
theorem idntParse_direct (hinet : inet.Documented) {ip : Object} (hip : ip.asString = [])
    {command ident hostname : Str} (hline : Line command ident (ip.toString inet) hostname) :
    idntParse inet held peer command = some
      { ident, ip := Remote.acceptIP inet held ip,
        hostname := if Remote.acceptIP inet held ip ≠ hostname then hostname else peer.hostname } := by
  obtain ⟨ipa, hipa, hkept⟩ := kept_direct held hinet hip
  refine idntParse_iff.mpr ⟨ident, ip.toString inet, hostname, hline, ?_⟩
  simp only [idntUpdate, hipa, hkept]

/-- A connection from a bouncer is served with such a line of a proper address, or with none where there need be
none. -/
theorem innerRun_iff {cfg : Remote.Bouncers} {ip line : Str} (hbouncer : cfg.isBouncer ip = true)
    (helds : Nat → IPAddress.Data) (depth : Nat) (remote : Object) :
    Remote.innerRun cfg ⟨line, fun line => (idntParse inet held peer line).isSome⟩ helds depth ip remote =
        some .served ↔
      (line = [] ∧ cfg.bouncerOnly = false) ∨
        ∃ ident ip hostname, Line line ident ip hostname ∧ (Object.fromString inet ip).isSome = true := by
  have hupdate (ident ip hostname : Str) :
      (idntUpdate inet held peer ident ip hostname).isSome = (Object.fromString inet ip).isSome := by
    unfold idntUpdate
    cases Object.fromString inet ip <;> rfl
  have hparse : (idntParse inet held peer line).isSome = true ↔
      ∃ ident ip hostname, Line line ident ip hostname ∧ (Object.fromString inet ip).isSome = true := by
    rw [Option.isSome_iff_exists]
    constructor
    · rintro ⟨peer', h⟩
      obtain ⟨ident, ip, hostname, hline, h⟩ := idntParse_iff.mp h
      exact ⟨ident, ip, hostname, hline, by rw [← hupdate, h]; rfl⟩
    · rintro ⟨ident, ip, hostname, hline, h⟩
      rw [← hupdate ident ip hostname] at h
      obtain ⟨peer', h⟩ := Option.isSome_iff_exists.mp h
      exact ⟨peer', idntParse_iff.mpr ⟨ident, ip, hostname, hline, h⟩⟩
  rw [← hparse]
  cases line with
  | nil => cases honly : cfg.bouncerOnly <;> simp [Remote.innerRun, hbouncer, honly, idntParse, split, splitLoop]
  | cons c line =>
    cases h : (idntParse inet held peer (c :: line)).isSome <;> simp [Remote.innerRun, hbouncer, h]

section Example

open Util.Net.Ftp

private def stale : IPAddress.Data := ⟨List.replicate 16 255, rfl⟩

private def clientIP : Object := .ofAddr stale (⟨[10, 0, 0, 7], rfl⟩ : Octets .IPv4)

theorem idntParse_direct_joe :
    idntParse sampleInet stale ⟨[], [], []⟩ "IDNT joe@10.0.0.7:example".toList = some
      { ident := "joe".toList, ip := Remote.acceptIP sampleInet stale clientIP,
        hostname := if Remote.acceptIP sampleInet stale clientIP ≠ "example".toList then "example".toList else [] } := by
  have htext : clientIP.toString sampleInet = "10.0.0.7".toList := by decide
  refine idntParse_direct sampleInet_documented rfl
    ⟨⟨"IDNT".toList, by decide, ?_⟩, by decide, ?_, by decide⟩
  · rw [htext]
    rfl
  · rw [htext]
    decide

end Example

end Idnt
end Ftp
end Ebftpd
