import Ebftpd.Acl.IPMask
import Ebftpd.Ftp.Client

/-!
# Ebftpd.Ftp.Address

The check of an address when a client connects and the one when it logs in (`PreCheckAddress` and
`PostCheckAddress` in `src/ftp/clientimpl.cpp`). The first has no ident yet and asks the masks with a
star in its place. A hostname that could not be found is the text of the IP, one that was not looked
for is empty.

* `preCheck_exact_iff`: when the first check lets in exactly the addresses from which some ident
  could still log in.
* `reachable_iff`: whether there is such an ident, from the masks alone.
-/

namespace Ebftpd
namespace Ftp
namespace Address

open Util Acl Db Lib.Wildcard

variable (cache : UserCache) (peer : Peer)

/-- `acl::IPAllowed`. -/
def ipAllowed (address : Str) : Bool := cache.identIPAllowed ipMatch ('*' :: '@' :: address)

def preCheckAddress : Bool :=
  if !ipAllowed cache peer.ip && (peer.ip != peer.hostname && !ipAllowed cache peer.hostname) then false
  else true

/-- `PostCheckAddress` of a user who logs in, over the cache. -/
def postCheck (uid : UserID) : Bool :=
  cache.identIPAllowedUID ipMatch (peer.ident ++ '@' :: peer.ip) uid ||
    (peer.ip != peer.hostname && cache.identIPAllowedUID ipMatch (peer.ident ++ '@' :: peer.hostname) uid)

/-- An ident is the text of a C string. -/
def IdentText (ident : Str) : Prop := ∀ c ∈ ident, InText c

/-- Some ident at the address matches a mask. -/
def Reachable (address : Str) : Prop :=
  ∃ ident, IdentText ident ∧ cache.identIPAllowed ipMatch (ident ++ '@' :: address) = true

variable {cache peer}

/-- It is the check the login makes, where the masks come from the cache. -/
theorem postCheck_eq {o : Outside} {uid : UserID} (hmasks : o.ipMasks uid = cache.ipMasks.lookup uid)
    (hmatch : o.wildcardMatchCase = ipMatch) : postCheckAddress peer o uid = postCheck cache peer uid := by
  simp only [postCheckAddress, postCheck, identIPAllowed, UserCache.identIPAllowedUID, hmasks, hmatch]
  cases cache.ipMasks.lookup uid <;> rfl

theorem identIPAllowed_iff {identAddress : Str} :
    cache.identIPAllowed ipMatch identAddress = true ↔
      ∃ uid, cache.identIPAllowedUID ipMatch identAddress uid = true := by
  simp only [UserCache.identIPAllowed, List.any_eq_true, UserCache.identIPAllowedUID]
  constructor
  · rintro ⟨⟨uid, masks⟩, hmem, hmatch⟩
    refine ⟨uid, ?_⟩
    rw [AList.mem_lookup_iff.mpr hmem]
    exact hmatch
  · rintro ⟨uid, h⟩
    cases hmasks : cache.ipMasks.lookup uid with
    | none => simp [hmasks] at h
    | some masks =>
      rw [hmasks] at h
      exact ⟨⟨uid, masks⟩, AList.mem_lookup_iff.mp hmasks, h⟩

/-- The star is an ident like any other. -/
theorem reachable_of_ipAllowed {address : Str} (h : ipAllowed cache address = true) :
    Reachable cache address := by
  refine ⟨['*'], ?_, h⟩
  intro c hc
  rw [List.mem_singleton.mp hc]
  simp [InText]

theorem preCheckAddress_iff : preCheckAddress cache peer = true ↔
    ipAllowed cache peer.ip = true ∨ peer.ip = peer.hostname ∨ ipAllowed cache peer.hostname = true := by
  unfold preCheckAddress
  by_cases heq : peer.ip = peer.hostname
  · simp [heq]
  · cases ipAllowed cache peer.ip <;> cases ipAllowed cache peer.hostname <;> simp [heq]

/-- Some ident and some user pass the second check. -/
theorem postCheck_iff : (∃ ident uid, IdentText ident ∧ postCheck cache { peer with ident } uid = true) ↔
    Reachable cache peer.ip ∨ (peer.ip ≠ peer.hostname ∧ Reachable cache peer.hostname) := by
  simp only [Reachable, identIPAllowed_iff, postCheck, Bool.or_eq_true, Bool.and_eq_true, bne_iff_ne, ne_eq]
  constructor
  · rintro ⟨ident, uid, htext, h | ⟨hne, h⟩⟩
    · exact .inl ⟨ident, htext, uid, h⟩
    · exact .inr ⟨hne, ident, htext, uid, h⟩
  · rintro (⟨ident, htext, uid, h⟩ | ⟨hne, ident, htext, uid, h⟩)
    · exact ⟨ident, uid, htext, .inl h⟩
    · exact ⟨ident, uid, htext, .inr ⟨hne, h⟩⟩

/-- The check is exact, and never refuses who could log in, if and only if an unresolved address is
reachable, and for a resolved one or none the star finds a mask wherever some ident does. -/
theorem preCheck_exact_iff (cache : UserCache) (peer : Peer) :
    ((preCheckAddress cache peer = true ↔ Reachable cache peer.ip ∨
        (peer.hostname ≠ peer.ip ∧ peer.hostname ≠ [] ∧ Reachable cache peer.hostname)) ∧
      ∀ ident uid, IdentText ident → postCheck cache { peer with ident } uid = true →
        preCheckAddress cache peer = true) ↔
      (peer.ip = peer.hostname → Reachable cache peer.ip) ∧
        (peer.ip ≠ peer.hostname →
          (Reachable cache peer.ip ∨ (peer.hostname ≠ [] ∧ Reachable cache peer.hostname) →
            ipAllowed cache peer.ip = true ∨ ipAllowed cache peer.hostname = true) ∧
          (peer.hostname = [] → Reachable cache peer.hostname → Reachable cache peer.ip)) := by
  have hlater : (∀ ident uid, IdentText ident → postCheck cache { peer with ident } uid = true →
      preCheckAddress cache peer = true) ↔
      (Reachable cache peer.ip ∨ (peer.ip ≠ peer.hostname ∧ Reachable cache peer.hostname) →
        preCheckAddress cache peer = true) := by
    rw [← postCheck_iff]
    exact ⟨fun h ⟨ident, uid, htext, hpost⟩ => h ident uid htext hpost,
      fun h ident uid htext hpost => h ⟨ident, uid, htext, hpost⟩⟩
  have hip : ipAllowed cache peer.ip = true → Reachable cache peer.ip := reachable_of_ipAllowed
  have hhost : ipAllowed cache peer.hostname = true → Reachable cache peer.hostname := reachable_of_ipAllowed
  rw [hlater, preCheckAddress_iff]
  by_cases heq : peer.ip = peer.hostname
  · simp [heq]
  · have hne : peer.hostname ≠ peer.ip := Ne.symm heq
    simp only [heq, hne, ne_eq, not_false_eq_true, true_and, false_or, forall_true_left, false_imp_iff]
    constructor
    · rintro ⟨hexact, hnever⟩
      refine ⟨?_, fun hempty hr => ?_⟩
      · rintro (hr | ⟨-, hr⟩)
        · exact hnever (.inl hr)
        · exact hnever (.inr hr)
      · rcases hexact.mp (hnever (.inr hr)) with hr | ⟨hsome, -⟩
        · exact hr
        · exact absurd hempty hsome
    · rintro ⟨hstar, hnone⟩
      refine ⟨⟨?_, hstar⟩, ?_⟩
      · rintro (ha | ha)
        · exact .inl (hip ha)
        · by_cases hempty : peer.hostname = []
          · exact .inl (hnone hempty (hhost ha))
          · exact .inr ⟨hempty, hhost ha⟩
      · rintro (hr | hr)
        · exact hstar (.inl hr)
        · by_cases hempty : peer.hostname = []
          · exact hstar (.inl (hnone hempty hr))
          · exact hstar (.inr ⟨hempty, hr⟩)

/-- An unresolved address is let in although there is no mask at all, and the owner of an ident mask
is refused. -/
theorem preCheck_inexact :
    let unresolved : Peer := ⟨"*".toList, "10.0.0.1".toList, "10.0.0.1".toList⟩
    let resolved : Peer := ⟨"bob".toList, "10.0.0.1".toList, "host.example".toList⟩
    let masks : UserCache := { ipMasks := AList.insert 2 ["bob@10.0.0.1".toList] ∅ }
    (preCheckAddress {} unresolved = true ∧ ¬ Reachable {} unresolved.ip) ∧
      preCheckAddress masks resolved = false ∧ postCheck masks resolved 2 = true := by
  intro unresolved resolved masks
  refine ⟨⟨by decide, ?_⟩, by decide, by decide⟩
  rintro ⟨ident, -, h⟩
  cases h

/-! ## Which addresses are reachable -/

/-- A mask lets in some ident at an address if it can be cut in two, the front matching some text and
the back the address behind its at sign. -/
theorem reachable_iff {address : Str} : Reachable cache address ↔
    ∃ kv ∈ cache.ipMasks.entries, ∃ mask ∈ kv.2, ∃ x ∈ splits (maskPattern mask),
      (∃ ident, IdentText ident ∧ isMatch x.1 ident = true) ∧
        isMatch x.2 ('@' :: cStr address) = true := by
  have hmatch : ∀ {ident mask : Str}, IdentText ident → (ipMatch mask (ident ++ '@' :: address) = true ↔
      ∃ x ∈ splits (maskPattern mask), isMatch x.1 ident = true ∧
        isMatch x.2 ('@' :: cStr address) = true) := by
    intro ident mask htext
    have hcStr : cStr (ident ++ '@' :: address) = ident ++ '@' :: cStr address := by
      rw [cStr, List.takeWhile_append_of_pos fun c hc => bne_iff_ne.mpr (htext c hc)]
      rfl
    rw [ipMatch_eq, hcStr, isMatch_append_iff]
  simp only [Reachable, UserCache.identIPAllowed, List.any_eq_true, matchAny]
  constructor
  · rintro ⟨ident, htext, kv, hkv, mask, hmask, h⟩
    obtain ⟨x, hx, hfront, hback⟩ := (hmatch htext).mp h
    exact ⟨kv, hkv, mask, hmask, x, hx, ⟨ident, htext, hfront⟩, hback⟩
  · rintro ⟨kv, hkv, mask, hmask, x, hx, ⟨ident, htext, hfront⟩, hback⟩
    exact ⟨ident, htext, kv, hkv, mask, hmask, (hmatch htext).mpr ⟨x, hx, hfront, hback⟩⟩

end Address
end Ftp
end Ebftpd
