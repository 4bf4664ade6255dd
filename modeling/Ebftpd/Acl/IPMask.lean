import Ebftpd.Db.Caches
import Ebftpd.Util.Fnmatch

/-!
# Ebftpd.Acl.IPMask

Whether `AddIPMask` (`src/acl/user.cpp`) only widens what the masks of a user accept. It matches
masks against the texts of other masks: a mask is refused when one of the list matches its text,
and takes the place of those whose texts it matches.

* `widens_iff_judged`: access is widened exactly when the masks that remain match every address
  that the refused mask, or each removed one, matches.
* `Aligned`: a remaining mask that covers the other token by token.
* `Probed`: the remaining masks match the probes of the other, addresses that hold one unused letter
  wherever the mask leaves the choice.
* `Tried`: the remaining masks match the short addresses that the other matches.
* `addIPMask_widens`: the first is enough for access to be widened. The second decides it where all
  masks leave that letter alone, the third always.
* `addIPMask_loses`: none holds of a star under a question mark.
-/

namespace Ebftpd
namespace Acl

open Util Lib Lib.Wildcard

/-- `WildcardMatch(mask, text, true)`. -/
def ipMatch (mask text : Str) : Bool := wildcardMatch mask text true

/-- The tokens of a mask. -/
def maskPattern (mask : Str) : Pattern Char := compile mask true

theorem ipMatch_eq {mask text : Str} : ipMatch mask text = isMatch (maskPattern mask) (cStr text) := rfl

/-- The record after the call; a refused mask changes nothing. -/
def User.afterAddIPMask (user : User) (ipMask : Str) : User := (user.addIPMask ipMatch ipMask).getD user

/-- What a list of masks or the new mask accepts is accepted after the call. -/
def Widens (user : User) (ipMask : Str) : Prop :=
  ∀ identAddress,
    Db.matchAny ipMatch user.ipMasks identAddress = true ∨ ipMatch ipMask identAddress = true →
      Db.matchAny ipMatch (user.afterAddIPMask ipMask).ipMasks identAddress = true

/-- The masks match every address that the other one matches. -/
def StandFor (masks : List Str) (other : Str) : Prop :=
  ∀ identAddress, ipMatch other identAddress = true → Db.matchAny ipMatch masks identAddress = true

/-- The judgements `AddIPMask` makes: that the list can stand for the mask it refuses, and the new
mask with those that stay for each mask it removes. -/
def Judged (stand : List Str → Str → Prop) (user : User) (ipMask : Str) : Prop :=
  if user.ipMasks.any (ipMatch · ipMask) then stand user.ipMasks ipMask
  else
    ∀ mask ∈ user.ipMasks, ipMatch ipMask mask = true →
      stand (ipMask :: user.ipMasks.filter fun m => !ipMatch ipMask m) mask

def Aligned (masks : List Str) (other : Str) : Prop :=
  ∃ mask ∈ masks, Covers (maskPattern mask) (maskPattern other)

/-- The characters of a C string. -/
def InText (c : Char) : Prop := c ≠ '\x00'

/-- The addresses to try, for a letter and the most of it that a star is given. -/
def Probed (spare : Char) (bound : Nat) (masks : List Str) (other : Str) : Prop :=
  ∀ identAddress, Probe InText spare bound (maskPattern other) identAddress →
    Db.matchAny ipMatch masks identAddress = true

/-- The addresses shorter than this. -/
def Tried (bound : Nat) (masks : List Str) (other : Str) : Prop :=
  ∀ identAddress, identAddress.length < bound → ipMatch other identAddress = true →
    Db.matchAny ipMatch masks identAddress = true

theorem judged_congr {P Q : List Str → Str → Prop} {user : User} {ipMask : Str}
    (h : ∀ masks, (∀ mask ∈ masks, mask ∈ ipMask :: user.ipMasks) →
      ∀ other ∈ ipMask :: user.ipMasks, (P masks other ↔ Q masks other)) :
    Judged P user ipMask ↔ Judged Q user ipMask := by
  unfold Judged
  split
  · exact h _ (fun mask hm => List.mem_cons_of_mem _ hm) _ List.mem_cons_self
  · refine forall₃_congr fun mask hmask _ => h _ (fun m hm => ?_) _ (List.mem_cons_of_mem _ hmask)
    rcases List.mem_cons.1 hm with rfl | hm
    · exact List.mem_cons_self
    · exact List.mem_cons_of_mem _ (List.mem_of_mem_filter hm)

theorem judged_mono {P Q : List Str → Str → Prop} (h : ∀ masks other, P masks other → Q masks other)
    {user : User} {ipMask : Str} (hP : Judged P user ipMask) : Judged Q user ipMask := by
  unfold Judged at hP ⊢
  split
  · rename_i href
    rw [if_pos href] at hP
    exact h _ _ hP
  · rename_i hacc
    rw [if_neg hacc] at hP
    exact fun mask hm hrem => h _ _ (hP mask hm hrem)

theorem matchAny_iff {masks : List Str} {identAddress : Str} :
    Db.matchAny ipMatch masks identAddress = true ↔
      ∃ mask ∈ masks, ipMatch mask identAddress = true := by
  simp [Db.matchAny]

theorem ipMasks_refused {user : User} {ipMask : Str}
    (h : user.ipMasks.any (ipMatch · ipMask) = true) :
    (user.afterAddIPMask ipMask).ipMasks = user.ipMasks := by
  simp [User.afterAddIPMask, User.addIPMask, h]

theorem ipMasks_accepted {user : User} {ipMask : Str}
    (h : ¬user.ipMasks.any (ipMatch · ipMask) = true) :
    (user.afterAddIPMask ipMask).ipMasks =
      user.ipMasks.filter (fun m => !ipMatch ipMask m) ++ [ipMask] := by
  simp [User.afterAddIPMask, User.addIPMask, h]

theorem widens_iff_judged (user : User) (ipMask : Str) :
    Widens user ipMask ↔ Judged StandFor user ipMask := by
  unfold Widens Judged
  split
  · rename_i href
    rw [ipMasks_refused href]
    constructor
    · exact fun h identAddress hnew => h identAddress (.inr hnew)
    · rintro h identAddress (hold | hnew)
      · exact hold
      · exact h identAddress hnew
  · rename_i hacc
    rw [ipMasks_accepted hacc]
    have hperm : ∀ identAddress,
        Db.matchAny ipMatch (user.ipMasks.filter (fun m => !ipMatch ipMask m) ++ [ipMask]) identAddress =
          Db.matchAny ipMatch (ipMask :: user.ipMasks.filter fun m => !ipMatch ipMask m) identAddress := by
      intro identAddress
      simp [Db.matchAny, Bool.or_comm]
    constructor
    · intro h mask hmask _ identAddress hm
      rw [← hperm]
      exact h identAddress (.inl (matchAny_iff.2 ⟨mask, hmask, hm⟩))
    · rintro h identAddress (hold | hnew)
      · rw [hperm]
        obtain ⟨mask, hmask, hm⟩ := matchAny_iff.1 hold
        by_cases hrem : ipMatch ipMask mask = true
        · exact h mask hmask hrem identAddress hm
        · exact matchAny_iff.2 ⟨mask, by simp [hmask, hrem], hm⟩
      · exact matchAny_iff.2 ⟨ipMask, by simp, hnew⟩

/-! ## One mask under another -/

theorem Aligned.standFor {masks : List Str} {other : Str} (h : Aligned masks other) :
    StandFor masks other := by
  obtain ⟨mask, hmask, hcov⟩ := h
  intro identAddress hm
  exact matchAny_iff.2 ⟨mask, hmask, hcov.sound _ hm⟩

/-! ## Probes -/

theorem cStr_of_letters {s : Str} (h : ∀ c ∈ s, InText c) : cStr s = s :=
  cStr_of_notMem fun hnul => h _ hnul rfl

theorem letters_cStr (s : Str) : ∀ c ∈ cStr s, InText c := by
  intro c hc
  simpa [InText] using List.mem_takeWhile_imp hc

theorem standFor_iff_probed {spare : Char} {bound : Nat} {masks : List Str} {other : Str}
    (hspare : InText spare)
    (hmasks : ∀ mask ∈ masks, Spare InText spare (maskPattern mask) ∧ ones (maskPattern mask) < bound) :
    StandFor masks other ↔ Probed spare bound masks other := by
  have hps : ∀ p ∈ masks.map maskPattern, Spare InText spare p ∧ ones p < bound := by
    intro p hp
    obtain ⟨mask, hmask, rfl⟩ := List.mem_map.1 hp
    exact hmasks mask hmask
  have hany : ∀ {s : Str}, (∀ c ∈ s, InText c) →
      (Db.matchAny ipMatch masks s = true ↔ ∃ p ∈ masks.map maskPattern, isMatch p s = true) := by
    intro s hs
    simp only [matchAny_iff, ipMatch_eq, cStr_of_letters hs, List.mem_map, exists_exists_and_eq_and]
  have hdec := matched_iff_probes (q := maskPattern other) hspare hps
  constructor
  · intro h t ht
    have hl := ht.letters hspare
    refine h t ?_
    rw [ipMatch_eq, cStr_of_letters hl]
    exact ht.isMatch
  · intro h s hs
    have hword : Db.matchAny ipMatch masks (cStr s) = true :=
      (hany (letters_cStr s)).2 <| hdec.2
        (fun t ht => (hany (ht.letters hspare)).1 (h t ht)) _ (letters_cStr s) hs
    obtain ⟨mask, hmask, hm⟩ := matchAny_iff.1 hword
    rw [ipMatch_eq, cStr_of_letters (letters_cStr s)] at hm
    exact matchAny_iff.2 ⟨mask, hmask, hm⟩

theorem spare_of_leaves {spare : Char} {mask : Str} (h : leaves spare mask = true) :
    Spare InText spare (maskPattern mask) := by
  refine spare_tokens InText _ fun c hc => ?_
  have hc := List.all_eq_true.1 h c hc
  simpa only [Bool.and_eq_true, bne_iff_ne] using hc

theorem ones_maskPattern_lt {mask : Str} {bound : Nat} (h : (cStr mask).length < bound) :
    ones (maskPattern mask) < bound :=
  Nat.lt_of_le_of_lt (ones_tokens_le _ _ _) h

/-! ## Short addresses -/

theorem standFor_iff_tried {all masks : List Str} {other : Str} (hmasks : ∀ mask ∈ masks, mask ∈ all)
    (hother : other ∈ all) :
    StandFor masks other ↔ Tried (2 ^ places (all.map maskPattern)) masks other := by
  constructor
  · exact fun h identAddress _ hm => h identAddress hm
  · intro h identAddress hm
    obtain ⟨t, hsub, hlt, hsame⟩ := exists_short (all.map maskPattern) (cStr identAddress)
    have hcut : cStr t = t := cStr_of_letters fun c hc => letters_cStr identAddress c (hsub.subset hc)
    have hshort : ∀ mask ∈ all, ipMatch mask t = ipMatch mask identAddress := by
      intro mask hmask
      rw [ipMatch_eq, ipMatch_eq, hcut]
      exact hsame _ (List.mem_map_of_mem hmask)
    obtain ⟨mask, hmask, hmatch⟩ := matchAny_iff.1 (h t hlt ((hshort other hother).trans hm))
    exact matchAny_iff.2 ⟨mask, hmask, (hshort mask (hmasks mask hmask)).symm.trans hmatch⟩

/-! ## What adding a mask does to access -/

theorem addIPMask_widens (user : User) (ipMask : Str) :
    (Widens user ipMask ↔
      Judged (Tried (2 ^ places ((ipMask :: user.ipMasks).map maskPattern))) user ipMask) ∧
    (∀ spare bound, InText spare →
      (∀ mask ∈ ipMask :: user.ipMasks,
        Spare InText spare (maskPattern mask) ∧ ones (maskPattern mask) < bound) →
      (Widens user ipMask ↔ Judged (Probed spare bound) user ipMask)) ∧
    (Judged Aligned user ipMask → Widens user ipMask) := by
  rw [widens_iff_judged]
  refine ⟨?_, fun spare bound hspare hmasks => ?_, ?_⟩
  · exact judged_congr fun masks hsub other hother => standFor_iff_tried hsub hother
  · exact judged_congr fun masks hsub other _ =>
      standFor_iff_probed hspare fun mask hmask => hmasks mask (hsub mask hmask)
  · exact judged_mono fun _ _ => Aligned.standFor

def masked (ipMasks : List Str) : User := { ipMasks := ipMasks }

/-- `root@10.1` is refused under `*@10.*`, which covers it; `z` occurs in neither. -/
theorem addIPMask_covered :
    Widens (masked ["*@10.*".toList]) "root@10.1".toList ∧
    (Widens (masked ["*@10.*".toList]) "root@10.1".toList ↔
      Judged (Probed 'z' 16) (masked ["*@10.*".toList]) "root@10.1".toList) := by
  refine ⟨(addIPMask_widens _ _).2.2 ?_, (addIPMask_widens _ _).2.1 'z' 16 (by simp [InText]) ?_⟩
  · have href : (masked ["*@10.*".toList]).ipMasks.any (ipMatch · "root@10.1".toList) = true := by decide
    rw [Judged, if_pos href]
    refine ⟨"*@10.*".toList, by simp [masked], ?_⟩
    have hone : ∀ {c : Char} {p q}, Covers p q → Covers (literal true c :: p) (literal true c :: q) :=
      fun h => .one (fun _ hc => hc) h
    exact .take _ <| .take _ <| .take _ <| .take _ <| .leave <| hone <| hone <| hone <| hone <|
      .take _ <| .leave .nil
  · intro mask hmask
    rcases List.mem_cons.1 hmask with rfl | hmask
    · exact ⟨spare_of_leaves (by decide), ones_maskPattern_lt (by decide)⟩
    · rw [List.mem_singleton.1 hmask]
      exact ⟨spare_of_leaves (by decide), ones_maskPattern_lt (by decide)⟩

/-- A question mark matches the star of a wider mask, which is refused; and a mask is removed for
one that matches its text but not all of its addresses. -/
theorem addIPMask_loses :
    ¬Widens (masked ["?@10.1".toList]) "*@10.1".toList ∧
    ¬Widens (masked ["*@10.*.1".toList]) "?@10.?.1*".toList := by
  constructor
  · intro h
    have hroot := h "root@10.1".toList (.inr (by decide))
    revert hroot
    decide
  · intro h
    have hroot := h "root@10.20.1".toList (.inl (by decide))
    revert hroot
    decide

end Acl
end Ebftpd
