import Mathlib.Data.List.Dedup
import Mathlib.Data.List.Perm.Subperm
import Ebftpd.Cmd.SiteUser

/-!
# Ebftpd.Cmd.Delip

What `SITE DELIP` removes (`DELIPCommand::Execute` in `src/cmd/site/commands.cpp`, `DelIPMask` in
`src/acl/user.cpp`). Each argument is the index of a mask or its text. The indexes are sorted downwards, so
that those still to come are in their place when one is erased; one that is there twice is erased twice.

* `eraseAll_filter`: positions erased from the back.
* `delIP_exact_iff`: the arguments for which just the named masks go.
-/

namespace Ebftpd
namespace Cmd
namespace Delip

open Util Acl Db SiteUser

/-- The mask an argument names. -/
def named (masks : List Str) (arg : Str) : Option Str :=
  match lexicalCast arg with
  | some index => if index < 0 then none else masks[index.toNat]?
  | none => if masks.contains arg then some arg else none

def kept (masks args : List Str) : List Str :=
  masks.filter fun mask => !args.any fun arg => named masks arg == some mask

/-- If every argument names a mask, those go and the others stay in their order; else nothing changes. -/
structure Exact (db : Database) (user : User) (args : List Str) (d : Done) : Prop where
  removed : (∀ arg ∈ args, (named user.ipMasks arg).isSome) → d.reply ≠ .verifyFailed ∧
    d.db.users.byId user.id = some { user with ipMasks := kept user.ipMasks args }
  unchanged : (∃ arg ∈ args, named user.ipMasks arg = none) → d.db = db

/-! ## Positions erased from the back -/

section Erase

variable {α : Type} [DecidableEq α]

/-- Positions in falling order still hold what they did when those behind them are gone. -/
theorem eraseAll_filter {indexes : List Nat} (hsorted : indexes.Pairwise (· > ·)) :
    ∀ {l : List α}, l.Nodup → (∀ i ∈ indexes, i < l.length) →
      ∀ {p : α → Bool}, (∀ a, p a = true ↔ some a ∉ indexes.map (l[·]?)) →
        indexes.foldl List.eraseIdx l = l.filter p := by
  induction indexes with
  | nil =>
    intro l _ _ p hp
    exact (List.filter_eq_self.mpr fun a _ => (hp a).mpr (by simp)).symm
  | cons i indexes ih =>
    intro l hl hlt p hp
    obtain ⟨hbehind, hrest⟩ := List.pairwise_cons.mp hsorted
    have hi : i < l.length := hlt i (by simp)
    have hbelow : ∀ j ∈ indexes, j < (l.eraseIdx i).length := fun j hj => by
      have := hbehind j hj
      rw [List.length_eraseIdx_of_lt hi]
      omega
    have hmap : indexes.map ((l.eraseIdx i)[·]?) = indexes.map (l[·]?) :=
      List.map_congr_left fun j hj => List.getElem?_eraseIdx_of_lt (hbehind j hj)
    have herase : l.eraseIdx i = l.filter (· != l[i]) := by rw [← hl.erase_getElem i hi, hl.erase_eq_filter]
    rw [List.foldl_cons, ih hrest (hl.eraseIdx i) hbelow (p := fun a => decide (some a ∉ indexes.map (l[·]?)))
      (by simp [hmap]), herase, List.filter_filter]
    apply List.filter_congr
    intro a _
    rw [Bool.eq_iff_iff, hp, List.map_cons, List.getElem?_eq_getElem hi, List.mem_cons, not_or]
    simp [and_comm]

/-- Filtering removes no more elements than there are different ones to remove. -/
theorem length_filter_of_dup {l : List α} (hl : l.Nodup) {names : List (Option α)} (hnames : ¬ names.Nodup)
    {p : α → Bool} (hp : ∀ a, p a = true ↔ some a ∉ names) :
    l.length < (l.filter p).length + names.length := by
  have hgone : ((l.filter fun a => !p a).map some).length ≤ names.dedup.length := by
    apply List.Subperm.length_le
    apply List.Nodup.subperm
    · exact (hl.filter _).map (Option.some_injective α)
    · intro a ha
      obtain ⟨b, hb, rfl⟩ := List.mem_map.mp ha
      have hb := (List.mem_filter.mp hb).2
      rw [Bool.not_eq_true', Bool.eq_false_iff, ne_eq, hp, not_not] at hb
      exact List.mem_dedup.mpr hb
  have hdup : names.dedup.length < names.length := by
    refine lt_of_le_of_ne (List.dedup_sublist names).length_le fun heq => hnames ?_
    exact List.dedup_eq_self.mp ((List.dedup_sublist names).eq_of_length heq)
  have hsplit := List.length_eq_length_filter_add (l := l) p
  rw [List.length_map] at hgone
  omega

end Erase

/-! ## The indexes -/

/-- The index the code takes an argument for, when it is not a `*`. -/
def index (user : User) (arg : Str) : Except Reply Nat :=
  match lexicalCast arg with
  | some index =>
    if index < 0 ∨ index > (user.ipMasks.length : Int) - 1 then
      .error (.notOkay "IP mask index out of range.".toList)
    else .ok index.toNat
  | none =>
    match user.ipMasks.findIdx? (· = arg) with
    | some index => .ok index
    | none => .error (.notOkay ("No IP mask matching ".toList ++ arg ++ " exists for ".toList ++
        user.name ++ ".".toList))

/-- An argument in front of the others. -/
def consIndex : Except Reply Nat → Except Reply (Option (List Nat)) → Except Reply (Option (List Nat))
  | .error reply, _ => .error reply
  | .ok _, .error reply => .error reply
  | .ok _, .ok none => .ok none
  | .ok index, .ok (some indexes) => .ok (some (index :: indexes))

theorem delIPIndexes_cons (user : User) {arg : Str} (args : List Str) (h : arg ≠ "*".toList) :
    delIPIndexes user (arg :: args) = consIndex (index user arg) (delIPIndexes user args) := by
  rw [delIPIndexes, if_neg h]
  rfl

theorem index_named (user : User) (arg : Str) :
    (∃ i, index user arg = .ok i ∧ i < user.ipMasks.length ∧ user.ipMasks[i]? = named user.ipMasks arg) ∨
    (∃ reply, index user arg = .error reply) ∧ named user.ipMasks arg = none := by
  unfold index named
  cases lexicalCast arg with
  | some z =>
    simp only
    by_cases hz : z < 0 ∨ z > (user.ipMasks.length : Int) - 1
    · right
      rw [if_pos hz]
      refine ⟨⟨_, rfl⟩, ?_⟩
      split
      · rfl
      · exact List.getElem?_eq_none (by omega)
    · left
      rw [if_neg hz]
      exact ⟨_, rfl, by omega, by rw [if_neg (by omega)]⟩
  | none =>
    simp only [List.contains_iff_mem]
    cases hfind : user.ipMasks.findIdx? (· = arg) with
    | none =>
      right
      have hnot : arg ∉ user.ipMasks := fun h => by
        have := List.findIdx?_eq_none_iff.mp hfind arg h
        simp at this
      exact ⟨⟨_, rfl⟩, if_neg hnot⟩
    | some i =>
      left
      obtain ⟨hlt, hmask, -⟩ := List.findIdx?_eq_some_iff_getElem.mp hfind
      have hmask : user.ipMasks[i] = arg := by simpa using hmask
      refine ⟨i, rfl, hlt, ?_⟩
      rw [if_pos (hmask ▸ List.getElem_mem hlt), List.getElem?_eq_getElem hlt, hmask]

/-- The indexes of arguments that each name a mask. -/
theorem delIPIndexes_ok (user : User) {args : List Str} (hstar : "*".toList ∉ args)
    (hnamed : ∀ arg ∈ args, (named user.ipMasks arg).isSome) :
    ∃ indexes, delIPIndexes user args = .ok (some indexes) ∧ (∀ i ∈ indexes, i < user.ipMasks.length) ∧
      indexes.map (user.ipMasks[·]?) = args.map (named user.ipMasks) := by
  induction args with
  | nil => exact ⟨[], rfl, by simp, rfl⟩
  | cons arg args ih =>
    rw [List.mem_cons, not_or] at hstar
    obtain ⟨indexes, hindexes, hlt, hmap⟩ := ih hstar.2 fun a ha => hnamed a (List.mem_cons_of_mem _ ha)
    rw [delIPIndexes_cons user args (Ne.symm hstar.1), hindexes]
    rcases index_named user arg with ⟨i, hi, hil, hmask⟩ | ⟨-, hnone⟩
    · rw [hi]
      refine ⟨i :: indexes, rfl, ?_, by rw [List.map_cons, List.map_cons, hmask, hmap]⟩
      exact List.forall_mem_cons.mpr ⟨hil, hlt⟩
    · have := hnamed arg (by simp)
      rw [hnone] at this
      cases this

theorem delIPIndexes_error (user : User) {args : List Str} (hstar : "*".toList ∉ args)
    (hnone : ∃ arg ∈ args, named user.ipMasks arg = none) : ∃ reply, delIPIndexes user args = .error reply := by
  induction args with
  | nil =>
    obtain ⟨arg, harg, -⟩ := hnone
    cases harg
  | cons arg args ih =>
    rw [List.mem_cons, not_or] at hstar
    rw [delIPIndexes_cons user args (Ne.symm hstar.1)]
    rcases index_named user arg with ⟨i, hi, hil, hmask⟩ | ⟨⟨reply, hreply⟩, -⟩
    · obtain ⟨arg', harg', hnone'⟩ := hnone
      rw [hi]
      rcases List.mem_cons.mp harg' with rfl | harg'
      · rw [hnone', List.getElem?_eq_getElem hil] at hmask
        cases hmask
      · obtain ⟨reply, hreply⟩ := ih hstar.2 ⟨arg', harg', hnone'⟩
        rw [hreply]
        exact ⟨reply, rfl⟩
    · rw [hreply]
      exact ⟨reply, rfl⟩

/-! ## The loop -/

theorem byId_delIPMask {db : Database} {user : User} (huser : db.users.byId user.id = some user) (index : Nat) :
    (save db user.id (.ipMasks (user.delIPMask index).ipMasks)).users.byId user.id =
      some (user.delIPMask index) := by
  rw [save_byId db user.id rfl, huser]
  rfl

/-- Indexes in falling order are all there. -/
theorem delIPLoop_ok {indexes : List Nat} (hsorted : indexes.Pairwise (· > ·)) :
    ∀ {user : User} {db : Database}, db.users.byId user.id = some user →
      (∀ i ∈ indexes, i < user.ipMasks.length) →
      (∃ os, (delIPLoop indexes user db).1 = some os) ∧
        (delIPLoop indexes user db).2.users.byId user.id =
          some { user with ipMasks := indexes.foldl List.eraseIdx user.ipMasks } := by
  induction indexes with
  | nil => exact fun huser _ => ⟨⟨[], rfl⟩, huser⟩
  | cons i indexes ih =>
    intro user db huser hlt
    obtain ⟨hbehind, hrest⟩ := List.pairwise_cons.mp hsorted
    have hi : i < user.ipMasks.length := hlt i (by simp)
    have hbelow : ∀ j ∈ indexes, j < (user.delIPMask i).ipMasks.length := fun j hj => by
      have := hbehind j hj
      rw [User.delIPMask, List.length_eraseIdx_of_lt hi]
      omega
    obtain ⟨⟨os, hos⟩, hdb⟩ := ih hrest (byId_delIPMask huser i) hbelow
    rw [delIPLoop, List.getElem?_eq_getElem hi]
    simp only [hos]
    exact ⟨⟨_, rfl⟩, hdb⟩

/-- Each turn removes a mask. -/
theorem delIPLoop_length {indexes : List Nat} :
    ∀ {user : User} {db : Database} {os : Str}, db.users.byId user.id = some user →
      (delIPLoop indexes user db).1 = some os →
      ∃ masks, (delIPLoop indexes user db).2.users.byId user.id = some { user with ipMasks := masks } ∧
        masks.length + indexes.length = user.ipMasks.length := by
  induction indexes with
  | nil => exact fun huser _ => ⟨_, huser, rfl⟩
  | cons i indexes ih =>
    intro user db os huser hos
    rw [delIPLoop] at hos ⊢
    cases hmask : user.ipMasks[i]? with
    | none =>
      rw [hmask] at hos
      cases hos
    | some mask =>
      obtain ⟨hi, -⟩ := List.getElem?_eq_some_iff.mp hmask
      simp only [hmask, Option.map_eq_some_iff] at hos ⊢
      obtain ⟨os', hos', -⟩ := hos
      obtain ⟨masks, hdb, hlength⟩ := ih (byId_delIPMask huser i) hos'
      rw [User.delIPMask, List.length_eraseIdx_of_lt hi] at hlength
      refine ⟨masks, hdb, ?_⟩
      rw [List.length_cons]
      omega

theorem nodup_indexes {masks : List Str} (hmasks : masks.Nodup) {indexes : List Nat}
    (hlt : ∀ i ∈ indexes, i < masks.length) : (indexes.map (masks[·]?)).Nodup ↔ indexes.Nodup := by
  refine ⟨List.Nodup.of_map _, fun h => h.map_on fun i hi j hj hij => ?_⟩
  have hi' := hlt i hi
  rw [List.getElem?_eq_getElem hi', List.getElem?_eq_getElem (hlt j hj), Option.some.injEq] at hij
  exact (hmasks.getElem_inj_iff).mp hij

/-- The loop over sorted indexes of masks comes to its end with just these gone, unless an index is there twice. -/
theorem delIPLoop_filter_iff {indexes : List Nat} (hsorted : indexes.Pairwise (· ≥ ·)) {user : User} {db : Database}
    (huser : db.users.byId user.id = some user) (hmasks : user.ipMasks.Nodup)
    (hlt : ∀ i ∈ indexes, i < user.ipMasks.length) {p : Str → Bool}
    (hp : ∀ mask, p mask = true ↔ some mask ∉ indexes.map (user.ipMasks[·]?)) :
    ((delIPLoop indexes user db).1 ≠ none ∧ (delIPLoop indexes user db).2.users.byId user.id =
        some { user with ipMasks := user.ipMasks.filter p }) ↔ (indexes.map (user.ipMasks[·]?)).Nodup := by
  constructor
  · rintro ⟨hverified, hrest⟩
    by_contra hdup
    obtain ⟨os, hos⟩ := Option.ne_none_iff_exists'.mp hverified
    -- as many masks are gone as there are indexes, more than were named
    obtain ⟨masks, hdb, hlength⟩ := delIPLoop_length huser hos
    have hmore := length_filter_of_dup hmasks hdup hp
    have hmasks' : masks = user.ipMasks.filter p := congrArg User.ipMasks (Option.some.inj (hdb.symm.trans hrest))
    rw [List.length_map] at hmore
    rw [hmasks'] at hlength
    omega
  · intro hnodup
    have hfalling : indexes.Pairwise (· > ·) :=
      (hsorted.and ((nodup_indexes hmasks hlt).mp hnodup)).imp fun h => lt_of_le_of_ne h.1 h.2.symm
    obtain ⟨⟨os, hos⟩, hdb⟩ := delIPLoop_ok hfalling huser hlt
    rw [eraseAll_filter hfalling hmasks hlt hp] at hdb
    exact ⟨Option.ne_none_iff_exists'.mpr ⟨os, hos⟩, hdb⟩

/-- The command does what it was told just if no mask is named twice, or an argument names none. -/
theorem delIP_exact_iff {site : Site} {name : Str} {args : List Str} {db : Database} {user : User}
    (hpermitted : site.permitted "delip".toList name = true) (huser : db.users.byName name = some user)
    (hmasks : user.ipMasks.Nodup) (hstar : "*".toList ∉ args) :
    Exact db user args (delIP site name args db) ↔
      ((∀ arg ∈ args, (named user.ipMasks arg).isSome) → (args.map (named user.ipMasks)).Nodup) := by
  have hfound := (Lib.Table.byName_eq_some.mp huser).1
  have hdenied : ¬ site.permitted "delip".toList name = false := by
    rw [hpermitted]
    exact Bool.true_eq_false_eq_False
  by_cases hnamed : ∀ arg ∈ args, (named user.ipMasks arg).isSome
  · obtain ⟨indexes, hindexes, hlt, hmap⟩ := delIPIndexes_ok user hstar hnamed
    have hnone : ¬ ∃ arg ∈ args, named user.ipMasks arg = none := by
      rintro ⟨arg, harg, hnone⟩
      have := hnamed arg harg
      rw [hnone] at this
      cases this
    have hperm := List.perm_insertionSort (fun a b : Nat => a ≥ b) indexes
    have hsorted := List.pairwise_insertionSort (fun a b : Nat => a ≥ b) indexes
    rw [delIP, if_neg hdenied]
    simp only [huser, hindexes]
    generalize indexes.insertionSort (fun a b => a ≥ b) = sorted at hperm hsorted
    have hmap' : (sorted.map (user.ipMasks[·]?)).Perm (args.map (named user.ipMasks)) :=
      hmap ▸ hperm.map _
    have hkept : ∀ mask, (!args.any fun arg => named user.ipMasks arg == some mask) = true ↔
        some mask ∉ sorted.map (user.ipMasks[·]?) := by
      intro mask
      rw [hmap'.mem_iff]
      simp
    have hloop := delIPLoop_filter_iff hsorted hfound hmasks (fun i hi => hlt i (hperm.mem_iff.mp hi)) hkept
    rw [← hmap'.nodup_iff, ← hloop]
    generalize delIPLoop sorted user db = done
    obtain ⟨_ | os, db'⟩ := done
    · exact ⟨fun hexact => absurd rfl (hexact.removed hnamed).1, fun h => absurd rfl (h hnamed).1⟩
    · constructor
      · exact fun hexact _ => ⟨Option.some_ne_none os, (hexact.removed hnamed).2⟩
      · exact fun h => ⟨fun _ => ⟨by simp, (h hnamed).2⟩, fun hnone' => absurd hnone' hnone⟩
  · refine iff_of_true ⟨fun h => absurd h hnamed, fun hnone => ?_⟩ fun h => absurd h hnamed
    obtain ⟨reply, hreply⟩ := delIPIndexes_error user hstar hnone
    rw [delIP, if_neg hdenied]
    simp only [huser, hreply]

/-! ## A mask that is named twice -/

def exampleBob : User where
  id := 5
  name := "bob".toList
  ipMasks := ["a@1".toList, "a@2".toList, "a@3".toList]

def exampleDatabase : Database where
  users := { rows := [exampleBob], ids := by decide, names := by decide }
  groups := { rows := [], ids := by decide, names := by decide }
  uids := by decide
  gids := by decide

def exampleSite : Site where
  cfg :=
    { sitepath := "/site".toList
      commandACLs := [("delip".toList, ACL.fromString "*".toList)]
      tlsControl := ACL.fromString "!*".toList
      maxOnline := ⟨10, 0⟩
      wildcardMatch := fun _ _ => false }
  user := exampleBob
  users := UserCache.populate exampleDatabase.users
  groups := GroupCache.populate exampleDatabase.groups
  bannedUsers := []
  totalUsers := -1
  maximumRatio := 10
  masters := []
  securePass := fun _ => none
  secureIP := fun _ => none
  ipMatch := fun mask text => mask == text
  hashPassword := fun password salt => password ++ salt
  rawSalt := "salt".toList
  kicked := fun _ => 0
  templateError := none
  otherSetting := fun _ _ => .error []

/-- A mask that is named by its index and its text takes the next one with it; the last one fails the check. -/
theorem delIP_twice :
    ¬ Exact exampleDatabase exampleBob ["0".toList, "a@1".toList]
        (delIP exampleSite "bob".toList ["0".toList, "a@1".toList] exampleDatabase) ∧
      (delIP exampleSite "bob".toList ["2".toList, "a@3".toList] exampleDatabase).reply = .verifyFailed := by
  refine ⟨fun h => ?_, by decide⟩
  have hremoved := (h.removed (by decide)).2
  revert hremoved
  decide

/-- Two masks, the later one first. -/
theorem delIP_two : Exact exampleDatabase exampleBob ["a@3".toList, "0".toList]
    (delIP exampleSite "bob".toList ["a@3".toList, "0".toList] exampleDatabase) :=
  (delIP_exact_iff (by decide) (by decide) (by decide) (by decide)).mpr fun _ => by decide

end Delip
end Cmd
end Ebftpd
