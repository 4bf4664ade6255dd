import Ebftpd.Acl.User
import Ebftpd.Lib.Run
import Mathlib.Data.List.Count
import Mathlib.Data.Set.Basic

/-!
# Ebftpd.Acl.Flags

The flags of a user as the string of their characters (`src/acl/flags.cpp`, `src/acl/user.cpp`),
against the set of flags it stands for.

* `hasFlag_setFlags`, `hasFlag_addFlags`, `count_delFlags`: what each mutator does to one flag.
* `agrees_iff_uses`: the string says what the set says as long as every `DelFlags` names a flag as
  often as the string holds it.
* `delFlags_once`: a flag set twice and deleted once is still held.
-/

namespace Ebftpd
namespace Acl

open Util Lib

def flagChars : Str := "12345678ABCDEFGHIJKLMN".toList

/-- `ValidFlags`. -/
def validFlags (flags : Str) : Bool := flags.all flagChars.contains

theorem flagChars_eq : flagChars =
    [Flag.Siteop, .Gadmin, .Template, .Exempt, .Color, .Deleted, .Useredit, .Anonymous, .Nuke, .Unnuke,
      .Undupe, .Kick, .Kill, .Take, .Give, .Users, .Idler, .Custom1, .Custom2, .Custom3, .Custom4,
      .Custom5].map Flag.char := by
  decide

/-- A valid string is made of the characters of flags. -/
theorem validFlags_flag {flags : Str} (hvalid : validFlags flags = true) {ch : Char} (hch : ch ∈ flags) :
    ∃ f : Flag, f.char = ch := by
  have hmem : ch ∈ flagChars := by simpa using List.all_eq_true.mp hvalid ch hch
  rw [flagChars_eq, List.mem_map] at hmem
  obtain ⟨f, -, hf⟩ := hmem
  exact ⟨f, hf⟩

/-- Elements appended one by one where they are missing. -/
theorem mem_foldl_append {α : Type} [BEq α] [LawfulBEq α] {x : α} (new : List α) :
    ∀ xs : List α, x ∈ new.foldl (fun xs y => if xs.contains y then xs else xs ++ [y]) xs ↔
      x ∈ xs ∨ x ∈ new := by
  induction new with
  | nil => simp
  | cons y ys ih =>
    intro xs
    rw [List.foldl_cons, ih]
    by_cases hy : xs.contains y = true
    · have hmem : y ∈ xs := by simpa using hy
      rw [if_pos hy, List.mem_cons]
      constructor
      · rintro (h | h)
        · exact .inl h
        · exact .inr (.inr h)
      · rintro (h | rfl | h)
        · exact .inl h
        · exact .inl hmem
        · exact .inr h
    · rw [if_neg hy, List.mem_append, List.mem_singleton, List.mem_cons, or_assoc]

namespace User

def setFlags (user : User) (flags : Str) : User := { user with flags := flags }

theorem hasFlag_iff {user : User} {f : Flag} : user.hasFlag f = true ↔ f.char ∈ user.flags := by
  simp [hasFlag]

@[simp] theorem hasFlag_setFlags (user : User) (flags : Str) (f : Flag) :
    (user.setFlags flags).hasFlag f = true ↔ f.char ∈ flags := by
  simp [hasFlag, setFlags]

@[simp] theorem hasFlag_addFlags (user : User) (flags : Str) (f : Flag) :
    (user.addFlags flags).hasFlag f = true ↔ user.hasFlag f = true ∨ f.char ∈ flags := by
  rw [hasFlag_iff, hasFlag_iff, addFlags]
  simp only
  rw [(List.perm_insertionSort _ _).mem_iff, mem_foldl_append]

/-- A flag that was not there is there once. -/
theorem count_addFlag {user : User} {flag : Flag} (h : user.hasFlag flag = false) :
    (user.addFlag flag).flags.count flag.char = 1 := by
  have hnot : flag.char ∉ user.flags := fun hmem => by simp [hasFlag_iff.mpr hmem] at h
  have hcontains : user.flags.contains flag.char = false := by simpa using hnot
  rw [addFlag, addFlags]
  simp only
  rw [(List.perm_insertionSort _ _).count_eq, List.foldl_cons, List.foldl_nil, hcontains,
    if_neg Bool.false_ne_true, List.count_append, List.count_eq_zero_of_not_mem hnot, List.count_singleton_self]

/-- Each character of the argument takes one occurrence away. -/
theorem count_delFlags (user : User) (flags : Str) (ch : Char) :
    (user.delFlags flags).flags.count ch = user.flags.count ch - flags.count ch := by
  show (flags.foldl List.erase user.flags).count ch = _
  rw [← List.diff_eq_foldl, List.count_diff]

theorem hasFlag_delFlags (user : User) (flags : Str) (f : Flag) :
    (user.delFlags flags).hasFlag f = true ↔ flags.count f.char < user.flags.count f.char := by
  rw [hasFlag_iff, ← List.count_pos_iff, count_delFlags]
  omega

/-- A flag that the argument does not name stays as it was. -/
theorem hasFlag_delFlags_of_notMem (user : User) {flags : Str} {f : Flag} (hf : f.char ∉ flags) :
    (user.delFlags flags).hasFlag f = user.hasFlag f := by
  rw [Bool.eq_iff_iff, hasFlag_delFlags, hasFlag_iff, List.count_eq_zero_of_not_mem hf, List.count_pos_iff]

end User

/-! ## The set of flags -/

/-- The flags whose characters a string is made of. -/
def flagSet (flags : Str) : Set Flag := {f | f.char ∈ flags}

inductive FlagOp where
  | setFlags (flags : Str)
  | addFlags (flags : Str)
  | delFlags (flags : Str)

namespace FlagOp

def flags : FlagOp → Str
  | .setFlags flags => flags
  | .addFlags flags => flags
  | .delFlags flags => flags

def onUser (user : User) : FlagOp → User
  | .setFlags flags => user.setFlags flags
  | .addFlags flags => user.addFlags flags
  | .delFlags flags => user.delFlags flags

/-- Assignment, union and difference. -/
def onSet (held : Set Flag) : FlagOp → Set Flag
  | .setFlags flags => flagSet flags
  | .addFlags flags => held ∪ flagSet flags
  | .delFlags flags => held \ flagSet flags

end FlagOp

/-- A user, and the flags the operations on him add up to. -/
structure Tracked where
  user : User
  held : Set Flag

namespace Tracked

def ofUser (user : User) : Tracked := ⟨user, {f | user.hasFlag f = true}⟩

def step (t : Tracked) (op : FlagOp) : Option Tracked :=
  if validFlags op.flags then some ⟨op.onUser t.user, op.onSet t.held⟩ else none

/-- `HasFlag` answers what the set says. -/
def Agrees (t : Tracked) : Prop := ∀ f : Flag, t.user.hasFlag f = true ↔ f ∈ t.held

end Tracked

/-- `DelFlags` names each of its flags at least as often as the string holds it. -/
def Uses (t : Tracked) : FlagOp → Prop
  | .delFlags flags => ∀ ch ∈ flags, validFlags flags = true → t.user.flags.count ch ≤ flags.count ch
  | _ => True

open Tracked

theorem step_agrees_iff (t : Tracked) (op : FlagOp) (ht : Agrees t) :
    (∀ t', t.step op = some t' → Agrees t') ↔ Uses t op := by
  by_cases hvalid : validFlags op.flags = true
  · have hstep : t.step op = some ⟨op.onUser t.user, op.onSet t.held⟩ := if_pos hvalid
    simp only [hstep, Option.some.injEq, forall_eq']
    cases op with
    | setFlags flags => exact iff_of_true (fun f => User.hasFlag_setFlags t.user flags f) trivial
    | addFlags flags =>
      refine iff_of_true (fun f => ?_) trivial
      exact (User.hasFlag_addFlags t.user flags f).trans (or_congr_left (ht f))
    | delFlags flags =>
      -- a flag named in the argument must be gone, and so must be used up
      constructor
      · intro hagrees ch hch _
        obtain ⟨f, rfl⟩ := validFlags_flag hvalid hch
        have hgone : ¬ (t.user.delFlags flags).hasFlag f = true := fun h => ((hagrees f).mp h).2 hch
        rw [User.hasFlag_delFlags] at hgone
        omega
      · intro huses f
        show (t.user.delFlags flags).hasFlag f = true ↔ f ∈ t.held \ flagSet flags
        by_cases hf : f.char ∈ flags
        · have hle := huses _ hf hvalid
          rw [User.hasFlag_delFlags]
          exact iff_of_false (by omega) (fun h => h.2 hf)
        · rw [User.hasFlag_delFlags_of_notMem _ hf, ht f]
          exact ⟨fun h => ⟨h, hf⟩, And.left⟩
  · have hstep : t.step op = none := if_neg hvalid
    refine iff_of_true (fun t' h => by rw [hstep] at h; cases h) ?_
    cases op with
    | setFlags flags => trivial
    | addFlags flags => trivial
    | delFlags flags => exact fun _ _ h => absurd h hvalid

/-- The string and the set agree after every operation of a run exactly where each `DelFlags` uses up
the flags it names. -/
theorem agrees_iff_uses (user : User) (ops : List FlagOp) :
    Always Tracked.step Agrees (ofUser user) ops ↔ Meets Tracked.step Uses (ofUser user) ops :=
  always_iff_meets step_agrees_iff ops (fun _ => Iff.rfl)

/-- `SITE CHANGE bob flags =11` and then `-1`: bob is still a siteop. -/
theorem delFlags_once :
    ∃ t, run Tracked.step (ofUser { name := "bob".toList }) [.setFlags "11".toList, .delFlags "1".toList] =
      some t ∧ t.user.hasFlag .Siteop = true ∧ Flag.Siteop ∉ t.held :=
  ⟨_, rfl, by decide, fun h => h.2 (by simp [flagSet, Flag.char])⟩

end Acl
end Ebftpd
