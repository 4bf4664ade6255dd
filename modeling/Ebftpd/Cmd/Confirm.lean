import Ebftpd.Util.Whitespace
import Ebftpd.Cmd.Wipe

/-!
# Ebftpd.Cmd.Confirm

`ClientImpl::ConfirmCommand` (`src/ftp/clientimpl.cpp`) over a sequence of calls: the commands that
destroy something are executed when they are entered twice.

* `Calls.Fits`: the stored text is that of the call before, if it was refused, and nothing else.
* `confirmCommand_canonical`: so a call is confirmed by the call before it and by nothing else.
-/

namespace Ebftpd
namespace Cmd

open Util

/-- `ConfirmCommand` on the stored text. -/
def confirmCommand (stored argStr : Str) : Bool × Str :=
  let command := compressWhitespaceCopy argStr
  if command ≠ stored then (false, command) else (true, [])

/-- The session of `Cmd.Wipe` confirms its commands like this. -/
theorem session_confirm (s : Wipe.Session) (argStr : Str) :
    s.confirm argStr = ((confirmCommand s.confirmCommand argStr).1,
      { s with confirmCommand := (confirmCommand s.confirmCommand argStr).2 }) := by
  simp only [Wipe.Session.confirm, confirmCommand]
  split <;> rfl

/-- The stored text, and every call so far with its argument and its answer, the last in front. -/
structure Calls where
  stored : Str
  made : List (Str × Bool)

def Calls.call (s : Calls) (argStr : Str) : Calls where
  stored := (confirmCommand s.stored argStr).2
  made := (argStr, (confirmCommand s.stored argStr).1) :: s.made

/-- A client starts with an empty `confirmCommand`. -/
def Calls.run (args : List Str) : Calls := args.foldl Calls.call ⟨[], []⟩

/-- The command of the call before waits for its confirmation. -/
def Pending (made : List (Str × Bool)) (command : Str) : Prop :=
  ∃ prev older, made = (prev, false) :: older ∧ ¬ Blank prev ∧ compressWhitespaceCopy prev = command

def Calls.Fits (s : Calls) : Prop :=
  Pending s.made s.stored ∨ s.stored = [] ∧ ∀ command, ¬ Pending s.made command

theorem fits_call (s : Calls) (argStr : Str) : (s.call argStr).Fits := by
  by_cases hsame : compressWhitespaceCopy argStr = s.stored
  · have hcall : confirmCommand s.stored argStr = (true, []) := if_neg (not_not.mpr hsame)
    refine .inr ⟨by rw [Calls.call, hcall], ?_⟩
    rintro command ⟨prev, older, h, -⟩
    simp [Calls.call, hcall] at h
  · have hcall : confirmCommand s.stored argStr = (false, compressWhitespaceCopy argStr) := if_pos hsame
    by_cases hblank : Blank argStr
    · refine .inr ⟨by rw [Calls.call, hcall, compress_eq_nil.mpr hblank], ?_⟩
      rintro command ⟨prev, older, h, hprev, -⟩
      simp only [Calls.call, hcall, List.cons.injEq, Prod.mk.injEq, and_true] at h
      exact hprev (h.1 ▸ hblank)
    · exact .inl ⟨argStr, s.made, by rw [Calls.call, hcall], hblank, by rw [Calls.call, hcall]⟩

theorem fits_run (args : List Str) : (Calls.run args).Fits := by
  rcases List.eq_nil_or_concat args with rfl | ⟨before, argStr, rfl⟩
  · refine .inr ⟨rfl, ?_⟩
    rintro command ⟨prev, older, h, -⟩
    cases h
  · rw [List.concat_eq_append, Calls.run, List.foldl_append]
    exact fits_call _ argStr

theorem pending_unique {made : List (Str × Bool)} {c d : Str} (hc : Pending made c) (hd : Pending made d) :
    c = d := by
  obtain ⟨prev, older, h, -, rfl⟩ := hc
  obtain ⟨prev', older', h', -, rfl⟩ := hd
  rw [h] at h'
  cases h'
  rfl

theorem Calls.Fits.confirmed_iff {s : Calls} (h : s.Fits) (argStr : Str) :
    (confirmCommand s.stored argStr).1 = true ↔
      Pending s.made (compressWhitespaceCopy argStr) ∨
        Blank argStr ∧ ∀ command, ¬ Pending s.made command := by
  have htrue : (confirmCommand s.stored argStr).1 = true ↔ compressWhitespaceCopy argStr = s.stored := by
    simp only [confirmCommand]
    split <;> simp_all
  rw [htrue]
  rcases h with hpending | ⟨hnil, hnone⟩
  · constructor
    · intro hsame
      exact .inl (hsame ▸ hpending)
    · rintro (hsame | ⟨-, hnone⟩)
      · exact pending_unique hsame hpending
      · exact absurd hpending (hnone _)
  · rw [hnil, compress_eq_nil]
    constructor
    · exact fun hblank => .inr ⟨hblank, hnone⟩
    · rintro (hsame | ⟨hblank, -⟩)
      · exact absurd hsame (hnone _)
      · exact hblank

/-- Compressed, a text is its words with one white space character between two of them, and nothing
is left to compress; and after any calls, the next one is confirmed if and only if the call before
it was refused and its text, not blank, is compressed to the same, or the text is blank and no command
waits for its confirmation. -/
theorem confirmCommand_canonical :
    (∀ s : Str, Joined (words s) (compressWhitespaceCopy s) ∧
      (compressWhitespaceCopy s).head?.any isSpace = false ∧
      (compressWhitespaceCopy s).getLast?.any isSpace = false ∧
      compressWhitespaceCopy (compressWhitespaceCopy s) = compressWhitespaceCopy s) ∧
    ∀ (args : List Str) (argStr : Str),
      (confirmCommand (Calls.run args).stored argStr).1 = true ↔
        Pending (Calls.run args).made (compressWhitespaceCopy argStr) ∨
          Blank argStr ∧ ∀ command, ¬ Pending (Calls.run args).made command := by
  refine ⟨fun s => ?_, fun args => (fits_run args).confirmed_iff⟩
  have hjoin := compress_joined s
  have hwords : ∀ w ∈ words s, Word w := fun _ => word_of_mem
  exact ⟨hjoin, joined_head hjoin hwords, joined_last hjoin hwords, compress_idempotent s⟩

end Cmd
end Ebftpd
