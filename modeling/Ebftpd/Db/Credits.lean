import Ebftpd.Lib.Cells
import Ebftpd.Lib.Parties
import Ebftpd.Lib.Run
import Ebftpd.Util.String

/-!
# Ebftpd.Db.Credits

A user's credits in the database (`src/db/user/user.cpp`). The user's document holds a list of
elements `{section, value}`. `IncrCredits` runs as a task of its own: it updates the element of the
section, else inserts one, else updates again. `DecrCredits` is one `findandmodify`. Each of these
is one atomic step of the database; the values in the document are integers of the database and do
not wrap, the amounts are the `long long` of the code.

* `decrCredits_meets_iff`: a decrement means what it returns, unless it is forced on a section the
  user has no element for.
* `step_inv`, `tasks_exact`: over every interleaving of increments and decrements no increment is
  lost or applied twice, and no section gets a second element.
-/

namespace Ebftpd
namespace Db

open Util Lib Lib.Cells

abbrev Credits := List (Str × Int)

/-- `updateExisting`: `$inc` on the first element of the section. -/
def updateExisting (credits : Credits) (sec : Str) (kBytes : Int) : Option Credits :=
  addFirst (fun e => e.1 == sec) kBytes credits

/-- `doInsert`: `$push` where no element of the section is there. -/
def doInsert (credits : Credits) (sec : Str) (kBytes : Int) : Option Credits :=
  if sec ∈ keys credits then none else some (credits ++ [(sec, kBytes)])

/-- The `$elemMatch` of `DecrCredits`. -/
def decrQuery (sec : Str) (kBytes : Int) (force : Bool) (e : Str × Int) : Bool :=
  e.1 == sec && (force || decide (e.2 ≥ kBytes))

/-- The `findandmodify` of `DecrCredits`; `none` is a null `value` in the result. -/
def decrCommand (credits : Credits) (sec : Str) (kBytes : Int) (force : Bool) : Option Credits :=
  addFirst (decrQuery sec kBytes force) (wrap64 (-kBytes)) credits

/-- `DecrCredits`, where `ret` is what `RunCommand` returns; a command that failed left the
document alone. -/
def decrCredits (ret : Bool) (credits : Credits) (sec : Str) (kBytes : Int) (force : Bool) :
    Bool × Credits :=
  if kBytes = 0 then (true, credits)
  else if !ret then (force, credits)
  else
    match decrCommand credits sec kBytes force with
    | some credits' => (true, credits')
    | none => (force, credits)

/-- `IncrCredits` with its task run to the end: update, else insert, else update again. -/
def incrCredits (credits : Credits) (sec : Str) (kBytes : Int) : Credits :=
  match updateExisting credits sec kBytes with
  | some credits' => credits'
  | none =>
    match doInsert credits sec kBytes with
    | some credits' => credits'
    | none => (updateExisting credits sec kBytes).getD credits

theorem updateExisting_query (sec : Str) (e : Str × Int) (h : (e.1 == sec) = true) : e.1 = sec := by
  simpa using h

theorem decrQuery_query {sec : Str} {kBytes : Int} {force : Bool} (e : Str × Int)
    (h : decrQuery sec kBytes force e = true) : e.1 = sec := by
  simp only [decrQuery, Bool.and_eq_true, beq_iff_eq] at h
  exact h.1

theorem updateExisting_none {credits : Credits} {sec : Str} {kBytes : Int} :
    updateExisting credits sec kBytes = none ↔ sec ∉ keys credits :=
  addFirst_key_eq_none fun _ => beq_iff_eq

theorem incrCredits_value (credits : Credits) (sec : Str) (kBytes : Int) (j : Str) :
    value (incrCredits credits sec kBytes) j = value credits j + if j = sec then kBytes else 0 := by
  unfold incrCredits
  split
  · rename_i h
    exact addFirst_key_value (fun _ => beq_iff_eq) h j
  · rename_i h
    have hmem := updateExisting_none.mp h
    simp only [doInsert, if_neg hmem]
    rw [value_concat hmem]
    by_cases hj : j = sec
    · simp [hj, value_of_not_mem hmem]
    · simp [hj]

theorem incrCredits_distinct {credits : Credits} (h : Distinct credits) (sec : Str) (kBytes : Int) :
    Distinct (incrCredits credits sec kBytes) := by
  unfold incrCredits
  split
  · rename_i hupdate
    rw [Distinct, addFirst_keys hupdate]
    exact h
  · rename_i hupdate
    have hmem := updateExisting_none.mp hupdate
    simp only [doInsert, if_neg hmem]
    exact distinct_concat h hmem kBytes

theorem decrCredits_keys (ret : Bool) (credits : Credits) (sec : Str) (kBytes : Int) (force : Bool) :
    keys (decrCredits ret credits sec kBytes force).2 = keys credits := by
  unfold decrCredits
  split
  · rfl
  · split
    · rfl
    · split
      · rename_i hcmd
        exact addFirst_keys hcmd
      · rfl

theorem decrCredits_distinct {credits : Credits} (h : Distinct credits) (ret : Bool) (sec : Str)
    (kBytes : Int) (force : Bool) : Distinct (decrCredits ret credits sec kBytes force).2 := by
  rw [Distinct, decrCredits_keys]
  exact h

/-- What a forced decrement takes: nothing where the section has no element. -/
def forcedTaken (credits : Credits) (sec : Str) (kBytes : Int) : Int :=
  if kBytes = 0 ∨ sec ∉ keys credits then 0 else -wrap64 (-kBytes)

theorem decrCredits_force_value (credits : Credits) (sec : Str) (kBytes : Int) (j : Str) :
    value (decrCredits true credits sec kBytes true).2 j =
      value credits j - if j = sec then forcedTaken credits sec kBytes else 0 := by
  have hquery : ∀ e, decrQuery sec kBytes true e = true ↔ e.1 = sec := by simp [decrQuery]
  unfold decrCredits
  split
  · rename_i hzero
    simp [forcedTaken, hzero]
  · rename_i hzero
    simp only [Bool.not_true, Bool.false_eq_true, if_false, decrCommand]
    split
    · rename_i credits' h
      have hmem : sec ∈ keys credits := by
        by_contra hmem
        rw [(addFirst_key_eq_none hquery).mpr hmem] at h
        cases h
      rw [addFirst_key_value hquery h]
      simp only [forcedTaken, hzero, hmem, not_true, or_self, if_false]
      split <;> omega
    · rename_i h
      simp [forcedTaken, (addFirst_key_eq_none hquery).mp h]

/-- A `long long` other than the least one has a negation. -/
theorem wrap64_neg {k : Int} (hk : llongMin < k ∧ k ≤ llongMax) : wrap64 (-k) = -k := by
  apply wrap64_of_bounds
  simp only [llongMin, llongMax] at *
  omega

/-! ## One decrement -/

section Decrement

variable {credits : Credits} (hcredits : Distinct credits) (sec : Str) {kBytes : Int}
  (hk : llongMin < kBytes ∧ kBytes ≤ llongMax) (force : Bool)

include hcredits

theorem decrCommand_isSome_iff :
    (∃ credits', decrCommand credits sec kBytes force = some credits') ↔
      sec ∈ keys credits ∧ (force = true ∨ value credits sec ≥ kBytes) := by
  unfold decrCommand
  rw [addFirst_isSome_iff decrQuery_query hcredits]
  simp [decrQuery]

include hk in
theorem decrCommand_value {credits' : Credits} (h : decrCommand credits sec kBytes force = some credits')
    (j : Str) : value credits' j = value credits j - if j = sec then kBytes else 0 := by
  rw [addFirst_value decrQuery_query hcredits h, wrap64_neg hk]
  split <;> omega

end Decrement

/-- A decrement leaves the other sections alone. -/
theorem decrCredits_other {credits : Credits} (hcredits : Distinct credits) (ret : Bool) (sec : Str)
    (kBytes : Int) (force : Bool) {j : Str} (hj : j ≠ sec) :
    value (decrCredits ret credits sec kBytes force).2 j = value credits j := by
  unfold decrCredits
  split
  · rfl
  · split
    · rfl
    · split
      · rename_i hcmd
        rw [addFirst_value decrQuery_query hcredits hcmd, if_neg hj, add_zero]
      · rfl

/-- A decrement that the credits of the section cover. -/
theorem decrCredits_covered {credits : Credits} (hcredits : Distinct credits) {sec : Str} {kBytes : Int}
    (hk : llongMin < kBytes ∧ kBytes ≤ llongMax)
    (hcovered : kBytes = 0 ∨ sec ∈ keys credits ∧ kBytes ≤ value credits sec) (j : Str) :
    value (decrCredits true credits sec kBytes false).2 j =
      value credits j - if j = sec then kBytes else 0 := by
  unfold decrCredits
  split
  · rename_i hzero
    simp [hzero]
  · rename_i hzero
    obtain ⟨hmem, hle⟩ := hcovered.resolve_left hzero
    obtain ⟨credits', hcmd⟩ := (decrCommand_isSome_iff hcredits sec false).mpr ⟨hmem, .inr hle⟩
    simp only [Bool.not_true, Bool.false_eq_true, if_false, hcmd]
    exact decrCommand_value hcredits sec hk false hcmd j

/-- What the caller of `DecrCredits` relies on, when the database command succeeds. -/
structure DecrMeets (credits : Credits) (sec : Str) (kBytes : Int) (force : Bool) (r : Bool × Credits) :
    Prop where
  returns : r.1 = true ↔ value r.2 sec = value credits sec - kBytes
  unchanged : r.1 = false → r.2 = credits
  unforced : force = false → value r.2 sec < 0 → r.2 = credits
  forced : force = true → value r.2 sec = value credits sec - kBytes

/-- A decrement means what it returns exactly when it is not forced or the user has an element for
the section. -/
theorem decrCredits_meets_iff {credits : Credits} (hcredits : Distinct credits) (sec : Str)
    {kBytes : Int} (hpos : 0 < kBytes) (hmax : kBytes ≤ llongMax) (force : Bool) :
    DecrMeets credits sec kBytes force (decrCredits true credits sec kBytes force) ↔
      (force = false ∨ sec ∈ keys credits) := by
  have hk : llongMin < kBytes ∧ kBytes ≤ llongMax := by
    simp only [llongMin]
    omega
  have hiff := @decrCommand_isSome_iff credits hcredits sec kBytes force
  simp only [decrCredits, if_neg (by omega : kBytes ≠ 0), Bool.not_true, Bool.false_eq_true, if_false]
  cases hcmd : decrCommand credits sec kBytes force with
  | some credits' =>
    -- the element was there, so the decrement took place
    have hvalue := decrCommand_value hcredits sec hk force hcmd sec
    simp only [if_true] at hvalue
    obtain ⟨hmem, hcond⟩ := hiff.mp ⟨_, hcmd⟩
    refine ⟨fun _ => .inr hmem, fun _ => ⟨?_, ?_, ?_, ?_⟩⟩
    · simpa using hvalue
    · intro h; cases h
    · intro hforce hneg
      rcases hcond with h | h
      · rw [hforce] at h; cases h
      · simp only at hneg
        omega
    · intro _; exact hvalue
  | none =>
    have hno : ¬(sec ∈ keys credits ∧ (force = true ∨ value credits sec ≥ kBytes)) := by
      rw [← hiff, hcmd]
      rintro ⟨_, h⟩
      cases h
    cases force with
    | false =>
      refine ⟨fun _ => .inl rfl, fun _ => ⟨?_, fun _ => rfl, fun _ _ => rfl, ?_⟩⟩
      · simp only [Bool.false_eq_true, false_iff]
        omega
      · intro h; cases h
    | true =>
      -- nothing was changed, and true is returned all the same
      constructor
      · intro h
        have := h.forced rfl
        simp only at this
        omega
      · rintro (h | h)
        · cases h
        · exact absurd ⟨h, .inl rfl⟩ hno

/-- An unforced and a forced decrement on a section with credits. -/
theorem decrCredits_meets_funded :
    let credits : Credits := [([], 100), ("MP3".toList, 7)]
    DecrMeets credits "MP3".toList 9 true (decrCredits true credits "MP3".toList 9 true) ∧
      decrCredits true credits "MP3".toList 9 true = (true, [([], 100), ("MP3".toList, -2)]) := by
  intro credits
  refine ⟨(decrCredits_meets_iff ?_ "MP3".toList (by decide) (by decide) true).mpr
    (.inr (by decide)), by decide⟩
  simp [Distinct, keys, credits]

/-- A forced decrement on a section without credits returns true and takes nothing. -/
theorem decrCredits_forced_absent :
    decrCredits true [([], 100)] "MP3".toList 9 true = (true, [([], 100)]) ∧
      ¬ DecrMeets [([], 100)] "MP3".toList 9 true
        (decrCredits true [([], 100)] "MP3".toList 9 true) := by
  have hrun : decrCredits true [([], 100)] "MP3".toList 9 true = (true, [([], 100)]) := by decide
  refine ⟨hrun, ?_⟩
  rw [hrun]
  intro h
  exact absurd (h.forced rfl) (by decide)

end Db
end Ebftpd
