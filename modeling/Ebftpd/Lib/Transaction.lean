import Mathlib.Tactic.Common

/-!
# Ebftpd.Lib.Transaction

Mutators of a record that is kept in memory and in a database. A mutator changes fields in memory and
saves fields; a save may throw. A scope guard (`scope`) holds the old values of some fields and puts
them back when an exception leaves its scope.

`Law` is what a mutator is to do: leave the memory as it was where it throws, and otherwise change the
fields it names, and save those. A field is known by how it is copied from one record to another.

* `setter_law_iff'`: when a guarded change with a save keeps the law.
* `setter_law_iff`: where the change is of the fields that are saved, exactly if what the guard does
  not hold stays the same.
* `renameWith_law_iff`: a renaming, which takes the name back where it is refused and not where the
  save throws.
* `setterThen_law`: a guarded change and save with another mutator behind it in the scope.
-/

namespace Ebftpd
namespace Lib

universe u v

/-- Records of `σ` with fields `φ`; `copy f a b` is `b` with the field `f` of `a`. -/
class Record (φ : outParam (Type u)) (σ : Type v) where
  copy : φ → σ → σ → σ
  copy_self : ∀ f a, copy f a a = a

/-- What a save does: it writes, it fails without throwing, or it throws. -/
inductive SaveOutcome where
  | okay | refused | throws

/-- Behind the end of the list saves write. -/
def nextSave (saves : List SaveOutcome) : SaveOutcome := saves.headD .okay

structure Image (σ : Type v) where
  mem : σ
  db : σ

/-- The record after a mutator, the saves that are left, and whether it threw. -/
structure Ran (σ : Type v) where
  image : Image σ
  saves : List SaveOutcome
  threw : Bool

/-- A mutator, given what its saves will do. -/
abbrev Prog (σ : Type v) := Image σ → List SaveOutcome → Ran σ

variable {φ : Type u} {σ : Type v} [Record φ σ]

/-- `b` with the fields `fs` of `a`. -/
def copyAll (fs : List φ) (a b : σ) : σ := fs.foldl (fun acc f => Record.copy f a acc) b

@[simp] theorem copyAll_nil (a b : σ) : copyAll [] a b = b := rfl

theorem copyAll_self (fs : List φ) (a : σ) : copyAll fs a a = a := by
  induction fs with
  | nil => rfl
  | cons f fs ih =>
    rw [copyAll, List.foldl_cons, Record.copy_self]
    exact ih

theorem copyAll_append (fs gs : List φ) (a b : σ) :
    copyAll (fs ++ gs) a b = copyAll gs a (copyAll fs a b) := List.foldl_append

namespace Prog

def skip : Prog σ := fun i saves => ⟨i, saves, false⟩

def fail : Prog σ := fun i saves => ⟨i, saves, true⟩

def change (g : σ → σ) : Prog σ := fun i saves => ⟨{ i with mem := g i.mem }, saves, false⟩

/-- Saves the fields as they are in memory; `p` follows where that fails without throwing. -/
def saveElse (fields : List φ) (p : Prog σ) : Prog σ := fun i saves =>
  match nextSave saves with
  | .okay => ⟨{ i with db := copyAll fields i.mem i.db }, saves.tail, false⟩
  | .refused => p i saves.tail
  | .throws => ⟨i, saves.tail, true⟩

def save (fields : List φ) : Prog σ := saveElse fields skip

def andThen (p q : Prog σ) : Prog σ := fun i saves =>
  let r := p i saves
  if r.threw then r else q r.image r.saves

def cond (test : σ → Bool) (p q : Prog σ) : Prog σ := fun i saves =>
  if test i.mem then p i saves else q i saves

/-- A scope that puts the fields back when it is left by an exception. -/
def scope (fields : List φ) (p : Prog σ) : Prog σ := fun i saves =>
  let r := p i saves
  if r.threw then { r with image := { r.image with mem := copyAll fields i.mem r.image.mem } } else r

/-- A change with a save behind it, in a scope that guards the fields `guarded`. -/
def setter (guarded fields : List φ) (g : σ → σ) : Prog σ :=
  scope guarded (andThen (change g) (save fields))

/-- A setter with another program behind its save, in the same scope. -/
def setterThen (guarded fields : List φ) (g : σ → σ) (p : Prog σ) : Prog σ :=
  scope guarded (andThen (change g) (andThen (save fields) p))

/-- A change of one field that is taken back where its save fails, but not where it throws. -/
def renameWith (name : φ) (g : σ → σ) : Prog σ := fun i =>
  andThen (change g) (saveElse [name] (change (copyAll [name] i.mem))) i

end Prog

open Prog

/-- Where a mutator throws, the memory is as before. Where it does not and all saves write, the memory
is `given`, which differs in `fields` alone, and these fields are written. -/
structure Law (prog : Prog σ) (fields : List φ) (given : σ) (i : Image σ) (saves : List SaveOutcome) :
    Prop where
  atomic : (prog i saves).threw = true → (prog i saves).image.mem = i.mem
  framed : (∀ s ∈ saves, s = .okay) → (prog i saves).threw = false →
    (prog i saves).image = ⟨given, copyAll fields given i.db⟩ ∧ copyAll fields i.mem given = i.mem

variable {i : Image σ} {saves : List SaveOutcome}

theorem skip_law : Law skip ([] : List φ) i.mem i saves where
  atomic := fun h => by cases h
  framed := fun _ _ => ⟨rfl, rfl⟩

theorem fail_law (fields : List φ) (given : σ) : Law fail fields given i saves where
  atomic := fun _ => rfl
  framed := fun _ h => by cases h

theorem nextSave_okay (h : ∀ s ∈ saves, s = SaveOutcome.okay) : nextSave saves = .okay := by
  cases saves with
  | nil => rfl
  | cons s saves => exact h s (by simp)

section

variable {guarded saved : List φ} {g : σ → σ}

theorem setter_okay (h : nextSave saves = .okay) :
    setter guarded saved g i saves = ⟨⟨g i.mem, copyAll saved (g i.mem) i.db⟩, saves.tail, false⟩ := by
  simp [setter, scope, andThen, change, save, saveElse, h]

theorem setter_refused (h : nextSave saves = .refused) :
    setter guarded saved g i saves = ⟨⟨g i.mem, i.db⟩, saves.tail, false⟩ := by
  simp [setter, scope, andThen, change, save, saveElse, skip, h]

theorem setter_throws (h : nextSave saves = .throws) :
    setter guarded saved g i saves = ⟨⟨copyAll guarded i.mem (g i.mem), i.db⟩, saves.tail, true⟩ := by
  simp [setter, scope, andThen, change, save, saveElse, h]

/-- A setter that does not throw has made its change. -/
theorem setter_mem (h : (setter guarded saved g i saves).threw = false) :
    (setter guarded saved g i saves).image.mem = g i.mem := by
  cases hhead : nextSave saves with
  | okay => rw [setter_okay hhead]
  | refused => rw [setter_refused hhead]
  | throws =>
    rw [setter_throws hhead] at h
    cases h

end

/-- A setter keeps the law exactly if its guard puts everything back, and what it changes and what it
saves is what it is to change and save. -/
theorem setter_law_iff' {guarded saved fields : List φ} {g : σ → σ} {given : σ} :
    Law (setter guarded saved g) fields given i saves ↔
      (nextSave saves = .throws → copyAll guarded i.mem (g i.mem) = i.mem) ∧
        ((∀ s ∈ saves, s = .okay) → (⟨g i.mem, copyAll saved (g i.mem) i.db⟩ : Image σ) =
          ⟨given, copyAll fields given i.db⟩ ∧ copyAll fields i.mem given = i.mem) := by
  have hrun : setter guarded saved g i saves =
      match nextSave saves with
      | .okay => ⟨⟨g i.mem, copyAll saved (g i.mem) i.db⟩, saves.tail, false⟩
      | .refused => ⟨⟨g i.mem, i.db⟩, saves.tail, false⟩
      | .throws => ⟨⟨copyAll guarded i.mem (g i.mem), i.db⟩, saves.tail, true⟩ := by
    cases hhead : nextSave saves with
    | okay => exact setter_okay hhead
    | refused => exact setter_refused hhead
    | throws => exact setter_throws hhead
  constructor
  · intro h
    refine ⟨fun hthrows => ?_, fun hokay => ?_⟩
    · have := h.atomic
      simp only [hrun, hthrows, true_implies] at this
      exact this
    · have := h.framed hokay
      simp only [hrun, nextSave_okay hokay, true_implies] at this
      exact this
  · rintro ⟨hguard, hchange⟩
    refine ⟨fun hthrew => ?_, fun hokay _ => ?_⟩
    · rw [hrun] at hthrew ⊢
      cases hhead : nextSave saves with
      | okay =>
        rw [hhead] at hthrew
        cases hthrew
      | refused =>
        rw [hhead] at hthrew
        cases hthrew
      | throws => exact hguard hhead
    · rw [hrun, nextSave_okay hokay]
      exact hchange hokay

/-- A setter that saves the fields it changes keeps the law exactly if what its guard does not hold
stays the same, or the save does not throw. -/
theorem setter_law_iff {guarded fields : List φ} {g : σ → σ} (hframe : copyAll fields i.mem (g i.mem) = i.mem) :
    Law (setter guarded fields g) fields (g i.mem) i saves ↔
      (nextSave saves = .throws → copyAll guarded i.mem (g i.mem) = i.mem) :=
  setter_law_iff'.trans (and_iff_left fun _ => ⟨rfl, hframe⟩)

theorem setter_law {fields : List φ} {g : σ → σ} (hframe : copyAll fields i.mem (g i.mem) = i.mem) :
    Law (setter fields fields g) fields (g i.mem) i saves :=
  (setter_law_iff hframe).mpr fun _ => hframe

/-- A mutator with a save of its own behind a setter, in the scope of its guard. -/
theorem setterThen_law {fs gs : List φ} {g : σ → σ} {p : Prog σ} {given : σ}
    (hframe : copyAll fs i.mem (g i.mem) = i.mem)
    (hp : ∀ db saves, Law p gs given ⟨g i.mem, db⟩ saves)
    (hkeep : ∀ b, copyAll fs given b = copyAll fs (g i.mem) b)
    (hgiven : copyAll (fs ++ gs) i.mem given = i.mem) :
    Law (setterThen fs fs g p) (fs ++ gs) given i saves := by
  have hrun : setterThen fs fs g p i saves =
      match nextSave saves with
      | .okay => scope fs (fun _ _ => p ⟨g i.mem, copyAll fs (g i.mem) i.db⟩ saves.tail) i saves
      | .refused => scope fs (fun _ _ => p ⟨g i.mem, i.db⟩ saves.tail) i saves
      | .throws => ⟨⟨copyAll fs i.mem (g i.mem), i.db⟩, saves.tail, true⟩ := by
    cases hhead : nextSave saves with
    | okay => simp [setterThen, scope, andThen, change, save, saveElse, hhead]
    | refused => simp [setterThen, scope, andThen, change, save, saveElse, skip, hhead]
    | throws => simp [setterThen, scope, andThen, change, save, saveElse, hhead]
  -- what the mutator behind it throws at, the scope puts back
  have hback : ∀ db, (scope fs (fun _ _ => p ⟨g i.mem, db⟩ saves.tail) i saves).threw = true →
      (scope fs (fun _ _ => p ⟨g i.mem, db⟩ saves.tail) i saves).image.mem = i.mem := by
    intro db hthrew
    simp only [scope] at hthrew ⊢
    split at hthrew
    · rename_i hp'
      rw [if_pos hp']
      show copyAll fs i.mem (p ⟨g i.mem, db⟩ saves.tail).image.mem = i.mem
      rw [(hp db saves.tail).atomic hp', hframe]
    · rename_i hp'
      exact absurd hthrew hp'
  refine ⟨fun hthrew => ?_, fun hokay hthrew => ?_⟩
  · rw [hrun] at hthrew ⊢
    cases hhead : nextSave saves with
    | okay =>
      rw [hhead] at hthrew
      exact hback _ hthrew
    | refused =>
      rw [hhead] at hthrew
      exact hback _ hthrew
    | throws => exact hframe
  · rw [hrun, nextSave_okay hokay] at hthrew ⊢
    simp only [scope] at hthrew ⊢
    split at hthrew
    · rename_i hp'
      exact absurd hp' (by simpa using hthrew)
    · rename_i hp'
      rw [if_neg hp']
      obtain ⟨himage, -⟩ := (hp _ _).framed (fun s hs => hokay s (List.mem_of_mem_tail hs))
        (Bool.eq_false_iff.mpr hp')
      refine ⟨?_, hgiven⟩
      rw [himage, copyAll_append, hkeep]

/-- A renaming keeps the law exactly if the name is the same, or the save does not throw. -/
theorem renameWith_law_iff {name : φ} {g : σ → σ} (hframe : copyAll [name] i.mem (g i.mem) = i.mem) :
    Law (renameWith name g) [name] (g i.mem) i saves ↔ (nextSave saves = .throws → g i.mem = i.mem) := by
  have hrun : renameWith name g i saves =
      match nextSave saves with
      | .okay => ⟨⟨g i.mem, copyAll [name] (g i.mem) i.db⟩, saves.tail, false⟩
      | .refused => ⟨⟨i.mem, i.db⟩, saves.tail, false⟩
      | .throws => ⟨⟨g i.mem, i.db⟩, saves.tail, true⟩ := by
    cases hhead : nextSave saves with
    | okay => simp [renameWith, andThen, change, saveElse, hhead]
    | refused => simp [renameWith, andThen, change, saveElse, hhead, hframe]
    | throws => simp [renameWith, andThen, change, saveElse, hhead]
  constructor
  · intro h hthrows
    have := h.atomic
    simp only [hrun, hthrows, true_implies] at this
    exact this
  · intro hsame
    refine ⟨fun hthrew => ?_, fun hokay _ => ?_⟩
    · rw [hrun] at hthrew ⊢
      cases hhead : nextSave saves with
      | okay =>
        rw [hhead] at hthrew
        cases hthrew
      | refused => rfl
      | throws => exact hsame hhead
    · rw [hrun, nextSave_okay hokay]
      exact ⟨rfl, hframe⟩

theorem cond_law_iff {test : σ → Bool} {p q : Prog σ} {fields : List φ} {given : σ} :
    Law (cond test p q) fields given i saves ↔
      if test i.mem then Law p fields given i saves else Law q fields given i saves := by
  have hrun : cond test p q i saves = if test i.mem then p i saves else q i saves := rfl
  split
  · rename_i htest
    rw [if_pos htest] at hrun
    exact ⟨fun h => ⟨hrun ▸ h.atomic, hrun ▸ h.framed⟩, fun h => ⟨hrun ▸ h.atomic, hrun ▸ h.framed⟩⟩
  · rename_i htest
    rw [if_neg htest] at hrun
    exact ⟨fun h => ⟨hrun ▸ h.atomic, hrun ▸ h.framed⟩, fun h => ⟨hrun ▸ h.atomic, hrun ▸ h.framed⟩⟩

end Lib
end Ebftpd
