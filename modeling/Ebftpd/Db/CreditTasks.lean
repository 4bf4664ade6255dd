import Ebftpd.Db.Credits

/-!
# Ebftpd.Db.CreditTasks

Any number of `IncrCredits` tasks and `DecrCredits` calls on one user's document, their database
steps interleaved in any order.

The point of the three attempts is that an element is never removed: a task whose insertion failed
finds the element of whoever inserted it. So a task that is about to try again has an element to
update (`Inv.retry`), and no task ends without having applied its increment (`Inv.notFailed`).

* `attempt_cases`: everything one attempt of a task can do.
* `step_inv`: it keeps the invariant.
* `tasks_exact`: when all tasks have finished, every section holds what was there, plus the
  increments, minus the decrements that matched.
-/

namespace Ebftpd
namespace Db

open Util Lib Lib.Cells Lib.Parties

/-- The next attempt of an `IncrCredits` task, or how it ended. -/
inductive Attempt where
  | update
  | insert
  | again
  | done
  | failed
  deriving DecidableEq

structure IncrTask where
  sec : Str
  kBytes : Int
  next : Attempt

def IncrTask.start (incr : Str × Int) : IncrTask := ⟨incr.1, incr.2, .update⟩

def IncrTask.finished (t : IncrTask) : Bool := t.next == .done || t.next == .failed

/-- One attempt: the task and the document after it. -/
def IncrTask.attempt (t : IncrTask) (credits : Credits) : Option (IncrTask × Credits) :=
  match t.next with
  | .update =>
    match updateExisting credits t.sec t.kBytes with
    | some credits' => some ({ t with next := .done }, credits')
    | none => some ({ t with next := .insert }, credits)
  | .insert =>
    match doInsert credits t.sec t.kBytes with
    | some credits' => some ({ t with next := .done }, credits')
    | none => some ({ t with next := .again }, credits)
  | .again =>
    match updateExisting credits t.sec t.kBytes with
    | some credits' => some ({ t with next := .done }, credits')
    | none => some ({ t with next := .failed }, credits)
  | .done => none
  | .failed => none

/-- The document, the tasks, and the decrements whose `findandmodify` matched. -/
structure CreditState where
  credits : Credits
  tasks : List IncrTask
  decrs : List (Str × Int)

def CreditState.start (credits : Credits) (incrs : List (Str × Int)) : CreditState :=
  { credits := credits, tasks := incrs.map IncrTask.start, decrs := [] }

/-- One atomic step of the database: the next attempt of a task, or a `DecrCredits`. -/
inductive CreditStep where
  | incr (task : Nat)
  | decr (sec : Str) (kBytes : Int) (force : Bool)

/-- `DecrCredits(0)` makes no database command; the amount is a `long long` whose negation is
defined. -/
def creditStep (s : CreditState) : CreditStep → Option CreditState
  | .incr i =>
    match s.tasks[i]? with
    | none => none
    | some t =>
      match t.attempt s.credits with
      | none => none
      | some (t', credits') => some { s with credits := credits', tasks := s.tasks.set i t' }
  | .decr sec kBytes force =>
    if ¬(llongMin < kBytes ∧ kBytes ≤ llongMax) then none
    else if kBytes = 0 then some s
    else
      match decrCommand s.credits sec kBytes force with
      | none => some s
      | some credits' => some { s with credits := credits', decrs := (sec, kBytes) :: s.decrs }

def sumOf (l : List (Str × Int)) (sec : Str) : Int :=
  (l.map fun e => if e.1 = sec then e.2 else 0).sum

def IncrTask.applied (sec : Str) (t : IncrTask) : Int :=
  if t.next = .done ∧ t.sec = sec then t.kBytes else 0

/-! ## What a step can do -/

/-- An attempt applies the task's increment, once, or leaves the document and goes on; the last
attempt fails only where the section has no element. -/
theorem attempt_cases {t t' : IncrTask} {credits credits' : Credits} (hcredits : Distinct credits)
    (h : t.attempt credits = some (t', credits')) :
    t'.sec = t.sec ∧ t'.kBytes = t.kBytes ∧ t.next ≠ .done ∧
    ((t'.next = .done ∧ Distinct credits' ∧ keys credits ⊆ keys credits' ∧
        ∀ j, value credits' j = value credits j + if j = t.sec then t.kBytes else 0) ∨
      (credits' = credits ∧ (t'.next = .insert ∨ t'.next = .again ∧ t.sec ∈ keys credits ∨
        t'.next = .failed ∧ t.next = .again ∧ t.sec ∉ keys credits))) := by
  have hupdate : ∀ {c}, updateExisting credits t.sec t.kBytes = some c →
      Distinct c ∧ keys credits ⊆ keys c ∧
        ∀ j, value c j = value credits j + if j = t.sec then t.kBytes else 0 := by
    intro c hc
    have hkeys := addFirst_keys hc
    refine ⟨?_, by rw [hkeys]; exact List.Subset.refl _,
      addFirst_value (updateExisting_query t.sec) hcredits hc⟩
    rw [Distinct, hkeys]
    exact hcredits
  unfold IncrTask.attempt at h
  cases hn : t.next with
  | update =>
    simp only [hn] at h
    split at h
    · rename_i hc
      cases h
      exact ⟨rfl, rfl, by simp, .inl ⟨rfl, hupdate hc⟩⟩
    · cases h
      exact ⟨rfl, rfl, by simp, .inr ⟨rfl, .inl rfl⟩⟩
  | insert =>
    simp only [hn] at h
    split at h
    · rename_i hc
      cases h
      simp only [doInsert] at hc
      split at hc
      · cases hc
      · rename_i hmem
        cases hc
        refine ⟨rfl, rfl, by simp, .inl ⟨rfl, distinct_concat hcredits hmem _, ?_, ?_⟩⟩
        · intro j hj
          simp only [keys, List.map_append, List.mem_append] at *
          exact .inl hj
        · intro j
          rw [value_concat hmem]
          by_cases hj : j = t.sec
          · simp [hj, value_of_not_mem hmem]
          · simp [hj]
    · rename_i hc
      cases h
      simp only [doInsert] at hc
      split at hc
      · rename_i hmem
        exact ⟨rfl, rfl, by simp, .inr ⟨rfl, .inr (.inl ⟨rfl, hmem⟩)⟩⟩
      · cases hc
  | again =>
    simp only [hn] at h
    split at h
    · rename_i hc
      cases h
      exact ⟨rfl, rfl, by simp, .inl ⟨rfl, hupdate hc⟩⟩
    · rename_i hc
      cases h
      exact ⟨rfl, rfl, by simp, .inr ⟨rfl, .inr (.inr ⟨rfl, rfl, updateExisting_none.mp hc⟩)⟩⟩
  | done => simp [hn] at h
  | failed => simp [hn] at h

/-! ## The invariant -/

section Invariant

variable {credits : Credits} {incrs : List (Str × Int)}

/-- What holds after any number of steps from `credits` with the increments `incrs`. -/
structure Inv (credits : Credits) (incrs : List (Str × Int)) (s : CreditState) : Prop where
  distinct : Distinct s.credits
  tasks : s.tasks.map (fun t => (t.sec, t.kBytes)) = incrs
  retry : ∀ t ∈ s.tasks, t.next = .again → t.sec ∈ keys s.credits
  notFailed : ∀ t ∈ s.tasks, t.next ≠ .failed
  exact : ∀ sec, value s.credits sec =
    value credits sec + (s.tasks.map (IncrTask.applied sec)).sum - sumOf s.decrs sec

theorem inv_start (hcredits : Distinct credits) : Inv credits incrs (.start credits incrs) where
  distinct := hcredits
  tasks := by simp [CreditState.start, IncrTask.start, Function.comp_def]
  retry := by
    intro t ht
    obtain ⟨e, _, rfl⟩ := List.mem_map.mp ht
    intro h; cases h
  notFailed := by
    intro t ht
    obtain ⟨e, _, rfl⟩ := List.mem_map.mp ht
    intro h; cases h
  exact := by
    intro sec
    simp [CreditState.start, IncrTask.start, IncrTask.applied, sumOf, Function.comp_def]

theorem incr_inv {s s' : CreditState} {i : Nat} (hs : Inv credits incrs s)
    (h : creditStep s (.incr i) = some s') : Inv credits incrs s' := by
  simp only [creditStep] at h
  split at h
  · cases h
  · rename_i t ht
    split at h
    · cases h
    · rename_i t' credits' hatt
      cases h
      have hmem : t ∈ s.tasks := List.mem_of_getElem? ht
      obtain ⟨hsec, hkb, hnd, hcase⟩ := attempt_cases hs.distinct hatt
      have htasks : (s.tasks.set i t').map (fun t => (t.sec, t.kBytes)) = incrs := by
        rw [map_set_eq _ ht (by simp [hsec, hkb]), hs.tasks]
      have hold : ∀ sec, t.applied sec = 0 := fun sec => by simp [IncrTask.applied, hnd]
      rcases hcase with ⟨hdone, hdist, hsub, hval⟩ | ⟨rfl, hnext⟩
      · -- the increment is applied, by this task and now
        refine ⟨hdist, htasks, ?_, forall_set hs.notFailed (by simp [hdone]), ?_⟩
        · exact forall_set (fun x hx hxr => hsub (hs.retry x hx hxr)) (by simp [hdone])
        · intro sec
          rw [hval, sum_map_set _ ht, hs.exact sec, hold]
          by_cases hj : sec = t.sec
          · simp only [IncrTask.applied, hdone, hsec, hkb, hj, and_self, if_true]
            omega
          · have : ¬t.sec = sec := fun h => hj h.symm
            simp only [IncrTask.applied, hdone, hsec, hj, this, and_false, if_false]
            omega
      · have hnew : ∀ sec, t'.applied sec = 0 := by
          intro sec
          rcases hnext with hn | ⟨hn, _⟩ | ⟨hn, _⟩ <;> simp [IncrTask.applied, hn]
        refine ⟨hs.distinct, htasks, forall_set hs.retry ?_, forall_set hs.notFailed ?_, ?_⟩
        · rcases hnext with hn | ⟨_, hin⟩ | ⟨hn, _⟩
          · simp [hn]
          · intro _; rw [hsec]; exact hin
          · simp [hn]
        · rcases hnext with hn | ⟨hn, _⟩ | ⟨_, hag, hout⟩
          · simp [hn]
          · simp [hn]
          · -- the third attempt finds the element that made the second one fail
            exact absurd (hs.retry t hmem hag) hout
        · intro sec
          rw [sum_map_set _ ht, hs.exact sec, hold, hnew]
          simp only [sub_zero, add_zero]

theorem decr_inv {s s' : CreditState} {sec : Str} {kBytes : Int} {force : Bool}
    (hs : Inv credits incrs s) (h : creditStep s (.decr sec kBytes force) = some s') :
    Inv credits incrs s' := by
  simp only [creditStep] at h
  split at h
  · cases h
  · rename_i hk
    rw [not_not] at hk
    split at h
    · cases h; exact hs
    · split at h
      · cases h; exact hs
      · rename_i credits' hcmd
        cases h
        have hkeys := addFirst_keys hcmd
        refine ⟨by rw [Distinct, hkeys]; exact hs.distinct, hs.tasks, ?_, hs.notFailed, ?_⟩
        · intro t ht hr
          rw [hkeys]
          exact hs.retry t ht hr
        · intro j
          rw [decrCommand_value hs.distinct sec hk force hcmd, hs.exact j]
          simp only [sumOf, List.map_cons, List.sum_cons]
          by_cases hj : j = sec
          · simp only [hj, if_true]; omega
          · have : ¬sec = j := fun h => hj h.symm
            simp only [hj, this, if_false]; omega

theorem step_inv (s : CreditState) (l : CreditStep) (s' : CreditState) (hs : Inv credits incrs s)
    (h : creditStep s l = some s') : Inv credits incrs s' := by
  cases l with
  | incr i => exact incr_inv hs h
  | decr sec kBytes force => exact decr_inv hs h

end Invariant

/-- Whatever the interleaving: when all increments have finished, every section has at most one
element and holds its initial value, plus the sum of all increments, minus the sum of the
decrements that matched. -/
theorem tasks_exact {credits : Credits} (hcredits : Distinct credits) (incrs : List (Str × Int))
    (l : List CreditStep) {s : CreditState}
    (hrun : run creditStep (.start credits incrs) l = some s)
    (hfin : ∀ t ∈ s.tasks, t.finished = true) :
    Distinct s.credits ∧
      ∀ sec, value s.credits sec = value credits sec + sumOf incrs sec - sumOf s.decrs sec := by
  have hinv : Inv credits incrs s := run_invariant step_inv l (inv_start hcredits) hrun
  refine ⟨hinv.distinct, fun sec => ?_⟩
  have hdone : ∀ t ∈ s.tasks, t.next = .done := by
    intro t ht
    have hf := hfin t ht
    simp only [IncrTask.finished, Bool.or_eq_true, beq_iff_eq] at hf
    exact hf.resolve_right (hinv.notFailed t ht)
  have happlied : s.tasks.map (IncrTask.applied sec) =
      incrs.map fun e => if e.1 = sec then e.2 else 0 := by
    rw [← hinv.tasks, List.map_map]
    apply List.map_congr_left
    intro t ht
    simp [IncrTask.applied, hdone t ht]
  rw [hinv.exact sec, happlied]
  rfl

/-- Two increments race for the first element of a section, a decrement in between: the first task
finds no element, the second inserts it, the first fails to insert and updates. -/
theorem tasks_exact_race :
    let s : CreditState :=
      { credits := [([], 5), ("MP3".toList, 30)]
        tasks := [⟨"MP3".toList, 10, .done⟩, ⟨"MP3".toList, 20, .done⟩]
        decrs := [([], 3)] }
    let l : List CreditStep :=
      [.incr 0, .incr 1, .incr 1, .decr [] 3 false, .incr 0, .incr 0]
    run creditStep (.start [([], 8)] [("MP3".toList, 10), ("MP3".toList, 20)]) l = some s ∧
      Distinct s.credits ∧ value s.credits "MP3".toList = 0 + (10 + 20) - 0 := by
  intro s l
  have hrun : run creditStep (.start [([], 8)] [("MP3".toList, 10), ("MP3".toList, 20)]) l = some s := by
    rfl
  have h := tasks_exact (by simp [Distinct, keys]) [("MP3".toList, 10), ("MP3".toList, 20)] l hrun
    (by decide)
  exact ⟨hrun, h.1, h.2 "MP3".toList⟩

end Db
end Ebftpd
