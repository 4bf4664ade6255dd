import Mathlib.Algebra.Group.Basic
import Mathlib.Data.List.Basic
import Mathlib.Tactic.Abel
import Mathlib.Tactic.Common

/-!
# Ebftpd.Lib.Run

Runs of a step machine. `step s i` is the state after input `i`, or `none` when `i` is not
enabled in `s`; `run step s l` takes the inputs `l` one after another.

Every result about all interleavings of several parties is stated over `run`: the input names
the party that moves, and an arbitrary list of inputs is an arbitrary schedule.

* `run_invariant`: what one step preserves, a whole run preserves.
* `Meets`: every step of a run is taken where a condition on it holds; `run_invariant_of_meets`
  is the invariant rule for such runs.
* `always_iff_meets`: a run keeps to an invariant exactly where its steps meet the condition;
  `always_iff_meets_of_forall` says so for the runs on inputs of one kind.
* `run_append`: a run is cut at any point.
* `runSum`: what the steps of a run add up to; `run_sum_of_meets` says that a measure moves by it.
* `latest`: what the steps of a run set last; `run_latest` says that it is what is found at the end.
* `run_count_le`: an input that lowers a measure no other input raises is taken a bounded number of
  times; `run_countP_le` where others raise it.
-/

namespace Ebftpd
namespace Lib

universe u v w

variable {σ : Type u} {ι : Type v} {step : σ → ι → Option σ}

def run (step : σ → ι → Option σ) : σ → List ι → Option σ
  | s, [] => some s
  | s, i :: l =>
    match step s i with
    | some s' => run step s' l
    | none => none

@[simp] theorem run_nil (s : σ) : run step s [] = some s := rfl

theorem run_cons_inv {s s' : σ} {i : ι} {l : List ι} (h : run step s (i :: l) = some s') :
    ∃ s1, step s i = some s1 ∧ run step s1 l = some s' := by
  simp only [run] at h
  split at h
  · exact ⟨_, ‹_›, h⟩
  · cases h

theorem run_append {s : σ} (l₁ l₂ : List ι) :
    run step s (l₁ ++ l₂) = (run step s l₁).bind (fun s1 => run step s1 l₂) := by
  induction l₁ generalizing s with
  | nil => rfl
  | cons i l ih =>
    simp only [List.cons_append, run]
    cases step s i with
    | none => rfl
    | some s1 => exact ih

theorem run_concat {s s1 s' : σ} {i : ι} {l : List ι} (h1 : run step s l = some s1)
    (h2 : step s1 i = some s') : run step s (l ++ [i]) = some s' := by
  rw [run_append, h1]
  simp [run, h2]

theorem run_append_inv {s s' : σ} {l₁ l₂ : List ι} (h : run step s (l₁ ++ l₂) = some s') :
    ∃ s1, run step s l₁ = some s1 ∧ run step s1 l₂ = some s' := by
  rw [run_append] at h
  exact Option.bind_eq_some_iff.mp h

/-- A run is taken and its end passes a test, by evaluation. -/
theorem run_ends {P : σ → Prop} [DecidablePred P] {s : σ} {l : List ι}
    (h : (run step s l).any (fun s' => decide (P s')) = true) : ∃ s', run step s l = some s' ∧ P s' := by
  obtain ⟨s', hrun, hP⟩ := (Option.any_eq_true _ _).mp h
  exact ⟨s', hrun, of_decide_eq_true hP⟩

theorem run_invariant {P : σ → Prop} (hstep : ∀ s i s', P s → step s i = some s' → P s') :
    ∀ (l : List ι) {s s' : σ}, P s → run step s l = some s' → P s' := by
  intro l
  induction l with
  | nil =>
    intro s s' hs h
    simp only [run_nil, Option.some.injEq] at h
    exact h ▸ hs
  | cons i l ih =>
    intro s s' hs h
    obtain ⟨s1, h1, h2⟩ := run_cons_inv h
    exact ih (hstep s i s1 hs h1) h2

/-- Each step of the run of `l` from `s` is taken in a state where `C` admits it. -/
def Meets (step : σ → ι → Option σ) (C : σ → ι → Prop) : σ → List ι → Prop
  | _, [] => True
  | s, i :: l => C s i ∧ ∀ s', step s i = some s' → Meets step C s' l

theorem Meets.mono {C D : σ → ι → Prop} (h : ∀ s i, C s i → D s i) {l : List ι} :
    ∀ {s : σ}, Meets step C s l → Meets step D s l := by
  induction l with
  | nil => exact fun _ => trivial
  | cons i l ih => exact fun hm => ⟨h _ i hm.1, fun s' hs' => ih (hm.2 s' hs')⟩

/-- The two parts of a run that meets a condition meet it. -/
theorem Meets.append_inv {C : σ → ι → Prop} {l₁ l₂ : List ι} {s s1 : σ}
    (h : Meets step C s (l₁ ++ l₂)) (h1 : run step s l₁ = some s1) :
    Meets step C s l₁ ∧ Meets step C s1 l₂ := by
  induction l₁ generalizing s with
  | nil =>
    simp only [run_nil, Option.some.injEq] at h1
    exact ⟨trivial, h1 ▸ h⟩
  | cons i l ih =>
    obtain ⟨s2, h2, h3⟩ := run_cons_inv h1
    refine ⟨⟨h.1, fun s' hs' => ?_⟩, (ih (h.2 s2 h2) h3).2⟩
    rw [h2] at hs'
    cases hs'
    exact (ih (h.2 s2 h2) h3).1

instance Meets.decidable {C : σ → ι → Prop} [∀ s i, Decidable (C s i)] :
    ∀ (s : σ) (l : List ι), Decidable (Meets step C s l)
  | _, [] => .isTrue trivial
  | s, i :: l =>
    match h : step s i with
    | none => decidable_of_iff (C s i) ⟨fun hc => ⟨hc, fun _ h' => nomatch h.symm.trans h'⟩, And.left⟩
    | some s1 =>
      have := Meets.decidable (C := C) s1 l
      decidable_of_iff (C s i ∧ Meets step C s1 l)
        ⟨fun hc => ⟨hc.1, fun _ h' => Option.some.inj (h.symm.trans h') ▸ hc.2⟩, fun hc => ⟨hc.1, hc.2 s1 h⟩⟩

/-- What a step meeting `C` preserves, a run whose steps all meet `C` preserves. -/
theorem run_invariant_of_meets {P : σ → Prop} {C : σ → ι → Prop}
    (hstep : ∀ s i s', P s → C s i → step s i = some s' → P s') :
    ∀ (l : List ι) {s s' : σ}, P s → Meets step C s l → run step s l = some s' → P s' := by
  intro l
  induction l with
  | nil =>
    intro s s' hs _ h
    simp only [run_nil, Option.some.injEq] at h
    exact h ▸ hs
  | cons i l ih =>
    intro s s' hs hm h
    obtain ⟨s1, h1, h2⟩ := run_cons_inv h
    exact ih (hstep s i s1 hs hm.1 h1) (hm.2 s1 h1) h2

/-- `P` holds in every state that the run of `l` from `s` reaches. -/
def Always (step : σ → ι → Option σ) (P : σ → Prop) : σ → List ι → Prop
  | s, [] => P s
  | s, i :: l => P s ∧ ∀ s', step s i = some s' → Always step P s' l

/-- Where `C` is exactly what a step on an input of kind `D` needs to preserve `P`, a run on such
inputs keeps to `P` if and only if its steps meet `C`. -/
theorem always_iff_meets_of_forall {P : σ → Prop} {C : σ → ι → Prop} {D : ι → Prop}
    (hstep : ∀ s i, P s → D i → ((∀ s', step s i = some s' → P s') ↔ C s i)) :
    ∀ (l : List ι) {s : σ}, (∀ i ∈ l, D i) → P s → (Always step P s l ↔ Meets step C s l) := by
  intro l
  induction l with
  | nil => exact fun _ hs => ⟨fun _ => trivial, fun _ => hs⟩
  | cons i l ih =>
    intro s hl hs
    have hD : D i := hl i (by simp)
    have hrest : ∀ j ∈ l, D j := fun j hj => hl j (by simp [hj])
    constructor
    · rintro ⟨-, hafter⟩
      have hP : ∀ s', step s i = some s' → P s' := by
        intro s' h
        have := hafter s' h
        cases l with
        | nil => exact this
        | cons j l => exact this.1
      exact ⟨(hstep s i hs hD).mp hP, fun s' h => (ih hrest (hP s' h)).mp (hafter s' h)⟩
    · rintro ⟨hC, hafter⟩
      have hP := (hstep s i hs hD).mpr hC
      exact ⟨hs, fun s' h => (ih hrest (hP s' h)).mpr (hafter s' h)⟩

/-- Where `C` is exactly what a step needs to preserve `P`, a run keeps to `P` if and only if its
steps meet `C`. -/
theorem always_iff_meets {P : σ → Prop} {C : σ → ι → Prop}
    (hstep : ∀ s i, P s → ((∀ s', step s i = some s' → P s') ↔ C s i)) :
    ∀ (l : List ι) {s : σ}, P s → (Always step P s l ↔ Meets step C s l) :=
  fun l _ hs => always_iff_meets_of_forall (D := fun _ => True) (fun s i hs _ => hstep s i hs) l
    (fun _ _ => trivial) hs

/-- Beside what the steps on inputs of kind `D` preserve anyway, `P` and `Q` are kept to alike. -/
theorem always_congr_of_forall {P Q I : σ → Prop} {D : ι → Prop}
    (hI : ∀ s i s', I s → D i → step s i = some s' → I s') (hPQ : ∀ s, I s → (P s ↔ Q s)) :
    ∀ (l : List ι) {s : σ}, (∀ i ∈ l, D i) → I s → (Always step P s l ↔ Always step Q s l) := by
  intro l
  induction l with
  | nil => exact fun _ hs => hPQ _ hs
  | cons i l ih =>
    intro s hl hs
    refine and_congr (hPQ s hs) (forall_congr' fun s' => imp_congr_right fun h => ?_)
    exact ih (fun j hj => hl j (by simp [hj])) (hI s i s' hs (hl i (by simp)) h)

/-- The sum of `f` over the steps of a run. -/
def runSum {γ : Type w} [AddMonoid γ] (step : σ → ι → Option σ) (f : σ → ι → γ) : σ → List ι → γ
  | _, [] => 0
  | s, i :: l =>
    match step s i with
    | some s' => f s i + runSum step f s' l
    | none => 0

/-- A measure that each step meeting `C` moves by `f` is moved by the sum of `f` over the run. -/
theorem run_sum_of_meets {γ : Type w} [AddMonoid γ] {Φ : σ → γ} {f : σ → ι → γ} {C : σ → ι → Prop}
    (hstep : ∀ s i s', C s i → step s i = some s' → Φ s' = Φ s + f s i) :
    ∀ (l : List ι) {s s' : σ}, Meets step C s l → run step s l = some s' →
      Φ s' = Φ s + runSum step f s l := by
  intro l
  induction l with
  | nil =>
    intro s s' _ h
    simp only [run_nil, Option.some.injEq] at h
    simp [runSum, h]
  | cons i l ih =>
    intro s s' hm h
    obtain ⟨s1, h1, h2⟩ := run_cons_inv h
    rw [ih (hm.2 s1 h1) h2, hstep s i s1 hm.1 h1, runSum, h1, add_assoc]

theorem runSum_sub {γ : Type w} [AddCommGroup γ] (f g : σ → ι → γ) :
    ∀ (s : σ) (l : List ι),
      runSum step (fun s i => f s i - g s i) s l = runSum step f s l - runSum step g s l := by
  intro s l
  induction l generalizing s with
  | nil => simp [runSum]
  | cons i l ih =>
    simp only [runSum]
    cases step s i with
    | none => simp
    | some s' =>
      simp only [ih]
      abel

/-- Where every step meeting `C` adds nothing, neither does the run. -/
theorem runSum_eq_zero {γ : Type w} [AddMonoid γ] {f : σ → ι → γ} {C : σ → ι → Prop}
    (hzero : ∀ s i, C s i → f s i = 0) :
    ∀ (l : List ι) {s : σ}, Meets step C s l → runSum step f s l = 0 := by
  intro l
  induction l with
  | nil => exact fun _ => rfl
  | cons i l ih =>
    intro s hm
    simp only [runSum]
    split
    · rename_i s' h
      rw [hzero s i hm.1, ih (hm.2 s' h), add_zero]
    · rfl

/-- The value the steps of a run set last, where `f` is what a step sets, if anything. -/
def latest {γ : Type w} (step : σ → ι → Option σ) (f : σ → ι → Option γ) : γ → σ → List ι → γ
  | v, _, [] => v
  | v, s, i :: l =>
    match step s i with
    | some s' => latest step f ((f s i).getD v) s' l
    | none => v

theorem latest_invariant {γ : Type w} {f : σ → ι → Option γ} {P : γ → Prop}
    (hset : ∀ s i v, f s i = some v → P v) :
    ∀ (l : List ι) {v : γ} {s : σ}, P v → P (latest step f v s l) := by
  intro l
  induction l with
  | nil => exact fun hv => hv
  | cons i l ih =>
    intro v s hv
    rw [latest]
    split
    · refine ih ?_
      cases hi : f s i with
      | none => exact hv
      | some v' => exact hset s i v' hi
    · exact hv

/-- What each step into a state of `R` sets as `f` says is, at the end of a run, what was set last.
All steps are taken from states of `R`. -/
theorem run_latest {γ : Type w} {Φ : σ → γ} {f : σ → ι → Option γ} {R : σ → Prop}
    (hfrom : ∀ s i s', step s i = some s' → R s)
    (hstep : ∀ s i s', step s i = some s' → R s' → Φ s' = (f s i).getD (Φ s)) :
    ∀ (l : List ι) {s s' : σ}, run step s l = some s' → R s' → Φ s' = latest step f (Φ s) s l := by
  intro l
  induction l with
  | nil =>
    intro s s' h _
    simp only [run_nil, Option.some.injEq] at h
    rw [latest, h]
  | cons i l ih =>
    intro s s' h hR
    obtain ⟨s1, h1, h2⟩ := run_cons_inv h
    have hR1 : R s1 := by
      cases l with
      | nil =>
        simp only [run_nil, Option.some.injEq] at h2
        exact h2 ▸ hR
      | cons j l =>
        obtain ⟨s2, h3, -⟩ := run_cons_inv h2
        exact hfrom s1 j s2 h3
    rw [latest, h1, ih h2 hR, hstep s i s1 h1 hR1]

/-- What the inputs of a kind `C` preserve, a run of such inputs preserves. -/
theorem run_invariant_of_forall {P : σ → Prop} {C : ι → Prop}
    (hstep : ∀ s i s', P s → C i → step s i = some s' → P s') :
    ∀ (l : List ι) {s s' : σ}, P s → (∀ i ∈ l, C i) → run step s l = some s' → P s' := by
  intro l s s' hs hl
  refine run_invariant_of_meets (C := fun _ i => C i) hstep l hs ?_
  clear hs
  induction l generalizing s with
  | nil => trivial
  | cons i l ih => exact ⟨hl i (by simp), fun s1 _ => ih fun j hj => hl j (by simp [hj])⟩

/-- Every `i` lowers `Φ` by one and no other input raises it. -/
theorem run_count_le [DecidableEq ι] {P : σ → Prop} {Φ : σ → Int} {i : ι}
    (hstep : ∀ s j s', P s → step s j = some s' → P s' ∧ Φ s' + (if j = i then 1 else 0) ≤ Φ s) :
    ∀ (l : List ι) {s s' : σ}, P s → run step s l = some s' → l.count i + Φ s' ≤ Φ s := by
  intro l
  induction l with
  | nil =>
    intro s s' _ h
    simp only [run_nil, Option.some.injEq] at h
    simp [h]
  | cons j l ih =>
    intro s s' hs h
    obtain ⟨s1, h1, h2⟩ := run_cons_inv h
    obtain ⟨hs1, hdrop⟩ := hstep s j s1 hs h1
    have hrest := ih hs1 h2
    rw [List.count_cons]
    by_cases hj : j = i
    · simp only [hj, beq_self_eq_true, if_true] at hdrop ⊢
      omega
    · simp only [hj, beq_iff_eq, if_false, Nat.add_zero] at hdrop ⊢
      omega

/-- Where the inputs of a kind lower `Φ` and every other raises it by at most one, those of the kind
are at most as many as `Φ` was, and the others. -/
theorem run_countP_le {P : σ → Prop} {Φ : σ → Int} {p : ι → Bool}
    (hstep : ∀ s j s', P s → step s j = some s' → P s' ∧ Φ s' + (if p j then 1 else -1) ≤ Φ s) :
    ∀ (l : List ι) {s s' : σ}, P s → run step s l = some s' →
      l.countP p + Φ s' ≤ Φ s + l.countP fun j => !p j := by
  intro l
  induction l with
  | nil =>
    intro s s' _ h
    simp only [run_nil, Option.some.injEq] at h
    simp [h]
  | cons j l ih =>
    intro s s' hs h
    obtain ⟨s1, h1, h2⟩ := run_cons_inv h
    obtain ⟨hs1, hdrop⟩ := hstep s j s1 hs h1
    have hrest := ih hs1 h2
    rw [List.countP_cons, List.countP_cons]
    cases hp : p j <;> simp only [hp] at hdrop ⊢ <;> simp at hdrop ⊢ <;> omega

end Lib
end Ebftpd
