import Mathlib.Data.Fintype.Basic
import Mathlib.Data.List.Basic
import Mathlib.Logic.Function.Basic
import Mathlib.Tactic.Common

/-!
# Ebftpd.Lib.Deferred

A store that several writers set keys of. Each has a queue of writes that are still to be performed. A key is
settled where only one queue has writes of it: what the store will hold is what that queue makes of it.

* `Settles.perform`: performing a write changes nothing that is settled.
* `Settles.post`: who comes alone to a key settles it anew.
* `Settles.held`: a key that no queue has a write of is held as it is settled.
-/

namespace Ebftpd
namespace Lib
namespace Deferred

universe u v w x

variable {σ : Type u} {κ : Type v} {ω : Type w} {ι : Type x} [DecidableEq κ]

/-- Writes to a store, of one key each. -/
structure Writing (σ : Type u) (κ : Type v) (ω : Type w) [DecidableEq κ] where
  holds : σ → κ → Bool
  perform : ω → σ → σ
  key : ω → κ
  sets : ω → Bool
  holds_perform : ∀ w s k, holds (perform w s) k = if key w = k then sets w else holds s k

namespace Writing

variable (W : Writing σ κ ω)

/-- What some writes make of a key. -/
def after (k : κ) (ws : List ω) (b : Bool) : Bool := ws.foldl (fun b w => if W.key w = k then W.sets w else b) b

/-- No other queue has a write of the key. -/
def Alone (queues : ι → List ω) (i : ι) (k : κ) : Prop := ∀ j, j ≠ i → ∀ w ∈ queues j, W.key w ≠ k

def Quiet (queues : ι → List ω) (k : κ) : Prop := ∀ i, ∀ w ∈ queues i, W.key w ≠ k

instance [Fintype ι] (queues : ι → List ω) (k : κ) : Decidable (W.Quiet queues k) :=
  inferInstanceAs (Decidable (∀ i, ∀ w ∈ queues i, W.key w ≠ k))

instance [Fintype ι] [DecidableEq ι] (queues : ι → List ω) (i : ι) (k : κ) : Decidable (W.Alone queues i k) :=
  inferInstanceAs (Decidable (∀ j, j ≠ i → ∀ w ∈ queues j, W.key w ≠ k))

def Settles (s : σ) (queues : ι → List ω) (k : κ) (b : Bool) : Prop :=
  ∃ i, W.Alone queues i k ∧ W.after k (queues i) (W.holds s k) = b

variable {W} {s : σ} {queues : ι → List ω} {k : κ} {b : Bool} {w : ω} {ws ws' : List ω} {i j : ι}

theorem after_append : W.after k (ws ++ ws') b = W.after k ws' (W.after k ws b) := by
  rw [after, List.foldl_append]
  rfl

theorem after_cons : W.after k (w :: ws) b = W.after k ws (if W.key w = k then W.sets w else b) := rfl

theorem after_of_ne (h : ∀ w ∈ ws, W.key w ≠ k) : W.after k ws b = b := by
  induction ws with
  | nil => rfl
  | cons w ws ih =>
    rw [after_cons, if_neg (h w List.mem_cons_self)]
    exact ih fun w' hw' => h w' (List.mem_cons_of_mem _ hw')

theorem Quiet.alone (h : W.Quiet queues k) (i : ι) : W.Alone queues i k := fun j _ => h j

/-- Whoever is alone with a key is who settles it. -/
theorem Settles.after_eq (h : W.Settles s queues k b) (halone : W.Alone queues j k) :
    W.after k (queues j) (W.holds s k) = b := by
  obtain ⟨i, hi, rfl⟩ := h
  by_cases hij : i = j
  · rw [hij]
  · rw [after_of_ne (hi j (Ne.symm hij)), after_of_ne (halone i hij)]

theorem Settles.held (h : W.Settles s queues k b) (hquiet : W.Quiet queues k) : W.holds s k = b := by
  obtain ⟨i, -, rfl⟩ := h
  rw [after_of_ne (hquiet i)]

theorem settles_nil [Inhabited ι] (s : σ) (k : κ) : W.Settles s (fun _ : ι => []) k (W.holds s k) :=
  ⟨default, fun _ _ _ hw => absurd hw List.not_mem_nil, rfl⟩

variable [DecidableEq ι]

theorem Alone.update (h : W.Alone queues i k) (hws : j ≠ i → ∀ w ∈ ws, W.key w ≠ k) :
    W.Alone (Function.update queues j ws) i k := by
  intro l hl
  by_cases hlj : l = j
  · subst hlj
    rw [Function.update_self]
    exact hws hl
  · rw [Function.update_of_ne hlj]
    exact h l hl

/-- The first write of a queue is performed. -/
theorem Settles.perform (h : W.Settles s queues k b) (hj : queues j = w :: ws) :
    W.Settles (W.perform w s) (Function.update queues j ws) k b := by
  obtain ⟨i, hi, rfl⟩ := h
  have hshorter : j ≠ i → ∀ w' ∈ ws, W.key w' ≠ k := by
    intro hji w' hw'
    refine hi j hji w' ?_
    rw [hj]
    exact List.mem_cons_of_mem _ hw'
  refine ⟨i, hi.update hshorter, ?_⟩
  rw [W.holds_perform]
  by_cases hij : i = j
  · subst hij
    rw [Function.update_self, hj, after_cons]
  · have hkey : W.key w ≠ k := by
      refine hi j (Ne.symm hij) w ?_
      rw [hj]
      exact List.mem_cons_self
    rw [Function.update_of_ne hij, if_neg hkey]

/-- Some writes come to the end of a queue, of keys that no other queue has writes of. -/
theorem Settles.post (h : W.Settles s queues k b) (halone : ∀ w ∈ ws, W.key w = k → W.Alone queues j k) :
    W.Settles s (Function.update queues j (queues j ++ ws)) k (W.after k ws b) := by
  by_cases hkey : ∃ w ∈ ws, W.key w = k
  · obtain ⟨w, hw, hwk⟩ := hkey
    have hj := halone w hw hwk
    refine ⟨j, hj.update fun hne => absurd rfl hne, ?_⟩
    rw [Function.update_self, after_append, h.after_eq hj]
  · have hne : ∀ w ∈ ws, W.key w ≠ k := fun w hw hwk => hkey ⟨w, hw, hwk⟩
    obtain ⟨i, hi, rfl⟩ := h
    rw [after_of_ne hne]
    refine ⟨i, hi.update ?_, ?_⟩
    · intro hji w hw
      rcases List.mem_append.mp hw with hw | hw
      · exact hi j hji w hw
      · exact hne w hw
    · by_cases hij : i = j
      · subst hij
        rw [Function.update_self, after_append, after_of_ne hne]
      · rw [Function.update_of_ne hij]

end Writing
end Deferred
end Lib
end Ebftpd
