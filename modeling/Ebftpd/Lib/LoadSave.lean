import Ebftpd.Lib.Run
import Mathlib.Data.List.Perm.Basic

/-!
# Ebftpd.Lib.LoadSave

Sessions `κ` that load a copy of a stored record, change the copy and save what they changed.
`save m u db` is the stored record `db` after a session that had loaded `u` has saved the change `m`;
`given u m` is the record that `m` is to make of `u`.

A session may save a copy that others have overtaken. Where its change does nothing to the copy, it
counts as made when the copy was loaded; otherwise it counts as made when it was saved.

* `Passes.insert`: a change that does nothing at a point of an order is put in there.
* `serial_of_meets`: where every save makes of the stored record what its change is to make of it, the
  changes end as if made one after another.
-/

namespace Ebftpd
namespace Lib
namespace LoadSave

universe u v w

variable {κ : Type u} {σ : Type v} {μ : Type w} [DecidableEq κ]

inductive Input (κ : Type u) (μ : Type w) where
  | load (k : κ)
  | change (k : κ) (m : μ)

/-- The stored record, the copies that are loaded, and the changes that are saved. -/
structure Shared (κ : Type u) (σ : Type v) (μ : Type w) where
  stored : σ
  copy : κ → Option σ
  changes : List μ

def start (stored : σ) : Shared κ σ μ := ⟨stored, fun _ => none, []⟩

def step (save : μ → σ → σ → σ) (s : Shared κ σ μ) : Input κ μ → Option (Shared κ σ μ)
  | .load k => some { s with copy := fun j => if j = k then some s.stored else s.copy j }
  | .change k m => (s.copy k).map fun u =>
      ⟨save m u s.stored, fun j => if j = k then none else s.copy j, s.changes ++ [m]⟩

/-- The stored record is what the changes make of `init` in some order. -/
def Serial (given : σ → μ → σ) (init : σ) (s : Shared κ σ μ) : Prop :=
  ∃ order : List μ, order.Perm s.changes ∧ order.foldl given init = s.stored

/-- On the way through the changes the record was once `u`. -/
def Passes (given : σ → μ → σ) (init : σ) (order : List μ) (u : σ) : Prop :=
  ∃ before after, order = before ++ after ∧ before.foldl given init = u

/-- Whether a save is one of a copy that is still `current`. -/
def Fresh (current : μ → σ → σ → Prop) (s : Shared κ σ μ) : Input κ μ → Prop
  | .load _ => True
  | .change k m => ∀ u, s.copy k = some u → current m u s.stored

instance {current : μ → σ → σ → Prop} [∀ m u db, Decidable (current m u db)] (s : Shared κ σ μ) :
    DecidablePred (Fresh current s)
  | .load _ => .isTrue trivial
  | .change k m =>
    match h : s.copy k with
    | none => .isTrue fun _ hu => nomatch h.symm.trans hu
    | some u => decidable_of_iff (current m u s.stored)
        ⟨fun hc _ hu => Option.some.inj (h.symm.trans hu) ▸ hc, fun hc => hc u h⟩

variable {given : σ → μ → σ} {save : μ → σ → σ → σ} {current : μ → σ → σ → Prop}
  {init u v : σ} {order : List μ} {m : μ}

theorem passes_end : Passes given init order (order.foldl given init) :=
  ⟨order, [], (List.append_nil _).symm, rfl⟩

theorem Passes.concat (h : Passes given init order u) : Passes given init (order ++ [m]) u := by
  obtain ⟨before, after, rfl, hu⟩ := h
  exact ⟨before, after ++ [m], by simp, hu⟩

/-- A change that does nothing to `u` may be made where the record is `u`. -/
theorem Passes.insert (h : Passes given init order u) (hm : given u m = u) :
    ∃ order', order'.Perm (m :: order) ∧ order'.foldl given init = order.foldl given init ∧
      ∀ v, Passes given init order v → Passes given init order' v := by
  obtain ⟨before, after, rfl, rfl⟩ := h
  refine ⟨before ++ m :: after, List.perm_middle, by simp [hm], ?_⟩
  rintro v ⟨before', after', hsplit, rfl⟩
  -- the point of `v` is before the change that is put in, or behind it
  rcases List.append_eq_append_iff.mp hsplit with ⟨between, rfl, rfl⟩ | ⟨between, rfl, rfl⟩
  · exact ⟨before ++ m :: between, after', by simp, by simp [hm]⟩
  · exact ⟨before', between ++ m :: after, by simp, rfl⟩

/-- The changes are in an order that passes every copy which is loaded. -/
def Ordered (given : σ → μ → σ) (init : σ) (s : Shared κ σ μ) : Prop :=
  ∃ order : List μ, order.Perm s.changes ∧ order.foldl given init = s.stored ∧
    ∀ k u, s.copy k = some u → Passes given init order u

theorem step_ordered (hsave : ∀ m u db, current m u db →
      given u m = u ∧ save m u db = db ∨ save m u db = given db m)
    {s s' : Shared κ σ μ} {i : Input κ μ} (h : Ordered given init s) (hfresh : Fresh current s i)
    (hstep : step save s i = some s') : Ordered given init s' := by
  obtain ⟨order, hperm, hstored, hcopy⟩ := h
  cases i with
  | load k =>
    cases hstep
    refine ⟨order, hperm, hstored, fun j u hj => ?_⟩
    simp only at hj
    split at hj
    · cases hj
      exact hstored ▸ passes_end
    · exact hcopy j u hj
  | change k m =>
    obtain ⟨u, hu, rfl⟩ := Option.map_eq_some_iff.mp hstep
    have hothers : ∀ j v, (if j = k then none else s.copy j) = some v → s.copy j = some v := by
      intro j v hj
      split at hj
      · cases hj
      · exact hj
    rcases hsave m u s.stored (hfresh u hu) with ⟨hidle, hsame⟩ | hgiven
    · obtain ⟨order', hperm', hend, hpass⟩ := (hcopy k u hu).insert hidle
      refine ⟨order', ?_, ?_, fun j v hj => hpass v (hcopy j v (hothers j v hj))⟩
      · exact hperm'.trans ((hperm.cons m).trans (List.perm_append_singleton m s.changes).symm)
      · rw [hend, hstored]
        exact hsame.symm
    · refine ⟨order ++ [m], hperm.append_right [m], ?_, fun j v hj => (hcopy j v (hothers j v hj)).concat⟩
      rw [List.foldl_append, hstored]
      exact hgiven.symm

/-- Where a save of a current copy has done nothing to the copy and the stored record, or makes of the
stored record what it is to, a run of such saves ends as one in which the changes are made in turn. -/
theorem serial_of_meets (hsave : ∀ m u db, current m u db →
      given u m = u ∧ save m u db = db ∨ save m u db = given db m)
    (l : List (Input κ μ)) {s : Shared κ σ μ} (hmeets : Meets (step save) (Fresh current) (start init) l)
    (hrun : run (step save) (start init) l = some s) : Serial given init s := by
  have hstart : Ordered given init (start init : Shared κ σ μ) :=
    ⟨[], .nil, rfl, fun _ _ h => by cases h⟩
  obtain ⟨order, hperm, hstored, -⟩ := run_invariant_of_meets
    (fun s i s' h hfresh hstep => step_ordered hsave h hfresh hstep) l hstart hmeets hrun
  exact ⟨order, hperm, hstored⟩

end LoadSave
end Lib
end Ebftpd
