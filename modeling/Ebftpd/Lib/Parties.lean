import Mathlib.Algebra.BigOperators.Group.Finset.Piecewise
import Mathlib.Algebra.BigOperators.Group.List.Basic
import Mathlib.Tactic.Common
import Mathlib.Tactic.Abel

/-!
# Ebftpd.Lib.Parties

A list of parties of which one at a time moves: the party at an index is replaced and the others
stay. What a step does to a fact about all parties, and to a sum over them.
-/

namespace Ebftpd
namespace Lib
namespace Parties

universe u v

variable {α : Type u}

theorem forall_set {P : α → Prop} {l : List α} (hl : ∀ x ∈ l, P x) {i : Nat} {b : α} (hb : P b) :
    ∀ x ∈ l.set i b, P x := by
  intro x hx
  rcases List.mem_or_eq_of_mem_set hx with h | rfl
  · exact hl x h
  · exact hb

/-- A sum over the parties changes by what the moving party adds to it. -/
theorem sum_map_set {β : Type v} [AddCommGroup β] (f : α → β) {l : List α} {i : Nat} {a b : α}
    (h : l[i]? = some a) : ((l.set i b).map f).sum = (l.map f).sum - f a + f b := by
  induction l generalizing i with
  | nil => simp at h
  | cons x l ih =>
    cases i with
    | zero =>
      simp only [List.getElem?_cons_zero, Option.some.injEq] at h
      subst h
      simp only [List.set_cons_zero, List.map_cons, List.sum_cons]
      abel
    | succ i =>
      simp only [List.getElem?_cons_succ] at h
      simp only [List.set_cons_succ, List.map_cons, List.sum_cons, ih h]
      abel

/-- The number of parties of a kind changes by whether the moving party is of it. -/
theorem countP_set (p : α → Bool) {l : List α} {i : Nat} {a b : α} (h : l[i]? = some a) :
    (l.set i b).countP p + (if p a then 1 else 0) = l.countP p + (if p b then 1 else 0) := by
  induction l generalizing i with
  | nil => simp at h
  | cons x l ih =>
    cases i with
    | zero =>
      simp only [List.getElem?_cons_zero, Option.some.injEq] at h
      subst h
      simp only [List.set_cons_zero, List.countP_cons]
      omega
    | succ i =>
      simp only [List.getElem?_cons_succ] at h
      have := ih h
      simp only [List.set_cons_succ, List.countP_cons]
      omega

/-- The parties of a kind are counted key by key. -/
theorem sum_countP_key {β : Type v} [DecidableEq β] (p : α → Bool) (key : α → β) {l : List α}
    {U : Finset β} (hU : ∀ x ∈ l, key x ∈ U) :
    ∑ u ∈ U, l.countP (fun x => p x && key x == u) = l.countP p := by
  induction l with
  | nil => simp
  | cons x l ih =>
    have hx : key x ∈ U := hU x (by simp)
    have hone : ∑ u ∈ U, (if (p x && key x == u) = true then 1 else 0) = if p x = true then 1 else 0 := by
      cases p x with
      | false => simp
      | true => simp [hx]
    simp only [List.countP_cons, Finset.sum_add_distrib]
    rw [ih fun y hy => hU y (by simp [hy]), hone]

/-- What the step leaves unchanged in the moving party, it leaves unchanged in all. -/
theorem map_set_eq {β : Type v} (f : α → β) {l : List α} {i : Nat} {a b : α} (h : l[i]? = some a)
    (hf : f b = f a) : (l.set i b).map f = l.map f := by
  apply List.ext_getElem?
  intro j
  rw [List.getElem?_map, List.getElem?_map, List.getElem?_set]
  split
  · rename_i hij
    subst hij
    split
    · simp [h, hf]
    · rename_i hlen
      simp [List.getElem?_eq_none (by omega : l.length ≤ i)]
  · rfl

/-- What the parties hold, when the moving party gets something to hold. -/
theorem filterMap_set_perm {β : Type v} (f : α → Option β) {l : List α} {i : Nat} {a b : α} {d : β}
    (h : l[i]? = some a) (ha : f a = none) (hb : f b = some d) :
    ((l.set i b).filterMap f).Perm (l.filterMap f ++ [d]) := by
  induction l generalizing i with
  | nil => simp at h
  | cons x l ih =>
    cases i with
    | zero =>
      simp only [List.getElem?_cons_zero, Option.some.injEq] at h
      subst h
      rw [List.set_cons_zero, List.filterMap_cons_some hb, List.filterMap_cons_none ha]
      exact (List.perm_append_singleton d _).symm
    | succ i =>
      simp only [List.getElem?_cons_succ] at h
      rw [List.set_cons_succ, List.filterMap_cons, List.filterMap_cons]
      cases f x with
      | none => exact ih h
      | some y => exact (ih h).cons y

theorem filterMap_set_eq {β : Type v} (f : α → Option β) {l : List α} {i : Nat} {a b : α}
    (h : l[i]? = some a) (hf : f b = f a) : (l.set i b).filterMap f = l.filterMap f := by
  have hid : f = id ∘ f := rfl
  rw [hid, ← List.filterMap_map, ← List.filterMap_map, map_set_eq f h hf]

end Parties
end Lib
end Ebftpd
