import Mathlib.Data.List.Find
import Mathlib.Tactic.Common

/-!
# Ebftpd.Lib.FirstMatch

Ordered rule lists: the first rule that matches decides, and a default where none does.

* `decision_of_find`, `decision_of_none`: what a decision is.
* `decision_agree_iff`: several readings of what matches decide alike if and only if the first rule
  any of them matches is matched by all, or has the answer the others come to further down.
-/

namespace Ebftpd
namespace Lib
namespace FirstMatch

universe u v

variable {α : Type u} {β : Type v} (d : β) (answer : α → β)

/-- The answer of the first rule that `p` matches, `d` where there is none. -/
def decision (p : α → Bool) (rules : List α) : β := ((rules.find? p).map answer).getD d

variable {d answer} {p q : α → Bool} {rules : List α} {r : α}

theorem decision_of_find (h : rules.find? p = some r) : decision d answer p rules = answer r := by
  simp [decision, h]

theorem decision_of_none (h : rules.find? p = none) : decision d answer p rules = d := by
  simp [decision, h]

theorem decision_eq_iff {b : β} :
    decision d answer p rules = b ↔
      (∀ next, rules.find? p = some next → answer next = b) ∧ (rules.find? p = none → d = b) := by
  cases h : rules.find? p with
  | none => simp [decision_of_none h]
  | some r => simp [decision_of_find h]

theorem decision_congr (h : ∀ r ∈ rules, p r = q r) :
    decision d answer p rules = decision d answer q rules := by
  rw [decision, decision, List.find?_congr h]

/-- The first rule of the wider reading is the first one of the narrower, if that matches it. -/
theorem find_of_wider (hwider : ∀ x, q x = true → p x = true) (h : rules.find? p = some r)
    (hr : q r = true) : rules.find? q = some r := by
  rw [List.find?_eq_some_iff_append] at h ⊢
  obtain ⟨-, before, behind, hrules, hbefore⟩ := h
  refine ⟨hr, before, behind, hrules, fun x hx => ?_⟩
  have hp := hbefore x hx
  cases hq : q x with
  | false => rfl
  | true => simp [hwider x hq] at hp

theorem find_none_of_wider (hwider : ∀ x, q x = true → p x = true) (h : rules.find? p = none) :
    rules.find? q = none := by
  rw [List.find?_eq_none] at h ⊢
  exact fun x hx hq => h x hx (hwider x hq)

/-- What any of several readings matches. -/
def anyOf (readings : List (α → Bool)) (x : α) : Bool := readings.any (· x)

theorem anyOf_of_mem {readings : List (α → Bool)} (hq : q ∈ readings) (x : α) (h : q x = true) :
    anyOf readings x = true :=
  List.any_eq_true.mpr ⟨q, hq, h⟩

theorem decision_agree_iff {readings : List (α → Bool)} :
    (∀ p ∈ readings, ∀ q ∈ readings, decision d answer p rules = decision d answer q rules) ↔
      ∀ r, rules.find? (anyOf readings) = some r → ∀ q ∈ readings, q r = false →
        (∀ next, rules.find? q = some next → answer next = answer r) ∧
          (rules.find? q = none → d = answer r) := by
  constructor
  · intro h r hr q hq _
    have hany : anyOf readings r = true := List.find?_some hr
    obtain ⟨p, hp, hpr⟩ := List.any_eq_true.mp hany
    have hfirst := find_of_wider (anyOf_of_mem hp) hr hpr
    have hpq := h q hq p hp
    rw [decision_of_find hfirst] at hpq
    exact decision_eq_iff.mp hpq
  · intro h p hp q hq
    cases hr : rules.find? (anyOf readings) with
    | none =>
      rw [decision_of_none (find_none_of_wider (anyOf_of_mem hp) hr),
        decision_of_none (find_none_of_wider (anyOf_of_mem hq) hr)]
    | some r =>
      have hall : ∀ p ∈ readings, decision d answer p rules = answer r := by
        intro p hp
        cases hpr : p r with
        | true => exact decision_of_find (find_of_wider (anyOf_of_mem hp) hr hpr)
        | false => exact decision_eq_iff.mpr (h r hr p hp hpr)
      rw [hall p hp, hall q hq]

end FirstMatch
end Lib
end Ebftpd
