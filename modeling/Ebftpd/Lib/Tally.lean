import Mathlib.Algebra.BigOperators.Group.List.Basic
import Mathlib.Algebra.Group.Basic
import Mathlib.Data.List.AList
import Mathlib.Tactic.Abel
import Mathlib.Tactic.Common

/-!
# Ebftpd.Lib.Tally

Sums over the entries of a finite map. Writing or erasing one key changes the sum by what is under
that key before and behind it.

* `tallyAt g s k`: what the entry of `k` adds to the sum, zero where there is none.
* `tally_erase`, `tally_insert`: the sum after a key was erased or written. `sum_map_changed`: the same over rows that
  carry their keys.
-/

namespace Ebftpd
namespace Lib

universe u v w

variable {κ : Type u} {β : Type v} {γ : Type w} [AddCommGroup γ]

/-- The sum of `g` over the entries. -/
def tally (g : κ → β → γ) (s : AList fun _ : κ => β) : γ :=
  (s.entries.map fun e => g e.1 e.2).sum

variable [DecidableEq κ]

/-- What the entry of a key adds to the sum. -/
def tallyAt (g : κ → β → γ) (s : AList fun _ : κ => β) (k : κ) : γ :=
  match s.lookup k with
  | some v => g k v
  | none => 0

theorem sum_kerase (g : κ → β → γ) (k : κ) (l : List (Sigma fun _ : κ => β)) :
    ((l.kerase k).map fun e => g e.1 e.2).sum =
      (l.map fun e => g e.1 e.2).sum - ((l.dlookup k).map (g k)).getD 0 := by
  induction l with
  | nil => simp
  | cons e l ih =>
    by_cases hk : k = e.1
    · obtain ⟨k', v⟩ := e
      subst hk
      have hkerase : (Sigma.mk k v :: l).kerase k = l := List.kerase_cons_eq rfl
      rw [hkerase, List.dlookup_cons_eq]
      simp
    · rw [List.kerase_cons_ne hk, List.dlookup_cons_ne _ _ hk, List.map_cons, List.sum_cons, ih,
        List.map_cons, List.sum_cons]
      abel

theorem tallyAt_eq (g : κ → β → γ) (s : AList fun _ : κ => β) (k : κ) :
    tallyAt g s k = ((s.lookup k).map (g k)).getD 0 := by
  unfold tallyAt
  cases s.lookup k with
  | none => rfl
  | some v => rfl

theorem tally_erase (g : κ → β → γ) (s : AList fun _ : κ => β) (k : κ) :
    tally g (s.erase k) = tally g s - tallyAt g s k := by
  rw [tallyAt_eq]
  exact sum_kerase g k s.entries

theorem tally_insert (g : κ → β → γ) (s : AList fun _ : κ => β) (k : κ) (v : β) :
    tally g (s.insert k v) = tally g s - tallyAt g s k + g k v := by
  have herase : tally g (s.erase k) = ((s.entries.kerase k).map fun e => g e.1 e.2).sum := rfl
  rw [← tally_erase, herase, tally, AList.entries_insert, List.map_cons, List.sum_cons]
  abel

/-- The sum over rows of which the one with a key was changed. -/
theorem sum_map_changed {ρ : Type w} (key : ρ → κ) {rows : List ρ} (hkeys : (rows.map key).Nodup) {r : ρ}
    (hr : r ∈ rows) (f : ρ → ρ) (g : ρ → γ) :
    ((rows.map fun x => if key x = key r then f x else x).map g).sum = (rows.map g).sum - g r + g (f r) := by
  induction rows with
  | nil => cases hr
  | cons x rows ih =>
    rw [List.map_cons, List.nodup_cons] at hkeys
    obtain ⟨hnot, hkeys⟩ := hkeys
    rw [List.map_cons, List.map_cons, List.map_cons, List.sum_cons, List.sum_cons]
    rcases List.mem_cons.mp hr with rfl | hr
    · have hrest : (rows.map fun x => if key x = key r then f x else x) = rows := by
        refine (List.map_congr_left fun y hy => if_neg fun hkey => ?_).trans (List.map_id' rows)
        exact hnot (hkey ▸ List.mem_map_of_mem hy)
      rw [hrest, if_pos rfl]
      abel
    · have hne : key x ≠ key r := fun hkey => hnot (hkey ▸ List.mem_map_of_mem hr)
      rw [ih hkeys hr, if_neg hne]
      abel

end Lib
end Ebftpd
