import Mathlib.Data.List.Basic
import Mathlib.Data.Nat.ModEq
import Mathlib.Tactic.Common

/-!
# Ebftpd.Lib.Ring

A log kept in a ring of cells. Entry `k` of the log is put into cell `k % n` of `n` cells; the
entries before `r` have been taken out again.

`Holds full free cells log r`: a cell that belongs to an entry still to be taken is `full` of it,
and every other cell is `free`. What a full or a free cell is, is a parameter; a free cell may
still hold what was taken from it.

* `slot_inj`: within one revolution, different entries have different cells.
* `slot_succ`: going to the next cell by wrapping at the end.
* `Holds.room`, `Holds.pending`: what a cell that is free, or not free, says about the log.
* `Holds.touch`, `Holds.put`, `Holds.take`: working on the cell ahead, filling it, freeing the first.
-/

namespace Ebftpd
namespace Lib
namespace Ring

universe u v

theorem slot_inj {n r j k : Nat} (hj : r ≤ j) (hj' : j < r + n) (hk : r ≤ k) (hk' : k < r + n)
    (h : j % n = k % n) : j = k := by
  have hjk : (j - r) % n = (k - r) % n := by
    refine Nat.ModEq.add_right_cancel' r ?_
    rwa [Nat.sub_add_cancel hj, Nat.sub_add_cancel hk]
  rw [Nat.mod_eq_of_lt (by omega), Nat.mod_eq_of_lt (by omega)] at hjk
  omega

theorem slot_succ {n k : Nat} (hn : 0 < n) :
    (if k % n + 1 = n then 0 else k % n + 1) = (k + 1) % n := by
  have hlt : k % n < n := Nat.mod_lt _ hn
  rw [Nat.add_mod k 1 n]
  rcases Nat.lt_or_ge 1 n with h1 | h1
  · rw [Nat.mod_eq_of_lt h1]
    split
    · rename_i h
      rw [h, Nat.mod_self]
    · exact (Nat.mod_eq_of_lt (by omega)).symm
  · obtain rfl : n = 1 := by omega
    simp [Nat.mod_one]

variable {α : Type u} {β : Type v}

structure Holds (full : β → α → Prop) (free : α → Prop) (cells : List α) (log : List β) (r : Nat) :
    Prop where
  taken : r ≤ log.length
  fits : log.length ≤ r + cells.length
  filled : ∀ k b, r ≤ k → log[k]? = some b → ∃ a, cells[k % cells.length]? = some a ∧ full b a
  spare : ∀ k, log.length ≤ k → k < r + cells.length → ∃ a, cells[k % cells.length]? = some a ∧ free a

variable {full : β → α → Prop} {free : α → Prop} {cells : List α} {log : List β} {r : Nat}

theorem start (h : ∀ a ∈ cells, free a) : Holds full free cells [] 0 where
  taken := Nat.le_refl _
  fits := Nat.zero_le _
  filled k b _ hb := by simp at hb
  spare k _ hk := by
    have hlt : k % cells.length < cells.length := Nat.mod_lt _ (by omega)
    exact ⟨_, List.getElem?_eq_getElem hlt, h _ (List.getElem_mem hlt)⟩

theorem Holds.room (h : Holds full free cells log r) (hpos : 0 < cells.length)
    (hne : ∀ b a, full b a → ¬ free a) {a : α} (ha : cells[log.length % cells.length]? = some a)
    (hfree : free a) : log.length < r + cells.length := by
  rcases Nat.lt_or_ge log.length (r + cells.length) with hlt | hge
  · exact hlt
  · -- a full revolution: the cell ahead is that of the first entry not taken
    have hlen : log.length = r + cells.length := Nat.le_antisymm h.fits hge
    have hr : r < log.length := by omega
    obtain ⟨a', ha', hfull⟩ := h.filled r _ (Nat.le_refl r) (List.getElem?_eq_getElem hr)
    rw [hlen, Nat.add_mod_right, ha'] at ha
    cases ha
    exact absurd hfree (hne _ _ hfull)

theorem Holds.pending (h : Holds full free cells log r) {a : α}
    (ha : cells[r % cells.length]? = some a) (hnot : ¬ free a) : ∃ b, log[r]? = some b ∧ full b a := by
  have hpos : 0 < cells.length := by
    rcases Nat.eq_zero_or_pos cells.length with h0 | h0
    · rw [List.length_eq_zero_iff.mp h0] at ha
      simp at ha
    · exact h0
  rcases Nat.lt_or_ge r log.length with hlt | hge
  · obtain ⟨a', ha', hfull⟩ := h.filled r _ (Nat.le_refl r) (List.getElem?_eq_getElem hlt)
    rw [ha] at ha'
    cases ha'
    exact ⟨_, List.getElem?_eq_getElem hlt, hfull⟩
  · obtain ⟨a', ha', hfree⟩ := h.spare r hge (by omega)
    rw [ha] at ha'
    cases ha'
    exact absurd hfree hnot

/-- The entries of the ring have cells other than the one ahead. -/
theorem Holds.slot_ne (h : Holds full free cells log r) (hroom : log.length < r + cells.length) {k : Nat}
    (hk : r ≤ k) (hk' : k < r + cells.length) (hne : k ≠ log.length) :
    log.length % cells.length ≠ k % cells.length :=
  fun heq => hne (slot_inj h.taken hroom hk hk' heq).symm

/-- Work on the cell ahead that leaves it free. -/
theorem Holds.touch (h : Holds full free cells log r) (hroom : log.length < r + cells.length) {a : α}
    (hfree : free a) : Holds full free (cells.set (log.length % cells.length) a) log r where
  taken := h.taken
  fits := by
    rw [List.length_set]
    exact h.fits
  filled k b hk hb := by
    have hlt : k < log.length := (List.getElem?_eq_some_iff.mp hb).1
    rw [List.length_set, List.getElem?_set_ne (h.slot_ne hroom hk (by omega) (by omega))]
    exact h.filled k b hk hb
  spare k hk hk' := by
    rw [List.length_set] at hk' ⊢
    have := h.taken
    by_cases heq : k = log.length
    · subst heq
      exact ⟨a, by rw [List.getElem?_set_self (Nat.mod_lt _ (by omega))], hfree⟩
    · rw [List.getElem?_set_ne (h.slot_ne hroom (by omega) hk' heq)]
      exact h.spare k hk hk'

/-- The cell ahead becomes the next entry. -/
theorem Holds.put (h : Holds full free cells log r) (hroom : log.length < r + cells.length) {a : α} {b : β}
    (hfull : full b a) :
    Holds full free (cells.set (log.length % cells.length) a) (log ++ [b]) r where
  taken := by
    have := h.taken
    simp only [List.length_append, List.length_singleton]
    omega
  fits := by
    simp only [List.length_append, List.length_singleton, List.length_set]
    omega
  filled k b' hk hb := by
    rw [List.length_set]
    by_cases heq : k = log.length
    · subst heq
      have hb' : b = b' := by simpa using hb
      subst hb'
      exact ⟨a, by rw [List.getElem?_set_self (Nat.mod_lt _ (by have := h.taken; omega))], hfull⟩
    · have hlt : k < (log ++ [b]).length := (List.getElem?_eq_some_iff.mp hb).1
      simp only [List.length_append, List.length_singleton] at hlt
      rw [List.getElem?_append_left (by omega)] at hb
      rw [List.getElem?_set_ne (h.slot_ne hroom hk (by omega) heq)]
      exact h.filled k b' hk hb
  spare k hk hk' := by
    simp only [List.length_append, List.length_singleton, List.length_set] at hk hk' ⊢
    have := h.taken
    rw [List.getElem?_set_ne (h.slot_ne hroom (by omega) hk' (by omega))]
    exact h.spare k (by omega) hk'

/-- The first entry is taken and its cell freed. -/
theorem Holds.take (h : Holds full free cells log r) (hr : r < log.length) {a : α} (hfree : free a) :
    Holds full free (cells.set (r % cells.length) a) log (r + 1) where
  taken := hr
  fits := by
    have := h.fits
    rw [List.length_set]
    omega
  filled k b hk hb := by
    have hlt : k < log.length := (List.getElem?_eq_some_iff.mp hb).1
    have := h.fits
    rw [List.length_set, List.getElem?_set_ne
      (fun heq => by have := slot_inj (Nat.le_refl r) (by omega) (by omega) (by omega) heq; omega)]
    exact h.filled k b (by omega) hb
  spare k hk hk' := by
    rw [List.length_set] at hk' ⊢
    have hfits := h.fits
    by_cases heq : k = r + cells.length
    · subst heq
      exact ⟨a, by rw [Nat.add_mod_right, List.getElem?_set_self (Nat.mod_lt _ (by omega))], hfree⟩
    · rw [List.getElem?_set_ne
        (fun heq' => by have := slot_inj (Nat.le_refl r) (by omega) (by omega) (by omega) heq'; omega)]
      exact h.spare k hk (by omega)

end Ring
end Lib
end Ebftpd
