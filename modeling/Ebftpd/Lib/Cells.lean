import Mathlib.Algebra.BigOperators.Group.List.Basic
import Mathlib.Algebra.Group.Basic
import Mathlib.Data.List.Nodup
import Mathlib.Tactic.Common

/-!
# Ebftpd.Lib.Cells

A list of cells, each a key and a value, updated the way a document store updates an array: the
first cell that matches a query is changed in place, or a new cell is put behind the others.

* `value l k`: the value under a key, zero where there is none.
* `Distinct l`: no two cells have the same key.
* `addFirst p d l`: adds `d` to the first cell that `p` accepts; `none` when there is none.
* `addFirst_value`: where `p` accepts cells of one key only, this adds `d` to the value of that key
  and leaves the others; `addFirst_isSome_iff` says when it happens.
* `upsert k d l`: adds `d` to the first cell of the key `k`, or puts a new cell behind the others;
  `total_upsert` is what it does to a sum over the cells, `value_upsert` to the values.
-/

namespace Ebftpd
namespace Lib
namespace Cells

universe u v w

variable {κ : Type u} {β : Type v}

def keys (l : List (κ × β)) : List κ := l.map Prod.fst

def Distinct (l : List (κ × β)) : Prop := (keys l).Nodup

def value [DecidableEq κ] [Zero β] (l : List (κ × β)) (k : κ) : β := (l.lookup k).getD 0

def addFirst [Add β] (p : κ × β → Bool) (d : β) : List (κ × β) → Option (List (κ × β))
  | [] => none
  | e :: l => if p e then some ((e.1, e.2 + d) :: l) else (addFirst p d l).map (e :: ·)

theorem distinct_concat {l : List (κ × β)} (hl : Distinct l) {k : κ} (h : k ∉ keys l) (v : β) :
    Distinct (l ++ [(k, v)]) := by
  simp only [Distinct, keys, List.map_append, List.map_cons, List.map_nil] at *
  rw [List.nodup_append]
  refine ⟨hl, by simp, ?_⟩
  intro a ha b hb hab
  rw [List.mem_singleton] at hb
  exact h (hb ▸ hab ▸ ha)

theorem addFirst_keys [Add β] {p : κ × β → Bool} {d : β} {l l' : List (κ × β)}
    (h : addFirst p d l = some l') : keys l' = keys l := by
  induction l generalizing l' with
  | nil => cases h
  | cons e l ih =>
    simp only [addFirst] at h
    split at h
    · cases h; rfl
    · obtain ⟨m, hm, rfl⟩ := Option.map_eq_some_iff.mp h
      simp only [keys, List.map_cons] at ih ⊢
      rw [ih hm]

theorem addFirst_eq_none [Add β] {p : κ × β → Bool} {d : β} {l : List (κ × β)} :
    addFirst p d l = none ↔ ∀ e ∈ l, p e = false := by
  induction l with
  | nil => simp [addFirst]
  | cons e l ih =>
    simp only [addFirst]
    by_cases he : p e = true
    · simp [he]
    · simp [he, ih]

section Value

variable [DecidableEq κ] [Zero β]

theorem value_cons (e : κ × β) (l : List (κ × β)) (k : κ) :
    value (e :: l) k = if k = e.1 then e.2 else value l k := by
  obtain ⟨k', v⟩ := e
  simp only [value, List.lookup_cons]
  by_cases h : k = k'
  · simp [h]
  · simp [h, beq_eq_false_iff_ne.mpr h]

theorem value_of_not_mem {l : List (κ × β)} {k : κ} (h : k ∉ keys l) : value l k = 0 := by
  induction l with
  | nil => rfl
  | cons e l ih =>
    simp only [keys, List.map_cons, List.mem_cons, not_or] at h
    rw [value_cons, if_neg h.1]
    exact ih h.2

theorem value_mem {l : List (κ × β)} {k : κ} (h : k ∈ keys l) : (k, value l k) ∈ l := by
  induction l with
  | nil => simp [keys] at h
  | cons e l ih =>
    rw [value_cons]
    by_cases hk : k = e.1
    · simp [hk]
    · simp only [keys, List.map_cons, List.mem_cons, hk, false_or] at h
      simp [hk, ih h]

theorem value_concat {l : List (κ × β)} {k : κ} (h : k ∉ keys l) (v : β) (j : κ) :
    value (l ++ [(k, v)]) j = if j = k then v else value l j := by
  induction l with
  | nil => simp [value_cons]
  | cons e l ih =>
    simp only [keys, List.map_cons, List.mem_cons, not_or] at h
    rw [List.cons_append, value_cons, value_cons, ih h.2]
    by_cases hj : j = e.1
    · subst hj
      simp [Ne.symm h.1]
    · simp [hj]

end Value

section OneKey

variable [DecidableEq κ] [AddMonoid β] {p : κ × β → Bool} {k : κ} (hp : ∀ e, p e = true → e.1 = k) {d : β}

include hp

theorem addFirst_value {l l' : List (κ × β)} (hl : Distinct l) (h : addFirst p d l = some l')
    (j : κ) : value l' j = value l j + if j = k then d else 0 := by
  induction l generalizing l' with
  | nil => cases h
  | cons e l ih =>
    simp only [addFirst] at h
    split at h
    · rename_i he
      cases h
      simp only [value_cons, hp e he]
      by_cases hj : j = k
      · simp [hj]
      · simp [hj]
    · obtain ⟨m, hm, rfl⟩ := Option.map_eq_some_iff.mp h
      simp only [Distinct, keys, List.map_cons, List.nodup_cons] at hl
      rw [value_cons, value_cons, ih hl.2 hm]
      by_cases hj : j = e.1
      · -- the updated cell is further on, so it has another key
        have hek : e.1 ≠ k := by
          intro hek
          have hnone : addFirst p d l = none := by
            rw [addFirst_eq_none]
            intro x hx
            by_contra hpx
            rw [Bool.not_eq_false] at hpx
            exact hl.1 (List.mem_map.mpr ⟨x, hx, (hp x hpx).trans hek.symm⟩)
          rw [hnone] at hm
          cases hm
        simp [hj, hek]
      · simp [hj]

theorem addFirst_isSome_iff {l : List (κ × β)} (hl : Distinct l) :
    (∃ l', addFirst p d l = some l') ↔ k ∈ keys l ∧ p (k, value l k) = true := by
  constructor
  · rintro ⟨l', h⟩
    have hne : ¬ ∀ e ∈ l, p e = false := by
      intro hall
      rw [addFirst_eq_none.mpr hall] at h
      cases h
    simp only [not_forall, Bool.not_eq_false] at hne
    obtain ⟨e, he, hpe⟩ := hne
    obtain rfl := hp e hpe
    have hmem : e.1 ∈ keys l := List.mem_map_of_mem he
    -- with distinct keys the value under the key is the value of the cell
    have hcell : (e.1, value l e.1) = e :=
      List.inj_on_of_nodup_map hl (value_mem hmem) he rfl
    exact ⟨hmem, hcell ▸ hpe⟩
  · rintro ⟨hk, hpk⟩
    by_contra hno
    rw [not_exists] at hno
    have hnone := Option.eq_none_iff_forall_ne_some.mpr hno
    rw [addFirst_eq_none.mp hnone _ (value_mem hk)] at hpk
    cases hpk

end OneKey

section Key

variable {p : κ × β → Bool} {k : κ} (hp : ∀ e, p e = true ↔ e.1 = k) {d : β}

include hp

/-- A query for the key alone finds the cell the value is read from, whatever other cells there
are. -/
theorem addFirst_key_value [DecidableEq κ] [AddMonoid β] {l l' : List (κ × β)}
    (h : addFirst p d l = some l') (j : κ) : value l' j = value l j + if j = k then d else 0 := by
  induction l generalizing l' with
  | nil => cases h
  | cons e l ih =>
    simp only [addFirst] at h
    split at h
    · rename_i he
      cases h
      rw [value_cons, value_cons, (hp e).mp he]
      by_cases hj : j = k
      · simp [hj]
      · simp [hj]
    · rename_i he
      obtain ⟨m, hm, rfl⟩ := Option.map_eq_some_iff.mp h
      rw [value_cons, value_cons, ih hm]
      by_cases hj : j = e.1
      · have hjk : j ≠ k := fun hjk => he ((hp e).mpr (hj.symm.trans hjk))
        rw [if_pos hj, if_pos hj, if_neg hjk, add_zero]
      · rw [if_neg hj, if_neg hj]

theorem addFirst_key_eq_none [Add β] {l : List (κ × β)} : addFirst p d l = none ↔ k ∉ keys l := by
  simp only [addFirst_eq_none, keys, List.mem_map, not_exists, not_and, ← hp, Bool.not_eq_true]

end Key

section Upsert

variable [DecidableEq κ] [Add β]

def upsert (k : κ) (d : β) (l : List (κ × β)) : List (κ × β) :=
  (addFirst (fun e => decide (e.1 = k)) d l).getD (l ++ [(k, d)])

/-- The sum of `g` over the cells whose key `p` accepts. -/
def total {γ : Type w} [AddMonoid γ] (p : κ → Bool) (g : β → γ) (l : List (κ × β)) : γ :=
  (l.map fun e => if p e.1 then g e.2 else 0).sum

variable {γ : Type w} [AddCommMonoid γ]

theorem total_addFirst (p : κ → Bool) {g : β → γ} (hg : ∀ a b, g (a + b) = g a + g b) {k : κ} {d : β}
    {l l' : List (κ × β)} (h : addFirst (fun e => decide (e.1 = k)) d l = some l') :
    total p g l' = total p g l + if p k then g d else 0 := by
  induction l generalizing l' with
  | nil => cases h
  | cons e l ih =>
    simp only [addFirst] at h
    split at h
    · rename_i he
      cases h
      simp only [total, List.map_cons, List.sum_cons, of_decide_eq_true he]
      by_cases hp : p k = true
      · simp only [hp, if_true, hg]
        rw [add_right_comm]
      · simp only [hp, if_false, add_zero, Bool.false_eq_true]
    · obtain ⟨m, hm, rfl⟩ := Option.map_eq_some_iff.mp h
      have hrest := ih hm
      simp only [total, List.map_cons, List.sum_cons] at hrest ⊢
      rw [hrest, add_assoc]

omit [AddCommMonoid γ] in
theorem forall_addFirst {P : κ → β → Prop} {k : κ} {d : β} (hadd : ∀ v, P k v → P k (v + d))
    {l l' : List (κ × β)} (hl : ∀ e ∈ l, P e.1 e.2)
    (h : addFirst (fun e => decide (e.1 = k)) d l = some l') : ∀ e ∈ l', P e.1 e.2 := by
  induction l generalizing l' with
  | nil => cases h
  | cons e l ih =>
    have hrest : ∀ e ∈ l, P e.1 e.2 := fun x hx => hl x (List.mem_cons_of_mem e hx)
    have he := hl e List.mem_cons_self
    simp only [addFirst] at h
    split at h
    · rename_i hkey
      cases h
      have hk : e.1 = k := of_decide_eq_true hkey
      exact List.forall_mem_cons.mpr ⟨hk ▸ hadd e.2 (hk ▸ he), hrest⟩
    · obtain ⟨m, hm, rfl⟩ := Option.map_eq_some_iff.mp h
      exact List.forall_mem_cons.mpr ⟨he, ih hrest hm⟩

theorem total_upsert (p : κ → Bool) {g : β → γ} (hg : ∀ a b, g (a + b) = g a + g b) (k : κ) (d : β)
    (l : List (κ × β)) : total p g (upsert k d l) = total p g l + if p k then g d else 0 := by
  unfold upsert
  cases h : addFirst (fun e => decide (e.1 = k)) d l with
  | some l' => exact total_addFirst p hg h
  | none => simp [total]

omit [AddCommMonoid γ] in
/-- What holds of the cells and of what is put in holds of the cells behind it. -/
theorem forall_upsert {P : κ → β → Prop} {k : κ} {d : β} (hd : P k d)
    (hadd : ∀ v, P k v → P k (v + d)) {l : List (κ × β)} (hl : ∀ e ∈ l, P e.1 e.2) :
    ∀ e ∈ upsert k d l, P e.1 e.2 := by
  unfold upsert
  cases h : addFirst (fun e => decide (e.1 = k)) d l with
  | some l' => exact forall_addFirst hadd hl h
  | none =>
    intro e he
    rcases List.mem_append.mp he with hold | hnew
    · exact hl e hold
    · rw [List.mem_singleton.mp hnew]
      exact hd

omit [AddCommMonoid γ] in
theorem mem_keys_upsert {j k : κ} (d : β) (l : List (κ × β)) : j ∈ keys (upsert k d l) ↔ j = k ∨ j ∈ keys l := by
  unfold upsert
  cases h : addFirst (fun e => decide (e.1 = k)) d l with
  | some l' =>
    have hk : k ∈ keys l := by
      by_contra hno
      rw [(addFirst_key_eq_none fun e => decide_eq_true_iff).mpr hno] at h
      cases h
    rw [Option.getD_some, addFirst_keys h]
    exact ⟨.inr, fun hj => hj.elim (fun hj => hj ▸ hk) id⟩
  | none =>
    rw [Option.getD_none, keys, List.map_append, List.mem_append, or_comm]
    simp [keys]

omit [AddCommMonoid γ] in
theorem distinct_upsert {l : List (κ × β)} (hl : Distinct l) (k : κ) (d : β) : Distinct (upsert k d l) := by
  unfold upsert
  cases h : addFirst (fun e => decide (e.1 = k)) d l with
  | some l' =>
    rw [Option.getD_some, Distinct, addFirst_keys h]
    exact hl
  | none => exact distinct_concat hl ((addFirst_key_eq_none fun e => decide_eq_true_iff).mp h) d

end Upsert

theorem value_upsert [DecidableEq κ] [AddMonoid β] (k : κ) (d : β) (l : List (κ × β)) (j : κ) :
    value (upsert k d l) j = value l j + if j = k then d else 0 := by
  unfold upsert
  cases h : addFirst (fun e => decide (e.1 = k)) d l with
  | some l' => exact addFirst_key_value (fun e => decide_eq_true_iff) h j
  | none =>
    have hk : k ∉ keys l := (addFirst_key_eq_none fun e => decide_eq_true_iff).mp h
    rw [Option.getD_none, value_concat hk]
    by_cases hj : j = k
    · rw [if_pos hj, if_pos hj, hj, value_of_not_mem hk, zero_add]
    · rw [if_neg hj, if_neg hj, add_zero]

/-- The value under a key, by whichever equality test. -/
theorem value_eq_lookup [BEq κ] [LawfulBEq κ] [DecidableEq κ] [Zero β] (l : List (κ × β)) (k : κ) :
    value l k = (l.lookup k).getD 0 := by
  induction l with
  | nil => rfl
  | cons e l ih =>
    rw [value_cons, List.lookup_cons]
    by_cases hk : k = e.1
    · simp [hk]
    · simp [hk, beq_eq_false_iff_ne.mpr hk, ih]

theorem lookup_of_mem [BEq κ] [LawfulBEq κ] {l : List (κ × β)} (hl : Distinct l) {e : κ × β}
    (h : e ∈ l) : l.lookup e.1 = some e.2 := by
  induction l with
  | nil => cases h
  | cons x l ih =>
    simp only [Distinct, keys, List.map_cons, List.nodup_cons] at hl
    rw [List.lookup_cons]
    rcases List.mem_cons.mp h with rfl | h
    · simp
    · have hne : e.1 ≠ x.1 := fun heq => hl.1 (heq ▸ List.mem_map_of_mem h)
      simp [beq_eq_false_iff_ne.mpr hne, ih hl.2 h]

theorem lookup_of_not_mem [BEq κ] [LawfulBEq κ] {l : List (κ × β)} {k : κ} (h : k ∉ keys l) :
    l.lookup k = none := by
  rw [List.lookup_eq_none_iff]
  intro e he
  rw [bne_iff_ne]
  rintro rfl
  exact h (List.mem_map_of_mem he)

section Fold

variable [BEq κ] [LawfulBEq κ] [DecidableEq κ] {σ : Type w} {γ : Type*} [AddMonoid γ]

/-- A fold over cells of distinct keys moves a measure that only the cell of one key moves. -/
theorem foldl_lookup {f : σ → κ × β → σ} {m : σ → γ} {k : κ} {d : β → γ}
    (hf : ∀ s e, m (f s e) = m s + if e.1 = k then d e.2 else 0) :
    ∀ (l : List (κ × β)) (s : σ), Distinct l →
      m (l.foldl f s) = m s + ((l.lookup k).map d).getD 0 := by
  intro l
  induction l with
  | nil => simp
  | cons e l ih =>
    intro s hl
    simp only [Distinct, keys, List.map_cons, List.nodup_cons] at hl
    rw [List.foldl_cons, ih _ hl.2, hf, List.lookup_cons]
    by_cases hk : e.1 = k
    · -- the key is not in the rest of the list
      have hnone : l.lookup k = none := lookup_of_not_mem (hk ▸ hl.1)
      simp [hk, hnone]
    · simp [hk, beq_eq_false_iff_ne.mpr (Ne.symm hk)]

end Fold

end Cells
end Lib
end Ebftpd
