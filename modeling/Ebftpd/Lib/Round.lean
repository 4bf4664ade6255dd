import Mathlib.Data.List.Rotate
import Mathlib.Data.List.TakeWhile
import Mathlib.Tactic.Common

/-!
# Ebftpd.Lib.Round

A search among the draws from a source that goes round and round. It takes the first draw that is good, and
gives up where the first draw comes again.

* `search_eq`: the search looks at the draws in front of the return of the first one, whatever the source.
* `search_again`: where nothing is good, it ends only because the first draw comes again.
* `search_cycle`: where the source goes through a list, as many turns as the list is long are enough.
* `findSome?_round`: without duplicates the search gives up only where nothing in the list is good.
-/

namespace Ebftpd
namespace Lib
namespace Round

universe u v w

variable {σ : Type u} {α : Type v} {β : Type w}

section Cycle

/-- `n` members of a list from the `j`-th on, starting over behind the last. -/
def cycle (l : List α) (default : α) (j n : Nat) : List α :=
  (List.range n).map fun i => l.getD ((j + i) % l.length) default

variable {l : List α} {default : α} {j : Nat}

theorem cycle_length : cycle l default j l.length = l.rotate j := by
  refine List.ext_getElem (by simp [cycle]) fun i h1 h2 => ?_
  have hi : i < l.length := by simpa [cycle] using h1
  have hmod : (j + i) % l.length < l.length := Nat.mod_lt _ (by omega)
  rw [List.getElem_rotate]
  simp only [cycle, List.getElem_map, List.getElem_range, List.getD_eq_getElem?_getD,
    List.getElem?_eq_getElem hmod, Option.getD_some, Nat.add_comm i j]

theorem cycle_add (m n : Nat) : cycle l default j (m + n) = cycle l default j m ++ cycle l default (j + m) n := by
  unfold cycle
  rw [List.range_add, List.map_append, List.map_map]
  congr 1
  refine List.map_congr_left fun i _ => ?_
  rw [Function.comp, Nat.add_assoc]

theorem cycle_succ (n : Nat) : cycle l default j (n + 1) =
    l.getD (j % l.length) default :: cycle l default (j + 1) n := by
  rw [Nat.add_comm, cycle_add]
  rfl

theorem mem_of_mem_cycle (hne : l ≠ []) {a : α} {n : Nat} (h : a ∈ cycle l default j n) : a ∈ l := by
  obtain ⟨i, -, rfl⟩ := List.mem_map.mp h
  have hmod : (j + i) % l.length < l.length := Nat.mod_lt _ (List.length_pos_iff.mpr hne)
  rw [List.getD_eq_getElem?_getD, List.getElem?_eq_getElem hmod, Option.getD_some]
  exact List.getElem_mem hmod

end Cycle

section Draws

variable (next : σ → α × σ)

def draws : Nat → σ → List α
  | 0, _ => []
  | n + 1, s => (next s).1 :: draws n (next s).2

variable {next} {s : σ}

theorem mem_draws_of_le {a : α} {m n : Nat} (hle : m ≤ n) (h : a ∈ draws next m s) : a ∈ draws next n s := by
  induction m generalizing n s with
  | zero => exact absurd h List.not_mem_nil
  | succ m ih =>
    obtain ⟨n, rfl⟩ := Nat.exists_eq_succ_of_ne_zero (Nat.ne_of_gt (Nat.zero_lt_of_lt hle))
    obtain rfl | h := List.mem_cons.mp h
    · exact List.mem_cons_self
    · exact List.mem_cons_of_mem _ (ih (Nat.le_of_succ_le_succ hle) h)

end Draws

section Search

variable [DecidableEq α] (next : σ → α × σ) (judge : α → Option β)

/-- The turns behind the first draw, cut off after `fuel` of them. -/
def searchFrom (first : α) : Nat → σ → Option (Option β × σ)
  | 0, _ => none
  | fuel + 1, s =>
    let (a, s) := next s
    if a = first then some (none, s)
    else
      match judge a with
      | some b => some (some b, s)
      | none => searchFrom first fuel s

def search (fuel : Nat) (s : σ) : Option (Option β × σ) :=
  let (first, s) := next s
  match judge first with
  | some b => some (some b, s)
  | none => searchFrom next judge first fuel s

end Search

variable [DecidableEq α]

/-- A list up to where its head comes again. -/
def round : List α → List α
  | [] => []
  | a :: l => a :: l.takeWhile (· ≠ a)

variable {next : σ → α × σ} {judge : α → Option β} {l : List α} {default : α} {s : σ} {j : Nat}

theorem searchFrom_eq {first : α} {fuel : Nat} (h : first ∈ draws next fuel s) :
    ∃ s', searchFrom next judge first fuel s =
      some (((draws next fuel s).takeWhile (· ≠ first)).findSome? judge, s') := by
  induction fuel generalizing s with
  | zero => exact absurd h List.not_mem_nil
  | succ fuel ih =>
    rw [searchFrom, draws]
    dsimp only
    by_cases hfirst : (next s).1 = first
    · rw [if_pos hfirst, List.takeWhile_cons_of_neg (by simpa using hfirst)]
      exact ⟨_, rfl⟩
    · rw [if_neg hfirst, List.takeWhile_cons_of_pos (by simpa using hfirst), List.findSome?_cons]
      cases judge (next s).1 with
      | some b => exact ⟨_, rfl⟩
      | none =>
        obtain h | h := List.mem_cons.mp h
        · exact absurd h.symm hfirst
        · exact ih h

/-- Whatever is drawn, the search ends where the first draw comes again, and looks at what is in front. -/
theorem search_eq (judge : α → Option β) {fuel : Nat} (h : (next s).1 ∈ draws next fuel (next s).2) :
    ∃ s', search next judge fuel s = some ((round (draws next (fuel + 1) s)).findSome? judge, s') := by
  unfold search
  rw [draws, round, List.findSome?_cons]
  dsimp only
  cases judge (next s).1 with
  | some b => exact ⟨_, rfl⟩
  | none => exact searchFrom_eq h

theorem searchFrom_none {first : α} {fuel : Nat} (h : first ∉ draws next fuel s) :
    searchFrom next (fun _ => (none : Option β)) first fuel s = none := by
  induction fuel generalizing s with
  | zero => rfl
  | succ fuel ih =>
    have hfirst : (next s).1 ≠ first := fun heq => h (heq ▸ List.mem_cons_self)
    rw [searchFrom]
    dsimp only
    rw [if_neg hfirst]
    exact ih fun hmem => h (List.mem_cons_of_mem _ hmem)

/-- Where nothing is good the search ends only because the first draw comes again. -/
theorem search_again {fuel : Nat} {r : Option β × σ} (h : search next (fun _ => none) fuel s = some r) :
    (next s).1 ∈ draws next fuel (next s).2 := by
  by_contra hnot
  have hnone : search next (fun _ => (none : Option β)) fuel s = none := searchFrom_none hnot
  rw [hnone] at h
  cases h

/-! ## Lists -/

theorem round_of_nodup (h : l.Nodup) : round l = l := by
  cases l with
  | nil => rfl
  | cons a l =>
    rw [round, List.takeWhile_eq_self_iff.mpr]
    intro b hb
    have hne : b ≠ a := by
      rintro rfl
      exact (List.nodup_cons.mp h).1 hb
    simpa using hne

/-- Nothing behind the return of the head is looked at. -/
theorem round_append {a : α} (hhead : l.head? = some a) (back : List α) : round (l ++ a :: back) = round l := by
  cases l with
  | nil => cases hhead
  | cons b l =>
    cases hhead
    rw [List.cons_append, round, round]
    congr 1
    induction l with
    | nil => simp
    | cons c l ih =>
      by_cases hc : c = a
      · simp [hc]
      · simp only [List.cons_append, List.takeWhile_cons, hc, ne_eq, not_false_eq_true, decide_true, if_true]
        rw [ih]

theorem mem_round {a : α} (h : a ∈ round l) : a ∈ l := by
  cases l with
  | nil => exact h
  | cons b l =>
    obtain rfl | h := List.mem_cons.mp h
    · exact List.mem_cons_self
    · exact List.mem_cons_of_mem _ ((List.takeWhile_sublist _).subset h)

theorem findSome?_round (h : l.Nodup) (j : Nat) :
    (round (l.rotate j)).findSome? judge = none ↔ ∀ a ∈ l, judge a = none := by
  rw [round_of_nodup (List.nodup_rotate.mpr h), List.findSome?_eq_none_iff]
  exact ⟨fun hnone a ha => hnone a (List.mem_rotate.mpr ha), fun hnone a ha => hnone a (List.mem_rotate.mp ha)⟩

/-- A source that goes through a list. -/
theorem search_cycle (judge : α → Option β) (hne : l ≠ []) (hdraws : ∀ m, draws next m s = cycle l default j m) {fuel : Nat}
    (hfuel : l.length ≤ fuel) :
    ∃ s', search next judge fuel s = some ((round (l.rotate j)).findSome? judge, s') := by
  have hpos : 0 < l.length := List.length_pos_iff.mpr hne
  obtain ⟨n, hn⟩ : ∃ n, fuel + 1 = l.length + (n + 1) := ⟨fuel - l.length, by omega⟩
  -- behind a whole turn the first member comes again
  have hturn : draws next (fuel + 1) s =
      l.rotate j ++ l.getD (j % l.length) default :: cycle l default (j + l.length + 1) n := by
    rw [hdraws, hn, cycle_add, cycle_length, cycle_succ, Nat.add_mod_right]
  have hhead : (l.rotate j).head? = some (l.getD (j % l.length) default) := by
    obtain ⟨m, hm⟩ : ∃ m, l.length = m + 1 := ⟨l.length - 1, by omega⟩
    have hwhole : cycle l default j l.length = l.rotate j := cycle_length
    rw [← hwhole, hm, cycle_succ, List.head?_cons, hm]
  have hfirst : (next s).1 = l.getD (j % l.length) default := by
    have hone := hdraws 1
    rw [cycle_succ] at hone
    exact (List.cons.inj hone).1
  have hback : (next s).1 ∈ draws next fuel (next s).2 := by
    have hlong : draws next (fuel + 1) s = (next s).1 :: draws next fuel (next s).2 := rfl
    obtain ⟨rest, hrest⟩ := List.head?_eq_some_iff.mp hhead
    rw [hlong, hrest, List.cons_append] at hturn
    rw [(List.cons.inj hturn).2, hfirst]
    exact List.mem_append_right _ List.mem_cons_self
  obtain ⟨s', hsearch⟩ := search_eq judge hback
  rw [hturn, round_append hhead] at hsearch
  exact ⟨s', hsearch⟩

end Round
end Lib
end Ebftpd
