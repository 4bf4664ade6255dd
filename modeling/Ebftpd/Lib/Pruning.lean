import Ebftpd.Lib.FileTree

/-!
# Ebftpd.Lib.Pruning

What is left of a file tree when nodes are removed from it.

* `headerAt_prune`: what is below a node goes with it, and nothing else does.
* `walk_within`: where a walk leads in what is left, it led before.
-/

namespace Ebftpd
namespace Lib
namespace FileTree

universe u v w

variable {σ : Type u} {α : Type v} {τ : Type w}

namespace Node

/-- A node without its entries. -/
def header (n : Node σ α τ) : α × Shape τ := (n.attr, n.shape)

variable [DecidableEq σ]

/-- A node without what the path leads to. A node is not removed from itself. -/
def prune : List σ → Node σ α τ → Node σ α τ
  | s :: p, .dir attr entries =>
    .dir attr (if p.isEmpty then entries.filter (·.1 ≠ s)
      else entries.map fun e => if e.1 = s then (e.1, prune p e.2) else e)
  | _, n => n

theorem header_prune (p : List σ) (n : Node σ α τ) : (prune p n).header = n.header := by
  cases p with
  | nil => rfl
  | cons s p => cases n <;> rfl

/-- Only the child that the path begins with is another one. -/
theorem child_prune (s s' : σ) (p : List σ) (n : Node σ α τ) : (prune (s :: p) n).child s' =
    if s' = s then if p.isEmpty then none else (n.child s').map (prune p) else n.child s' := by
  cases n with
  | leaf regular attr => simp [prune, child, entries]
  | link attr target => simp [prune, child, entries]
  | dir attr contents =>
    rw [prune, child, child, entries, entries]
    cases p.isEmpty with
    | true =>
      rw [if_pos rfl, if_pos rfl, List.find?_filter]
      by_cases hs : s' = s
      · have hnone : contents.find? (fun e => decide (decide (e.1 ≠ s) = true ∧ decide (e.1 = s') = true)) = none := by
          rw [List.find?_eq_none]
          intro e _
          simp [hs]
        rw [if_pos hs, hnone]
        rfl
      · have hkey : (fun e : σ × Node σ α τ => decide (decide (e.1 ≠ s) = true ∧ decide (e.1 = s') = true)) =
            fun e => decide (e.1 = s') := by
          funext e
          by_cases he : e.1 = s'
          · simp [he, hs]
          · simp [he]
        rw [if_neg hs, hkey]
    | false =>
      have hkey : ((fun e : σ × Node σ α τ => decide (e.1 = s')) ∘
          fun e => if e.1 = s then (e.1, prune p e.2) else e) = fun e => decide (e.1 = s') := by
        funext e
        by_cases he : e.1 = s <;> simp [he]
      rw [if_neg Bool.false_ne_true, if_neg Bool.false_ne_true, List.find?_map, hkey]
      cases hfind : contents.find? (·.1 = s') with
      | none => simp
      | some e =>
        have he : e.1 = s' := by simpa using List.find?_some hfind
        by_cases hs : s' = s <;> simp [he, hs]

theorem header_find_prune {p : List σ} (hp : p ≠ []) (n : Node σ α τ) (q : List σ) :
    ((prune p n).find q).map header = if p <+: q then none else (n.find q).map header := by
  induction p generalizing n q with
  | nil => exact absurd rfl hp
  | cons s p ih =>
    cases q with
    | nil =>
      rw [if_neg fun h => hp (List.prefix_nil.mp h), find, find, Option.map_some, Option.map_some, header_prune]
    | cons s' q =>
      rw [find, find]
      by_cases hs : s' = s
      · subst hs
        rw [child_prune, if_pos rfl]
        cases hchild : n.child s' with
        | none => simp
        | some m =>
          cases p with
          | nil => simp
          | cons x p => simpa [List.cons_prefix_cons] using ih (List.cons_ne_nil x p) m q
      · rw [child_prune, if_neg hs, if_neg fun h => hs (List.cons_prefix_cons.mp h).1.symm]

end Node

namespace Tree

/-- What is seen at a path without looking into it. -/
def headerAt [DecidableEq σ] (t : Tree σ α τ) (q : List σ) : Option (α × Shape τ) := (t.find q).map Node.header

variable [DecidableEq σ]

/-- The tree without what the path leads to. -/
def prune (t : Tree σ α τ) (p : List σ) : Tree σ α τ := ⟨t.attr, (Node.prune p t.root).entries⟩

variable {t t₀ t₁ : Tree σ α τ}

theorem root_prune (p : List σ) : (t.prune p).root = Node.prune p t.root := by
  cases p <;> rfl

theorem headerAt_prune {p : List σ} (hp : p ≠ []) (q : List σ) :
    (t.prune p).headerAt q = if p <+: q then none else t.headerAt q := by
  rw [headerAt, find, root_prune, Node.header_find_prune hp]
  rfl

theorem shapeAt_eq (q : List σ) : t.shapeAt q = (t.headerAt q).map Prod.snd := by
  rw [shapeAt, headerAt, Option.map_map]
  rfl

theorem isSome_headerAt (q : List σ) : (t.headerAt q).isSome = (t.find q).isSome := by
  rw [headerAt, Option.isSome_map]

/-- What is in `t` is in `t₀`. -/
def Within (t t₀ : Tree σ α τ) : Prop := ∀ q h, t.headerAt q = some h → t₀.headerAt q = some h

theorem Within.refl (t : Tree σ α τ) : t.Within t := fun _ _ h => h

theorem Within.trans (h : t.Within t₀) (h' : t₀.Within t₁) : t.Within t₁ := fun q x hx => h' q x (h q x hx)

theorem prune_within {p : List σ} (hp : p ≠ []) : (t.prune p).Within t := by
  intro q h hq
  rw [headerAt_prune hp] at hq
  split at hq
  · cases hq
  · exact hq

theorem Within.shapeAt (h : t.Within t₀) {q : List σ} {sh : Shape τ} (hq : t.shapeAt q = some sh) :
    t₀.shapeAt q = some sh := by
  rw [shapeAt_eq] at hq ⊢
  obtain ⟨x, hx, rfl⟩ := Option.map_eq_some_iff.mp hq
  rw [h q x hx]
  rfl

theorem Within.isDir (h : t.Within t₀) {q : List σ} (hq : t.IsDir q) : t₀.IsDir q := h.shapeAt hq

theorem Within.isSome (h : t.Within t₀) {q : List σ} (hq : (t.find q).isSome) : (t₀.find q).isSome := by
  rw [← isSome_headerAt] at hq ⊢
  obtain ⟨x, hx⟩ := Option.isSome_iff_exists.mp hq
  rw [h q x hx]
  rfl

/-- Only a node without entries goes alone. -/
theorem gone_of_prune {p : List σ} (hp : p ≠ []) (hleaf : ∀ r, r ≠ [] → t.find (p ++ r) = none) {q : List σ}
    (hq : (t.find q).isSome) (hgone : (t.prune p).find q = none) : q = p := by
  have hnone : (t.prune p).headerAt q = none := by rw [headerAt, hgone, Option.map_none]
  rw [headerAt_prune hp] at hnone
  split at hnone
  · rename_i hpre
    obtain ⟨r, rfl⟩ := hpre
    by_cases hr : r = []
    · rw [hr, List.append_nil]
    · rw [hleaf r hr] at hq
      cases hq
  · rw [← isSome_headerAt, hnone] at hq
    cases hq

end Tree

/-! ## Walking what is left -/

section Walk

variable [DecidableEq σ] [DecidableEq τ] {read : τ → Target σ} {t t₀ : Tree σ α τ} (hwithin : t.Within t₀)
  {next next₀ : List σ → List (Step σ) → Walk σ}

include hwithin

omit [DecidableEq τ] in
theorem stepTo_within (hnext : ∀ cwd steps q, (next cwd steps).2 = some q → (next₀ cwd steps).2 = some q)
    {follow : Bool} {cwd q : List σ} {x : Step σ} (h : (stepTo read t next follow cwd x).2 = some q) :
    (stepTo read t₀ next₀ follow cwd x).2 = some q := by
  cases x with
  | stay => exact h
  | up => exact h
  | down s =>
    simp only [stepTo] at h ⊢
    cases hshape : t.shapeAt (cwd ++ [s]) with
    | none => simp [hshape] at h
    | some sh =>
      rw [hshape] at h
      rw [hwithin.shapeAt hshape]
      cases sh with
      | leaf regular => exact h
      | dir => exact h
      | link target =>
        cases follow with
        | false => exact h
        | true => exact hnext _ _ _ h

theorem stepsTo_within (hnext : ∀ cwd steps q, (next cwd steps).2 = some q → (next₀ cwd steps).2 = some q)
    {follow : Bool} {cwd q : List σ} {steps : List (Step σ)} (h : (stepsTo read t next follow cwd steps).2 = some q) :
    (stepsTo read t₀ next₀ follow cwd steps).2 = some q := by
  induction steps generalizing cwd with
  | nil => exact h
  | cons x rest ih =>
    rw [stepsTo] at h ⊢
    cases hstep : stepTo read t next (follow || !rest.isEmpty) cwd x with
    | mk asked place =>
      rw [hstep] at h
      cases place with
      | none => cases h
      | some q' =>
        have hstep₀ := stepTo_within hwithin hnext (by rw [hstep])
        cases hstep' : stepTo read t₀ next₀ (follow || !rest.isEmpty) cwd x with
        | mk asked₀ place₀ =>
          rw [hstep'] at hstep₀
          cases hstep₀
          by_cases hcase : rest = [] ∨ t.IsDir q'
          · simp only [if_pos hcase] at h
            simp only [if_pos (hcase.imp_right hwithin.isDir)]
            exact ih h
          · simp only [if_neg hcase] at h
            cases h

/-- Where a walk leads in what is left, it led before. -/
theorem walk_within (n : Nat) {follow : Bool} {cwd q : List σ} {steps : List (Step σ)}
    (h : (walk read t n follow cwd steps).2 = some q) : (walk read t₀ n follow cwd steps).2 = some q := by
  induction n generalizing follow cwd q steps with
  | zero => cases h
  | succ n ih => exact stepsTo_within hwithin (fun _ _ _ => ih) h

end Walk

end FileTree
end Lib
end Ebftpd
