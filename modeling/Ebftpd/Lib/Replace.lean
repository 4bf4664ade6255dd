import Mathlib.Data.List.Find
import Mathlib.Data.List.Infix
import Mathlib.Tactic.Common

/-!
# Ebftpd.Lib.Replace

Marks that are replaced by texts, all of them in one pass from left to right, against one pass for
each mark.

* `replaceVars_congr`: a mark that is nowhere in the text may be left out.
* `two_passes`: the second pass finds no mark the first has made, if what the first puts in has
  neither the first nor the last letter of the second mark and is no part of it.
-/

namespace Ebftpd
namespace Lib
namespace Replace

universe u

variable {α : Type u} [DecidableEq α]

/-- The mark the text begins with, and what it is replaced by. -/
def pick (vars : List (List α × List α)) (s : List α) : Option (List α × List α) :=
  vars.find? (·.1.isPrefixOf s)

/-- `skip` is the rest of the last mark. -/
def replaceVarsLoop (vars : List (List α × List α)) : Nat → List α → List α
  | _, [] => []
  | skip + 1, _ :: cs => replaceVarsLoop vars skip cs
  | 0, c :: cs =>
    match pick vars (c :: cs) with
    | some var => var.2 ++ replaceVarsLoop vars (var.1.length - 1) cs
    | none => c :: replaceVarsLoop vars 0 cs

def replaceVars (vars : List (List α × List α)) (s : List α) : List α := replaceVarsLoop vars 0 s

variable {vars vars' : List (List α × List α)} {var : List α × List α} {s t : List α} {c : α}

@[simp] theorem replaceVars_nil : replaceVars vars [] = [] := rfl

theorem replaceVars_step :
    replaceVars vars (c :: s) =
      match pick vars (c :: s) with
      | some var => var.2 ++ replaceVarsLoop vars (var.1.length - 1) s
      | none => c :: replaceVars vars s := rfl

theorem replaceVarsLoop_skip (a t : List α) :
    replaceVarsLoop vars a.length (a ++ t) = replaceVars vars t := by
  induction a with
  | nil => rfl
  | cons c a ih => exact ih

theorem replaceVars_pick (h : pick vars (var.1 ++ t) = some var) (hne : var.1 ≠ []) :
    replaceVars vars (var.1 ++ t) = var.2 ++ replaceVars vars t := by
  obtain ⟨c, m, hm⟩ := List.exists_cons_of_ne_nil hne
  rw [hm, List.cons_append] at h ⊢
  rw [replaceVars_step, h]
  simp only [hm, List.length_cons, Nat.add_sub_cancel]
  rw [replaceVarsLoop_skip]

theorem replaceVars_cons (h : pick vars (c :: s) = none) :
    replaceVars vars (c :: s) = c :: replaceVars vars s := by
  rw [replaceVars_step, h]

theorem pick_eq_none : pick vars s = none ↔ ∀ var ∈ vars, ¬ var.1 <+: s := by
  simp [pick, List.find?_eq_none]

theorem replaceVars_congr (h : ∀ t, t <:+ s → pick vars t = pick vars' t) :
    replaceVars vars s = replaceVars vars' s := by
  have hloop : ∀ (s : List α), (∀ t, t <:+ s → pick vars t = pick vars' t) → ∀ skip,
      replaceVarsLoop vars skip s = replaceVarsLoop vars' skip s := by
    intro s
    induction s with
    | nil => intro _ skip; cases skip <;> rfl
    | cons c s ih =>
      intro h skip
      have hs := ih fun t ht => h t (ht.trans (List.suffix_cons c s))
      cases skip with
      | succ skip => exact hs skip
      | zero =>
        rw [replaceVarsLoop, replaceVarsLoop, h _ List.suffix_rfl]
        cases pick vars' (c :: s) with
        | none => rw [hs 0]
        | some var => simp only [hs]
  exact hloop s h 0

theorem replaceVars_self (h : ∀ var ∈ vars, ¬ var.1 <:+: s) : replaceVars vars s = s := by
  have hnil : ∀ s : List α, replaceVars [] s = s := by
    intro s
    induction s with
    | nil => rfl
    | cons c s ih => rw [replaceVars_cons rfl, ih]
  rw [@replaceVars_congr _ _ _ [] _, hnil]
  intro t ht
  change pick vars t = none
  rw [pick_eq_none]
  intro var hvar hpre
  exact h var hvar (hpre.isInfix.trans ht.isInfix)

/-- Text without the letter every mark begins with stays as it is. -/
theorem replaceVars_free {o : α} (hvars : ∀ var ∈ vars, var.1.head? = some o) {a : List α} (ha : o ∉ a)
    (t : List α) : replaceVars vars (a ++ t) = a ++ replaceVars vars t := by
  induction a with
  | nil => rfl
  | cons c a ih =>
    have hnone : pick vars (c :: (a ++ t)) = none := by
      rw [pick_eq_none]
      intro var hvar hpre
      obtain ⟨m, hm⟩ := List.head?_eq_some_iff.mp (hvars var hvar)
      rw [hm, List.cons_prefix_cons] at hpre
      exact ha (by simp [hpre.1])
    rw [List.cons_append, replaceVars_cons hnone, ih (fun h => ha (by simp [h]))]
    rfl

/-! ## One pass after another -/

section TwoPasses

variable {m₁ m₂ v₁ v₂ : List α}

theorem pick_singleton_append (t : List α) : pick [(m₁, v₁)] (m₁ ++ t) = some (m₁, v₁) := by
  have hpre : m₁.isPrefixOf (m₁ ++ t) = true := List.isPrefixOf_iff_prefix.mpr (List.prefix_append _ _)
  exact List.find?_cons_of_pos hpre

theorem replaceVars_mark (hne : m₁ ≠ []) (t : List α) :
    replaceVars [(m₁, v₁)] (m₁ ++ t) = v₁ ++ replaceVars [(m₁, v₁)] t :=
  @replaceVars_pick _ _ _ (m₁, v₁) _ (pick_singleton_append t) hne

theorem replaceVars_cons_of_not (h : ¬ m₁ <+: c :: s) :
    replaceVars [(m₁, v₁)] (c :: s) = c :: replaceVars [(m₁, v₁)] s := by
  refine replaceVars_cons ?_
  rw [pick_eq_none]
  simpa using h

/-- What a pass leaves begins with a text only if that was there before, or holds the replacement. -/
theorem prefix_of_replaced {z : α} (hz : z ∉ v₁) (hne : m₁ ≠ []) {w : List α} :
    ∀ {s : List α}, w ++ [z] <+: replaceVars [(m₁, v₁)] s → w ++ [z] <+: s ∨ v₁ <:+: w ++ [z] := by
  have hmark : ∀ {w t : List α}, w ++ [z] <+: replaceVars [(m₁, v₁)] (m₁ ++ t) → v₁ <:+: w ++ [z] := by
    intro w t h
    rw [replaceVars_mark hne] at h
    rcases List.prefix_or_prefix_of_prefix h (List.prefix_append v₁ _) with h | h
    · exact absurd (h.subset (by simp)) hz
    · exact h.isInfix
  induction w with
  | nil =>
    intro s h
    cases s with
    | nil => simp at h
    | cons c s =>
      by_cases hpre : m₁ <+: c :: s
      · obtain ⟨t, ht⟩ := hpre
        exact .inr (hmark (w := []) (ht ▸ h))
      · rw [replaceVars_cons_of_not hpre, List.nil_append, List.cons_prefix_cons] at h
        exact .inl (by simp [h.1])
  | cons x w ih =>
    intro s h
    cases s with
    | nil => simp at h
    | cons c s =>
      by_cases hpre : m₁ <+: c :: s
      · obtain ⟨t, ht⟩ := hpre
        exact .inr (hmark (ht ▸ h))
      · rw [replaceVars_cons_of_not hpre, List.cons_append, List.cons_prefix_cons] at h
        rcases ih h.2 with h' | h'
        · exact .inl (by simpa [h.1] using h')
        · exact .inr (h'.trans (List.suffix_cons x _).isInfix)

theorem two_passes {o z : α} {b : List α} (hm₁ : m₁.head? = some o) (hm₂ : m₂ = o :: (b ++ [z]))
    (hb : o ∉ b ++ [z]) (ho : o ∉ v₁) (hz : z ∉ v₁) (hpart : ¬ v₁ <:+: b ++ [z]) (s : List α) :
    replaceVars [(m₂, v₂)] (replaceVars [(m₁, v₁)] s) = replaceVars [(m₁, v₁), (m₂, v₂)] s := by
  have hne₁ : m₁ ≠ [] := by
    rintro rfl
    cases hm₁
  have hne₂ : m₂ ≠ [] := by simp [hm₂]
  have hpick : ∀ s, pick [(m₁, v₁), (m₂, v₂)] s =
      if m₁ <+: s then some (m₁, v₁) else if m₂ <+: s then some (m₂, v₂) else none := by
    intro s
    simp only [pick, List.find?_cons, List.find?_nil, ← List.isPrefixOf_iff_prefix]
    cases m₁.isPrefixOf s <;> cases m₂.isPrefixOf s <;> rfl
  induction hn : s.length using Nat.strong_induction_on generalizing s with
  | _ n ih =>
    subst hn
    cases s with
    | nil => rfl
    | cons c s =>
      by_cases h₁ : m₁ <+: c :: s
      · obtain ⟨t, ht⟩ := h₁
        have hlt : t.length < (c :: s).length := by
          have := List.length_pos_of_ne_nil hne₁
          rw [← ht, List.length_append]
          omega
        have hfirst : pick [(m₁, v₁), (m₂, v₂)] (m₁ ++ t) = some (m₁, v₁) := by
          rw [hpick, if_pos (List.prefix_append m₁ t)]
        rw [← ht, replaceVars_mark hne₁, replaceVars_free (o := o) (by simp [hm₂]) ho, ih _ hlt t rfl,
          @replaceVars_pick _ _ _ (m₁, v₁) _ hfirst hne₁]
      · by_cases h₂ : m₂ <+: c :: s
        · obtain ⟨t, ht⟩ := h₂
          have hlt : t.length < (c :: s).length := by
            have := List.length_pos_of_ne_nil hne₂
            rw [← ht, List.length_append]
            omega
          -- the first pass goes over the second mark and leaves it
          have hpass : replaceVars [(m₁, v₁)] (m₂ ++ t) = m₂ ++ replaceVars [(m₁, v₁)] t := by
            rw [← ht, hm₂, List.cons_append] at h₁
            rw [hm₂, List.cons_append, replaceVars_cons_of_not h₁,
              replaceVars_free (o := o) (by simpa using hm₁) hb]
            rfl
          have hsecond : pick [(m₁, v₁), (m₂, v₂)] (m₂ ++ t) = some (m₂, v₂) := by
            rw [hpick, if_neg (ht ▸ h₁), if_pos (List.prefix_append m₂ t)]
          rw [← ht, hpass, replaceVars_mark hne₂, ih _ hlt t rfl,
            @replaceVars_pick _ _ _ (m₂, v₂) _ hsecond hne₂]
        · have hnot : ¬ m₂ <+: c :: replaceVars [(m₁, v₁)] s := by
            rw [hm₂, List.cons_prefix_cons]
            rintro ⟨rfl, hpre⟩
            rcases prefix_of_replaced hz hne₁ hpre with h | h
            · exact h₂ (hm₂ ▸ List.cons_prefix_cons.mpr ⟨rfl, h⟩)
            · exact hpart h
          have hnone : pick [(m₁, v₁), (m₂, v₂)] (c :: s) = none := by
            rw [hpick, if_neg h₁, if_neg h₂]
          rw [replaceVars_cons_of_not h₁, replaceVars_cons_of_not hnot, replaceVars_cons hnone,
            ih _ (by simp) s rfl]

end TwoPasses

end Replace
end Lib
end Ebftpd
