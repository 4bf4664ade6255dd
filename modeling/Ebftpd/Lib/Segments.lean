import Mathlib.Data.List.Basic
import Mathlib.Data.List.Infix
import Mathlib.Tactic.Common

/-!
# Ebftpd.Lib.Segments

Lists cut into segments by a separator, as slash-separated paths are.

* `glue sep L` writes every segment of `L` with a separator in front; `rooted sep L` is the same
  except that no segments at all are written as the bare separator.
* `glue_split`: where a glued text is cut in front of a separator (or at its end), the cut is
  between two segments. This is what makes a textual prefix test a test on segments.
* `collapse`: the stack reading of a segment list, where some segments are skipped and some take
  back the segment before them.
-/

namespace Ebftpd
namespace Lib
namespace Seg

universe u

variable {α : Type u} {sep : α}

def glue (sep : α) : List (List α) → List α
  | [] => []
  | s :: L => sep :: (s ++ glue sep L)

def rooted (sep : α) : List (List α) → List α
  | [] => [sep]
  | s :: L => glue sep (s :: L)

def SepFree (sep : α) (L : List (List α)) : Prop := ∀ s ∈ L, sep ∉ s

@[simp] theorem glue_nil : glue sep [] = [] := rfl

theorem glue_append (L₁ L₂ : List (List α)) :
    glue sep (L₁ ++ L₂) = glue sep L₁ ++ glue sep L₂ := by
  induction L₁ with
  | nil => rfl
  | cons s L ih => simp [glue, ih]

theorem rooted_of_ne_nil {L : List (List α)} (h : L ≠ []) : rooted sep L = glue sep L := by
  cases L with
  | nil => exact absurd rfl h
  | cons s L => rfl

theorem rooted_ne_nil (L : List (List α)) : rooted sep L ≠ [] := by
  cases L <;> simp [rooted, glue]

theorem rooted_head (L : List (List α)) : ∃ t, rooted sep L = sep :: t := by
  cases L with
  | nil => exact ⟨[], rfl⟩
  | cons s L => exact ⟨s ++ glue sep L, rfl⟩

/-- A cut of `s ++ t` in front of a separator, where `s` has none, lies in `t`. -/
theorem cut_past {s t pre rest : List α} (hs : sep ∉ s) (h : s ++ t = pre ++ rest)
    (hr : rest = [] ∨ ∃ r, rest = sep :: r) :
    ∃ a, pre = s ++ a ∧ t = a ++ rest := by
  rcases List.append_eq_append_iff.mp h with ⟨a, h1, h2⟩ | ⟨c, h1, h2⟩
  · exact ⟨a, h1, h2⟩
  · -- `c` is the part of `s` behind the cut: it starts with a separator unless it is empty
    cases c with
    | nil => exact ⟨[], by simpa using h1.symm, by simpa using h2.symm⟩
    | cons x c =>
      rcases hr with rfl | ⟨r, rfl⟩
      · simp at h2
      · simp only [List.cons_append, List.cons.injEq] at h2
        exact absurd (by simp [h1, h2.1] : sep ∈ s) hs

/-- Two cuts at the first separator. -/
theorem cut_inj {s s' t t' : List α} (hs : sep ∉ s) (hs' : sep ∉ s') :
    s ++ sep :: t = s' ++ sep :: t' ↔ s = s' ∧ t = t' := by
  constructor
  · intro h
    obtain ⟨a, rfl, hrest⟩ := cut_past hs h (.inr ⟨t', rfl⟩)
    cases a with
    | nil => simpa using hrest
    | cons c a =>
      simp only [List.cons_append, List.cons.injEq] at hrest
      exact absurd (by simp [hrest.1]) hs'
  · rintro ⟨rfl, rfl⟩
    rfl

theorem glue_nil_or_head (L : List (List α)) : glue sep L = [] ∨ ∃ r, glue sep L = sep :: r := by
  cases L with
  | nil => exact .inl rfl
  | cons s L => exact .inr ⟨_, rfl⟩

/-- A glued text cut in front of a separator is cut between two segments. -/
theorem glue_split {L : List (List α)} (hL : SepFree sep L) :
    ∀ {pre rest : List α}, glue sep L = pre ++ rest → (rest = [] ∨ ∃ r, rest = sep :: r) →
      ∃ L₁ L₂, L = L₁ ++ L₂ ∧ pre = glue sep L₁ ∧ rest = glue sep L₂ := by
  induction L with
  | nil =>
    intro pre rest h _
    simp only [glue_nil, List.nil_eq, List.append_eq_nil_iff] at h
    exact ⟨[], [], rfl, h.1, h.2⟩
  | cons s L ih =>
    intro pre rest h hr
    cases pre with
    | nil => exact ⟨[], s :: L, rfl, rfl, h.symm⟩
    | cons x pre =>
      simp only [glue, List.cons_append, List.cons.injEq] at h
      obtain ⟨rfl, h⟩ := h
      obtain ⟨a, rfl, h2⟩ := cut_past (hL s (by simp)) h hr
      obtain ⟨L₁, L₂, rfl, rfl, rfl⟩ := ih (fun t ht => hL t (by simp [ht])) h2 hr
      exact ⟨s :: L₁, L₂, rfl, rfl, rfl⟩

theorem glue_inj {L M : List (List α)} (hL : SepFree sep L) (hM : SepFree sep M)
    (h : glue sep L = glue sep M) : L = M := by
  induction L generalizing M with
  | nil => cases M with
    | nil => rfl
    | cons t M => simp [glue] at h
  | cons s L ih => cases M with
    | nil => simp [glue] at h
    | cons t M =>
      simp only [glue, List.cons.injEq, true_and] at h
      obtain ⟨a, ht, hg⟩ := cut_past (hL s (by simp)) h (glue_nil_or_head M)
      obtain ⟨b, hs, _⟩ := cut_past (hM t (by simp)) h.symm (glue_nil_or_head L)
      have hab : a = [] := by
        have := congrArg List.length hs
        rw [ht] at this
        simp only [List.length_append] at this
        exact List.eq_nil_of_length_eq_zero (by omega)
      subst hab
      simp only [List.append_nil, List.nil_append] at ht hg
      rw [ht, ih (fun x hx => hL x (by simp [hx])) (fun x hx => hM x (by simp [hx])) hg]

/-- A separator behind a glued text, as a prefix of a glued text: a prefix of the segments. -/
theorem prefix_of_glue_append {L M : List (List α)} (hL : SepFree sep L) (hM : SepFree sep M)
    {r : List α} (h : glue sep M = glue sep L ++ sep :: r) : L <+: M ∧ L ≠ M := by
  obtain ⟨L₁, L₂, rfl, h1, h2⟩ := glue_split hM h (.inr ⟨r, rfl⟩)
  have hL₁ : SepFree sep L₁ := fun s hs => hM s (by simp [hs])
  have hne : L₂ ≠ [] := by rintro rfl; simp at h2
  rw [glue_inj hL hL₁ h1]
  exact ⟨List.prefix_append _ _, by simpa using hne⟩

/-! ## Stack reading -/

/-- Reads segments onto a stack (top first): `skip` segments are dropped, an `up` segment takes
back the one on top, and does nothing on the empty stack. -/
def collapse (skip up : List α → Bool) : List (List α) → List (List α) → List (List α)
  | st, [] => st.reverse
  | st, s :: L =>
    if skip s then collapse skip up st L
    else if up s then collapse skip up st.tail L
    else collapse skip up (s :: st) L

theorem mem_collapse {skip up : List α → Bool} {x : List α} :
    ∀ {L st : List (List α)}, x ∈ collapse skip up st L →
      x ∈ st ∨ (x ∈ L ∧ skip x = false ∧ up x = false) := by
  intro L
  induction L with
  | nil => intro st h; exact .inl (by simpa [collapse] using h)
  | cons s L ih =>
    intro st h
    simp only [collapse] at h
    split at h
    · rcases ih h with h | ⟨h, h'⟩
      · exact .inl h
      · exact .inr ⟨by simp [h], h'⟩
    · rename_i hskip
      split at h
      · rcases ih h with h | ⟨h, h'⟩
        · exact .inl (List.mem_of_mem_tail h)
        · exact .inr ⟨by simp [h], h'⟩
      · rename_i hup
        rcases ih h with h | ⟨h, h'⟩
        · rcases List.mem_cons.mp h with rfl | h
          · exact .inr ⟨by simp, by simpa using hskip, by simpa using hup⟩
          · exact .inl h
        · exact .inr ⟨by simp [h], h'⟩

end Seg
end Lib
end Ebftpd
