import Mathlib.Data.List.Basic

/-!
# Ebftpd.Lib.Pieces

What stands between the separators of a list, as far as it is not empty.

* `pieces_append_cons`: a separator divides the pieces.
* `pieces_flatten`: the pieces have all but the separators, in order.
-/

namespace Ebftpd
namespace Lib

universe u

variable {α : Type u} {p : α → Bool}

def pieces (p : α → Bool) (s : List α) : List (List α) := (s.splitOnP p).filter fun w => !w.isEmpty

@[simp] theorem pieces_nil : pieces p [] = [] := by simp [pieces, List.splitOnP_nil]

theorem pieces_append_cons {c : α} (hc : p c = true) (s t : List α) :
    pieces p (s ++ c :: t) = pieces p s ++ pieces p t := by
  rw [pieces, pieces, pieces, List.splitOnP_append_cons s t hc, List.filter_append]

theorem pieces_cons {c : α} (hc : p c = true) (t : List α) : pieces p (c :: t) = pieces p t := by
  simpa using pieces_append_cons hc [] t

theorem pieces_solid {w : List α} (hne : w ≠ []) (hw : ∀ c ∈ w, p c = false) : pieces p w = [w] := by
  rw [pieces, List.splitOnP_eq_singleton hw]
  simp [hne]

theorem solid_concat {w : List α} {c : α} (hw : ∀ d ∈ w, p d = false) (hc : p c = false) :
    ∀ d ∈ w ++ [c], p d = false := by
  intro d hd
  obtain hd | hd := List.mem_append.mp hd
  · exact hw d hd
  · rw [List.mem_singleton.mp hd]
    exact hc

/-- Where no separator comes the piece goes on. -/
theorem pieces_solid_append {w : List α} {c : α} (hw : ∀ d ∈ w, p d = false) (hc : p c = false) (t : List α) :
    ∃ q qs, pieces p (w ++ c :: t) = q :: qs ∧ w.length < q.length := by
  induction t generalizing w c with
  | nil =>
    exact ⟨w ++ [c], [], pieces_solid (by simp) (solid_concat hw hc), by simp⟩
  | cons d t ih =>
    have hsolid := solid_concat hw hc
    rw [List.append_cons]
    cases hd : p d with
    | true =>
      rw [pieces_append_cons hd, pieces_solid (by simp) hsolid]
      exact ⟨w ++ [c], pieces p t, rfl, by simp⟩
    | false =>
      obtain ⟨q, qs, hq, hlen⟩ := ih hsolid hd
      rw [List.length_append] at hlen
      exact ⟨q, qs, hq, by omega⟩

theorem pieces_flatten (p : α → Bool) (s : List α) : (pieces p s).flatten = s.filter fun c => !p c := by
  induction s with
  | nil => simp
  | cons c s ih =>
    cases hc : p c with
    | true =>
      rw [pieces_cons hc, ih]
      simp [hc]
    | false =>
      rw [pieces, List.flatten_filter_not_isEmpty] at ih ⊢
      obtain ⟨w, ws, hsplit⟩ := List.exists_cons_of_ne_nil (List.splitOnP_ne_nil p s)
      rw [hsplit] at ih
      rw [List.splitOnP_cons_eq_if_modifyHead, hc, hsplit]
      simpa [hc] using ih

theorem length_le_of_mem_pieces {s w : List α} (hw : w ∈ pieces p s) : w.length ≤ s.length := by
  have hflatten : w.length ≤ (pieces p s).flatten.length := (List.sublist_flatten_of_mem hw).length_le
  rw [pieces_flatten] at hflatten
  exact Nat.le_trans hflatten (List.length_filter_le _ s)

end Lib
end Ebftpd
