import Mathlib.Data.List.Basic
import Mathlib.Tactic.Common

/-!
# Ebftpd.Lib.Framing

A stream of elements cut into frames, each ended by a delimiter.

`feed d cur l` reads `l` behind an open frame `cur`: the frames that end in it, each without its
delimiter, and the frame that is left open.

* `feed_append`: feeding a stream in pieces is feeding it whole, so the frames of a stream do not
  depend on how it is cut.
* `feed_frame`, `feed_open`: what one frame and an open end give.
* `frames_delim`, `frames_concat`: a stream one element at a time.
* `frames_free`, `rest_free`: no frame contains the delimiter.
-/

namespace Ebftpd
namespace Lib
namespace Framing

universe u

variable {α : Type u} [DecidableEq α] {d : α}

def feed (d : α) : List α → List α → List (List α) × List α
  | cur, [] => ([], cur)
  | cur, c :: cs =>
    if c = d then (cur :: (feed d [] cs).1, (feed d [] cs).2) else feed d (cur ++ [c]) cs

theorem feed_nil (cur : List α) : feed d cur [] = ([], cur) := rfl

theorem feed_cons (cur cs : List α) (c : α) :
    feed d cur (c :: cs) =
      if c = d then (cur :: (feed d [] cs).1, (feed d [] cs).2) else feed d (cur ++ [c]) cs := rfl

/-- The frames of a stream. -/
def frames (d : α) (l : List α) : List (List α) := (feed d [] l).1

/-- What follows the last delimiter of a stream. -/
def rest (d : α) (l : List α) : List α := (feed d [] l).2

theorem feed_append (cur l₁ l₂ : List α) :
    feed d cur (l₁ ++ l₂) =
      ((feed d cur l₁).1 ++ (feed d (feed d cur l₁).2 l₂).1, (feed d (feed d cur l₁).2 l₂).2) := by
  induction l₁ generalizing cur with
  | nil => simp [feed_nil]
  | cons c cs ih =>
    simp only [List.cons_append, feed_cons]
    split
    · simp [ih]
    · exact ih _

theorem frames_append (l₁ l₂ : List α) :
    frames d (l₁ ++ l₂) = frames d l₁ ++ (feed d (rest d l₁) l₂).1 := by
  rw [frames, feed_append]
  rfl

theorem rest_append (l₁ l₂ : List α) : rest d (l₁ ++ l₂) = (feed d (rest d l₁) l₂).2 := by
  rw [rest, feed_append]
  rfl

theorem frames_delim (l : List α) : frames d (l ++ [d]) = frames d l ++ [rest d l] := by
  simp [frames_append, feed_cons, feed_nil]

theorem rest_delim (l : List α) : rest d (l ++ [d]) = [] := by
  simp [rest_append, feed_cons, feed_nil]

theorem frames_concat {c : α} (h : c ≠ d) (l : List α) : frames d (l ++ [c]) = frames d l := by
  simp [frames_append, feed_cons, feed_nil, h]

theorem rest_concat {c : α} (h : c ≠ d) (l : List α) : rest d (l ++ [c]) = rest d l ++ [c] := by
  simp [rest_append, feed_cons, feed_nil, h]

theorem feed_open {l : List α} (h : d ∉ l) (cur : List α) : feed d cur l = ([], cur ++ l) := by
  induction l generalizing cur with
  | nil => simp [feed_nil]
  | cons c cs ih =>
    have hc : c ≠ d := fun e => h (by simp [e])
    have hcs : d ∉ cs := fun e => h (by simp [e])
    simp [feed_cons, hc, ih hcs]

theorem feed_frame {l : List α} (h : d ∉ l) (cur l' : List α) :
    feed d cur (l ++ d :: l') = ((cur ++ l) :: frames d l', rest d l') := by
  rw [feed_append, feed_open h]
  simp [feed_cons, frames, rest]

theorem feed_open_free (cur l : List α) (h : d ∉ cur) : d ∉ (feed d cur l).2 := by
  induction l generalizing cur with
  | nil => exact h
  | cons c cs ih =>
    simp only [feed_cons]
    split
    · exact ih [] (by simp)
    · rename_i hc
      refine ih _ ?_
      intro hmem
      rcases List.mem_append.mp hmem with hmem | hmem
      · exact h hmem
      · exact hc (List.mem_singleton.mp hmem).symm

/-- The frames consist of elements of the stream that are not the delimiter. -/
theorem feed_mem (cur l : List α) {x : α}
    (h : x ∈ (feed d cur l).2 ∨ ∃ f ∈ (feed d cur l).1, x ∈ f) : x ∈ cur ∨ (x ∈ l ∧ x ≠ d) := by
  induction l generalizing cur with
  | nil => simpa [feed_nil] using h
  | cons c cs ih =>
    simp only [feed_cons] at h
    split at h
    · simp only [List.mem_cons, exists_eq_or_imp] at h
      rcases h with hrest | hcur | hframes
      · rcases ih [] (.inl hrest) with hnil | hx
        · cases hnil
        · exact .inr ⟨.tail _ hx.1, hx.2⟩
      · exact .inl hcur
      · rcases ih [] (.inr hframes) with hnil | hx
        · cases hnil
        · exact .inr ⟨.tail _ hx.1, hx.2⟩
    · rename_i hc
      rcases ih _ h with hcur | hx
      · rcases List.mem_append.mp hcur with hcur | hx
        · exact .inl hcur
        · rw [List.mem_singleton.mp hx]
          exact .inr ⟨.head _, hc⟩
      · exact .inr ⟨.tail _ hx.1, hx.2⟩

theorem frames_free (l : List α) : ∀ f ∈ frames d l, d ∉ f := by
  intro f hf hd
  rcases feed_mem [] l (.inr ⟨f, hf, hd⟩) with hnil | hx
  · cases hnil
  · exact hx.2 rfl

theorem rest_free (l : List α) : d ∉ rest d l := feed_open_free [] l (by simp)

end Framing
end Lib
end Ebftpd
