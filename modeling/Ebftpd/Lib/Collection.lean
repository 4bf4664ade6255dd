import Mathlib.Data.List.Nodup
import Mathlib.Tactic.Common

/-!
# Ebftpd.Lib.Collection

A collection of documents in their natural order. An update that is not told otherwise changes the
first document that matches; a removal takes all of them away.

* `mem_updateFirst`, `key_updateFirst`: what an update leaves in the collection.
* `countP_updateFirst`: an update after which a document matches no longer leaves one match less.
-/

namespace Ebftpd
namespace Lib
namespace Collection

universe u v

variable {α : Type u} {κ : Type v} {p : α → Bool} {f : α → α} {l : List α}

def updateFirst (p : α → Bool) (f : α → α) : List α → List α
  | [] => []
  | x :: l => if p x then f x :: l else x :: updateFirst p f l

theorem updateFirst_cons (x : α) (l : List α) :
    updateFirst p f (x :: l) = if p x then f x :: l else x :: updateFirst p f l := rfl

theorem mem_updateFirst {x : α} (h : x ∈ updateFirst p f l) :
    x ∈ l ∨ ∃ y ∈ l, p y = true ∧ x = f y := by
  induction l with
  | nil => cases h
  | cons z l ih =>
    rw [updateFirst_cons] at h
    split at h
    · rename_i hz
      rcases List.mem_cons.mp h with rfl | hx
      · exact .inr ⟨z, List.mem_cons_self, hz, rfl⟩
      · exact .inl (List.mem_cons_of_mem _ hx)
    · rcases List.mem_cons.mp h with rfl | hx
      · exact .inl List.mem_cons_self
      · rcases ih hx with hl | ⟨y, hy, hrest⟩
        · exact .inl (List.mem_cons_of_mem _ hl)
        · exact .inr ⟨y, List.mem_cons_of_mem _ hy, hrest⟩

/-- The keys stay where the update leaves them alone. -/
theorem key_updateFirst {key : α → κ} (hf : ∀ x, key (f x) = key x) :
    (updateFirst p f l).map key = l.map key := by
  induction l with
  | nil => rfl
  | cons x l ih =>
    rw [updateFirst_cons]
    split
    · simp [hf]
    · simp [ih]

theorem countP_updateFirst (hf : ∀ x, p (f x) = false) :
    (updateFirst p f l).countP p = l.countP p - 1 := by
  induction l with
  | nil => rfl
  | cons x l ih =>
    rw [updateFirst_cons]
    split
    · rename_i hx
      simp [hf, hx]
    · rename_i hx
      simp [hx, ih]

end Collection
end Lib
end Ebftpd
