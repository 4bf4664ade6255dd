import Mathlib.Data.List.Infix
import Mathlib.Tactic.Common

/-!
# Ebftpd.Lib.Substitute

A text with marks that are replaced one after another, each where it is found first. An `Item` is a
letter, a slot, which stands in the text as its mark, or a slot that is gone: it is looked for, but
stands nowhere.

* `find_append`: where a mark without borders is found.
* `found_iff_clear`: each slot is found at its own place exactly if its mark is nowhere in what
  stands before it, which are letters and values.
* `fill_of_clear`: then the text becomes the one in which every slot is its value.
-/

namespace Ebftpd
namespace Lib
namespace Substitute

universe u v

variable {α : Type u} {β : Type v}

inductive Item (α : Type u) (β : Type v) where
  | lit (a : α)
  | slot (b : β)
  | gone (b : β)
  deriving DecidableEq

/-- The slots, in the order in which they are looked for. -/
def slots : List (Item α β) → List β
  | [] => []
  | .lit _ :: items => slots items
  | .slot b :: items => b :: slots items
  | .gone b :: items => b :: slots items

/-- The text with a mark for each slot. -/
def raw (mark : β → List α) : List (Item α β) → List α
  | [] => []
  | .lit a :: items => a :: raw mark items
  | .slot b :: items => mark b ++ raw mark items
  | .gone _ :: items => raw mark items

/-- The text with a value for each slot. -/
def expand (value : β → List α) : List (Item α β) → List α := raw value

/-- The mark of no slot is in what stands before it, that of one which is gone nowhere at all. -/
def Clear (mark value : β → List α) : List α → List (Item α β) → Prop
  | _, [] => True
  | before, .lit a :: items => Clear mark value (before ++ [a]) items
  | before, .slot b :: items => ¬ mark b <:+: before ∧ Clear mark value (before ++ value b) items
  | before, .gone b :: items => ¬ mark b <:+: before ++ raw mark items ∧ Clear mark value before items

/-- No end of it is also its beginning. -/
def Unbordered (p : List α) : Prop := p ≠ [] ∧ ∀ q, q <+: p → q <:+ p → q = [] ∨ q = p

variable {p v before after : List α}

theorem raw_lit (mark : β → List α) (a : α) (items : List (Item α β)) :
    raw mark (.lit a :: items) = a :: raw mark items := rfl

theorem raw_slot (mark : β → List α) (b : β) (items : List (Item α β)) :
    raw mark (.slot b :: items) = mark b ++ raw mark items := rfl

theorem slots_append (items more : List (Item α β)) : slots (items ++ more) = slots items ++ slots more := by
  induction items with
  | nil => rfl
  | cons item items ih => cases item <;> simp [slots, ih]

theorem raw_append (mark : β → List α) (items more : List (Item α β)) :
    raw mark (items ++ more) = raw mark items ++ raw mark more := by
  induction items with
  | nil => rfl
  | cons item items ih =>
    rw [List.cons_append]
    cases item with
    | lit a => rw [raw_lit, raw_lit, ih, List.cons_append]
    | slot b => rw [raw_slot, raw_slot, ih, List.append_assoc]
    | gone b => exact ih

@[simp] theorem slots_gone (bs : List β) : slots (bs.map (Item.gone (α := α))) = bs := by
  induction bs with
  | nil => rfl
  | cons b bs ih => simp [slots, ih]

@[simp] theorem raw_gone (mark : β → List α) (bs : List β) : raw mark (bs.map Item.gone) = [] := by
  induction bs with
  | nil => rfl
  | cons b bs ih => exact ih

/-- A mark without borders that is not in what stands before it does not begin there. -/
theorem not_prefix (hp : Unbordered p) {c : α} (h : ¬ p <:+: c :: before) (after : List α) :
    ¬ p <+: c :: before ++ p ++ after := by
  rintro ⟨t, ht⟩
  rw [List.append_assoc] at ht
  rcases List.append_eq_append_iff.mp ht with ⟨as, hbefore, -⟩ | ⟨q, hq, hrest⟩
  · exact h (hbefore ▸ (List.prefix_append p as).isInfix)
  · -- the end of the mark that sticks out would be its beginning
    have hlen : q.length < p.length := by
      rw [hq, List.length_append, List.length_cons]
      omega
    have hpre : q <+: p := List.prefix_of_prefix_length_le
      (hrest ▸ List.prefix_append q t) (List.prefix_append p after) hlen.le
    rcases hp.2 q hpre (hq ▸ List.suffix_append _ q) with rfl | rfl
    · rw [List.append_nil] at hq
      exact h (hq ▸ List.infix_rfl)
    · exact absurd hlen (lt_irrefl _)

/-! ## The search -/

variable [DecidableEq α]

/-- Where `p` is found first; it is not empty. -/
def find (p : List α) : List α → Option Nat
  | [] => none
  | c :: text => if p.isPrefixOf (c :: text) then some 0 else (find p text).map (· + 1)

def replaceFirst (p v text : List α) : List α :=
  match find p text with
  | none => text
  | some i => text.take i ++ v ++ text.drop (i + p.length)

/-- The loop over the slots. -/
def fill (mark value : β → List α) : List α → List β → List α
  | text, [] => text
  | text, b :: bs => fill mark value (replaceFirst (mark b) (value b) text) bs

/-- In the loop on `text`, each slot is found behind what is then `before` it. -/
def Found (mark value : β → List α) : List α → List α → List (Item α β) → Prop
  | _, _, [] => True
  | text, before, .lit a :: items => Found mark value text (before ++ [a]) items
  | text, before, .slot b :: items => find (mark b) text = some before.length ∧
      Found mark value (replaceFirst (mark b) (value b) text) (before ++ value b) items
  | text, before, .gone b :: items => find (mark b) text = none ∧
      Found mark value (replaceFirst (mark b) (value b) text) before items

theorem find_eq_none_iff (hp : p ≠ []) {text : List α} : find p text = none ↔ ¬ p <:+: text := by
  induction text with
  | nil => simp [find, hp]
  | cons c text ih =>
    rw [find, List.infix_cons_iff, ← List.isPrefixOf_iff_prefix]
    split
    · rename_i h
      simp [h]
    · rename_i h
      simp [h, ih]

/-- A mark is found where it is, or before. -/
theorem find_le (hp : p ≠ []) (before after : List α) : ∃ i, find p (before ++ p ++ after) = some i ∧ i ≤ before.length := by
  induction before with
  | nil =>
    obtain ⟨c, p, rfl⟩ := List.exists_cons_of_ne_nil hp
    exact ⟨0, if_pos (List.isPrefixOf_iff_prefix.mpr (List.prefix_append _ _)), le_rfl⟩
  | cons c before ih =>
    obtain ⟨i, hi, hle⟩ := ih
    simp only [List.cons_append, find]
    split
    · exact ⟨0, rfl, Nat.zero_le _⟩
    · exact ⟨i + 1, by rw [hi]; rfl, by simpa using hle⟩

theorem find_append (hp : Unbordered p) (after : List α) :
    find p (before ++ p ++ after) = some before.length ↔ ¬ p <:+: before := by
  constructor
  · rintro hfind ⟨s, t, rfl⟩
    obtain ⟨i, hi, hle⟩ := find_le hp.1 s (t ++ p ++ after)
    have hsame : i = (s ++ p ++ t).length := by
      rw [← List.append_assoc, ← List.append_assoc, hfind] at hi
      exact (Option.some.inj hi).symm
    have hpos := List.length_pos_iff.mpr hp.1
    simp only [List.length_append] at hsame
    omega
  · intro h
    induction before with
    | nil =>
      obtain ⟨c, p, rfl⟩ := List.exists_cons_of_ne_nil hp.1
      exact if_pos (List.isPrefixOf_iff_prefix.mpr (List.prefix_append _ _))
    | cons c before ih =>
      have hnot := not_prefix hp h after
      rw [← List.isPrefixOf_iff_prefix] at hnot
      rw [List.cons_append, List.cons_append] at hnot ⊢
      rw [find, if_neg hnot, ih fun hin => h (hin.trans (List.suffix_cons c before).isInfix)]
      rfl

theorem replaceFirst_of_find (h : find p (before ++ p ++ after) = some before.length) :
    replaceFirst p v (before ++ p ++ after) = before ++ v ++ after := by
  rw [replaceFirst, h]
  simp

theorem replaceFirst_of_none {text : List α} (h : find p text = none) : replaceFirst p v text = text := by
  rw [replaceFirst, h]

variable {mark value : β → List α}

theorem fill_map {γ : Type v} (f : γ → β) (bs : List γ) (text : List α) :
    fill mark value text (bs.map f) = fill (fun c => mark (f c)) (fun c => value (f c)) text bs := by
  induction bs generalizing text with
  | nil => rfl
  | cons b bs ih => exact ih _

theorem found_iff_clear (items : List (Item α β)) (hmark : ∀ b ∈ slots items, Unbordered (mark b)) :
    ∀ before, Found mark value (before ++ raw mark items) before items ↔ Clear mark value before items := by
  induction items with
  | nil => exact fun _ => Iff.rfl
  | cons item items ih =>
    intro before
    cases item with
    | lit a =>
      have := ih hmark (before ++ [a])
      rwa [List.append_assoc] at this
    | slot b =>
      obtain ⟨hb, hrest⟩ := List.forall_mem_cons.mp hmark
      rw [raw, Found, Clear, ← List.append_assoc, ← find_append hb (raw mark items)]
      refine and_congr_right fun hfind => ?_
      rw [replaceFirst_of_find hfind]
      exact ih hrest (before ++ value b)
    | gone b =>
      obtain ⟨hb, hrest⟩ := List.forall_mem_cons.mp hmark
      rw [raw, Found, Clear, ← find_eq_none_iff hb.1]
      refine and_congr_right fun hnone => ?_
      rw [replaceFirst_of_none hnone]
      exact ih hrest before

theorem fill_of_clear (items : List (Item α β)) (hmark : ∀ b ∈ slots items, Unbordered (mark b)) :
    ∀ before, Clear mark value before items →
      fill mark value (before ++ raw mark items) (slots items) = before ++ expand value items := by
  induction items with
  | nil => exact fun _ _ => rfl
  | cons item items ih =>
    intro before h
    cases item with
    | lit a =>
      have := ih hmark (before ++ [a]) h
      rwa [List.append_assoc, List.append_assoc] at this
    | slot b =>
      obtain ⟨hb, hrest⟩ := List.forall_mem_cons.mp hmark
      have hfind := (find_append hb (raw mark items)).mpr h.1
      rw [raw, slots, fill, ← List.append_assoc, replaceFirst_of_find hfind, ih hrest _ h.2,
        List.append_assoc]
      rfl
    | gone b =>
      obtain ⟨hb, hrest⟩ := List.forall_mem_cons.mp hmark
      have hnone := (find_eq_none_iff hb.1).mpr h.1
      rw [raw, slots, fill, replaceFirst_of_none hnone]
      exact ih hrest before h.2

end Substitute
end Lib
end Ebftpd
