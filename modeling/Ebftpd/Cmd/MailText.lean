import Ebftpd.Lib.Pieces
import Ebftpd.Util.String

/-!
# Ebftpd.Cmd.MailText

The body of a message as `SITE MSG READ` shows it (`MSGCommand::Read` in `src/cmd/site/msg.cpp`), cut into lines
by `WordWrap` (`util/util/string.cpp`). A line ends in front of the last hyphen, space or tabulator among its
first 70 characters, which is not shown; where there is none, in the middle of a word.

That no line end is in a body, since it comes from a line of the control connection, is left out, and so is what
stands above the body.

* `bodyLines_shown`: the loop ends, with lines that were cut like this.
* `readBody_shows`: the width of the rows, and what of the body is on them.
-/

namespace Ebftpd
namespace Cmd
namespace MailText

open Util Lib

def isBreak (ch : Char) : Bool := ch == '-' || ch == ' ' || ch == '\t'

/-- `find_last_of("- \t")`. -/
def findLastOf : Str → Option Nat
  | [] => none
  | ch :: s =>
    match findLastOf s with
    | some pos => some (pos + 1)
    | none => if isBreak ch then some 0 else none

/-- What is returned, and what is left of the source. -/
def wordWrap (source : Str) (length : Nat) : Str × Str :=
  if source.length < length then (source, [])
  else
    match findLastOf (source.take length) with
    | none => (source.take length, source.drop length)
    | some pos => ((source.take length).take pos, source.drop (pos + 1))

/-- The loop over the body, with fuel. -/
def bodyLines (length : Nat) : Nat → Str → Option (List Str)
  | _, [] => some []
  | 0, _ :: _ => none
  | fuel + 1, ch :: body =>
    match wordWrap (ch :: body) length with
    | (part, rest) => (bodyLines length fuel rest).map (part :: ·)

def row (part : Str) : Str := "| ".toList ++ (part ++ List.replicate (70 - part.length) ' ') ++ " |".toList

def frame : Str := ".----.--------------------.----------------------------------------------.".toList

def readBody (body : Str) : Option (List Str) := (bodyLines 70 body.length body).map (·.map row)

/-! ## Cutting a line -/

theorem findLastOf_none {s : Str} (h : findLastOf s = none) : ∀ c ∈ s, isBreak c = false := by
  induction s with
  | nil => simp
  | cons ch s ih =>
    rw [findLastOf] at h
    split at h
    · cases h
    · rename_i hnone
      split at h
      · cases h
      · rename_i hch
        intro c hc
        obtain rfl | hc := List.mem_cons.mp hc
        · simpa using hch
        · exact ih hnone c hc

theorem findLastOf_some {s : Str} {pos : Nat} (h : findLastOf s = some pos) :
    ∃ part c rest, s = part ++ c :: rest ∧ part.length = pos ∧ isBreak c = true := by
  induction s generalizing pos with
  | nil => cases h
  | cons ch s ih =>
    rw [findLastOf] at h
    split at h
    · rename_i pos' hpos
      cases h
      obtain ⟨part, c, rest, rfl, rfl, hc⟩ := ih hpos
      exact ⟨ch :: part, c, rest, rfl, rfl, hc⟩
    · split at h
      · rename_i hch
        cases h
        exact ⟨[], ch, s, rfl, rfl, hch⟩
      · cases h

/-- A body and the lines it is cut into. -/
inductive Shown (length : Nat) : Str → List Str → Prop where
  | none : Shown length [] []
  | last {body : Str} (hshort : body.length < length) : Shown length body [body]
  | atBreak {part : Str} {c : Char} {rest : Str} {lines : List Str} (hc : isBreak c = true)
      (hpart : part.length < length) (h : Shown length rest lines) : Shown length (part ++ c :: rest) (part :: lines)
  | inWord {part rest : Str} {lines : List Str} (hpart : part.length = length)
      (hsolid : ∀ c ∈ part, isBreak c = false) (h : Shown length rest lines) :
      Shown length (part ++ rest) (part :: lines)

theorem wordWrap_shown {length : Nat} {source part rest : Str} {lines : List Str}
    (h : wordWrap source length = (part, rest)) (hrest : Shown length rest lines) :
    source.length < length ∧ part = source ∧ rest = [] ∨ Shown length source (part :: lines) := by
  unfold wordWrap at h
  split at h
  · rename_i hshort
    cases h
    exact .inl ⟨hshort, rfl, rfl⟩
  · rename_i hlong
    have htake : (source.take length).length = length := by
      rw [List.length_take]
      omega
    right
    split at h
    · rename_i hnone
      cases h
      have hshown := Shown.inWord htake (findLastOf_none hnone) hrest
      rwa [List.take_append_drop] at hshown
    · rename_i pos hsome
      obtain ⟨part', c, rest', hsplit, rfl, hc⟩ := findLastOf_some hsome
      have hsource : source = part' ++ c :: (rest' ++ source.drop length) := by
        rw [← List.cons_append, ← List.append_assoc, ← hsplit, List.take_append_drop]
      have hpart : part'.length < length := by
        rw [hsplit, List.length_append, List.length_cons] at htake
        omega
      have hdrop : source.drop (part'.length + 1) = rest' ++ source.drop length := by
        conv_lhs => rw [hsource]
        rw [List.append_cons, List.drop_left' (by simp)]
      rw [hsplit, List.take_left' rfl, hdrop] at h
      cases h
      rw [hsource]
      exact .atBreak hc hpart hrest

/-- Each turn takes a character at least, so the body gives out. -/
theorem wordWrap_rest {length : Nat} (hlength : 0 < length) {source part rest : Str} (hne : source ≠ [])
    (h : wordWrap source length = (part, rest)) : rest.length < source.length := by
  have hpos := List.length_pos_of_ne_nil hne
  unfold wordWrap at h
  split at h
  · cases h
    exact hpos
  · split at h
    · cases h
      rw [List.length_drop]
      omega
    · cases h
      rw [List.length_drop]
      omega

theorem bodyLines_nil (length fuel : Nat) : bodyLines length fuel [] = some [] := by
  cases fuel <;> rfl

theorem bodyLines_shown {length : Nat} (hlength : 0 < length) : ∀ {fuel : Nat} {body : Str}, body.length ≤ fuel →
    ∃ lines, bodyLines length fuel body = some lines ∧ Shown length body lines := by
  intro fuel
  induction fuel with
  | zero =>
    intro body hbody
    rw [List.eq_nil_of_length_eq_zero (Nat.le_zero.mp hbody)]
    exact ⟨[], rfl, .none⟩
  | succ fuel ih =>
    intro body hbody
    cases body with
    | nil => exact ⟨[], rfl, .none⟩
    | cons ch body =>
      obtain ⟨part, rest, hwrap⟩ : ∃ part rest, wordWrap (ch :: body) length = (part, rest) := ⟨_, _, rfl⟩
      have hless := wordWrap_rest hlength (List.cons_ne_nil ch body) hwrap
      have hfuel : rest.length ≤ fuel := by omega
      obtain ⟨lines, hlines, hshown⟩ := ih hfuel
      have hall : bodyLines length (fuel + 1) (ch :: body) = some (part :: lines) := by
        simp only [bodyLines, hwrap, hlines, Option.map_some]
      refine ⟨part :: lines, hall, ?_⟩
      obtain ⟨hshort, rfl, rfl⟩ | h := wordWrap_shown hwrap hshown
      · rw [bodyLines_nil] at hlines
        cases hlines
        exact .last hshort
      · exact h

/-! ## What is on the lines -/

namespace Shown

variable {length : Nat} {body : Str} {lines : List Str}

theorem width (h : Shown length body lines) : ∀ part ∈ lines, part.length ≤ length := by
  induction h with
  | none => simp
  | last hshort => simpa using Nat.le_of_lt hshort
  | atBreak _ hpart _ ih => exact List.forall_mem_cons.mpr ⟨Nat.le_of_lt hpart, ih⟩
  | inWord hpart _ _ ih => exact List.forall_mem_cons.mpr ⟨Nat.le_of_eq hpart, ih⟩

/-- No letter is lost. -/
theorem letters (h : Shown length body lines) :
    (lines.flatten.filter fun c => !isBreak c) = body.filter fun c => !isBreak c := by
  induction h with
  | none => rfl
  | last _ => simp
  | atBreak hc _ _ ih => simp [ih, hc]
  | inWord _ _ _ ih => simp [ih]

/-- A word that is cut has more letters than a line. -/
theorem words_iff (hlength : 0 < length) (h : Shown length body lines) :
    lines.flatMap (pieces isBreak) = pieces isBreak body ↔ ∀ w ∈ pieces isBreak body, w.length ≤ length := by
  induction h with
  | none => simp
  | last hshort =>
    have hall : ∀ w ∈ pieces isBreak _, w.length ≤ length := fun w hw =>
      Nat.le_trans (length_le_of_mem_pieces hw) (Nat.le_of_lt hshort)
    simpa using hall
  | @atBreak part c rest lines hc hpart _ ih =>
    have hall : ∀ w ∈ pieces isBreak part, w.length ≤ length := fun w hw =>
      Nat.le_trans (length_le_of_mem_pieces hw) (Nat.le_of_lt hpart)
    rw [List.flatMap_cons, pieces_append_cons hc, List.append_cancel_left_eq, ih, List.forall_mem_append]
    exact (and_iff_right hall).symm
  | @inWord part rest lines hpart hsolid _ ih =>
    have hne : part ≠ [] := List.ne_nil_of_length_pos (hpart ▸ hlength)
    rw [List.flatMap_cons, pieces_solid hne hsolid]
    cases rest with
    | nil =>
      have hnil : lines.flatMap (pieces isBreak) = [] := by simpa using ih
      rw [List.append_nil, pieces_solid hne hsolid, hnil]
      simp [hpart]
    | cons c rest =>
      cases hc : isBreak c with
      | true =>
        rw [pieces_append_cons hc, pieces_solid hne hsolid, List.append_cancel_left_eq, List.forall_mem_append,
          ← pieces_cons hc, ih]
        simp [hpart]
      | false =>
        obtain ⟨q, qs, hq, hlen⟩ := pieces_solid_append hsolid hc rest
        rw [hq]
        constructor
        · intro h
          cases h
          omega
        · intro h
          have hfits := h q (List.mem_cons_self ..)
          omega

end Shown

theorem row_length {part : Str} (h : part.length ≤ 70) : (row part).length = frame.length := by
  have hframe : frame.length = 74 := congrArg List.length String.toList_ofList
  have hleft : "| ".toList.length = 2 := congrArg List.length String.toList_ofList
  have hright : " |".toList.length = 2 := congrArg List.length String.toList_ofList
  rw [hframe, row, List.length_append, List.length_append, List.length_append, List.length_replicate, hleft, hright]
  omega

/-- Every body comes to an end, on rows as wide as the frame, with all its letters in order; and its words, where
a hyphen divides words too, are those on the rows if and only if none of them has more than 70 letters. -/
theorem readBody_shows (body : Str) :
    ∃ lines : List Str, bodyLines 70 body.length body = some lines ∧ readBody body = some (lines.map row) ∧
      (∀ part ∈ lines, (row part).length = frame.length) ∧
      (lines.flatten.filter fun c => !isBreak c) = (body.filter fun c => !isBreak c) ∧
      (lines.flatMap (pieces isBreak) = pieces isBreak body ↔ ∀ w ∈ pieces isBreak body, w.length ≤ 70) := by
  have hlength : 0 < 70 := by decide
  obtain ⟨lines, hlines, hshown⟩ := bodyLines_shown hlength (Nat.le_refl body.length)
  refine ⟨lines, hlines, ?_, fun part hpart => row_length (hshown.width part hpart), hshown.letters,
    hshown.words_iff hlength⟩
  rw [readBody, hlines]
  rfl

end MailText
end Cmd
end Ebftpd
