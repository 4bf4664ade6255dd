import Ebftpd.Lib.Pieces
import Ebftpd.Util.String

/-!
# Ebftpd.Util.Whitespace

What `CompressWhitespace` (`util/util/string.cpp`) leaves of a text.

* `compress_joined`: the words of the text, a single white space character between two of them.
* `compress_eq_self`: a text like that is left as it is.
-/

namespace Ebftpd
namespace Util

/-- The words of a text are what stands between its white space. -/
def words (s : Str) : List Str := (s.splitOnP isSpace).filter fun w => !w.isEmpty

def Blank (s : Str) : Prop := ∀ c ∈ s, isSpace c = true

instance (s : Str) : Decidable (Blank s) := inferInstanceAs (Decidable (∀ c ∈ s, _))

structure Word (w : Str) : Prop where
  ne_nil : w ≠ []
  solid : ∀ c ∈ w, isSpace c = false

/-- The words one behind the other, with one white space character between two of them. -/
inductive Joined : List Str → Str → Prop where
  | none : Joined [] []
  | last (w : Str) : Joined [w] w
  | more (w : Str) {c : Char} {u : Str} {ws : List Str} {s : Str} (hc : isSpace c = true)
      (h : Joined (u :: ws) s) : Joined (w :: u :: ws) (w ++ c :: s)

/-! ## Words -/

theorem words_append_space {c : Char} (hc : isSpace c = true) (s t : Str) :
    words (s ++ c :: t) = words s ++ words t :=
  Lib.pieces_append_cons hc s t

theorem words_cons_space {c : Char} (hc : isSpace c = true) (t : Str) : words (c :: t) = words t :=
  Lib.pieces_cons hc t

theorem words_word {w : Str} (hw : Word w) : words w = [w] :=
  Lib.pieces_solid hw.ne_nil hw.solid

theorem words_word_append {w : Str} (hw : Word w) {c : Char} (hc : isSpace c = true) (t : Str) :
    words (w ++ c :: t) = w :: words t := by
  rw [words_append_space hc, words_word hw, List.singleton_append]

theorem solid_of_mem_splitOnP : ∀ {s w : Str}, w ∈ s.splitOnP isSpace → ∀ c ∈ w, isSpace c = false := by
  intro s
  induction s with
  | nil => simp [List.splitOnP_nil]
  | cons d s ih =>
    intro w hw
    rw [List.splitOnP_cons_eq_if_modifyHead] at hw
    split at hw
    · rcases List.mem_cons.mp hw with rfl | hw
      · simp
      · exact ih hw
    · rename_i hd
      obtain ⟨u, us, hus⟩ := List.exists_cons_of_ne_nil (List.splitOnP_ne_nil isSpace s)
      rw [hus, List.modifyHead_cons] at hw
      rcases List.mem_cons.mp hw with rfl | hw
      · intro c hc
        rcases List.mem_cons.mp hc with rfl | hc
        · simpa using hd
        · exact ih (hus ▸ List.mem_cons_self) c hc
      · exact ih (hus ▸ List.mem_cons_of_mem _ hw)

theorem word_of_mem {s w : Str} (hw : w ∈ words s) : Word w := by
  obtain ⟨hmem, hne⟩ := List.mem_filter.mp hw
  exact ⟨by simpa using hne, solid_of_mem_splitOnP hmem⟩

/-! ## The loop -/

/-- White space behind the words, at most one character, and none without a word. -/
def Trail (ws : List Str) (e : Str) : Prop := e = [] ∨ ∃ c, e = [c] ∧ isSpace c = true ∧ ws ≠ []

theorem Trail.of_ne_nil {ws ws' : List Str} {e : Str} (h : Trail ws e) (hne : ws' ≠ []) : Trail ws' e := by
  rcases h with h | ⟨c, hc, hspace, -⟩
  · exact .inl h
  · exact .inr ⟨c, hc, hspace, hne⟩

/-- What the loop makes of the text behind a white space character, and of the text behind the
beginning of a word. -/
theorem compressLoop_shape (s : Str) :
    (∃ r e, compressLoop true s = r ++ e ∧ Joined (words s) r ∧ Trail (words s) e) ∧
    ∀ cur, Word cur → ∃ r e, cur ++ compressLoop false s = r ++ e ∧
      Joined (words (cur ++ s)) r ∧ Trail (words (cur ++ s)) e := by
  induction s with
  | nil =>
    refine ⟨⟨[], [], rfl, by simpa [words, List.splitOnP_nil] using Joined.none, .inl rfl⟩, ?_⟩
    intro cur hcur
    refine ⟨cur, [], rfl, ?_, .inl rfl⟩
    rw [List.append_nil, words_word hcur]
    exact .last cur
  | cons c s ih =>
    obtain ⟨⟨r, e, hloop, hjoin, htrail⟩, hword⟩ := ih
    by_cases hc : isSpace c = true
    · refine ⟨⟨r, e, ?_, ?_, ?_⟩, ?_⟩
      · rw [compressLoop, if_pos (by simpa using hc), hloop]
      · rwa [words_cons_space hc]
      · rwa [words_cons_space hc]
      · intro cur hcur
        rw [words_word_append hcur hc, compressLoop, if_neg (by simp), hc, hloop]
        cases hws : words s with
        | nil =>
          -- the last word: the blank behind it stays
          rw [hws] at hjoin htrail
          cases hjoin
          have he : e = [] := by
            rcases htrail with h | ⟨_, _, _, h⟩
            · exact h
            · exact absurd rfl h
          exact ⟨cur, [c], by rw [he]; rfl, .last cur, .inr ⟨c, rfl, hc, by simp⟩⟩
        | cons u ws =>
          rw [hws] at hjoin htrail
          exact ⟨cur ++ c :: r, e, by simp, .more cur hc hjoin, htrail.of_ne_nil (by simp)⟩
    · rw [Bool.not_eq_true] at hc
      have hgrow : ∀ cur : Str, (∀ d ∈ cur, isSpace d = false) → Word (cur ++ [c]) := by
        intro cur hcur
        refine ⟨by simp, fun d hd => ?_⟩
        rcases List.mem_append.mp hd with hd | hd
        · exact hcur d hd
        · exact List.mem_singleton.mp hd ▸ hc
      refine ⟨?_, ?_⟩
      · rw [compressLoop, if_neg (by simp [hc]), hc]
        exact hword [c] (hgrow [] (by simp))
      · intro cur hcur
        rw [compressLoop, if_neg (by simp), hc]
        simpa using hword (cur ++ [c]) (hgrow cur hcur.solid)

/-! ## What is left -/

theorem joined_head {ws : List Str} {r : Str} (h : Joined ws r) (hws : ∀ w ∈ ws, Word w) :
    r.head?.any isSpace = false := by
  have hhead : ∀ {w : Str}, Word w → ∀ s : Str, (w ++ s).head?.any isSpace = false := by
    intro w hw s
    obtain ⟨c, w', rfl⟩ := List.exists_cons_of_ne_nil hw.ne_nil
    simpa using hw.solid c (by simp)
  cases h with
  | none => rfl
  | last w => simpa using hhead (hws r (by simp)) []
  | more w hc h => exact hhead (hws w (by simp)) _

theorem joined_last {ws : List Str} {r : Str} (h : Joined ws r) (hws : ∀ w ∈ ws, Word w) :
    r.getLast?.any isSpace = false := by
  induction h with
  | none => rfl
  | last w =>
    have hw := hws w (by simp)
    rw [List.getLast?_eq_some_getLast hw.ne_nil]
    simpa using hw.solid _ (List.getLast_mem hw.ne_nil)
  | @more w c u ws s hc h ih =>
    have hs : s ≠ [] := by
      have hu := (hws u (by simp)).ne_nil
      cases h <;> simp [hu]
    have hlast : (w ++ c :: s).getLast? = s.getLast? := by
      rw [List.getLast?_append_of_ne_nil _ (by simp), List.getLast?_cons]
      simp [List.getLast?_eq_some_getLast hs]
    rw [hlast]
    exact ih (fun v hv => hws v (by simp [hv]))

/-- The words of the text, joined by single white space characters. -/
theorem compress_joined (s : Str) : Joined (words s) (compressWhitespaceCopy s) := by
  -- the text less a blank at its front: the words, and a blank behind them perhaps
  have hfront : ∃ t r e, compressLoop false s = t ∧
      (if t.head?.any isSpace then t.tail else t) = r ++ e ∧
      Joined (words s) r ∧ Trail (words s) e := by
    cases s with
    | nil => exact ⟨[], [], [], rfl, rfl, by simpa [words, List.splitOnP_nil] using Joined.none, .inl rfl⟩
    | cons c s =>
      by_cases hc : isSpace c = true
      · obtain ⟨r, e, hloop, hjoin, htrail⟩ := (compressLoop_shape s).1
        refine ⟨_, r, e, rfl, ?_, ?_, ?_⟩
        · simpa [compressLoop, hc] using hloop
        · rwa [words_cons_space hc]
        · rwa [words_cons_space hc]
      · rw [Bool.not_eq_true] at hc
        obtain ⟨r, e, hloop, hjoin, htrail⟩ := (compressLoop_shape s).2 [c] ⟨by simp, by simpa using hc⟩
        exact ⟨_, r, e, rfl, by simpa [compressLoop, hc] using hloop, hjoin, htrail⟩
  obtain ⟨t, r, e, ht, hcut, hjoin, htrail⟩ := hfront
  have hlast := joined_last hjoin fun _ => word_of_mem
  have heq : compressWhitespaceCopy s = if (r ++ e).getLast?.any isSpace then (r ++ e).dropLast else r ++ e := by
    simp only [compressWhitespaceCopy, ht, hcut]
  rw [heq]
  rcases htrail with rfl | ⟨c, rfl, hc, -⟩
  · rwa [List.append_nil, hlast, if_neg (by simp)]
  · rwa [if_pos (by simpa using hc), List.dropLast_concat]

theorem compressLoop_word {w : Str} (hw : ∀ c ∈ w, isSpace c = false) (space : Bool) (hne : w ≠ []) (s : Str) :
    compressLoop space (w ++ s) = w ++ compressLoop false s := by
  induction w generalizing space with
  | nil => exact absurd rfl hne
  | cons c w ih =>
    have hc := hw c (by simp)
    rw [List.cons_append, compressLoop, hc, if_neg (by simp), List.cons_append]
    cases w with
    | nil => rfl
    | cons d w => rw [ih (fun x hx => hw x (by simp [hx])) false (by simp)]

theorem compressLoop_joined {ws : List Str} {r : Str} (h : Joined ws r) (hws : ∀ w ∈ ws, Word w) :
    ∀ space, compressLoop space r = r := by
  induction h with
  | none => intro space; rfl
  | last w =>
    intro space
    have hw := hws w (by simp)
    simpa [compressLoop] using compressLoop_word hw.solid space hw.ne_nil []
  | @more w c u ws s hc h ih =>
    intro space
    have hw := hws w (by simp)
    rw [compressLoop_word hw.solid space hw.ne_nil, compressLoop, if_neg (by simp), hc,
      ih (fun v hv => hws v (by simp [hv]))]

/-- A text of words joined like that is left as it is. -/
theorem compress_eq_self {ws : List Str} {r : Str} (h : Joined ws r) (hws : ∀ w ∈ ws, Word w) :
    compressWhitespaceCopy r = r := by
  simp [compressWhitespaceCopy, compressLoop_joined h hws, joined_head h hws, joined_last h hws]

theorem compress_idempotent (s : Str) :
    compressWhitespaceCopy (compressWhitespaceCopy s) = compressWhitespaceCopy s :=
  compress_eq_self (compress_joined s) fun _ => word_of_mem

theorem words_eq_nil {s : Str} : words s = [] ↔ Blank s := by
  induction s with
  | nil => simp [words, List.splitOnP_nil, Blank]
  | cons c s ih =>
    by_cases hc : isSpace c = true
    · rw [words_cons_space hc, ih]
      simp [Blank, hc]
    · obtain ⟨u, us, hus⟩ := List.exists_cons_of_ne_nil (List.splitOnP_ne_nil isSpace s)
      simp [words, Blank, List.splitOnP_cons_eq_if_modifyHead, hc, hus]

/-- Only a blank text is compressed to nothing. -/
theorem compress_eq_nil {s : Str} : compressWhitespaceCopy s = [] ↔ Blank s := by
  have hjoin := compress_joined s
  have hwords : ∀ w ∈ words s, Word w := fun _ => word_of_mem
  rw [← words_eq_nil]
  constructor
  · intro h
    rw [h] at hjoin
    cases hws : words s with
    | nil => rfl
    | cons w ws =>
      have hw := hwords w (by simp [hws])
      rw [hws] at hjoin
      generalize hr : ([] : Str) = r at hjoin
      cases hjoin with
      | last => exact absurd hr.symm hw.ne_nil
      | more => simp at hr
  · intro h
    rw [h] at hjoin
    generalize compressWhitespaceCopy s = r at hjoin ⊢
    cases hjoin
    rfl

end Util
end Ebftpd
