import Mathlib.Data.Bool.AllAny
import Ebftpd.Text.Parser

/-!
# Ebftpd.Text.Include

What the parser of templates does with text that has no tags, and with the text of an include file.
Two buffers are `Alike` that differ in the positions for error messages at most.

* `keepsText_iff`: a text without tags and backslashes goes to the buffer as it is, if and only if it
  has no opening brace: a brace by itself is left out.
* `parse_like`: a parse does not depend on the positions, nor on the depth if there is enough of it.
* `splices_iff`: an include directive with a name that is read as it is written is the content of the
  file in its place, if and only if the content does not end within a tag.
* `name_iff`: with any other name the file is not even looked for.
* `keepsAndSplices_iff`: these together.
-/

namespace Ebftpd
namespace Text
namespace TemplateBuffer

open Util
open Lib.Substitute

variable {inc inc' : Include} {t u : TemplateBuffer} {c : Char}

/-! ## One letter -/

def tick (t : TemplateBuffer) : TemplateBuffer := { t with charPos := t.charPos + 1 }

def feed (t : TemplateBuffer) : TemplateBuffer := { t with charPos := 0, linePos := t.linePos + 1 }

theorem parseChar_cr : parseChar inc t '\r' = .ok t.tick := rfl

theorem parseChar_newline : parseChar inc t '\n' = .ok (t.feed.capture '\n') := rfl

theorem parseChar_backslash : parseChar inc t '\\' =
    .ok (if t.state = .None then { t.tick with state := .Escape } else t.tick.openBrace) := rfl

theorem parseChar_brace : parseChar inc t '\x7b' = .ok t.tick.openBrace := rfl

theorem parseChar_other (h : c ∉ ['\r', '\n', '\\', '\x7b', '%', '\x7d']) :
    parseChar inc t c = .ok (t.tick.capture c) := by
  unfold parseChar
  split <;> first | exact absurd (by decide) h | rfl

theorem parseChar_percent_logic (h : t.state = .ReadLogic) : parseChar inc t '%' =
    (t.tick.parseLogic inc >>= fun t => .ok { t with state := .Skip }) := by
  obtain ⟨buffer, var, state, block, templ, charPos, linePos⟩ := t
  obtain rfl : state = .ReadLogic := h
  rfl

theorem parseChar_percent_open (h : t.state = .Open) :
    parseChar inc t '%' = .ok { t.tick with state := .ReadLogic } := by
  obtain ⟨buffer, var, state, block, templ, charPos, linePos⟩ := t
  obtain rfl : state = .Open := h
  rfl

theorem parseChar_percent (h : t.state ≠ .ReadLogic) (h' : t.state ≠ .Open) :
    parseChar inc t '%' = .ok (t.tick.capture '%') := by
  obtain ⟨buffer, var, state, block, templ, charPos, linePos⟩ := t
  cases state <;> first | exact absurd rfl h | exact absurd rfl h' | rfl

theorem parseChar_close_filter (h : t.state = .ReadFilter) : parseChar inc t '\x7d' =
    (t.tick.parseFilter >>= fun t => .ok { t with state := .Close }) := by
  obtain ⟨buffer, var, state, block, templ, charPos, linePos⟩ := t
  obtain rfl : state = .ReadFilter := h
  rfl

theorem parseChar_close (h : t.state ≠ .ReadFilter) : parseChar inc t '\x7d' = .ok (t.tick.capture '\x7d') := by
  obtain ⟨buffer, var, state, block, templ, charPos, linePos⟩ := t
  cases state <;> first | exact absurd rfl h | rfl

/-- The same but for the positions. -/
def Alike (t u : TemplateBuffer) : Prop := ∃ charPos linePos, u = { t with charPos := charPos, linePos := linePos }

theorem Alike.refl (t : TemplateBuffer) : Alike t t := ⟨_, _, rfl⟩

theorem Alike.symm (h : Alike t u) : Alike u t := by
  obtain ⟨charPos, linePos, rfl⟩ := h
  exact ⟨_, _, rfl⟩

theorem Alike.trans {v : TemplateBuffer} (h : Alike t u) (h' : Alike u v) : Alike t v := by
  obtain ⟨charPos, linePos, rfl⟩ := h
  obtain ⟨charPos', linePos', rfl⟩ := h'
  exact ⟨_, _, rfl⟩

/-- The state that a letter leads to in `ParseChar`. -/
def charState (state : TemplateState) (c : Char) : TemplateState :=
  if c = '\\' ∧ state = .None then .Escape
  else if c = '\\' ∨ c = '\x7b' then if state = .Open then .ReadFilter else .Open
  else if c = '%' ∧ state = .ReadLogic then .Skip
  else if c = '%' ∧ state = .Open then .ReadLogic
  else if c = '\x7d' ∧ state = .ReadFilter then .Close
  else state

/-- The file that an include directive of this text looks for. -/
def lookedUp (var : Str) : Str := trimQuotes ((split (toLowerCopy (trimCopy var)) [' '] false).getD 1 [])

/-- What the text of a logic tag can do. -/
theorem parseLogic_cases (h : t.parseLogic inc = .ok u) :
    u = { t with var := [] }.parseBlock ∨ (∃ block, u = { t with var := [] }.startBlock block) ∨
      inc (lookedUp t.var) { t with var := [] } = .ok u := by
  simp only [parseLogic] at h
  split at h
  · exact .inl (Except.ok.inj h).symm
  split at h
  · exact .inr (.inl ⟨.Head, (Except.ok.inj h).symm⟩)
  split at h
  · exact .inr (.inl ⟨.Body, (Except.ok.inj h).symm⟩)
  split at h
  · exact .inr (.inl ⟨.Foot, (Except.ok.inj h).symm⟩)
  split at h
  · split at h
    · cases h
    · exact .inr (.inr h)
  · cases h

/-- What a letter can do in `ParseChar`. -/
inductive CharStep (inc : Include) (t : TemplateBuffer) (c : Char) : TemplateBuffer → Prop where
  | move (hc : c ∈ ['\r', '\\', '\x7b'] ∨ (c = '%' ∧ t.state = .Open)) :
      CharStep inc t c { t.tick with state := charState t.state c }
  | capture (s : TemplateBuffer) (hs : Alike t s) (hc : c ∉ ['\r', '\\', '\x7b'])
      (hlogic : ¬ (c = '%' ∧ (t.state = .ReadLogic ∨ t.state = .Open))) (hfilter : ¬ (c = '\x7d' ∧ t.state = .ReadFilter)) :
      CharStep inc t c (s.capture c)
  | logic (s : TemplateBuffer) (hc : c = '%') (hstate : t.state = .ReadLogic) (hs : t.tick.parseLogic inc = .ok s) :
      CharStep inc t c { s with state := .Skip }
  | filter (s : TemplateBuffer) (hc : c = '\x7d') (hstate : t.state = .ReadFilter) (hs : t.tick.parseFilter = .ok s) :
      CharStep inc t c { s with state := .Close }

theorem parseChar_step (h : parseChar inc t c = .ok u) : CharStep inc t c u := by
  by_cases hcr : c = '\r'
  · subst hcr
    cases parseChar_cr.symm.trans h
    exact .move (.inl (by decide))
  by_cases hbackslash : c = '\\'
  · subst hbackslash
    have hmove : (if t.state = .None then { t.tick with state := .Escape } else t.tick.openBrace) =
        { t.tick with state := charState t.state '\\' } := by
      unfold charState
      by_cases hnone : t.state = .None
      · rw [if_pos hnone, if_pos ⟨rfl, hnone⟩]
      · rw [if_neg hnone, if_neg fun h => hnone h.2, if_pos (.inl rfl)]
        rfl
    rw [parseChar_backslash, hmove] at h
    cases h
    exact .move (.inl (by decide))
  by_cases hbrace : c = '\x7b'
  · subst hbrace
    have hmove : t.tick.openBrace = { t.tick with state := charState t.state '\x7b' } := by
      unfold charState
      rw [if_neg (by simp), if_pos (.inr rfl)]
      rfl
    rw [parseChar_brace, hmove] at h
    cases h
    exact .move (.inl (by decide))
  have hplain : c ∉ ['\r', '\\', '\x7b'] := by simp [hcr, hbackslash, hbrace]
  by_cases hlogic : c = '%' ∧ t.state = .ReadLogic
  · obtain ⟨rfl, hstate⟩ := hlogic
    rw [parseChar_percent_logic hstate] at h
    obtain ⟨s, hs, hret⟩ := bind_ok h
    cases hret
    exact .logic s rfl hstate hs
  by_cases hopen : c = '%' ∧ t.state = .Open
  · obtain ⟨rfl, hstate⟩ := hopen
    have hmove : charState t.state '%' = .ReadLogic := by rw [hstate]; rfl
    rw [parseChar_percent_open hstate, ← hmove] at h
    cases h
    exact .move (.inr ⟨rfl, hstate⟩)
  have hpercent : ¬ (c = '%' ∧ (t.state = .ReadLogic ∨ t.state = .Open)) := fun ⟨hc, hstate⟩ =>
    hstate.elim (fun h => hlogic ⟨hc, h⟩) fun h => hopen ⟨hc, h⟩
  by_cases hfilter : c = '\x7d' ∧ t.state = .ReadFilter
  · obtain ⟨rfl, hstate⟩ := hfilter
    rw [parseChar_close_filter hstate] at h
    obtain ⟨s, hs, hret⟩ := bind_ok h
    cases hret
    exact .filter s rfl hstate hs
  by_cases hnl : c = '\n'
  · subst hnl
    cases parseChar_newline.symm.trans h
    exact .capture t.feed ⟨_, _, rfl⟩ hplain hpercent hfilter
  have hother : parseChar inc t c = .ok (t.tick.capture c) := by
    by_cases hc : c = '%'
    · subst hc
      exact parseChar_percent (fun h => hlogic ⟨rfl, h⟩) fun h => hopen ⟨rfl, h⟩
    by_cases hclose : c = '\x7d'
    · subst hclose
      exact parseChar_close fun h => hfilter ⟨rfl, h⟩
    · exact parseChar_other (by simp [hcr, hnl, hbackslash, hbrace, hc, hclose])
  cases hother.symm.trans h
  exact .capture t.tick ⟨_, _, rfl⟩ hplain hpercent hfilter

/-- In most states a letter is only parsed. -/
def Reading (state : TemplateState) : Prop := state ≠ .Escape ∧ state ≠ .Skip ∧ state ≠ .Close

theorem parseState_reading (h : Reading t.state) : parseState inc t c = parseChar inc t c := by
  obtain ⟨hescape, hskip, hclose⟩ := h
  unfold parseState
  split
  · contradiction
  · contradiction
  · contradiction
  · rfl

theorem parseState_escape (h : t.state = .Escape) :
    parseState inc t c = .ok { t with buffer := t.buffer ++ [.lit c], state := .None } := by
  obtain ⟨buffer, var, state, block, templ, charPos, linePos⟩ := t
  obtain rfl : state = .Escape := h
  rfl

theorem parseState_skip (h : t.state = .Skip) : parseState inc t c =
    if c = '\r' ∨ c = '\x7d' ∨ c = ' ' then .ok t
    else if c = '\n' then .ok { t with state := .None } else { t with state := .None }.parseChar inc c := by
  obtain ⟨buffer, var, state, block, templ, charPos, linePos⟩ := t
  obtain rfl : state = .Skip := h
  rfl

theorem parseState_close (h : t.state = .Close) : parseState inc t c =
    if c ≠ '\x7d' then .error (.malform t.linePos t.charPos []) else .ok { t with state := .None } := by
  obtain ⟨buffer, var, state, block, templ, charPos, linePos⟩ := t
  obtain rfl : state = .Close := h
  rfl

theorem capture_text (h : t.state = .None) : t.capture c = { t with buffer := t.buffer ++ [.lit c] } := by
  rw [capture, if_neg (by rw [h]; decide)]

theorem capture_logic (h : t.state = .ReadLogic) : t.capture c = { t with var := t.var ++ [c] } := by
  rw [capture, if_pos (.inl h)]

/-! ## Text without tags -/

def lits (s : Str) : List (Item Char Tag) := s.map .lit

theorem lits_append (a b : Str) : lits (a ++ b) = lits a ++ lits b := List.map_append

/-- A text with no backslash and no sequence that opens a tag. -/
structure PlainText where
  text : Str
  no_backslash : '\\' ∉ text
  no_filter : ¬ ['\x7b', '\x7b'] <:+: text
  no_logic : ¬ ['\x7b', '%'] <:+: text

/-- `Parse` leaves the text in the buffer, less its carriage returns, and changes nothing else. -/
def KeepsText (text : Str) : Prop :=
  ∀ (files : Str → Option Str) (depth : Nat) (t : TemplateBuffer), t.state = .None →
    ∃ u, parse files depth t text = .ok u ∧
      Alike { t with buffer := t.buffer ++ lits (text.filter (· != '\r')) } u

/-- Outside of tags a letter is text, but for braces, backslashes and carriage returns. -/
theorem parseState_text (inc : Include) (h : t.state = .None) (hc : c ∉ ['\\', '\x7b']) :
    ∃ u, parseState inc t c = .ok u ∧
      Alike { t with buffer := t.buffer ++ lits ([c].filter (· != '\r')) } u := by
  have hreading : Reading t.state := by rw [h]; exact ⟨by decide, by decide, by decide⟩
  have hnone : ∀ {s : TemplateState}, s ≠ .None → t.state ≠ s := fun hs he => hs (he.symm.trans h)
  rw [parseState_reading hreading]
  by_cases hcr : c = '\r'
  · subst hcr
    exact ⟨_, parseChar_cr, by simp [lits, tick, Alike]⟩
  · have hkept : [c].filter (· != '\r') = [c] := by simp [hcr]
    rw [hkept]
    have htext : ∀ s : TemplateBuffer, Alike t s →
        Alike { t with buffer := t.buffer ++ lits [c] } (s.capture c) := by
      rintro s ⟨charPos, linePos, rfl⟩
      rw [capture_text (by exact h)]
      exact ⟨_, _, rfl⟩
    by_cases hnl : c = '\n'
    · subst hnl
      exact ⟨_, parseChar_newline, htext _ ⟨_, _, rfl⟩⟩
    · by_cases hpercent : c = '%'
      · subst hpercent
        exact ⟨_, parseChar_percent (hnone (by decide)) (hnone (by decide)), htext _ ⟨_, _, rfl⟩⟩
      · by_cases hclose : c = '\x7d'
        · subst hclose
          exact ⟨_, parseChar_close (hnone (by decide)), htext _ ⟨_, _, rfl⟩⟩
        · refine ⟨_, parseChar_other ?_, htext _ ⟨_, _, rfl⟩⟩
          simp only [List.mem_cons, List.not_mem_nil, or_false, not_or] at hc ⊢
          exact ⟨hcr, hnl, hc.1, hc.2, hpercent, hclose⟩

theorem keepsText_of_no_brace {text : Str} (hbackslash : '\\' ∉ text) (hbrace : '\x7b' ∉ text) : KeepsText text := by
  intro files depth
  induction text with
  | nil => exact fun t _ => ⟨t, rfl, by simpa [lits] using Alike.refl t⟩
  | cons c text ih =>
    intro t ht
    rw [List.mem_cons, not_or] at hbackslash hbrace
    obtain ⟨u, hu, hlike⟩ := parseState_text (parseInclude files depth) ht
      (c := c) (by simpa using ⟨Ne.symm hbackslash.1, Ne.symm hbrace.1⟩)
    have hstate : u.state = .None := by
      obtain ⟨charPos, linePos, rfl⟩ := hlike
      exact ht
    obtain ⟨v, hv, hlike'⟩ := ih hbackslash.2 hbrace.2 u hstate
    refine ⟨v, by rw [parse, List.foldlM_cons, hu]; exact hv, ?_⟩
    obtain ⟨charPos, linePos, rfl⟩ := hlike
    obtain ⟨charPos', linePos', rfl⟩ := hlike'
    have hfilter : (c :: text).filter (· != '\r') = [c].filter (· != '\r') ++ text.filter (· != '\r') :=
      List.filter_append [c] text
    refine ⟨charPos', linePos', ?_⟩
    rw [hfilter, lits_append, ← List.append_assoc]

/-- No include file can be read. -/
def noFiles (_ : Str) : Option Str := none

theorem parseInclude_noFiles (depth : Nat) (file : Str) (t u : TemplateBuffer) :
    parseInclude noFiles depth file t ≠ .ok u := by
  cases depth <;> simp [parseInclude, noFiles]

/-- The letters that can add to the buffer, one item each: all but opening braces and carriage returns. -/
def adds (c : Char) : Bool := c != '\x7b' && c != '\r'

theorem length_parseLogic (hinc : ∀ file t u, inc file t ≠ .ok u) (h : t.parseLogic inc = .ok u) :
    u.buffer.length ≤ t.buffer.length := by
  rcases parseLogic_cases h with rfl | ⟨block, rfl⟩ | hinclude
  · exact Nat.zero_le _
  · exact Nat.zero_le _
  · exact absurd hinclude (hinc _ _ _)

theorem length_capture (c : Char) : (t.capture c).buffer.length ≤ t.buffer.length + 1 ∧ (t.capture c).state = t.state := by
  unfold capture
  split
  · exact ⟨Nat.le_succ _, rfl⟩
  · exact ⟨by simp, rfl⟩

theorem length_parseFilter (h : t.parseFilter = .ok u) : u.buffer.length = t.buffer.length + 1 := by
  obtain ⟨⟨tag, sec⟩, -, hret⟩ := bind_ok h
  cases hret
  simp

theorem charState_ne_escape {state : TemplateState} (hc : c ≠ '\\') (hstate : state ≠ .Escape) :
    charState state c ≠ .Escape := by
  unfold charState
  rw [if_neg fun h => hc h.1]
  split
  · split <;> decide
  split
  · decide
  split
  · decide
  split
  · decide
  · exact hstate

theorem length_parseChar (hinc : ∀ file t u, inc file t ≠ .ok u) (hc : c ≠ '\\') (ht : t.state ≠ .Escape)
    (h : parseChar inc t c = .ok u) :
    u.buffer.length ≤ t.buffer.length + (if adds c then 1 else 0) ∧ u.state ≠ .Escape := by
  cases parseChar_step h with
  | move hmove => exact ⟨Nat.le_add_right _ _, charState_ne_escape hc ht⟩
  | capture s hs hplain hlogic hfilter =>
    obtain ⟨charPos, linePos, rfl⟩ := hs
    obtain ⟨hlen, hsame⟩ := length_capture (t := { t with charPos := charPos, linePos := linePos }) c
    simp only [List.mem_cons, List.not_mem_nil, or_false, not_or] at hplain
    have hadds : adds c := by simp [adds, hplain]
    rw [if_pos hadds]
    exact ⟨hlen, by rw [hsame]; exact ht⟩
  | logic s hpercent hstate hs =>
    exact ⟨(length_parseLogic hinc hs).trans (Nat.le_add_right _ _), by simp⟩
  | filter s hclose hstate hs =>
    subst hclose
    exact ⟨(length_parseFilter hs).le, by simp⟩

theorem length_parseState (hinc : ∀ file t u, inc file t ≠ .ok u) (hc : c ≠ '\\') (ht : t.state ≠ .Escape)
    (h : parseState inc t c = .ok u) :
    u.buffer.length ≤ t.buffer.length + (if adds c then 1 else 0) ∧ u.state ≠ .Escape := by
  unfold parseState at h
  split at h
  · contradiction
  · split at h
    · cases h
      exact ⟨Nat.le_add_right _ _, ht⟩
    · split at h
      · cases h
        exact ⟨Nat.le_add_right _ _, by simp⟩
      · have hchar := length_parseChar hinc hc (by simp) h
        exact hchar
  · split at h
    · cases h
    · cases h
      exact ⟨Nat.le_add_right _ _, by simp⟩
  · exact length_parseChar hinc hc ht h

theorem length_parse {depth : Nat} {text : Str} (hbackslash : '\\' ∉ text) :
    ∀ {t : TemplateBuffer}, t.state ≠ .Escape → parse noFiles depth t text = .ok u →
      u.buffer.length ≤ t.buffer.length + text.countP adds := by
  induction text with
  | nil =>
    intro t _ h
    cases h
    exact Nat.le_refl _
  | cons c text ih =>
    intro t ht h
    rw [List.mem_cons, not_or] at hbackslash
    rw [parse, List.foldlM_cons] at h
    obtain ⟨s, hs, hrest⟩ := bind_ok h
    obtain ⟨hlen, hstate⟩ := length_parseState (parseInclude_noFiles depth) (Ne.symm hbackslash.1) ht hs
    have := ih hbackslash.2 hstate hrest
    rw [List.countP_cons]
    omega

theorem countP_adds_lt {text : Str} (hbrace : '\x7b' ∈ text) :
    text.countP adds < (text.filter (· != '\r')).length := by
  have hrest : text.countP adds = ((text.filter (· != '\r')).filter (· != '\x7b')).length := by
    rw [List.filter_filter, List.countP_eq_length_filter]
    rfl
  rw [hrest]
  exact List.length_filter_lt_length_iff_exists.mpr
    ⟨'\x7b', List.mem_filter.mpr ⟨hbrace, by decide⟩, by decide⟩

/-- A text without tags is kept if and only if it has no opening brace. -/
theorem keepsText_iff (text : PlainText) : KeepsText text.text ↔ '\x7b' ∉ text.text := by
  constructor
  · intro h hbrace
    obtain ⟨u, hu, charPos, linePos, rfl⟩ := h noFiles 0 {} rfl
    have hlen := length_parse text.no_backslash (by decide) hu
    have hlt := countP_adds_lt hbrace
    simp only [lits, List.nil_append, List.length_map, List.length_nil] at hlen
    omega
  · exact keepsText_of_no_brace text.no_backslash

/-! ## Positions and depth -/

/-- What an error says besides its position. -/
def kind : TemplateError → TemplateError
  | .malform _ _ msg => .malform 0 0 msg
  | e => e

/-- The second result is the first one but for the positions, or the first one lacked depth. -/
inductive Like : Except TemplateError TemplateBuffer → Except TemplateError TemplateBuffer → Prop where
  | endless (result : Except TemplateError TemplateBuffer) : Like (.error .endless) result
  | error {e e' : TemplateError} (h : kind e = kind e') : Like (.error e) (.error e')
  | ok {t u : TemplateBuffer} (h : Alike t u) : Like (.ok t) (.ok u)

theorem Like.bind {x y : Except TemplateError TemplateBuffer} {f g : TemplateBuffer → Except TemplateError TemplateBuffer}
    (h : Like x y) (hf : ∀ t u, Alike t u → Like (f t) (g u)) : Like (x >>= f) (y >>= g) := by
  cases h with
  | endless => exact .endless _
  | error h => exact .error h
  | ok h => exact hf _ _ h

def IncludeLike (inc inc' : Include) : Prop := ∀ file t u, Alike t u → Like (inc file t) (inc' file u)

theorem alike_capture (h : Alike t u) (c : Char) : Alike (t.capture c) (u.capture c) := by
  obtain ⟨charPos, linePos, rfl⟩ := h
  unfold capture
  by_cases hstate : t.state = .ReadLogic ∨ t.state = .ReadFilter
  · rw [if_pos hstate, if_pos hstate]
    exact ⟨_, _, rfl⟩
  · rw [if_neg hstate, if_neg hstate]
    exact ⟨_, _, rfl⟩

theorem alike_openBrace (h : Alike t u) : Alike t.openBrace u.openBrace := by
  obtain ⟨charPos, linePos, rfl⟩ := h
  exact ⟨_, _, rfl⟩

theorem alike_tick (h : Alike t u) : Alike t.tick u.tick := by
  obtain ⟨charPos, linePos, rfl⟩ := h
  exact ⟨_, _, rfl⟩

theorem alike_feed (h : Alike t u) : Alike t.feed u.feed := by
  obtain ⟨charPos, linePos, rfl⟩ := h
  exact ⟨_, _, rfl⟩

theorem alike_state (h : Alike t u) (state : TemplateState) :
    Alike { t with state := state } { u with state := state } := by
  obtain ⟨charPos, linePos, rfl⟩ := h
  exact ⟨_, _, rfl⟩

theorem parseLogic_like (hinc : IncludeLike inc inc') (h : Alike t u) :
    Like (t.parseLogic inc) (u.parseLogic inc') := by
  obtain ⟨charPos, linePos, rfl⟩ := h
  simp only [parseLogic]
  split
  · exact .ok ⟨_, _, rfl⟩
  split
  · exact .ok ⟨_, _, rfl⟩
  split
  · exact .ok ⟨_, _, rfl⟩
  split
  · exact .ok ⟨_, _, rfl⟩
  split
  · split
    · exact .error rfl
    · exact hinc _ _ _ ⟨_, _, rfl⟩
  · exact .error rfl

theorem parseFilter_like (h : Alike t u) : Like t.parseFilter u.parseFilter := by
  obtain ⟨charPos, linePos, rfl⟩ := h
  unfold parseFilter
  dsimp only
  cases (t.templ.sec t.block).registerTag (toLowerCopy (trimCopy t.var)) with
  | error e => exact .error rfl
  | ok r => exact .ok ⟨_, _, rfl⟩

theorem parseChar_like (hinc : IncludeLike inc inc') (h : Alike t u) (c : Char) :
    Like (parseChar inc t c) (parseChar inc' u c) := by
  have hstate : u.state = t.state := by
    obtain ⟨charPos, linePos, rfl⟩ := h
    rfl
  by_cases hcr : c = '\r'
  · subst hcr
    exact .ok (alike_tick h)
  by_cases hbrace : c = '\x7b'
  · subst hbrace
    exact .ok (alike_openBrace (alike_tick h))
  by_cases hbackslash : c = '\\'
  · subst hbackslash
    rw [parseChar_backslash, parseChar_backslash, hstate]
    split
    · exact .ok (alike_state (alike_tick h) _)
    · exact .ok (alike_openBrace (alike_tick h))
  by_cases hnl : c = '\n'
  · subst hnl
    exact .ok (alike_capture (alike_feed h) _)
  by_cases hpercent : c = '%'
  · subst hpercent
    by_cases hlogic : t.state = .ReadLogic
    · rw [parseChar_percent_logic hlogic, parseChar_percent_logic (hstate.trans hlogic)]
      exact (parseLogic_like hinc (alike_tick h)).bind fun _ _ h => .ok (alike_state h _)
    · by_cases hopen : t.state = .Open
      · rw [parseChar_percent_open hopen, parseChar_percent_open (hstate.trans hopen)]
        exact .ok (alike_state (alike_tick h) _)
      · rw [parseChar_percent hlogic hopen, parseChar_percent (hstate ▸ hlogic) (hstate ▸ hopen)]
        exact .ok (alike_capture (alike_tick h) _)
  by_cases hclose : c = '\x7d'
  · subst hclose
    by_cases hfilter : t.state = .ReadFilter
    · rw [parseChar_close_filter hfilter, parseChar_close_filter (hstate.trans hfilter)]
      exact (parseFilter_like (alike_tick h)).bind fun _ _ h => .ok (alike_state h _)
    · rw [parseChar_close hfilter, parseChar_close (hstate ▸ hfilter)]
      exact .ok (alike_capture (alike_tick h) _)
  have hother : c ∉ ['\r', '\n', '\\', '\x7b', '%', '\x7d'] := by
    simp [hcr, hbrace, hnl, hpercent, hclose, hbackslash]
  rw [parseChar_other hother, parseChar_other hother]
  exact .ok (alike_capture (alike_tick h) _)

theorem parseState_like (hinc : IncludeLike inc inc') (h : Alike t u) (c : Char) :
    Like (parseState inc t c) (parseState inc' u c) := by
  have hstate : u.state = t.state := by
    obtain ⟨charPos, linePos, rfl⟩ := h
    rfl
  by_cases hescape : t.state = .Escape
  · rw [parseState_escape hescape, parseState_escape (hstate.trans hescape)]
    obtain ⟨charPos, linePos, rfl⟩ := h
    exact .ok ⟨_, _, rfl⟩
  by_cases hskip : t.state = .Skip
  · rw [parseState_skip hskip, parseState_skip (hstate.trans hskip)]
    split
    · exact .ok h
    · split
      · exact .ok (alike_state h _)
      · exact parseChar_like hinc (alike_state h _) c
  by_cases hclose : t.state = .Close
  · rw [parseState_close hclose, parseState_close (hstate.trans hclose)]
    split
    · exact .error rfl
    · exact .ok (alike_state h _)
  have hreading : Reading t.state := ⟨hescape, hskip, hclose⟩
  rw [parseState_reading hreading, parseState_reading (hstate ▸ hreading)]
  exact parseChar_like hinc h c

theorem foldlM_like (hinc : IncludeLike inc inc') (text : Str) :
    ∀ {t u : TemplateBuffer}, Alike t u → Like (text.foldlM (parseState inc) t) (text.foldlM (parseState inc') u) := by
  induction text with
  | nil => exact fun h => .ok h
  | cons c text ih =>
    intro t u h
    rw [List.foldlM_cons, List.foldlM_cons]
    exact (parseState_like hinc h c).bind fun _ _ h => ih h

/-- With more depth an include file gives the same, unless it lacked depth. -/
theorem parseInclude_like (files : Str → Option Str) {depth depth' : Nat} (hdepth : depth ≤ depth') :
    IncludeLike (parseInclude files depth) (parseInclude files depth') := by
  induction depth generalizing depth' with
  | zero => exact fun _ _ _ _ => .endless _
  | succ depth ih =>
    obtain ⟨d, rfl⟩ : ∃ d, depth' = d + 1 := ⟨depth' - 1, by omega⟩
    intro file t u h
    rw [parseInclude, parseInclude]
    cases files file with
    | none => exact .error rfl
    | some text =>
      exact (foldlM_like (ih (by omega)) text (alike_state h .None)).bind fun _ _ h => .ok (alike_state h _)

theorem parse_like (files : Str → Option Str) {depth depth' : Nat} (hdepth : depth ≤ depth') (h : Alike t u)
    (text : Str) : Like (parse files depth t text) (parse files depth' u text) :=
  foldlM_like (parseInclude_like files hdepth) text h

/-! ## Include directives -/

abbrev Outcome := Except TemplateError (List (Item Char Tag) × TemplateBlock × Template)

/-- What comes of a parse: the text of the block and the sections, or the error without its position. -/
def outcome : Except TemplateError TemplateBuffer → Outcome
  | .ok t => .ok (t.buffer, t.block, t.templ)
  | .error e => .error (kind e)

/-- With enough depth, this comes of the text. -/
def Yields (files : Str → Option Str) (t : TemplateBuffer) (text : Str) (o : Outcome) : Prop :=
  o ≠ .error .endless ∧ ∃ depth, outcome (parse files depth t text) = o

def directive (file : Str) : Str := "\x7b% include \"".toList ++ (file ++ "\" %\x7d".toList)

/-- What is left of the text behind a directive, which takes blanks, closing braces and one line end
with it. -/
def behind (text : Str) : Str :=
  match text.dropWhile fun c => c == '\r' || c == '\x7d' || c == ' ' with
  | '\n' :: rest => rest
  | rest => rest

/-- Outside of tags, where a directive can stand. -/
structure Outer (t : TemplateBuffer) : Prop where
  state : t.state = .None
  var : t.var = []

/-- The content can be read, with some depth, where a directive can stand. -/
def Readable (files : Str → Option Str) (content : Str) : Prop :=
  ∃ depth t u, Outer t ∧ parse files depth t content = .ok u

def nextState (state : TemplateState) (c : Char) : TemplateState :=
  match state with
  | .Escape => .None
  | .Skip => if c = '\r' ∨ c = '\x7d' ∨ c = ' ' then .Skip else if c = '\n' then .None else charState .None c
  | .Close => .None
  | state => charState state c

/-- The letters do not end within a tag, behind a backslash or behind a directive. -/
def EndsOutside (content : Str) : Prop := content.foldl nextState .None = .None

/-- The directive is the content in its place, and then the text behind it. -/
def Splices (files : Str → Option Str) (file content : Str) : Prop :=
  ∀ t post o, Outer t → (Yields files t (directive file ++ post) o ↔ Yields files t (content ++ behind post) o)

/-- A name that comes out of a directive as it is written. -/
structure PlainName (file : Str) : Prop where
  chars : ∀ c ∈ file, c ∉ ['%', '\x7b', '\\', '\r', ' ']
  lower : ∀ c ∈ file, c.toLower = c
  front : file.head? ≠ some '"'
  back : file.getLast? ≠ some '"'

theorem outcome_like {x y : Except TemplateError TemplateBuffer} (h : Like x y)
    (hx : outcome x ≠ .error .endless) : outcome y = outcome x := by
  cases h with
  | endless => exact absurd rfl hx
  | error h => exact congrArg Except.error h.symm
  | ok h =>
    obtain ⟨charPos, linePos, rfl⟩ := h
    rfl

theorem yields_unique {files : Str → Option Str} {text : Str} {o o' : Outcome} (h : Yields files t text o)
    (h' : Yields files t text o') : o = o' := by
  obtain ⟨ho, depth, rfl⟩ := h
  obtain ⟨ho', depth', rfl⟩ := h'
  rw [← outcome_like (parse_like files (Nat.le_max_left depth depth') (.refl t) text) ho,
    ← outcome_like (parse_like files (Nat.le_max_right depth depth') (.refl t) text) ho']

theorem parse_append (files : Str → Option Str) (depth : Nat) (t : TemplateBuffer) (a b : Str) :
    parse files depth t (a ++ b) = parse files depth t a >>= fun u => parse files depth u b :=
  List.foldlM_append

theorem outcome_bind {x : Except TemplateError TemplateBuffer} {f g : TemplateBuffer → Except TemplateError TemplateBuffer}
    (h : ∀ t, x = .ok t → outcome (f t) = outcome (g t)) : outcome (x >>= f) = outcome (x >>= g) := by
  cases x with
  | error e => rfl
  | ok t => exact h t rfl

/-- Behind a directive the text goes on as outside of tags, less what the directive takes with it. -/
theorem outcome_skip (files : Str → Option Str) (depth : Nat) (post : Str) (h : t.state = .Skip) :
    outcome (parse files depth t post) = outcome (parse files depth { t with state := .None } (behind post)) := by
  induction post with
  | nil => rfl
  | cons c post ih =>
    have hstep : parse files depth t (c :: post) =
        parseState (parseInclude files depth) t c >>= fun u => parse files depth u post := List.foldlM_cons
    rw [hstep, parseState_skip h]
    by_cases hskip : c = '\r' ∨ c = '\x7d' ∨ c = ' '
    · have hbehind : behind (c :: post) = behind post := by
        unfold behind
        rw [List.dropWhile_cons_of_pos (by simpa [or_assoc] using hskip)]
      rw [if_pos hskip, hbehind]
      exact ih
    · have hdrop : (c :: post).dropWhile (fun c => c == '\r' || c == '\x7d' || c == ' ') = c :: post :=
        List.dropWhile_cons_of_neg (by simpa [or_assoc] using hskip)
      rw [if_neg hskip]
      by_cases hnl : c = '\n'
      · subst hnl
        rfl
      · have hbehind : behind (c :: post) = c :: post := by
          unfold behind
          rw [hdrop]
          split
          · rename_i heq
            exact absurd (List.cons.inj heq).1 hnl
          · rfl
        rw [if_neg hnl, hbehind]
        rfl

/-! ## A directive is read -/

/-- Within a logic tag the letters that mean nothing are read into its text. -/
theorem readLogic (inc : Include) {text : Str} (htext : ∀ c ∈ text, c ∉ ['%', '\x7b', '\\', '\r']) :
    ∀ {t : TemplateBuffer}, t.state = .ReadLogic → ∃ u, text.foldlM (parseState inc) t = .ok u ∧
      Alike { t with var := t.var ++ text } u := by
  induction text with
  | nil => exact fun {t} _ => ⟨t, rfl, by simpa using Alike.refl t⟩
  | cons c text ih =>
    intro t ht
    have hc := htext c List.mem_cons_self
    simp only [List.mem_cons, List.not_mem_nil, or_false, not_or] at hc
    have hreading : Reading t.state := by rw [ht]; exact ⟨by decide, by decide, by decide⟩
    obtain ⟨s, hs, hlike⟩ : ∃ s, parseState inc t c = .ok s ∧ Alike { t with var := t.var ++ [c] } s := by
      rw [parseState_reading hreading]
      by_cases hnl : c = '\n'
      · subst hnl
        exact ⟨_, parseChar_newline, by rw [capture_logic (by exact ht)]; exact ⟨_, _, rfl⟩⟩
      · by_cases hclose : c = '\x7d'
        · subst hclose
          refine ⟨_, parseChar_close (by rw [ht]; decide), ?_⟩
          rw [capture_logic (by exact ht)]
          exact ⟨_, _, rfl⟩
        · refine ⟨_, parseChar_other (by simp [hc, hnl, hclose]), ?_⟩
          rw [capture_logic (by exact ht)]
          exact ⟨_, _, rfl⟩
    have hstate : s.state = .ReadLogic := by
      obtain ⟨charPos, linePos, rfl⟩ := hlike
      exact ht
    obtain ⟨u, hu, hlike'⟩ := ih (fun d hd => htext d (List.mem_cons_of_mem _ hd)) hstate
    refine ⟨u, by rw [List.foldlM_cons, hs]; exact hu, ?_⟩
    obtain ⟨charPos, linePos, rfl⟩ := hlike
    obtain ⟨charPos', linePos', rfl⟩ := hlike'
    exact ⟨charPos', linePos', by simp⟩

/-- The text of the tag of a directive. -/
def logic (file : Str) : Str := " include \"".toList ++ (file ++ "\" ".toList)

theorem trimCopy_blanks {c d : Char} {w m m' : Str} (hc : isSpace c = false) (hd : isSpace d = false)
    (hhead : w = c :: m) (hlast : w = m' ++ [d]) : trimCopy (' ' :: (w ++ [' '])) = w := by
  have hspace : isSpace ' ' = true := by decide
  have hright : trimRightCopy (' ' :: (w ++ [' '])) = ' ' :: w := by
    have hrev : (' ' :: (w ++ [' '])).reverse = ' ' :: d :: (' ' :: m').reverse := by
      rw [hlast]
      simp
    rw [trimRightCopy, hrev, List.dropWhile_cons_of_pos hspace, List.dropWhile_cons_of_neg (by simp [hd]), hlast]
    simp
  rw [trimCopy, hright, trimLeftCopy, List.dropWhile_cons_of_pos hspace, hhead,
    List.dropWhile_cons_of_neg (by simp [hc])]

theorem trimQuotes_quoted {file : Str} (hfile : PlainName file) : trimQuotes ('"' :: (file ++ ['"'])) = file := by
  have hfront : ('"' :: (file ++ ['"'])).dropWhile (· == '"') = if file = [] then [] else file ++ ['"'] := by
    rw [List.dropWhile_cons_of_pos (by decide)]
    cases file with
    | nil => rfl
    | cons c file =>
      have := hfile.front
      exact List.dropWhile_beq_eq_self_of_head?_ne (by simpa using this)
  rw [trimQuotes, hfront]
  by_cases hempty : file = []
  · rw [if_pos hempty, hempty]
    rfl
  · have hback : file.reverse.head? ≠ some '"' := by
      rw [List.head?_reverse]
      exact hfile.back
    rw [if_neg hempty, List.reverse_concat, List.dropWhile_cons_of_pos (by decide),
      List.dropWhile_beq_eq_self_of_head?_ne hback, List.reverse_reverse]

/-- The directive up to the name of the file. -/
def word : Str := ['i', 'n', 'c', 'l', 'u', 'd', 'e']

theorem logic_eq (file : Str) : logic file = ' ' :: ((word ++ ' ' :: '"' :: (file ++ ['"'])) ++ [' ']) := by
  have hfront : " include \"".toList = ' ' :: (word ++ [' ', '"']) := by decide
  have hback : "\" ".toList = ['"', ' '] := by decide
  unfold logic
  rw [hfront, hback]
  simp only [List.cons_append, List.append_assoc, List.nil_append]

theorem split_include {file : Str} (hfile : PlainName file) :
    split (toLowerCopy (trimCopy (logic file))) [' '] false = [word, '"' :: (file ++ ['"'])] := by
  have htrim : trimCopy (logic file) = word ++ ' ' :: '"' :: (file ++ ['"']) := by
    have hfront : word = 'i' :: ['n', 'c', 'l', 'u', 'd', 'e'] := rfl
    have hback : word ++ ' ' :: '"' :: (file ++ ['"']) = (word ++ ' ' :: '"' :: file) ++ ['"'] := by simp
    have hi : isSpace 'i' = false := by decide
    have hquote : isSpace '"' = false := by decide
    rw [logic_eq]
    exact trimCopy_blanks hi hquote (by rw [hfront, List.cons_append]) hback
  have hlower : toLowerCopy (word ++ ' ' :: '"' :: (file ++ ['"'])) = word ++ ' ' :: '"' :: (file ++ ['"']) := by
    have hfile : file.map Char.toLower = file := (List.map_congr_left hfile.lower).trans (List.map_id' file)
    have hword : word.map Char.toLower = word := by decide
    have hspace : ' '.toLower = ' ' := by decide
    have hquote : '"'.toLower = '"' := by decide
    simp only [toLowerCopy, List.map_append, List.map_cons, List.map_nil, hfile, hword, hspace, hquote]
  have hword : ' ' ∉ word := by decide
  have hname : ' ' ∉ '"' :: (file ++ ['"']) := by
    simp only [List.mem_cons, List.mem_append, List.not_mem_nil, or_false, not_or]
    exact ⟨by decide, fun h => hfile.chars _ h (by simp), by decide⟩
  rw [htrim, hlower, split_eq_splitOn, List.splitOn_append_cons_self, List.splitOn_eq_singleton hword,
    List.splitOn_eq_singleton hname]
  rfl

theorem parseLogic_include {file : Str} (hfile : PlainName file) (ht : t.var = logic file) :
    t.parseLogic inc = inc file { t with var := [] } := by
  have hinclude : word = "include".toList := by decide
  have hendblock : word ≠ "endblock".toList := by decide
  have hhead : word ≠ "head".toList := by decide
  have hbody : word ≠ "body".toList := by decide
  have hfoot : word ≠ "foot".toList := by decide
  simp only [parseLogic, ht, split_include hfile, List.headD_cons]
  rw [if_neg hendblock, if_neg hhead, if_neg hbody, if_neg hfoot, if_pos hinclude, if_neg (by simp)]
  simp only [List.getD_cons_succ, List.getD_cons_zero, trimQuotes_quoted hfile]

theorem directive_eq (file : Str) : directive file = '\x7b' :: '%' :: (logic file ++ ['%', '\x7d']) := by
  have hfront : "\x7b% include \"".toList = '\x7b' :: '%' :: " include \"".toList := by decide
  have hback : "\" %\x7d".toList = "\" ".toList ++ ['%', '\x7d'] := by decide
  unfold directive logic
  rw [hfront, hback]
  simp only [List.cons_append, List.append_assoc]

theorem logic_chars {file bad : Str} (hbad : bad ⊆ ['%', '\x7b', '\\', '\r']) (hfile : ∀ c ∈ file, c ∉ bad) :
    ∀ c ∈ logic file, c ∉ bad := by
  have hfront : ∀ c ∈ " include \"".toList, c ∉ ['%', '\x7b', '\\', '\r'] :=
    List.all_iff_forall_prop.mp (by decide)
  have hback : ∀ c ∈ "\" ".toList, c ∉ ['%', '\x7b', '\\', '\r'] :=
    List.all_iff_forall_prop.mp (by decide)
  intro c hc
  rcases List.mem_append.mp hc with hc | hc
  · exact fun h => hfront c hc (hbad h)
  rcases List.mem_append.mp hc with hc | hc
  · exact hfile c hc
  · exact fun h => hback c hc (hbad h)

/-- The letters of a tag up to its end. -/
theorem parse_tag (files : Str → Option Str) (depth : Nat) {text : Str}
    (htext : ∀ c ∈ text, c ∉ ['%', '\x7b', '\\', '\r']) (ht : Outer t) (rest : Str) :
    ∃ u, Alike { t with state := .ReadLogic, var := text } u ∧
      parse files depth t ('\x7b' :: '%' :: (text ++ rest)) = parse files depth u rest := by
  obtain ⟨buffer, var, state, block, templ, charPos, linePos⟩ := t
  obtain ⟨hstate, hvar⟩ := ht
  obtain rfl : state = .None := hstate
  obtain rfl : var = [] := hvar
  obtain ⟨u, hu, hlike⟩ := readLogic (parseInclude files depth) htext
    (t := { buffer := buffer, var := [], state := .ReadLogic, block := block, templ := templ,
            charPos := charPos + 1 + 1, linePos := linePos }) rfl
  refine ⟨u, Alike.trans ⟨_, _, rfl⟩ hlike, ?_⟩
  have hopen : parse files depth ⟨buffer, [], .None, block, templ, charPos, linePos⟩
      ('\x7b' :: '%' :: (text ++ rest)) =
      parse files depth ⟨buffer, [], .ReadLogic, block, templ, charPos + 1 + 1, linePos⟩ (text ++ rest) := rfl
  rw [hopen, parse_append, parse, hu]
  rfl

/-- A directive is its include file, and then what is behind it is skipped. -/
theorem parse_directive (files : Str → Option Str) {file : Str} (hfile : PlainName file) (depth : Nat)
    (ht : Outer t) (post : Str) :
    ∃ v, Alike { t with state := .ReadLogic } v ∧ parse files depth t (directive file ++ post) =
      parseInclude files depth file v >>= fun s => parse files depth { s with state := .Skip } ('\x7d' :: post) := by
  have hchars : ∀ c ∈ file, c ∉ ['%', '\x7b', '\\', '\r'] := fun c hc h => hfile.chars c hc (by
    simp only [List.mem_cons, List.not_mem_nil, or_false] at h ⊢
    tauto)
  obtain ⟨u, hlike, hu⟩ := parse_tag files depth (logic_chars (List.Subset.refl _) hchars) ht
    ('%' :: '\x7d' :: post)
  have hdirective : directive file ++ post = '\x7b' :: '%' :: (logic file ++ '%' :: '\x7d' :: post) := by
    rw [directive_eq]
    simp only [List.cons_append, List.append_assoc, List.nil_append]
  have hstate : u.state = .ReadLogic := by
    obtain ⟨charPos, linePos, rfl⟩ := hlike
    rfl
  have hvar : u.tick.var = logic file := by
    obtain ⟨charPos, linePos, rfl⟩ := hlike
    rfl
  refine ⟨{ u.tick with var := [] }, ?_, ?_⟩
  · obtain ⟨charPos, linePos, rfl⟩ := hlike
    exact ⟨charPos + 1, linePos, by rw [← ht.var]; rfl⟩
  · have hreading : Reading u.state := by rw [hstate]; exact ⟨by decide, by decide, by decide⟩
    have hstep : parse files depth u ('%' :: '\x7d' :: post) =
        parseState (parseInclude files depth) u '%' >>= fun s => parse files depth s ('\x7d' :: post) :=
      List.foldlM_cons
    rw [hdirective, hu, hstep, parseState_reading hreading, parseChar_percent_logic hstate,
      parseLogic_include hfile hvar]
    cases parseInclude files depth file { u.tick with var := [] } <;> rfl

/-- A directive with a plain name is the content, and behind it the text goes on outside of tags. -/
theorem outcome_directive {files : Str → Option Str} {file content : Str} (hfile : PlainName file)
    (hcontent : files file = some content) (depth : Nat) (ht : Outer t) (post : Str) :
    ∃ v, Alike t v ∧ outcome (parse files (depth + 1) t (directive file ++ post)) =
      outcome (parse files depth v content >>= fun s =>
        parse files (depth + 1) { s with state := .None } (behind post)) := by
  obtain ⟨v, hlike, hv⟩ := parse_directive files hfile (depth + 1) ht post
  refine ⟨{ v with state := .None }, ?_, ?_⟩
  · have hnone := alike_state hlike .None
    rw [← ht.state] at hnone ⊢
    exact hnone
  · rw [hv, parseInclude, hcontent]
    have hbehind : behind ('\x7d' :: post) = behind post := by
      unfold behind
      rw [List.dropWhile_cons_of_pos (by decide)]
    dsimp only
    rw [bind_assoc]
    refine outcome_bind fun s _ => ?_
    rw [← hbehind]
    exact outcome_skip (t := { s with state := .Skip }) files (depth + 1) ('\x7d' :: post) rfl

/-! ## The content in the place of the directive -/

theorem state_capture (c : Char) : (t.capture c).state = t.state := (length_capture c).2

theorem state_parseChar (h : parseChar inc t c = .ok u) : u.state = charState t.state c := by
  cases parseChar_step h with
  | move hmove => rfl
  | capture s hs hplain hlogic hfilter =>
    obtain ⟨charPos, linePos, rfl⟩ := hs
    simp only [List.mem_cons, List.not_mem_nil, or_false, not_or] at hplain
    rw [state_capture, charState, if_neg fun h => hplain.2.1 h.1, if_neg fun h => h.elim hplain.2.1 hplain.2.2,
      if_neg fun h => hlogic ⟨h.1, .inl h.2⟩, if_neg fun h => hlogic ⟨h.1, .inr h.2⟩, if_neg hfilter]
  | logic s hpercent hstate hs =>
    subst hpercent
    rw [hstate]
    rfl
  | filter s hclose hstate hs =>
    subst hclose
    rw [hstate]
    rfl

theorem state_parseState (h : parseState inc t c = .ok u) : u.state = nextState t.state c := by
  by_cases hescape : t.state = .Escape
  · cases (parseState_escape hescape).symm.trans h
    rw [hescape, nextState]
  by_cases hskip : t.state = .Skip
  · rw [parseState_skip hskip] at h
    rw [hskip, nextState]
    split at h
    · rename_i hc
      cases h
      rw [if_pos hc, hskip]
    · rename_i hc
      rw [if_neg hc]
      split at h
      · rename_i hnl
        cases h
        rw [if_pos hnl]
      · rename_i hnl
        rw [if_neg hnl]
        exact state_parseChar h
  by_cases hclose : t.state = .Close
  · rw [parseState_close hclose] at h
    rw [hclose, nextState]
    split at h
    · cases h
    · cases h
      rfl
  rw [parseState_reading ⟨hescape, hskip, hclose⟩] at h
  have hnext : nextState t.state c = charState t.state c := by
    unfold nextState
    split <;> first | contradiction | rfl
  rw [hnext]
  exact state_parseChar h

/-- The letters alone decide the state that a parse ends in. -/
theorem state_parse {files : Str → Option Str} {depth : Nat} {text : Str} :
    ∀ {t : TemplateBuffer}, parse files depth t text = .ok u → u.state = text.foldl nextState t.state := by
  induction text with
  | nil =>
    intro t h
    cases h
    rfl
  | cons c text ih =>
    intro t h
    rw [parse, List.foldlM_cons] at h
    obtain ⟨s, hs, hrest⟩ := bind_ok h
    rw [List.foldl_cons, ← state_parseState hs]
    exact ih hrest

theorem alike_of_outer (h : Outer t) (hlike : Alike t u) : Outer u := by
  obtain ⟨charPos, linePos, rfl⟩ := hlike
  exact ⟨h.state, h.var⟩

theorem yields_zero {files : Str → Option Str} {file : Str} (hfile : PlainName file) (ht : Outer t) (post : Str) :
    outcome (parse files 0 t (directive file ++ post)) = .error .endless := by
  obtain ⟨v, -, hv⟩ := parse_directive files hfile 0 ht post
  rw [hv]
  rfl

/-- Where the content ends outside of tags, the state that the directive leaves it with is its own. -/
theorem outcome_content {files : Str → Option Str} {content : Str} (ht : Outer t)
    (hends : Readable files content → EndsOutside content) (depth depth' : Nat) (rest : Str) :
    outcome (parse files depth t content >>= fun s => parse files depth' { s with state := .None } rest) =
      outcome (parse files depth t content >>= fun s => parse files depth' s rest) := by
  refine outcome_bind fun s hs => ?_
  have hstate : s.state = .None := by
    rw [state_parse hs, ht.state]
    exact hends ⟨depth, t, s, ht, hs⟩
  rw [← hstate]

theorem splices_of_endsOutside {files : Str → Option Str} {file content : Str} (hfile : PlainName file)
    (hcontent : files file = some content) (hends : Readable files content → EndsOutside content) :
    Splices files file content := by
  intro t post o ht
  have hplace : ∀ depth, parse files depth t (content ++ behind post) =
      parse files depth t content >>= fun s => parse files depth s (behind post) := fun depth =>
    parse_append files depth t content (behind post)
  constructor
  · rintro ⟨ho, depth, rfl⟩
    obtain _ | depth := depth
    · exact absurd (yields_zero hfile ht post) ho
    · obtain ⟨v, hlike, hv⟩ := outcome_directive hfile hcontent depth ht post
      rw [hv, outcome_content (alike_of_outer ht hlike) hends] at ho ⊢
      refine ⟨ho, depth + 1, ?_⟩
      rw [hplace]
      exact outcome_like ((parse_like files (Nat.le_succ depth) hlike.symm content).bind
        fun _ _ h => parse_like files (Nat.le_refl _) h (behind post)) ho
  · rintro ⟨ho, depth, rfl⟩
    obtain ⟨v, hlike, hv⟩ := outcome_directive hfile hcontent depth ht post
    refine ⟨ho, depth + 1, ?_⟩
    rw [hv, outcome_content (alike_of_outer ht hlike) hends]
    rw [hplace] at ho ⊢
    exact outcome_like ((parse_like files (Nat.le_refl _) hlike content).bind
      fun _ _ h => parse_like files (Nat.le_succ depth) h (behind post)) ho

/-- A letter that does not do the same in this state as outside of tags. -/
def telling : TemplateState → Char
  | .Open => '%'
  | .Escape => '\\'
  | .Skip => ' '
  | _ => 'x'

/-- The letter gets to be behind a directive. -/
def tellingText (state : TemplateState) : Str := if state = .Skip then ['\n', ' '] else [telling state]

theorem behind_tellingText (state : TemplateState) : behind (tellingText state) = [telling state] := by
  cases state <;> decide

theorem parse_letter {files : Str → Option Str} {depth : Nat} (c : Char) :
    parse files depth t [c] = parseState (parseInclude files depth) t c := by
  rw [parse, List.foldlM_cons]
  cases parseState (parseInclude files depth) t c <;> rfl

/-- Outside of tags every such letter goes to the text, but for the backslash. -/
theorem outcome_telling_outside (files : Str → Option Str) (depth : Nat) (ht : t.state = .None) (state : TemplateState) :
    outcome (parse files depth t [telling state]) =
      .ok (t.buffer ++ lits (if state = .Escape then [] else [telling state]), t.block, t.templ) := by
  obtain ⟨buffer, var, state', block, templ, charPos, linePos⟩ := t
  obtain rfl : state' = .None := ht
  rw [parse_letter]
  cases state <;> simp [telling, parseState, parseChar, capture, outcome, lits]

theorem outcome_telling_inside (files : Str → Option Str) (depth : Nat) (hstate : t.state ≠ .None) (buffer : List (Item Char Tag))
    (h : outcome (parse files depth t [telling t.state]) = .ok (buffer, t.block, t.templ)) :
    buffer = t.buffer ++ lits (if t.state = .Escape then [telling t.state] else []) := by
  obtain ⟨buffer', var, state', block, templ, charPos, linePos⟩ := t
  rw [parse_letter] at h
  cases state' <;> simp_all [telling, parseState, parseChar, capture, outcome, lits]

theorem parse_ok_like {files : Str → Option Str} {depth depth' : Nat} {text : Str} {v : TemplateBuffer}
    (hdepth : depth ≤ depth') (hlike : Alike t v) (h : parse files depth t text = .ok u) :
    ∃ u', Alike u u' ∧ parse files depth' v text = .ok u' := by
  have hread := parse_like files hdepth hlike text
  rw [h] at hread
  cases hu : parse files depth' v text with
  | error e =>
    rw [hu] at hread
    cases hread
  | ok u' =>
    rw [hu] at hread
    cases hread with
    | ok h => exact ⟨u', h, rfl⟩

/-- Behind content that ends within a tag, a letter tells whether the state was left as it was. -/
theorem endsOutside_of_splices {files : Str → Option Str} {file content : Str} (hfile : PlainName file)
    (hcontent : files file = some content) (hsplices : Splices files file content)
    (hread : Readable files content) : EndsOutside content := by
  obtain ⟨depth, t, u, ht, hu⟩ := hread
  have hends : content.foldl nextState .None = u.state := by rw [state_parse hu, ht.state]
  by_contra hne
  have hinside : u.state ≠ .None := fun h => hne (hends.trans h)
  -- behind the directive the letter goes to the text
  obtain ⟨v, hlike, hv⟩ := outcome_directive hfile hcontent depth ht (tellingText u.state)
  obtain ⟨w, ⟨charPos, linePos, rfl⟩, hw⟩ := parse_ok_like (Nat.le_refl depth) hlike hu
  rw [hw, behind_tellingText] at hv
  have hdirective : Yields files t (directive file ++ tellingText u.state)
      (.ok (u.buffer ++ lits (if u.state = .Escape then [] else [telling u.state]), u.block, u.templ)) :=
    ⟨by simp, depth + 1, hv.trans (outcome_telling_outside files (depth + 1) rfl u.state)⟩
  -- behind the content it does not
  obtain ⟨-, depth', hplace⟩ := (hsplices t (tellingText u.state) _ ht).mp hdirective
  have hmore := outcome_like (parse_like files (Nat.le_max_right depth depth') (.refl t) _)
    (by rw [hplace]; simp)
  rw [hplace, behind_tellingText, parse_append] at hmore
  obtain ⟨w, ⟨charPos', linePos', rfl⟩, hw⟩ := parse_ok_like (Nat.le_max_left depth depth') (.refl t) hu
  rw [hw] at hmore
  have hbuffer := outcome_telling_inside
    (t := { u with charPos := charPos', linePos := linePos' }) files (max depth depth') hinside _ hmore
  have hlength := congrArg List.length hbuffer
  simp only [List.length_append, lits, List.length_map] at hlength
  split at hlength <;> simp at hlength

/-- A directive with a plain name is the content of its file, if and only if the content ends outside of
tags, or cannot be read anywhere. -/
theorem splices_iff {files : Str → Option Str} {file content : Str} (hfile : PlainName file)
    (hcontent : files file = some content) :
    Splices files file content ↔ (Readable files content → EndsOutside content) :=
  ⟨endsOutside_of_splices hfile hcontent, splices_of_endsOutside hfile hcontent⟩

/-! ## Names that no directive finds -/

theorem toLower_toLower (c : Char) : c.toLower.toLower = c.toLower := by
  by_cases h : 'a' ≤ c.toLower ∧ c.toLower ≤ 'z'
  · have hno : ¬ (c.toLower.val ≥ 'A'.val ∧ c.toLower.val ≤ 'Z'.val) := by
      rintro ⟨-, hle⟩
      exact absurd (UInt32.le_iff_toNat_le.mp (UInt32.le_trans (Char.le_def.mp h.1) hle)) (by decide)
    exact dif_neg hno
  · exact congrArg Char.toLower (eq_of_toLower h rfl).symm

theorem mem_trimQuotes {c : Char} {s : Str} (h : c ∈ trimQuotes s) : c ∈ s := by
  rw [trimQuotes, List.mem_reverse] at h
  exact (List.dropWhile_suffix _).subset (List.mem_reverse.mp ((List.dropWhile_suffix _).subset h))

theorem mem_lookedUp {c : Char} {var : Str} (h : c ∈ lookedUp var) :
    c ≠ ' ' ∧ c ∈ toLowerCopy (trimCopy var) := by
  have hget := mem_trimQuotes h
  rw [List.getD_eq_getElem?_getD] at hget
  cases hsplit : (split (toLowerCopy (trimCopy var)) [' '] false)[1]? with
  | none =>
    rw [hsplit] at hget
    cases hget
  | some tok =>
    rw [hsplit] at hget
    have htok := List.mem_of_getElem? hsplit
    refine ⟨fun hc => not_mem_of_mem_split htok (hc ▸ hget), ?_⟩
    exact (mem_of_mem_splitLoop _ false [] tok htok hget).resolve_left List.not_mem_nil

theorem lookedUp_lower {c : Char} {var : Str} (h : c ∈ lookedUp var) : c.toLower = c := by
  obtain ⟨d, -, rfl⟩ := List.mem_map.mp (mem_lookedUp h).2
  exact toLower_toLower d

theorem mem_var_of_lookedUp {c : Char} {var : Str} (hc : ¬ ('a' ≤ c ∧ c ≤ 'z')) (h : c ∈ lookedUp var) : c ∈ var := by
  obtain ⟨d, hd, hlower⟩ := List.mem_map.mp (mem_lookedUp h).2
  rw [eq_of_toLower hc hlower] at hd
  exact mem_of_mem_trim hd

theorem head_dropWhile_quote (s : Str) : (s.dropWhile (· == '"')).head? ≠ some '"' := by
  intro h
  have := List.head?_dropWhile_not (· == '"') s
  rw [h] at this
  cases this

theorem lookedUp_front (var : Str) : (lookedUp var).head? ≠ some '"' := by
  intro h
  rw [lookedUp, trimQuotes] at h
  generalize (split (toLowerCopy (trimCopy var)) [' '] false).getD 1 [] = s at h
  have hprefix := List.reverse_prefix.mpr (List.dropWhile_suffix (l := (s.dropWhile (· == '"')).reverse) (· == '"'))
  rw [List.reverse_reverse] at hprefix
  obtain ⟨rest, hrest⟩ := hprefix
  refine head_dropWhile_quote s ?_
  rw [← hrest, List.head?_append, h]
  rfl

theorem lookedUp_back (var : Str) : (lookedUp var).getLast? ≠ some '"' := by
  rw [lookedUp, trimQuotes, List.getLast?_reverse]
  exact head_dropWhile_quote _

/-- What is read of a tag has none of these letters, if it has none yet; a percent sign is kept out as
long as no other tag is opened. -/
structure Blind (bad : Char) (t : TemplateBuffer) : Prop where
  var : bad ∉ t.var
  state : bad = '%' → t.state ∈ [.None, .ReadLogic, .Skip]

/-- Two includes that cannot read any other file. -/
structure Only (file : Str) (inc inc' : Include) : Prop where
  same : ∀ g t, g ≠ file → inc g t = inc' g t
  fails : ∀ g t u, g ≠ file → inc g t ≠ .ok u

theorem parseLogic_only {file : Str} (hinc : Only file inc inc') (hlook : lookedUp t.var ≠ file) :
    t.parseLogic inc = t.parseLogic inc' := by
  have hsame := hinc.same (lookedUp t.var) { t with var := [] } hlook
  unfold lookedUp at hsame
  simp only [parseLogic, hsame]

theorem parseState_only {file : Str} (hinc : Only file inc inc') (hlook : lookedUp t.var ≠ file) (c : Char) :
    parseState inc t c = parseState inc' t c := by
  have hchar : ∀ s : TemplateBuffer, s.var = t.var → parseChar inc s c = parseChar inc' s c := by
    intro s hs
    by_cases h : c = '%' ∧ s.state = .ReadLogic
    · obtain ⟨rfl, hlogic⟩ := h
      rw [parseChar_percent_logic hlogic, parseChar_percent_logic hlogic,
        parseLogic_only (t := s.tick) hinc (by rw [show s.tick.var = t.var from hs]; exact hlook)]
    · unfold parseChar
      dsimp only
      split
      case h_5 =>
        split
        · rename_i hlogic
          exact absurd ⟨rfl, hlogic⟩ h
        · rfl
        · rfl
      all_goals rfl
  unfold parseState
  rw [hchar t rfl, hchar { t with state := .None } rfl]

theorem parseLogic_blind {file : Str} (hinc : Only file inc inc') (hlook : lookedUp t.var ≠ file)
    (h : t.parseLogic inc = .ok u) : u.var = [] := by
  rcases parseLogic_cases h with rfl | ⟨block, rfl⟩ | hinclude
  · rfl
  · rfl
  · exact absurd hinclude (hinc.fails _ _ _ hlook)

theorem blind_capture {bad c : Char} (h : Blind bad t) (hc : bad = c → t.state ≠ .ReadLogic ∧ t.state ≠ .ReadFilter) :
    Blind bad (t.capture c) := by
  unfold capture
  split
  · rename_i hreads
    refine ⟨?_, h.state⟩
    simp only [List.mem_append, List.mem_singleton, not_or]
    exact ⟨h.var, fun hbad => hreads.elim (hc hbad).1 (hc hbad).2⟩
  · exact ⟨h.var, h.state⟩

theorem blind_parseChar {bad : Char} {file : Str} (hbad : bad ∈ ['%', '\x7b', '\\', '\r'])
    (hinc : Only file inc inc') (hlook : lookedUp t.var ≠ file) (hc : bad = '%' → c ∉ ['\x7b', '\\'])
    (ht : Blind bad t) (h : parseChar inc t c = .ok u) : Blind bad u := by
  cases parseChar_step h with
  | move hmove =>
    refine ⟨ht.var, fun he => ?_⟩
    have hstate := ht.state he
    simp only [List.mem_cons, List.not_mem_nil, or_false] at hmove hstate
    have hno := hc he
    simp only [List.mem_cons, List.not_mem_nil, or_false, not_or] at hno
    rcases hmove with (rfl | rfl | rfl) | ⟨-, hopen⟩
    · exact ht.state he
    · exact absurd rfl hno.2
    · exact absurd rfl hno.1
    · rw [hopen] at hstate
      simp at hstate
  | capture s hs hplain hlogic hfilter =>
    obtain ⟨charPos, linePos, rfl⟩ := hs
    refine blind_capture ⟨ht.var, ht.state⟩ fun he => ?_
    subst he
    simp only [List.mem_cons, List.not_mem_nil, or_false, not_or] at hbad hplain
    obtain rfl : bad = '%' := hbad.resolve_right fun h => h.elim hplain.2.2 fun h => h.elim hplain.2.1 hplain.1
    have hstate := ht.state rfl
    refine ⟨fun h => hlogic ⟨rfl, .inl h⟩, fun h => ?_⟩
    rw [show t.state = .ReadFilter from h] at hstate
    simp at hstate
  | logic s hpercent hstate hs =>
    have hvar : s.var = [] := parseLogic_blind (t := t.tick) hinc hlook hs
    exact ⟨by simp [hvar], fun _ => by simp⟩
  | filter s hclose hstate hs =>
    obtain ⟨⟨tag, sec⟩, -, hret⟩ := bind_ok hs
    cases hret
    refine ⟨List.not_mem_nil, fun he => ?_⟩
    have hread := ht.state he
    rw [hstate] at hread
    simp at hread

theorem blind_parseState {bad : Char} {file : Str} (hbad : bad ∈ ['%', '\x7b', '\\', '\r'])
    (hinc : Only file inc inc') (hlook : lookedUp t.var ≠ file) (hc : bad = '%' → c ∉ ['\x7b', '\\'])
    (ht : Blind bad t) (h : parseState inc t c = .ok u) : Blind bad u := by
  unfold parseState at h
  split at h
  · cases h
    exact ⟨ht.var, fun _ => by simp⟩
  · split at h
    · cases h
      exact ht
    · split at h
      · cases h
        exact ⟨ht.var, fun _ => by simp⟩
      · exact blind_parseChar (t := { t with state := .None }) hbad hinc hlook hc ⟨ht.var, fun _ => by simp⟩ h
  · split at h
    · cases h
    · cases h
      exact ⟨ht.var, fun _ => by simp⟩
  · exact blind_parseChar hbad hinc hlook hc ht h

/-- Where the file is never looked for, it does not matter what it is. -/
theorem foldlM_only {file : Str} (hinc : Only file inc inc') {P : TemplateBuffer → Prop} {Q : Char → Prop}
    (hlook : ∀ t, P t → lookedUp t.var ≠ file)
    (hstep : ∀ t c u, P t → Q c → parseState inc t c = .ok u → P u) {text : Str} (htext : ∀ c ∈ text, Q c) :
    ∀ {t : TemplateBuffer}, P t → text.foldlM (parseState inc) t = text.foldlM (parseState inc') t := by
  induction text with
  | nil => exact fun _ => rfl
  | cons c text ih =>
    intro t ht
    rw [List.foldlM_cons, List.foldlM_cons, ← parseState_only hinc (hlook t ht) c]
    cases hs : parseState inc t c with
    | error e => rfl
    | ok s =>
      have hrest : ∀ d ∈ text, Q d := fun d hd => htext d (List.mem_cons_of_mem c hd)
      exact ih hrest (hstep t c s ht (htext c List.mem_cons_self) hs)

/-- There is but one file. -/
def only (file content : Str) (name : Str) : Option Str := if name = file then some content else none

theorem only_parseInclude (file content content' : Str) (depth : Nat) :
    Only file (parseInclude (only file content) depth) (parseInclude (only file content') depth) := by
  cases depth with
  | zero => exact ⟨fun _ _ _ => rfl, fun _ _ _ _ h => by cases h⟩
  | succ depth =>
    refine ⟨fun g t hg => ?_, fun g t u hg h => ?_⟩
    · simp only [parseInclude, only, if_neg hg]
    · simp only [parseInclude, only, if_neg hg] at h
      cases h

/-- The directive is the same whatever the file has in it. -/
def Unread (file : Str) : Prop := ∀ content content' depth,
  parse (only file content) depth {} (directive file ++ []) = parse (only file content') depth {} (directive file ++ [])

theorem unread_of_lookedUp {file : Str} (h : ∀ var, lookedUp var ≠ file) : Unread file :=
  fun content content' depth => foldlM_only (only_parseInclude file content content' depth) (P := fun _ => True)
    (Q := fun _ => True) (fun t _ => h t.var) (fun _ _ _ _ _ _ => trivial) (fun _ _ => trivial) trivial

theorem unread_of_bad {bad : Char} {file : Str} (hbad : bad ∈ ['%', '\x7b', '\\', '\r']) (hmem : bad ∈ file)
    (hpercent : bad = '%' → '\x7b' ∉ file ∧ '\\' ∉ file) : Unread file := by
  intro content content' depth
  have hlook : ∀ t, Blind bad t → lookedUp t.var ≠ file := by
    intro t ht he
    have hcase : ∀ b ∈ ['%', '\x7b', '\\', '\r'], ¬ ('a' ≤ b ∧ b ≤ 'z') :=
      List.all_iff_forall_prop.mp (by decide)
    exact ht.var (mem_var_of_lookedUp (hcase bad hbad) (he ▸ hmem))
  have hopen : ∀ files, parse files depth {} (directive file ++ []) =
      parse files depth { state := .ReadLogic, charPos := 3 } (logic file ++ ['%', '\x7d']) := by
    intro files
    rw [List.append_nil, directive_eq]
    generalize logic file ++ ['%', '\x7d'] = rest
    rfl
  have hletters : ∀ c ∈ logic file ++ ['%', '\x7d'], bad = '%' → c ∉ ['\x7b', '\\'] := by
    intro c hc hb
    obtain ⟨hbrace, hbackslash⟩ := hpercent hb
    have hfile : ∀ c ∈ file, c ∉ ['\x7b', '\\'] := by
      intro c hc
      simp only [List.mem_cons, List.not_mem_nil, or_false, not_or]
      exact ⟨fun h => hbrace (h ▸ hc), fun h => hbackslash (h ▸ hc)⟩
    have hend : ∀ c ∈ ['%', '\x7d'], c ∉ ['\x7b', '\\'] := List.all_iff_forall_prop.mp (by decide)
    rcases List.mem_append.mp hc with hc | hc
    · exact logic_chars (by decide) hfile c hc
    · exact hend c hc
  rw [hopen, hopen]
  exact foldlM_only (only_parseInclude file content content' depth) (P := Blind bad) hlook
    (fun t c u ht hc h => blind_parseState hbad (only_parseInclude file content content' depth) (hlook t ht) hc ht h)
    hletters ⟨List.not_mem_nil, fun _ => by decide⟩

/-- A file that can be had in place is looked for. -/
theorem not_unread {file : Str} (h : ∀ files content, files file = some content →
    (Readable files content → EndsOutside content) → Splices files file content) : ¬ Unread file := by
  intro hunread
  have houter : Outer {} := ⟨rfl, rfl⟩
  have hone : ∀ c, c ∈ ['x', 'y'] → Yields (only file [c]) {} (directive file ++ []) (.ok ([.lit c], .Head, {})) := by
    intro c hc
    simp only [List.mem_cons, List.not_mem_nil, or_false] at hc
    have hends : EndsOutside [c] := by rcases hc with rfl | rfl <;> rfl
    refine (h (only file [c]) [c] (if_pos rfl) (fun _ => hends) {} [] _ houter).mpr ⟨by simp, 0, ?_⟩
    rcases hc with rfl | rfl <;> rfl
  obtain ⟨ho, depth, hx⟩ := hone 'x' (by decide)
  rw [hunread ['x'] ['y'] depth] at hx
  have := yields_unique ⟨ho, depth, hx⟩ (hone 'y' (by decide))
  simp at this

/-- The names that a directive finds are those that come out of it as they are written. -/
theorem name_iff (file : Str) : PlainName file ↔ ∀ files content, files file = some content →
    (Readable files content → EndsOutside content) → Splices files file content := by
  constructor
  · exact fun hfile _ _ hcontent hends => splices_of_endsOutside hfile hcontent hends
  · intro h
    have hread := not_unread h
    have hlook : (∀ var, lookedUp var ≠ file) → False := fun hfar => hread (unread_of_lookedUp hfar)
    have hbad : ∀ bad ∈ ['\x7b', '\\', '\r'], bad ∉ file := by
      intro bad hbad hmem
      refine hread (unread_of_bad (List.mem_cons_of_mem _ hbad) hmem ?_)
      rintro rfl
      exact absurd hbad (by decide)
    have hpercent : '%' ∉ file := fun hmem => hread
      (unread_of_bad (by decide) hmem fun _ => ⟨hbad _ (by decide), hbad _ (by decide)⟩)
    refine ⟨fun c hc hmem => ?_, fun c hc => ?_, fun hfront => ?_, fun hback => ?_⟩
    · simp only [List.mem_cons, List.not_mem_nil, or_false] at hmem
      rcases hmem with rfl | rfl | rfl | rfl | rfl
      · exact hpercent hc
      · exact hbad _ (by decide) hc
      · exact hbad _ (by decide) hc
      · exact hbad _ (by decide) hc
      · exact hlook fun var he => (mem_lookedUp (he ▸ hc)).1 rfl
    · by_contra hcase
      exact hlook fun var he => hcase (lookedUp_lower (he ▸ hc))
    · exact hlook fun var he => lookedUp_front var (he ▸ hfront)
    · exact hlook fun var he => lookedUp_back var (he ▸ hback)

/-- When a text is kept, and when a directive is the content of its file. -/
theorem keepsAndSplices_iff (text : PlainText) (file : Str) :
    (KeepsText text.text ↔ '\x7b' ∉ text.text) ∧
      (PlainName file → ∀ files content, files file = some content →
        (Splices files file content ↔ (Readable files content → EndsOutside content))) ∧
      (PlainName file ↔ ∀ files content, files file = some content →
        (Readable files content → EndsOutside content) → Splices files file content) :=
  ⟨keepsText_iff text, fun hfile _ _ hcontent => splices_iff hfile hcontent, name_iff file⟩

theorem loneBrace_plain : '\\' ∉ "a\x7bb".toList ∧ ¬ ['\x7b', '\x7b'] <:+: "a\x7bb".toList ∧
    ¬ ['\x7b', '%'] <:+: "a\x7bb".toList := by
  decide

/-- Text with a brace that opens nothing. -/
def loneBrace : PlainText := ⟨"a\x7bb".toList, loneBrace_plain.1, loneBrace_plain.2.1, loneBrace_plain.2.2⟩

theorem plainName_foot : PlainName "foot.tmpl".toList :=
  ⟨List.all_iff_forall_prop.mp (by decide), List.all_iff_forall_prop.mp (by decide), by decide, by decide⟩

theorem splices_foot : Splices (only "foot.tmpl".toList "bye %\x7d".toList) "foot.tmpl".toList "bye %\x7d".toList :=
  ((keepsAndSplices_iff loneBrace "foot.tmpl".toList).2.1 plainName_foot
    (only "foot.tmpl".toList "bye %\x7d".toList) _ (if_pos rfl)).mpr
    fun _ => (by decide : List.foldl nextState .None "bye %\x7d".toList = .None)

/-- The brace is left out and the parser stays as behind it; a file with an upper case letter in its name
is not found. -/
theorem loneBrace_lost :
    parse noFiles 0 {} loneBrace.text = .ok { buffer := lits "ab".toList, state := .Open, charPos := 4 } ∧
      ¬ KeepsText loneBrace.text ∧
      parse (only "Foo".toList ['x']) 1 {} (directive "Foo".toList) = .error (.unableToInclude "foo".toList) ∧
      ¬ Splices (only "Foo".toList ['x']) "Foo".toList ['x'] := by
  have hfoo : parse (only "Foo".toList ['x']) 1 {} (directive "Foo".toList) =
      .error (.unableToInclude "foo".toList) := by decide
  refine ⟨by decide, fun h => absurd ((keepsText_iff loneBrace).mp h) (by decide), hfoo, fun h => ?_⟩
  have hdirective : Yields (only "Foo".toList ['x']) {} (directive "Foo".toList ++ [])
      (.error (.unableToInclude "foo".toList)) := ⟨by simp, 1, by rw [List.append_nil, hfoo]; rfl⟩
  have hplace : Yields (only "Foo".toList ['x']) {} (['x'] ++ behind []) (.ok ([.lit 'x'], .Head, {})) :=
    ⟨by simp, 0, rfl⟩
  have := yields_unique ((h {} [] _ ⟨rfl, rfl⟩).mp hdirective) hplace
  simp at this

end TemplateBuffer
end Text
end Ebftpd
