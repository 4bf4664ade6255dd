import Ebftpd.Text.TemplateSection

/-!
# Ebftpd.Text.Parser

The parser of templates (`src/text/parser.cpp`), a letter at a time. `files` are the files that can
be opened; an include file is read in the middle of the template, `depth` include files deep.

* `good_parseState`: what each letter keeps of the sections and of the text that is read.
* `create_tags`: which tags a section of a template has.
* `compile_simultaneous_iff`: when the sections of a template compile as they are to.
-/

namespace Ebftpd
namespace Text

open Util
open Lib.Substitute

inductive TemplateBlock where
  | Head | Body | Foot
  deriving DecidableEq

inductive TemplateState where
  | None | Open | Close | ReadFilter | ReadLogic | Escape | Skip
  deriving DecidableEq

structure Template where
  head : TemplateSection := { isFoot := false }
  body : TemplateSection := { isFoot := false }
  foot : TemplateSection := { isFoot := true }
  deriving DecidableEq

namespace Template

def sec (templ : Template) : TemplateBlock → TemplateSection
  | .Head => templ.head
  | .Body => templ.body
  | .Foot => templ.foot

def set (templ : Template) (sec : TemplateSection) : TemplateBlock → Template
  | .Head => { templ with head := sec }
  | .Body => { templ with body := sec }
  | .Foot => { templ with foot := sec }

theorem sec_set (templ : Template) (sec : TemplateSection) (block b : TemplateBlock) :
    (templ.set sec block).sec b = if b = block then sec else templ.sec b := by
  cases block <;> cases b <;> rfl

end Template

structure TemplateBuffer where
  buffer : List (Item Char Tag) := []
  var : Str := []
  state : TemplateState := .None
  block : TemplateBlock := .Head
  templ : Template := {}
  charPos : Int := 1
  linePos : Int := 1
  deriving DecidableEq

namespace TemplateBuffer

/-- What ParseInclude does to the buffer. -/
abbrev Include := Str → TemplateBuffer → Except TemplateError TemplateBuffer

def parseBlock (t : TemplateBuffer) : TemplateBuffer :=
  { t with
    templ := t.templ.set { t.templ.sec t.block with buffer := t.buffer } t.block
    state := .None
    block := .Head
    linePos := 1
    charPos := 1
    var := []
    buffer := [] }

/-- The start of a block clears the text. -/
def startBlock (t : TemplateBuffer) (block : TemplateBlock) : TemplateBuffer :=
  { t with buffer := [], block := block }

def trimQuotes (file : Str) : Str :=
  ((file.dropWhile (· == '"')).reverse.dropWhile (· == '"')).reverse

def parseLogic (parseInclude : Include) (t : TemplateBuffer) : Except TemplateError TemplateBuffer :=
  let args := split (toLowerCopy (trimCopy t.var)) [' '] false
  let t := { t with var := [] }
  let logic := args.headD []
  if logic = "endblock".toList then .ok t.parseBlock
  else if logic = "head".toList then .ok (t.startBlock .Head)
  else if logic = "body".toList then .ok (t.startBlock .Body)
  else if logic = "foot".toList then .ok (t.startBlock .Foot)
  else if logic = "include".toList then
    if args.length ≠ 2 then
      .error (.malform t.linePos t.charPos "(include requires file to import!)".toList)
    else parseInclude (trimQuotes (args.getD 1 [])) t
  else .error (.malform t.linePos t.charPos (['('] ++ logic ++ [')'] ++
    " incorrect syntax. Must be \x7b% endblock|head|body|foot %\x7d".toList))

def parseFilter (t : TemplateBuffer) : Except TemplateError TemplateBuffer := do
  let filter := toLowerCopy (trimCopy t.var)
  let (tag, sec) ← (t.templ.sec t.block).registerTag filter
  return { t with var := [], buffer := t.buffer ++ [.slot tag], templ := t.templ.set sec t.block }

/-- The end of `ParseChar`. -/
def capture (t : TemplateBuffer) (c : Char) : TemplateBuffer :=
  if t.state = .ReadLogic ∨ t.state = .ReadFilter then { t with var := t.var ++ [c] }
  else { t with buffer := t.buffer ++ [.lit c] }

/-- An opening brace; a backslash that escapes nothing is taken for one. -/
def openBrace (t : TemplateBuffer) : TemplateBuffer :=
  { t with state := if t.state = .Open then .ReadFilter else .Open }

def parseChar (parseInclude : Include) (t : TemplateBuffer) (c : Char) : Except TemplateError TemplateBuffer :=
  let t := { t with charPos := t.charPos + 1 }
  match c with
  | '\r' => .ok t
  | '\n' => .ok ({ t with charPos := 0, linePos := t.linePos + 1 }.capture c)
  | '\\' => .ok (if t.state = .None then { t with state := .Escape } else t.openBrace)
  | '\x7b' => .ok t.openBrace
  | '%' =>
    match t.state with
    | .ReadLogic => return { (← t.parseLogic parseInclude) with state := .Skip }
    | .Open => .ok { t with state := .ReadLogic }
    | _ => .ok (t.capture c)
  | '\x7d' =>
    match t.state with
    | .ReadFilter => return { (← t.parseFilter) with state := .Close }
    | _ => .ok (t.capture c)
  | _ => .ok (t.capture c)

def parseState (parseInclude : Include) (t : TemplateBuffer) (c : Char) :
    Except TemplateError TemplateBuffer :=
  match t.state with
  | .Escape => .ok { t with buffer := t.buffer ++ [.lit c], state := .None }
  | .Skip =>
    if c = '\r' ∨ c = '\x7d' ∨ c = ' ' then .ok t
    else if c = '\n' then .ok { t with state := .None }
    else { t with state := .None }.parseChar parseInclude c
  | .Close =>
    if c ≠ '\x7d' then .error (.malform t.linePos t.charPos [])
    else .ok { t with state := .None }
  | _ => t.parseChar parseInclude c

def parseInclude (files : Str → Option Str) : Nat → Include
  | 0, _, _ => .error .endless
  | depth + 1, file, t =>
    match files file with
    | none => .error (.unableToInclude file)
    | some text => do
      let t ← text.foldlM (parseState (parseInclude files depth)) { t with state := .None }
      return { t with state := .None }

def parse (files : Str → Option Str) (depth : Nat) (t : TemplateBuffer) (text : Str) :
    Except TemplateError TemplateBuffer := text.foldlM (parseState (parseInclude files depth)) t

end TemplateBuffer

/-- `TemplateParser::Create`. -/
def create (files : Str → Option Str) (depth : Nat) (file : Str) : Except TemplateError Template :=
  match files file with
  | none => .error (.unableToOpen file)
  | some text => return (← TemplateBuffer.parse files depth {} text).templ

/-! ## What the sections are made of -/

theorem bind_ok {ε α β : Type} {x : Except ε α} {f : α → Except ε β} {b : β} (h : x >>= f = .ok b) :
    ∃ a, x = .ok a ∧ f a = .ok b := by
  cases x with
  | error e => cases h
  | ok a => exact ⟨a, rfl, h⟩

theorem foldlM_inv {ε α β : Type} {f : β → α → Except ε β} {P : β → Prop}
    (hf : ∀ b a b', P b → f b a = .ok b' → P b') (l : List α) :
    ∀ {b b' : β}, P b → l.foldlM f b = .ok b' → P b' := by
  induction l with
  | nil =>
    intro b b' hb h
    cases h
    exact hb
  | cons a l ih =>
    intro b b' hb h
    rw [List.foldlM_cons] at h
    obtain ⟨b1, h1, h2⟩ := bind_ok h
    exact ih (hf b a b1 hb h1) h2

theorem eq_of_toLower {c d : Char} (hd : ¬ ('a' ≤ d ∧ d ≤ 'z')) (h : c.toLower = d) : c = d := by
  unfold Char.toLower at h
  split at h
  · rename_i hc
    have hval := congrArg UInt32.toNat (congrArg Char.val h)
    have hlow := UInt32.le_iff_toNat_le.mp hc.1
    have hhigh := UInt32.le_iff_toNat_le.mp hc.2
    rw [Char.le_def, Char.le_def, UInt32.le_iff_toNat_le, UInt32.le_iff_toNat_le] at hd
    have hshift : ('a'.val - 'A'.val).toNat = 32 := by decide
    have hA : 'A'.val.toNat = 65 := by decide
    have hZ : 'Z'.val.toNat = 90 := by decide
    have ha : 'a'.val.toNat = 97 := by decide
    have hz : 'z'.val.toNat = 122 := by decide
    rw [UInt32.toNat_add] at hval
    omega
  · exact h

theorem toLower_ne {c : Char} (hc : c ≠ '\x7b') : c.toLower ≠ '\x7b' :=
  fun h => hc (eq_of_toLower (by decide) h)

theorem mem_of_mem_splitLoop {delim : Char → Bool} {tokenCompress : Bool} {c : Char} (s : Str) :
    ∀ (prev : Bool) (cur tok : Str), tok ∈ splitLoop delim tokenCompress prev cur s → c ∈ tok →
      c ∈ cur ∨ c ∈ s := by
  induction s with
  | nil =>
    intro prev cur tok htok hc
    exact .inl (List.mem_singleton.mp htok ▸ hc)
  | cons d s ih =>
    intro prev cur tok htok hc
    rw [splitLoop] at htok
    split at htok
    · split at htok
      · exact (ih true cur tok htok hc).imp_right (List.mem_cons_of_mem d)
      · rcases List.mem_cons.mp htok with rfl | htok
        · exact .inl hc
        · refine .inr ((ih true [] tok htok hc).elim (fun h => ?_) (List.mem_cons_of_mem d))
          cases h
    · rcases ih false (cur ++ [d]) tok htok hc with h | h
      · rw [List.mem_append, List.mem_singleton] at h
        exact h.imp_right fun h => List.mem_cons.mpr (.inl h)
      · exact .inr (List.mem_cons_of_mem d h)

theorem mem_of_mem_trim {c : Char} {s : Str} (h : c ∈ trimCopy s) : c ∈ s := by
  have hright := (List.dropWhile_suffix isSpace).subset h
  rw [trimRightCopy, List.mem_reverse] at hright
  exact List.mem_reverse.mp ((List.dropWhile_suffix isSpace).subset hright)

theorem brace_toLower {s : Str} (h : '\x7b' ∉ s) : '\x7b' ∉ toLowerCopy s := by
  intro hmem
  obtain ⟨c, hc, hlower⟩ := List.mem_map.mp hmem
  refine toLower_ne ?_ hlower
  rintro rfl
  exact h hc

/-- No tag has an opening brace in its name where its text has none. -/
theorem registerTag_inv {sec sec' : TemplateSection} {tag : Tag} {tagStr : Str}
    (h : sec.registerTag tagStr = .ok (tag, sec')) (hbrace : '\x7b' ∉ tagStr) :
    sec' = { sec with tags := sec.tags ++ [tag] } ∧ '\x7b' ∉ tag.name := by
  obtain ⟨tag', htag, hret⟩ := bind_ok h
  cases hret
  refine ⟨rfl, ?_⟩
  obtain ⟨arg, args, hargs⟩ := List.exists_cons_of_ne_nil
    (split_ne_nil (toLowerCopy (trimCopy tagStr)) ['|'] false)
  rw [hargs] at htag
  have hname : tag.name = (Tag.new arg).name :=
    foldlM_inv (P := fun t => t.name = (Tag.new arg).name)
      (fun t filter t' ht hset => (Tag.setFilter_name hset).trans ht) args rfl htag
  rw [hname]
  refine brace_toLower fun hmem => ?_
  have harg : arg ∈ split (toLowerCopy (trimCopy tagStr)) ['|'] false := hargs ▸ List.mem_cons_self
  rcases mem_of_mem_splitLoop _ false [] arg harg hmem with h | h
  · cases h
  · exact brace_toLower (fun h => hbrace (mem_of_mem_trim h)) h

namespace TemplateBuffer

/-- What is kept while a template is read: no opening brace in what is read of a tag, and the tags of
each section are those of its text, in order, between others; those of the text that is being read are
the last of its section. -/
structure Good (t : TemplateBuffer) : Prop where
  var : '\x7b' ∉ t.var
  names : ∀ b, ∀ tag ∈ (t.templ.sec b).tags, '\x7b' ∉ tag.name
  tags : ∀ b, ∃ stale late, (t.templ.sec b).tags = stale ++ (slots (t.templ.sec b).buffer ++ late)
  current : ∃ stale, (t.templ.sec t.block).tags = stale ++ slots t.buffer

variable {t t' : TemplateBuffer} {c : Char}

/-- Of the state and the positions nothing is asked. -/
theorem good_at (h : Good t) (state : TemplateState) (charPos linePos : Int) :
    Good { t with state := state, charPos := charPos, linePos := linePos } :=
  ⟨h.var, h.names, h.tags, h.current⟩

theorem good_lit (h : Good t) : Good { t with buffer := t.buffer ++ [.lit c] } where
  var := h.var
  names := h.names
  tags := h.tags
  current := by
    simpa [slots_append, slots] using h.current

theorem good_capture (h : Good t) (hc : c ≠ '\x7b') : Good (t.capture c) := by
  unfold capture
  split
  · refine ⟨?_, h.names, h.tags, h.current⟩
    simp only [List.mem_append, List.mem_singleton, not_or]
    exact ⟨h.var, hc.symm⟩
  · exact good_lit h

theorem good_openBrace (h : Good t) : Good t.openBrace := good_at h _ _ _

theorem good_startBlock (h : Good t) (block : TemplateBlock) : Good (t.startBlock block) where
  var := h.var
  names := h.names
  tags := h.tags
  current := ⟨_, (List.append_nil _).symm⟩

theorem good_parseBlock (h : Good t) : Good t.parseBlock where
  var := List.not_mem_nil
  names := by
    intro b tag htag
    simp only [parseBlock, Template.sec_set] at htag
    split at htag
    · exact h.names t.block tag htag
    · exact h.names b tag htag
  tags := by
    intro b
    simp only [parseBlock, Template.sec_set]
    split
    · obtain ⟨stale, hstale⟩ := h.current
      exact ⟨stale, [], by rw [List.append_nil]; exact hstale⟩
    · exact h.tags b
  current := ⟨_, (List.append_nil _).symm⟩

theorem good_parseFilter (h : Good t) (hfilter : t.parseFilter = .ok t') : Good t' := by
  obtain ⟨⟨tag, sec⟩, hreg, hret⟩ := bind_ok hfilter
  cases hret
  obtain ⟨rfl, hname⟩ := registerTag_inv hreg (brace_toLower fun hmem => h.var (mem_of_mem_trim hmem))
  refine ⟨List.not_mem_nil, fun b tag' htag => ?_, fun b => ?_, ?_⟩
  · simp only [Template.sec_set] at htag
    split at htag
    · rcases List.mem_append.mp htag with hold | hnew
      · exact h.names t.block tag' hold
      · rwa [List.mem_singleton.mp hnew]
    · exact h.names b tag' htag
  · simp only [Template.sec_set]
    split
    · obtain ⟨stale, late, htags⟩ := h.tags t.block
      exact ⟨stale, late ++ [tag], by simp [htags]⟩
    · exact h.tags b
  · obtain ⟨stale, hstale⟩ := h.current
    refine ⟨stale, ?_⟩
    simp [Template.sec_set, hstale, slots_append, slots]

/-- An include that keeps what is kept. -/
def Keeps (inc : Include) : Prop := ∀ file t t', Good t → inc file t = .ok t' → Good t'

variable {inc : Include}

theorem good_parseLogic (hinc : Keeps inc) (h : Good t) (hlogic : t.parseLogic inc = .ok t') : Good t' := by
  have hclear : Good { t with var := [] } := ⟨List.not_mem_nil, h.names, h.tags, h.current⟩
  simp only [parseLogic] at hlogic
  split at hlogic
  · cases hlogic
    exact good_parseBlock hclear
  split at hlogic
  · cases hlogic
    exact good_startBlock hclear .Head
  split at hlogic
  · cases hlogic
    exact good_startBlock hclear .Body
  split at hlogic
  · cases hlogic
    exact good_startBlock hclear .Foot
  split at hlogic
  · split at hlogic
    · cases hlogic
    · exact hinc _ _ _ hclear hlogic
  · cases hlogic

theorem good_parseChar (hinc : Keeps inc) (h : Good t) (hchar : t.parseChar inc c = .ok t') : Good t' := by
  unfold parseChar at hchar
  dsimp only at hchar
  split at hchar
  · cases hchar
    exact good_at h _ _ _
  · cases hchar
    exact good_capture (good_at h _ _ _) (by decide)
  · cases hchar
    split
    · exact good_at h _ _ _
    · exact good_openBrace (good_at h _ _ _)
  · cases hchar
    exact good_openBrace (good_at h _ _ _)
  · split at hchar
    · obtain ⟨t1, hlogic, hret⟩ := bind_ok hchar
      cases hret
      exact good_at (good_parseLogic hinc (good_at h _ _ _) hlogic) _ _ _
    · cases hchar
      exact good_at h _ _ _
    · cases hchar
      exact good_capture (good_at h _ _ _) (by decide)
  · split at hchar
    · obtain ⟨t1, hfilter, hret⟩ := bind_ok hchar
      cases hret
      exact good_at (good_parseFilter (good_at h _ _ _) hfilter) _ _ _
    · cases hchar
      exact good_capture (good_at h _ _ _) (by decide)
  · rename_i hbrace _ _
    cases hchar
    exact good_capture (good_at h _ _ _) hbrace

theorem good_parseState (hinc : Keeps inc) (h : Good t) (hc : t.parseState inc c = .ok t') : Good t' := by
  unfold parseState at hc
  split at hc
  · cases hc
    exact good_at (good_lit h) _ _ _
  · split at hc
    · cases hc
      exact h
    · split at hc
      · cases hc
        exact good_at h _ _ _
      · exact good_parseChar hinc (good_at h _ _ _) hc
  · split at hc
    · cases hc
    · cases hc
      exact good_at h _ _ _
  · exact good_parseChar hinc h hc

theorem keeps_parseInclude (files : Str → Option Str) (depth : Nat) : Keeps (parseInclude files depth) := by
  induction depth with
  | zero =>
    intro file t t' _ h
    cases h
  | succ depth ih =>
    intro file t t' hgood h
    rw [parseInclude] at h
    split at h
    · cases h
    · obtain ⟨t1, hread, hret⟩ := bind_ok h
      cases hret
      have h1 : Good t1 := foldlM_inv (P := Good) (fun _ _ _ ht hc => good_parseState ih ht hc) _
        (good_at hgood _ _ _) hread
      exact good_at h1 _ _ _

theorem good_start : Good {} where
  var := List.not_mem_nil
  names := by
    intro b tag htag
    cases b <;> cases htag
  tags := by
    intro b
    cases b <;> exact ⟨[], [], rfl⟩
  current := ⟨[], rfl⟩

end TemplateBuffer

theorem create_good {files : Str → Option Str} {depth : Nat} {file : Str} {templ : Template}
    (h : create files depth file = .ok templ) : ∃ t : TemplateBuffer, t.Good ∧ t.templ = templ := by
  unfold create at h
  split at h
  · cases h
  · obtain ⟨t, hread, hret⟩ := bind_ok h
    cases hret
    have hgood : t.Good := foldlM_inv (P := TemplateBuffer.Good)
      (fun _ _ _ ht hc => TemplateBuffer.good_parseState (TemplateBuffer.keeps_parseInclude files depth) ht hc)
      _ TemplateBuffer.good_start hread
    exact ⟨t, hgood, rfl⟩

/-- The tags of a section are those of its text, in order, between those of a text that a later block has
replaced and those of what stood behind the block. -/
theorem create_tags {files : Str → Option Str} {depth : Nat} {file : Str} {templ : Template}
    (h : create files depth file = .ok templ) (block : TemplateBlock) :
    ∃ stale late, (templ.sec block).tags = stale ++ (slots (templ.sec block).buffer ++ late) := by
  obtain ⟨t, hgood, rfl⟩ := create_good h
  exact hgood.tags block

/-- Each section of a template that was read compiles to its text with the values in the places of the
tags, each found where it is, exactly where no tag can be mistaken. -/
theorem compile_simultaneous_iff (files : Str → Option Str) (depth : Nat) (file : Str) (templ : Template)
    (formats : Tag.Formats) (block : TemplateBlock) (values : List (Str × Str))
    (h : create files depth file = .ok templ) :
    (templ.sec block).Simultaneous formats values ↔ (templ.sec block).Unmistakable formats values := by
  obtain ⟨t, hgood, rfl⟩ := create_good h
  exact TemplateSection.simultaneous_iff (hgood.names block)

/-- A template with one block of two tags. -/
def twoTags (file : Str) : Option Str :=
  if file = "two.tmpl".toList then
    some "\x7b% body %\x7d\x7b\x7b a \x7d\x7d \x7b\x7b b \x7d\x7d\x7b% endblock %\x7d".toList
  else none

/-- `boost::format` of a string without a width. -/
def plain : Tag.Formats where
  format _ _ value := value
  titleCase s := s

def twoTagsBody : TemplateSection where
  buffer := [.slot (Tag.new ['a']), .lit ' ', .slot (Tag.new ['b'])]
  tags := [Tag.new ['a'], Tag.new ['b']]
  isFoot := false

theorem create_twoTags : create twoTags 0 "two.tmpl".toList = .ok { body := twoTagsBody } := by
  decide

theorem compile_simultaneous_two :
    ({ body := twoTagsBody : Template }.sec .Body).Simultaneous plain [(['a'], ['x']), (['b'], ['y'])] :=
  (compile_simultaneous_iff twoTags 0 "two.tmpl".toList { body := twoTagsBody } plain .Body _
    create_twoTags).mpr ⟨[], [], rfl, by decide, by decide, trivial⟩

/-- The value of the first tag is taken for the second tag. -/
theorem value_taken_for_tag :
    create twoTags 0 "two.tmpl".toList = .ok { body := twoTagsBody } ∧
      (twoTagsBody.registerValues [(['a'], (Tag.new ['b']).mark), (['b'], ['x'])]).compile plain none =
        ['x', ' '] ++ (Tag.new ['b']).mark ∧
      ¬ twoTagsBody.Simultaneous plain [(['a'], (Tag.new ['b']).mark), (['b'], ['x'])] := by
  refine ⟨create_twoTags, by decide, fun h => ?_⟩
  have hresult := h.result none
  revert hresult
  decide

end Text
end Ebftpd
