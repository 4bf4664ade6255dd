import Ebftpd.Lib.Substitute
import Ebftpd.Util.String

/-!
# Ebftpd.Text.TemplateSection

Tags and the sections of a template (`src/text/tag.cpp`, `src/text/templatesection.cpp`). What was
written to the text of a section is a list of letters and tags; a tag stands in the text as its name
between double braces. Values are strings. `Compile` replaces the tags one after another, each where it
is found first.

* `simultaneous_iff`: when every tag is found at its own place and becomes its value.
-/

namespace Ebftpd
namespace Text

open Util
open Lib.Substitute

inductive TemplateError where
  | unableToOpen (file : Str)
  | unableToInclude (file : Str)
  | malform (line char : Int) (msg : Str)
  | invalidFilter (filter : Str)
  | endless
  deriving DecidableEq

/-- `Message`. -/
def TemplateError.message : TemplateError → Str
  | .unableToOpen file => "Unable to open template file: ".toList ++ file
  | .unableToInclude file => "Unable to open include file (".toList ++ file ++ [')']
  | .malform line char msg => "Error parsing template (Line: ".toList ++ (toString line).toList ++
      ", Char: ".toList ++ (toString char).toList ++ "). ".toList ++ msg
  | .invalidFilter filter => "Invalid filter: ".toList ++ filter
  | .endless => "The include files include each other.".toList

inductive Alignment where
  | Left | Right | Center
  deriving DecidableEq

inductive UnitConversion where
  | Kbyte | Mbyte | Gbyte | Auto
  deriving DecidableEq

inductive CaseConversion where
  | None | Upper | Lower | Title
  deriving DecidableEq

structure Tag where
  name : Str
  value : Str := []
  alignment : Alignment := .Right
  unitConv : UnitConversion := .Kbyte
  caseConv : CaseConversion := .None
  format : Str := []
  pretty : Bool := false
  deriving DecidableEq

/-- `formatPattern`: digits, and a point with digits behind it or nothing. -/
def isFormat (filter : Str) : Bool :=
  match filter.dropWhile Char.isDigit with
  | [] => true
  | c :: ds => c == '.' && !ds.isEmpty && ds.all Char.isDigit

namespace Tag

/-- The constructor. -/
def new (name : Str) : Tag := { name := toLowerCopy name }

/-- The filters that are words. -/
def wordFilters : List (Str × (Tag → Tag)) := [
  ("left".toList, fun tag => { tag with alignment := .Left }),
  ("right".toList, fun tag => { tag with alignment := .Right }),
  ("center".toList, fun tag => { tag with alignment := .Center }),
  ("pretty".toList, fun tag => { tag with pretty := true }),
  ("kb".toList, fun tag => { tag with unitConv := .Kbyte }),
  ("mb".toList, fun tag => { tag with unitConv := .Mbyte }),
  ("gb".toList, fun tag => { tag with unitConv := .Gbyte }),
  ("auto".toList, fun tag => { tag with unitConv := .Auto }),
  ("upper".toList, fun tag => { tag with caseConv := .Upper }),
  ("lower".toList, fun tag => { tag with caseConv := .Lower }),
  ("title".toList, fun tag => { tag with caseConv := .Title })]

def setFilter (tag : Tag) (filter : Str) : Except TemplateError Tag :=
  let filter := toLowerCopy filter
  match wordFilters.lookup filter with
  | some f => .ok (f tag)
  | none => if isFormat filter then .ok { tag with format := filter } else .error (.invalidFilter filter)

theorem setFilter_name {tag tag' : Tag} {filter : Str} (h : tag.setFilter filter = .ok tag') :
    tag'.name = tag.name := by
  have hwords : ∀ kf ∈ wordFilters, (kf.2 tag).name = tag.name := by simp [wordFilters]
  simp only [setFilter] at h
  split at h
  · rename_i f hf
    cases h
    obtain ⟨before, after, hsplit, -⟩ := List.lookup_eq_some_iff.mp hf
    exact hwords _ (hsplit ▸ List.mem_append_right _ List.mem_cons_self)
  · split at h
    · cases h
      rfl
    · cases h

def alignmentStr (tag : Tag) : Str :=
  match tag.alignment with
  | .Left => ['-']
  | .Center => ['=']
  | .Right => []

/-- `boost::format` in the pretty locale or not, and `TitleCase`. -/
structure Formats where
  format : Bool → Str → Str → Str
  titleCase : Str → Str

def caseConvert (formats : Formats) (tag : Tag) (s : Str) : Str :=
  match tag.caseConv with
  | .None => s
  | .Upper => toUpperCopy s
  | .Lower => toLowerCopy s
  | .Title => formats.titleCase s

def compileString (formats : Formats) (tag : Tag) : Str :=
  formats.format tag.pretty ('%' :: tag.alignmentStr ++ (tag.format ++ ['s'])) tag.value

def compile (formats : Formats) (tag : Tag) : Str := tag.caseConvert formats (tag.compileString formats)

/-- What the tag is in the text. -/
def mark (tag : Tag) : Str := ['\x7b', '\x7b'] ++ tag.name ++ ['\x7d', '\x7d']

def registerValue (tagName value : Str) (tag : Tag) : Tag :=
  if tag.name = toLowerCopy tagName then { tag with value := value } else tag

/-- The tag with the values that are registered, the later ones over the earlier. -/
def withValues (values : List (Str × Str)) (tag : Tag) : Tag :=
  values.foldl (fun tag nv => tag.registerValue nv.1 nv.2) tag

theorem withValues_name (values : List (Str × Str)) (tag : Tag) : (tag.withValues values).name = tag.name := by
  induction values generalizing tag with
  | nil => rfl
  | cons nv values ih =>
    rw [withValues, List.foldl_cons]
    refine (ih _).trans ?_
    unfold registerValue
    split
    · rfl
    · rfl

/-- Without an opening brace in the name no end of the mark is its beginning. -/
theorem unbordered_mark {tag : Tag} (h : '\x7b' ∉ tag.name) : Unbordered tag.mark := by
  have hout : '\x7b' ∉ tag.name ++ ['\x7d', '\x7d'] := by simp [h]
  have hmark : tag.mark = '\x7b' :: '\x7b' :: (tag.name ++ ['\x7d', '\x7d']) := rfl
  refine ⟨by simp [mark], fun q hpre hsuf => ?_⟩
  rw [hmark] at hpre hsuf ⊢
  cases q with
  | nil => exact .inl rfl
  | cons c q =>
    obtain ⟨rfl, hrest⟩ := List.cons_prefix_cons.mp hpre
    rcases List.suffix_cons_iff.mp hsuf with heq | hsuf
    · exact .inr heq
    · exfalso
      rcases List.suffix_cons_iff.mp hsuf with heq | hsuf
      · obtain ⟨-, rfl⟩ := List.cons.inj heq
        -- the second letter of the mark would be the first of the name, or of the closing braces
        cases hname : tag.name ++ ['\x7d', '\x7d'] with
        | nil => simp at hname
        | cons d rest =>
          rw [hname] at hrest hout
          obtain ⟨rfl, -⟩ := List.cons_prefix_cons.mp hrest
          exact hout List.mem_cons_self
      · exact hout (hsuf.subset List.mem_cons_self)

end Tag

/-! ## Sections -/

structure TemplateSection where
  buffer : List (Item Char Tag) := []
  tags : List Tag := []
  isFoot : Bool
  deriving DecidableEq

namespace TemplateSection

/-- The string that is registered as the buffer. -/
def text (sec : TemplateSection) : Str := raw Tag.mark sec.buffer

/-- `RegisterTag`; the name it returns is that of the tag. -/
def registerTag (sec : TemplateSection) (tagStr : Str) : Except TemplateError (Tag × TemplateSection) := do
  let args := split (toLowerCopy (trimCopy tagStr)) ['|'] false
  let tag ← args.tail.foldlM Tag.setFilter (Tag.new (args.headD []))
  return (tag, { sec with tags := sec.tags ++ [tag] })

/-- `DoRegisterValue`. -/
def registerValue (sec : TemplateSection) (tagName value : Str) : TemplateSection :=
  { sec with tags := sec.tags.map (Tag.registerValue tagName value) }

def registerValues (sec : TemplateSection) (values : List (Str × Str)) : TemplateSection :=
  values.foldl (fun sec nv => sec.registerValue nv.1 nv.2) sec

/-- The end of `Compile`: newlines at the end are stripped, where nothing else is asked for in a foot. -/
def finish (sec : TemplateSection) (stripNewline : Option Bool) (compiled : Str) : Str :=
  if stripNewline.getD sec.isFoot then (compiled.reverse.dropWhile (· == '\n')).reverse else compiled

def compile (formats : Tag.Formats) (sec : TemplateSection) (stripNewline : Option Bool) : Str :=
  sec.finish stripNewline (fill Tag.mark (Tag.compile formats) sec.text sec.tags)

/-- The compiled value of a tag. -/
def value (formats : Tag.Formats) (values : List (Str × Str)) (tag : Tag) : Str :=
  (tag.withValues values).compile formats

/-- The text with the tags that are not in it: those of an earlier text, and those of what came after. -/
def items (sec : TemplateSection) (stale late : List Tag) : List (Item Char Tag) :=
  stale.map .gone ++ (sec.buffer ++ late.map .gone)

/-- The result is the text with the compiled value of each tag in its place, and the search for a tag
stops nowhere but there. -/
structure Simultaneous (formats : Tag.Formats) (sec : TemplateSection) (values : List (Str × Str)) :
    Prop where
  result : ∀ stripNewline, (sec.registerValues values).compile formats stripNewline =
    sec.finish stripNewline (expand (value formats values) sec.buffer)
  found : ∃ stale late, sec.tags = stale ++ (slots sec.buffer ++ late) ∧
    Found Tag.mark (value formats values) sec.text [] (sec.items stale late)

/-- The mark of a tag is nowhere in front of it, in the literal text and the values before it, and that
of a tag which is not in the text nowhere in the text. -/
def Unmistakable (formats : Tag.Formats) (sec : TemplateSection) (values : List (Str × Str)) : Prop :=
  ∃ stale late, sec.tags = stale ++ (slots sec.buffer ++ late) ∧
    Clear Tag.mark (value formats values) [] (sec.items stale late)

variable {formats : Tag.Formats} {sec : TemplateSection} {values : List (Str × Str)} {stale late : List Tag}

theorem registerValues_eq (values : List (Str × Str)) (sec : TemplateSection) :
    sec.registerValues values = { sec with tags := sec.tags.map (Tag.withValues values) } := by
  induction values generalizing sec with
  | nil =>
    have hsame : Tag.withValues [] = id := rfl
    rw [hsame, List.map_id]
    rfl
  | cons nv values ih =>
    refine (ih (sec.registerValue nv.1 nv.2)).trans ?_
    simp only [registerValue, List.map_map]
    rfl

theorem compile_registerValues (stripNewline : Option Bool) :
    (sec.registerValues values).compile formats stripNewline =
      sec.finish stripNewline (fill Tag.mark (value formats values) sec.text sec.tags) := by
  have hmark : (fun tag => (Tag.withValues values tag).mark) = Tag.mark := by
    funext tag
    rw [Tag.mark, Tag.withValues_name]
    rfl
  rw [registerValues_eq]
  show sec.finish stripNewline (fill Tag.mark (Tag.compile formats) sec.text _) = _
  rw [fill_map, hmark]
  rfl

theorem raw_items (mark : Tag → Str) : raw mark (sec.items stale late) = raw mark sec.buffer := by
  simp [items, raw_append]

theorem slots_items : slots (sec.items stale late) = stale ++ (slots sec.buffer ++ late) := by
  simp [items, slots_append]

theorem simultaneous_iff (hnames : ∀ tag ∈ sec.tags, '\x7b' ∉ tag.name) :
    Simultaneous formats sec values ↔ Unmistakable formats sec values := by
  have hmark : ∀ tag ∈ sec.tags, Unbordered tag.mark := fun tag htag => Tag.unbordered_mark (hnames tag htag)
  constructor
  · rintro ⟨-, stale, late, htags, hfound⟩
    refine ⟨stale, late, htags, ?_⟩
    rw [← slots_items] at htags
    refine (found_iff_clear _ (htags ▸ hmark) []).mp ?_
    rwa [List.nil_append, raw_items]
  · rintro ⟨stale, late, htags, hclear⟩
    have hslots := htags
    rw [← slots_items] at hslots
    have hfill := fill_of_clear _ (hslots ▸ hmark) [] hclear
    have hfound := (found_iff_clear _ (hslots ▸ hmark) []).mpr hclear
    rw [List.nil_append, raw_items] at hfill hfound
    refine ⟨fun stripNewline => ?_, stale, late, htags, hfound⟩
    rw [compile_registerValues, text, hslots, hfill, expand, raw_items]
    rfl

end TemplateSection

end Text
end Ebftpd
