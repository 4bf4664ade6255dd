import Ebftpd.Util.Error

/-!
# Ebftpd.Cmd.Arguments

`ArgumentParser` (`src/cmd/arguments.cpp`): a grammar of named arguments and the line that is parsed
by it. A position in the line is the text from there to its end, so that a character is read at the
end of the line where that text is empty; `std::string::npos` is no text at all.

* `parseArgument_written`: a value that fits its type is read from what is written for it, and the
  cursor stands behind it.
* `parse_faithful`: so a line written for a grammar is parsed to its values, and no line is read
  past its end.
-/

namespace Ebftpd
namespace Cmd

open Util

inductive ArgumentType where
  | Single | Grouped | Multiple
  deriving DecidableEq

structure Arguments where
  args : List Str
  names : List Str

def Arguments.push (arguments : Arguments) (name arg : Str) : Arguments where
  args := arguments.args ++ [arg]
  names := arguments.names ++ [name]

/-- How a parse ends without arguments: `SyntaxError` is thrown, or the line is read outside. -/
inductive ParseFault where
  | syntaxError | outOfLine

namespace ArgumentParser

def argumentType (kind : Str) : Option ArgumentType :=
  if kind = "single".toList ∨ kind = "s".toList then some .Single
  else if kind = "grouped".toList ∨ kind = "g".toList then some .Grouped
  else if kind = "multiple".toList ∨ kind = "m".toList then some .Multiple
  else none

def compileLoop : Bool → List Str → Except Exn (List (Str × ArgumentType))
  | _, [] => .ok []
  | haveMultiple, arg :: args =>
    if haveMultiple then .error (.logicError "Invalid argument grammar 1")
    else
      match split arg ":".toList false with
      | [name, kind] =>
        match argumentType kind with
        | none => .error (.logicError "Invalid argument grammar 3")
        | some type =>
          match compileLoop (type == .Multiple) args with
          | .error e => .error e
          | .ok types => .ok ((name, type) :: types)
      | _ => .error (.logicError "Invalid argument grammar 2")

def compile (grammar : Str) : Except Exn (List (Str × ArgumentType)) :=
  compileLoop false (split grammar " ".toList false)

/-- `find(c, pos)`: what stands before the character and behind it. -/
def cutAt (c : Char) (rest : Str) : Option (Str × Str) :=
  match rest.dropWhile (· != c) with
  | [] => none
  | _ :: behind => some (rest.takeWhile (· != c), behind)

def skipSpaces : Str → Except ParseFault Str
  | [] => .error .outOfLine
  | c :: rest =>
    if c = ' ' then (if rest.isEmpty then .error .syntaxError else skipSpaces rest)
    else .ok (c :: rest)

/-- The backwards loop of `Multiple` on the line from its end: the line up to the character where it
stops. In front of the first character there is none. -/
def dropSpacesBack : Str → Except ParseFault Str
  | [] => .error .outOfLine
  | c :: before => if c = ' ' then dropSpacesBack before else .ok (c :: before).reverse

def parseSingle (rest : Str) : Str × Option Str :=
  match cutAt ' ' rest with
  | none => (rest, none)
  | some (arg, behind) => (arg, some behind)

/-- The argument at a position, and the position behind it. -/
def parseArgument (line : Str) : ArgumentType → Str → Except ParseFault (Str × Option Str)
  | .Grouped, rest =>
    match rest with
    | [] => .error .outOfLine
    | c :: quoted =>
      if c = '"' then
        match cutAt '"' quoted with
        | none => .error .syntaxError
        | some (arg, behind) => .ok (arg, some behind)
      else .ok (parseSingle rest)
  | .Single, rest => .ok (parseSingle rest)
  | .Multiple, rest =>
    match dropSpacesBack line.reverse with
    | .error e => .error e
    | .ok upto =>
      let pos1 := line.length - rest.length
      -- `pos2 - pos1 + 1` wraps around where the loop stops in front of the argument
      .ok (if pos1 ≤ upto.length then upto.drop pos1 else rest, none)

def parseLoop (line : Str) : List (Str × ArgumentType) → Option Str → Arguments → Except ParseFault Arguments
  | [], some (_ :: _), _ => .error .syntaxError
  | [], _, arguments => .ok arguments
  | _ :: _, none, _ => .error .syntaxError
  | _ :: _, some [], _ => .error .syntaxError
  | (name, type) :: types, some (c :: cs), arguments =>
    match skipSpaces (c :: cs) with
    | .error e => .error e
    | .ok rest =>
      match parseArgument line type rest with
      | .error e => .error e
      | .ok (arg, cursor) => parseLoop line types cursor (arguments.push name arg)

def parse (types : List (Str × ArgumentType)) (line : Str) : Except ParseFault Arguments :=
  parseLoop line types (some line) ⟨[], []⟩

/-! ## Lines for a grammar -/

def Fits : ArgumentType → Str → Prop
  | .Single, value => value ≠ [] ∧ ' ' ∉ value
  | .Grouped, value => '"' ∉ value
  | .Multiple, value => value ≠ [] ∧ value.head? ≠ some ' ' ∧ value.getLast? ≠ some ' '

/-- An argument of a grammar with a value for it. -/
structure Argument where
  name : Str
  type : ArgumentType
  value : Str
  fits : Fits type value

def Argument.typed (a : Argument) : Str × ArgumentType := (a.name, a.type)

def Argument.written (a : Argument) : Str :=
  match a.type with
  | .Grouped => '"' :: a.value ++ ['"']
  | _ => a.value

/-- The arguments one behind the other; the gaps are the spaces between two of them beyond the first. -/
def writeLine : List Argument → List Nat → Str
  | [], _ => []
  | [a], _ => a.written
  | a :: b :: rest, gaps =>
    a.written ++ ' ' :: (List.replicate (gaps.headD 0) ' ' ++ writeLine (b :: rest) gaps.tail)

/-- Nothing stands behind an argument that takes the rest of the line. -/
def MultipleLast (types : List (Str × ArgumentType)) : Prop := ∀ t ∈ types.dropLast, t.2 ≠ .Multiple

/-- A grammar with a value for each argument. -/
structure Filled where
  arguments : List Argument
  multiple_last : MultipleLast (arguments.map Argument.typed)

theorem compileLoop_multipleLast {args : List Str} {types : List (Str × ArgumentType)} {haveMultiple : Bool}
    (h : compileLoop haveMultiple args = .ok types) :
    MultipleLast types ∧ (haveMultiple = true → types = []) := by
  induction args generalizing haveMultiple types with
  | nil =>
    cases h
    exact ⟨by simp [MultipleLast], fun _ => rfl⟩
  | cons arg args ih =>
    simp only [compileLoop] at h
    split at h
    · cases h
    · rename_i hfirst
      refine ⟨?_, fun h => absurd h hfirst⟩
      split at h
      · split at h
        · cases h
        · rename_i name _ type _
          split at h
          · cases h
          · rename_i rest hrest
            cases h
            obtain ⟨hlast, hnil⟩ := ih hrest
            cases rest with
            | nil => simp [MultipleLast]
            | cons t rest =>
              intro u hu
              rw [List.dropLast_cons_of_ne_nil (by simp)] at hu
              rcases List.mem_cons.mp hu with rfl | hu
              · intro hmultiple
                exact absurd (hnil (by simp only at hmultiple; simp [hmultiple])) (by simp)
              · exact hlast u hu
      · cases h

/-- `Compile` lets an argument that takes the rest of the line through at the end only. -/
theorem compile_multipleLast {grammar : Str} {types : List (Str × ArgumentType)}
    (h : compile grammar = .ok types) : MultipleLast types := (compileLoop_multipleLast h).1

/-! ## A written line is parsed -/

theorem cutAt_append {c : Char} {a : Str} (ha : c ∉ a) (b : Str) : cutAt c (a ++ c :: b) = some (a, b) := by
  have hall : ∀ x ∈ a, (x != c) = true := by
    intro x hx
    rw [bne_iff_ne]
    rintro rfl
    exact ha hx
  unfold cutAt
  rw [List.dropWhile_append_of_pos hall, List.takeWhile_append_of_pos hall]
  simp

theorem cutAt_eq_none {c : Char} {a : Str} (ha : c ∉ a) : cutAt c a = none := by
  have hall : a.dropWhile (· != c) = [] := by
    rw [List.dropWhile_eq_nil_iff]
    intro x hx
    rw [bne_iff_ne]
    rintro rfl
    exact ha hx
  rw [cutAt, hall]

theorem skipSpaces_replicate (n : Nat) {c : Char} (hc : c ≠ ' ') (rest : Str) :
    skipSpaces (List.replicate n ' ' ++ c :: rest) = .ok (c :: rest) := by
  induction n with
  | zero => rw [List.replicate_zero, List.nil_append, skipSpaces, if_neg hc]
  | succ n ih =>
    rw [List.replicate_succ, List.cons_append, skipSpaces, if_pos rfl, if_neg (by simp), ih]

theorem written_head (a : Argument) : ∃ c cs, a.written = c :: cs ∧ c ≠ ' ' := by
  obtain ⟨name, type, value, hfits⟩ := a
  cases type with
  | Grouped => exact ⟨'"', value ++ ['"'], rfl, by decide⟩
  | Single =>
    obtain ⟨c, cs, rfl⟩ := List.exists_cons_of_ne_nil hfits.1
    exact ⟨c, cs, rfl, fun h => hfits.2 (by simp [h])⟩
  | Multiple =>
    obtain ⟨c, cs, rfl⟩ := List.exists_cons_of_ne_nil hfits.1
    exact ⟨c, cs, rfl, fun h => hfits.2.1 (by simp [h])⟩

/-- Where the cursor may be when the argument in front of `behind` was read: behind the space that
ended it, or in front of it. -/
inductive CursorAt : Str → Option Str → Prop where
  | done : CursorAt [] none
  | behind (rest : Str) : CursorAt rest (some rest)
  | past (rest : Str) : CursorAt (' ' :: rest) (some rest)

theorem parseSingle_written {value behind : Str} (hspace : ' ' ∉ value)
    (hbehind : behind = [] ∨ ∃ rest, behind = ' ' :: rest) :
    ∃ cursor, parseSingle (value ++ behind) = (value, cursor) ∧ CursorAt behind cursor := by
  unfold parseSingle
  rcases hbehind with rfl | ⟨rest, rfl⟩
  · rw [List.append_nil, cutAt_eq_none hspace]
    exact ⟨none, rfl, .done⟩
  · rw [cutAt_append hspace]
    exact ⟨some rest, rfl, .past rest⟩

theorem dropSpacesBack_concat {c : Char} (hc : c ≠ ' ') (s : Str) :
    dropSpacesBack (s ++ [c]).reverse = .ok (s ++ [c]) := by
  rw [List.reverse_concat, dropSpacesBack, if_neg hc]
  simp

/-- An argument is read from what is written for it. -/
theorem parseArgument_written (a : Argument) (pre : Str) {behind : Str}
    (hbehind : behind = [] ∨ ∃ rest, behind = ' ' :: rest) (hlast : a.type = .Multiple → behind = []) :
    ∃ cursor, parseArgument (pre ++ (a.written ++ behind)) a.type (a.written ++ behind) = .ok (a.value, cursor) ∧
      CursorAt behind cursor := by
  obtain ⟨name, type, value, hfits⟩ := a
  cases type with
  | Single =>
    obtain ⟨cursor, hparse, hcursor⟩ := parseSingle_written hfits.2 hbehind
    exact ⟨cursor, congrArg Except.ok hparse, hcursor⟩
  | Grouped =>
    refine ⟨some behind, ?_, .behind behind⟩
    simp [Argument.written, parseArgument, cutAt_append (show '"' ∉ value from hfits)]
  | Multiple =>
    obtain rfl := hlast rfl
    obtain ⟨v, c, rfl⟩ : ∃ v c, value = v ++ [c] := by
      rcases List.eq_nil_or_concat value with h | ⟨v, c, h⟩
      · exact absurd h hfits.1
      · exact ⟨v, c, by rw [h, List.concat_eq_append]⟩
    have hc : c ≠ ' ' := by simpa using hfits.2.2
    refine ⟨none, ?_, .done⟩
    have hback := dropSpacesBack_concat hc (pre ++ v)
    simp only [Argument.written, List.append_nil, ← List.append_assoc, parseArgument, hback]
    simp

theorem parseLoop_step {line s rest name arg : Str} {type : ArgumentType} {cursor : Option Str}
    (types : List (Str × ArgumentType)) (parsed : Arguments) (hskip : skipSpaces s = .ok rest)
    (harg : parseArgument line type rest = .ok (arg, cursor)) :
    parseLoop line ((name, type) :: types) (some s) parsed = parseLoop line types cursor (parsed.push name arg) := by
  cases s with
  | nil => cases hskip
  | cons c cs => simp only [parseLoop, hskip, harg]

theorem parseLoop_written (line : Str) (arguments : List Argument) :
    ∀ (gaps : List Nat) (pre : Str) (n : Nat) (parsed : Arguments),
      arguments ≠ [] → MultipleLast (arguments.map Argument.typed) →
      line = pre ++ (List.replicate n ' ' ++ writeLine arguments gaps) →
      parseLoop line (arguments.map Argument.typed) (some (List.replicate n ' ' ++ writeLine arguments gaps)) parsed =
        .ok ⟨parsed.args ++ arguments.map Argument.value, parsed.names ++ arguments.map Argument.name⟩ := by
  induction arguments with
  | nil => intro _ _ _ _ hne; exact absurd rfl hne
  | cons a rest ih =>
    intro gaps pre n parsed _ hlast hline
    obtain ⟨c, cs, hwritten, hc⟩ := written_head a
    have hskip : ∀ behind, skipSpaces (List.replicate n ' ' ++ (a.written ++ behind)) = .ok (a.written ++ behind) := by
      intro behind
      rw [hwritten]
      exact skipSpaces_replicate n hc _
    cases rest with
    | nil =>
      obtain ⟨cursor, harg, hcursor⟩ := parseArgument_written a (pre ++ List.replicate n ' ') (.inl rfl) fun _ => rfl
      have hwhole : line = pre ++ List.replicate n ' ' ++ (a.written ++ []) := by simp [hline, writeLine]
      rw [← hwhole] at harg
      have hsingle : writeLine [a] gaps = a.written ++ [] := (List.append_nil _).symm
      rw [List.map_cons, hsingle, Argument.typed, parseLoop_step _ _ (hskip []) harg]
      cases hcursor <;> rfl
    | cons b rest =>
      have hlast' : MultipleLast ((b :: rest).map Argument.typed) :=
        fun t ht => hlast t (List.mem_cons_of_mem _ ht)
      have htype : a.type ≠ .Multiple := hlast a.typed List.mem_cons_self
      have hbehind : writeLine (a :: b :: rest) gaps =
        a.written ++ ' ' :: (List.replicate (gaps.headD 0) ' ' ++ writeLine (b :: rest) gaps.tail) := rfl
      obtain ⟨cursor, harg, hcursor⟩ := parseArgument_written a (pre ++ List.replicate n ' ') (.inr ⟨_, rfl⟩)
        fun h => absurd h htype
      rw [hbehind] at hline ⊢
      rw [← List.append_assoc] at hline
      rw [← hline] at harg
      rw [List.map_cons, Argument.typed, parseLoop_step _ _ (hskip _) harg]
      have hparsed : ∀ n', (∃ pre', line = pre' ++ (List.replicate n' ' ' ++ writeLine (b :: rest) gaps.tail)) →
          parseLoop line ((b :: rest).map Argument.typed)
              (some (List.replicate n' ' ' ++ writeLine (b :: rest) gaps.tail)) (parsed.push a.name a.value) =
            .ok ⟨parsed.args ++ (a :: b :: rest).map Argument.value,
              parsed.names ++ (a :: b :: rest).map Argument.name⟩ := by
        rintro n' ⟨pre', hpre⟩
        rw [ih gaps.tail pre' n' (parsed.push a.name a.value) (by simp) hlast' hpre]
        simp [Arguments.push]
      cases hcursor with
      | behind =>
        -- after a quoted value the cursor is still in front of the space
        exact hparsed (gaps.headD 0 + 1) ⟨pre ++ List.replicate n ' ' ++ a.written, by
          rw [hline, List.replicate_succ]
          simp⟩
      | past =>
        exact hparsed (gaps.headD 0) ⟨pre ++ List.replicate n ' ' ++ a.written ++ [' '], by
          rw [hline]
          simp⟩

/-! ## No line is read past its end -/

theorem skipSpaces_ok {s rest : Str} (h : skipSpaces s = .ok rest) :
    rest <:+ s ∧ ∃ c cs, rest = c :: cs ∧ c ≠ ' ' := by
  induction s with
  | nil => cases h
  | cons c s ih =>
    simp only [skipSpaces] at h
    split at h
    · split at h
      · cases h
      · obtain ⟨hsuffix, hhead⟩ := ih h
        exact ⟨hsuffix.trans (List.suffix_cons c s), hhead⟩
    · rename_i hc
      cases h
      exact ⟨List.suffix_rfl, c, s, rfl, hc⟩

theorem skipSpaces_inLine {s : Str} (hs : s ≠ []) : skipSpaces s ≠ .error .outOfLine := by
  induction s with
  | nil => exact absurd rfl hs
  | cons c s ih =>
    simp only [skipSpaces]
    split
    · split
      · simp
      · rename_i hrest
        exact ih (by simpa using hrest)
    · simp

theorem cutAt_suffix {c : Char} {s a b : Str} (h : cutAt c s = some (a, b)) : b <:+ s := by
  unfold cutAt at h
  split at h
  · cases h
  · rename_i d behind hdrop
    cases h
    have hsuffix : d :: b <:+ s := hdrop ▸ List.dropWhile_suffix _
    exact (List.suffix_cons d b).trans hsuffix

theorem parseSingle_suffix {s rest : Str} (h : (parseSingle s).2 = some rest) : rest <:+ s := by
  unfold parseSingle at h
  split at h
  · cases h
  · rename_i hcut
    cases h
    exact cutAt_suffix hcut

/-- The backwards loop stops at a character that is no space. -/
theorem dropSpacesBack_inLine {s : Str} (h : ∃ c ∈ s, c ≠ ' ') : dropSpacesBack s ≠ .error .outOfLine := by
  induction s with
  | nil =>
    obtain ⟨c, hc, -⟩ := h
    cases hc
  | cons c s ih =>
    simp only [dropSpacesBack]
    split
    · rename_i hc
      obtain ⟨d, hd, hne⟩ := h
      rcases List.mem_cons.mp hd with rfl | hd
      · exact absurd hc hne
      · exact ih ⟨d, hd, hne⟩
    · simp

theorem parseArgument_inLine {line rest : Str} (hrest : rest <:+ line) (hhead : ∃ c cs, rest = c :: cs ∧ c ≠ ' ')
    (type : ArgumentType) :
    parseArgument line type rest ≠ .error .outOfLine ∧
      ∀ arg s, parseArgument line type rest = .ok (arg, some s) → s <:+ rest := by
  obtain ⟨c, cs, rfl, hc⟩ := hhead
  cases type with
  | Single => exact ⟨by simp [parseArgument], fun arg s h => parseSingle_suffix (by rw [Except.ok.inj h])⟩
  | Grouped =>
    simp only [parseArgument]
    split
    · split
      · simp
      · rename_i hcut
        refine ⟨by simp, fun arg s h => ?_⟩
        cases h
        exact (cutAt_suffix hcut).trans (List.suffix_cons c cs)
    · exact ⟨by simp, fun arg s h => parseSingle_suffix (by rw [Except.ok.inj h])⟩
  | Multiple =>
    have hback : dropSpacesBack line.reverse ≠ .error .outOfLine :=
      dropSpacesBack_inLine ⟨c, List.mem_reverse.mpr (hrest.mem List.mem_cons_self), hc⟩
    simp only [parseArgument]
    split
    · rename_i e he
      refine ⟨?_, fun arg s h => by cases h⟩
      rw [he] at hback
      simpa using hback
    · exact ⟨by simp, fun arg s h => by cases h⟩

theorem parseLoop_inLine (line : Str) (types : List (Str × ArgumentType)) :
    ∀ (cursor : Option Str) (parsed : Arguments), (∀ s, cursor = some s → s <:+ line) →
      parseLoop line types cursor parsed ≠ .error .outOfLine := by
  induction types with
  | nil =>
    intro cursor parsed _
    unfold parseLoop
    split <;> simp_all
  | cons t types ih =>
    intro cursor parsed hcursor
    obtain ⟨name, type⟩ := t
    match cursor with
    | none => simp [parseLoop]
    | some [] => simp [parseLoop]
    | some (c :: cs) =>
      have hskip : skipSpaces (c :: cs) ≠ .error .outOfLine := skipSpaces_inLine (by simp)
      simp only [parseLoop]
      split
      · rename_i e he
        rw [he] at hskip
        simpa using hskip
      · rename_i rest hrest
        obtain ⟨hsuffix, hhead⟩ := skipSpaces_ok hrest
        have hline := hsuffix.trans (hcursor _ rfl)
        obtain ⟨hin, hnext⟩ := parseArgument_inLine hline hhead type
        split
        · rename_i e he
          rw [he] at hin
          simpa using hin
        · rename_i arg cursor' harg
          refine ih cursor' _ fun s hs => ?_
          subst hs
          exact (hnext arg s harg).trans hline

/-- A line with the values of a grammar in order, any spaces between them, is parsed to these values;
and whatever the grammar and the line are, the line is parsed or refused without a read past its
end. -/
theorem parse_faithful :
    (∀ (f : Filled) (gaps : List Nat), parse (f.arguments.map Argument.typed) (writeLine f.arguments gaps) =
      .ok ⟨f.arguments.map Argument.value, f.arguments.map Argument.name⟩) ∧
    ∀ (types : List (Str × ArgumentType)) (line : Str), parse types line = .error .syntaxError ∨
      ∃ arguments, parse types line = .ok arguments := by
  constructor
  · rintro ⟨arguments, hlast⟩ gaps
    cases arguments with
    | nil => rfl
    | cons a rest =>
      simpa [parse] using parseLoop_written _ (a :: rest) gaps [] 0 ⟨[], []⟩ (by simp) hlast rfl
  · intro types line
    have hin := parseLoop_inLine line types (some line) ⟨[], []⟩ fun s hs => by cases hs; exact List.suffix_rfl
    cases h : parse types line with
    | ok arguments => exact .inr ⟨arguments, rfl⟩
    | error e =>
      cases e with
      | syntaxError => exact .inl rfl
      | outOfLine => exact absurd h hin

end ArgumentParser
end Cmd
end Ebftpd
