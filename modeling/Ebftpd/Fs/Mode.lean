import Ebftpd.Lib.Chmod
import Ebftpd.Util.String
import Mathlib.Data.Nat.Digits.Defs

/-!
# Ebftpd.Fs.Mode

File modes as `SITE CHMOD` takes them (`src/fs/mode.cpp`). A mode string is compiled to a list of changes, which
are applied to the mode of a file one after the other. `mode_t` has 32 bits, of which the lowest nine are the
permissions; the iterator at the end of the string reads as the null character.

* `compileSymbolicMode_iff`: which strings compile, and to which changes.
* `perms_apply`: what the changes of a symbolic mode do to the permissions.
* `followsChmod_iff`: when a mode string does what it does in chmod.
-/

namespace Ebftpd
namespace Fs
namespace Mode

open Util Lib.Chmod

/-- `mode_t`. -/
abbrev ModeT := BitVec 32

def S_IRWXU : ModeT := 0o700
def S_IRWXG : ModeT := 0o070
def S_IRWXO : ModeT := 0o007

/-- `S_IRUSR | S_IRGRP | S_IROTH`, and these for the other two. -/
def S_IR : ModeT := 0o444
def S_IW : ModeT := 0o222
def S_IX : ModeT := 0o111

inductive ChangeType where
  | Normal | Copy
  deriving DecidableEq

inductive Operator where
  | Plus | Minus | Equals

structure Change where
  op : Operator
  type : ChangeType
  affected : ModeT
  value : ModeT

/-! ## Numeric modes -/

/-- The loop from the last digit to the first. -/
def numericLoop : Str → ModeT → ModeT → Option ModeT
  | [], value, _ => some value
  | c :: it, value, factor =>
    if c < '0' ∨ c > '7' then none
    else numericLoop it (value + BitVec.ofNat 32 (c.toNat - '0'.toNat) * factor) (factor * 8)

/-- `NumericModeFromString`; `none` is `InvalidModeString`, also below. -/
def numericModeFromString (str : Str) : Option ModeT :=
  if str = [] ∨ str.length > 3 ∧ (str.length ≠ 4 ∨ str.head? ≠ some '0') then none
  else numericLoop str.reverse 0 1

def compileNumericMode (str : Str) : Option (List Change) :=
  (numericModeFromString str).map fun value => [⟨.Equals, .Normal, S_IRWXU ||| S_IRWXG ||| S_IRWXO, value⟩]

/-! ## The masks of a mode's text -/

def classMask : ModeClass → ModeT
  | .user => S_IRWXU
  | .group => S_IRWXG
  | .other => S_IRWXO

def permMask : Perm → ModeT
  | .read => S_IR
  | .write => S_IW
  | .exec => S_IX

def whoMask : Who → ModeT
  | .all => S_IRWXU ||| S_IRWXG ||| S_IRWXO
  | .one c => classMask c

def withWho (affected : ModeT) (who : List Who) : ModeT := who.foldl (fun mask w => mask ||| whoMask w) affected

def withPerms (value : ModeT) (ps : List Perm) : ModeT := ps.foldl (fun mask p => mask ||| permMask p) value

def operatorOf : Op → Operator
  | .plus => .Plus
  | .minus => .Minus
  | .equals => .Equals

def typeOf : Operand → ChangeType
  | .copy _ => .Copy
  | .perms _ => .Normal

def valueOf : Operand → ModeT
  | .copy c => classMask c
  | .perms ps => withPerms 0 ps

def actionOf (affected : ModeT) (a : Op × Operand) : Change := ⟨operatorOf a.1, typeOf a.2, affected, valueOf a.2⟩

/-- What an operation is compiled to. -/
def compiled (ch : Lib.Chmod.Change) : Change := actionOf (withWho 0 ch.who) (ch.op, ch.operand)

/-! ## Symbolic modes -/

/-- `*it`. -/
def peek (it : Str) : Char := it.headD (Char.ofNat 0)

/-- The loop over the classes. -/
def affectedLoop : ModeT → Str → ModeT × Str
  | affected, [] => (affected, [])
  | affected, c :: it =>
    if c = 'a' then affectedLoop (affected ||| (S_IRWXU ||| S_IRWXG ||| S_IRWXO)) it
    else if c = 'u' then affectedLoop (affected ||| S_IRWXU) it
    else if c = 'g' then affectedLoop (affected ||| S_IRWXG) it
    else if c = 'o' then affectedLoop (affected ||| S_IRWXO) it
    else (affected, c :: it)

/-- The loop over the permissions. -/
def valueLoop : ModeT → Str → ModeT × Str
  | value, [] => (value, [])
  | value, c :: it =>
    if c = 'r' then valueLoop (value ||| S_IR) it
    else if c = 'w' then valueLoop (value ||| S_IW) it
    else if c = 'x' then valueLoop (value ||| S_IX) it
    else (value, c :: it)

def operator (c : Char) : Option Operator :=
  if c = '+' then some .Plus else if c = '-' then some .Minus else if c = '=' then some .Equals else none

/-- The condition of the loop over the operators. -/
def isOperator (c : Char) : Bool := c == '-' || c == '=' || c == '+'

/-- What is behind an operator. -/
def compileValue : Str → ChangeType × ModeT × Str
  | [] => (.Normal, 0, [])
  | c :: it =>
    if c = 'u' then (.Copy, S_IRWXU, it)
    else if c = 'g' then (.Copy, S_IRWXG, it)
    else if c = 'o' then (.Copy, S_IRWXO, it)
    else (.Normal, valueLoop 0 (c :: it))

theorem affectedLoop_sound (it : Str) : ∀ affected, ∃ who : List Who,
    it = who.map Who.char ++ (affectedLoop affected it).2 ∧ (affectedLoop affected it).1 = withWho affected who := by
  induction it with
  | nil => exact fun affected => ⟨[], rfl, rfl⟩
  | cons c it ih =>
    intro affected
    rw [affectedLoop]
    split
    · rename_i hc
      obtain ⟨who, hit, hmask⟩ := ih (affected ||| whoMask .all)
      exact ⟨.all :: who, congrArg₂ List.cons hc hit, hmask⟩
    · split
      · rename_i hc
        obtain ⟨who, hit, hmask⟩ := ih (affected ||| whoMask (.one .user))
        exact ⟨.one .user :: who, congrArg₂ List.cons hc hit, hmask⟩
      · split
        · rename_i hc
          obtain ⟨who, hit, hmask⟩ := ih (affected ||| whoMask (.one .group))
          exact ⟨.one .group :: who, congrArg₂ List.cons hc hit, hmask⟩
        · split
          · rename_i hc
            obtain ⟨who, hit, hmask⟩ := ih (affected ||| whoMask (.one .other))
            exact ⟨.one .other :: who, congrArg₂ List.cons hc hit, hmask⟩
          · exact ⟨[], rfl, rfl⟩

theorem valueLoop_sound (it : Str) : ∀ value, ∃ ps : List Perm,
    it = ps.map Perm.char ++ (valueLoop value it).2 ∧ (valueLoop value it).1 = withPerms value ps := by
  induction it with
  | nil => exact fun value => ⟨[], rfl, rfl⟩
  | cons c it ih =>
    intro value
    rw [valueLoop]
    split
    · rename_i hc
      obtain ⟨ps, hit, hmask⟩ := ih (value ||| permMask .read)
      exact ⟨.read :: ps, congrArg₂ List.cons hc hit, hmask⟩
    · split
      · rename_i hc
        obtain ⟨ps, hit, hmask⟩ := ih (value ||| permMask .write)
        exact ⟨.write :: ps, congrArg₂ List.cons hc hit, hmask⟩
      · split
        · rename_i hc
          obtain ⟨ps, hit, hmask⟩ := ih (value ||| permMask .exec)
          exact ⟨.exec :: ps, congrArg₂ List.cons hc hit, hmask⟩
        · exact ⟨[], rfl, rfl⟩

theorem compileValue_sound (it : Str) :
    ∃ o : Operand, it = o.text ++ (compileValue it).2.2 ∧ (compileValue it).1 = typeOf o ∧
      (compileValue it).2.1 = valueOf o := by
  cases it with
  | nil => exact ⟨.perms [], rfl, rfl, rfl⟩
  | cons c it =>
    rw [compileValue]
    split
    · rename_i hc
      exact ⟨.copy .user, congrArg (· :: it) hc, rfl, rfl⟩
    · split
      · rename_i hc
        exact ⟨.copy .group, congrArg (· :: it) hc, rfl, rfl⟩
      · split
        · rename_i hc
          exact ⟨.copy .other, congrArg (· :: it) hc, rfl, rfl⟩
        · obtain ⟨ps, hit, hmask⟩ := valueLoop_sound (c :: it) 0
          exact ⟨.perms ps, hit, rfl, hmask⟩

theorem operator_sound {c : Char} {op : Operator} (h : operator c = some op) :
    ∃ o : Op, c = o.char ∧ op = operatorOf o := by
  unfold operator at h
  split at h
  · rename_i hc
    exact ⟨.plus, hc, (Option.some.inj h).symm⟩
  · split at h
    · rename_i hc
      exact ⟨.minus, hc, (Option.some.inj h).symm⟩
    · split at h
      · rename_i hc
        exact ⟨.equals, hc, (Option.some.inj h).symm⟩
      · cases h

theorem compileValue_length (it : Str) : (compileValue it).2.2.length ≤ it.length := by
  obtain ⟨o, hit, -⟩ := compileValue_sound it
  rw [congrArg List.length hit, List.length_append]
  exact Nat.le_add_left _ _

/-- The loop over the operators of a clause. -/
def changesLoop (affected : ModeT) : Str → Option (List Change × Str)
  | [] => none
  | c :: it =>
    match operator c with
    | none => none
    | some op =>
      if isOperator (peek (compileValue it).2.2) then
        (changesLoop affected (compileValue it).2.2).map fun more =>
          (⟨op, (compileValue it).1, affected, (compileValue it).2.1⟩ :: more.1, more.2)
      else some ([⟨op, (compileValue it).1, affected, (compileValue it).2.1⟩], (compileValue it).2.2)
termination_by it => it.length
decreasing_by exact Nat.lt_succ_of_le (compileValue_length it)

theorem changesLoop_operator (affected : ModeT) {c : Char} (it : Str) {op : Operator} (hop : operator c = some op) :
    changesLoop affected (c :: it) =
      if isOperator (peek (compileValue it).2.2) then
        (changesLoop affected (compileValue it).2.2).map fun more =>
          (⟨op, (compileValue it).1, affected, (compileValue it).2.1⟩ :: more.1, more.2)
      else some ([⟨op, (compileValue it).1, affected, (compileValue it).2.1⟩], (compileValue it).2.2) := by
  rw [changesLoop, hop]

/-- One operator with what is behind it. -/
theorem action_sound (affected : ModeT) {c : Char} (it : Str) {op : Operator} (hop : operator c = some op) :
    ∃ a : Op × Operand, c :: it = a.1.char :: a.2.text ++ (compileValue it).2.2 ∧
      (⟨op, (compileValue it).1, affected, (compileValue it).2.1⟩ : Change) = actionOf affected a := by
  obtain ⟨o, rfl, rfl⟩ := operator_sound hop
  obtain ⟨operand, hvalue, htype, hmask⟩ := compileValue_sound it
  exact ⟨(o, operand), congrArg _ hvalue, by rw [htype, hmask]; rfl⟩

theorem changesLoop_sound {affected : ModeT} {it rest : Str} {changes : List Change}
    (h : changesLoop affected it = some (changes, rest)) :
    ∃ actions, actions ≠ [] ∧ it = actionsText actions ++ rest ∧ changes = actions.map (actionOf affected) := by
  induction it using changesLoop.induct generalizing changes with
  | case1 => simp [changesLoop] at h
  | case2 c it hop => simp [changesLoop, hop] at h
  | case3 c it op hop hmore ih =>
    rw [changesLoop_operator affected it hop, if_pos hmore, Option.map_eq_some_iff] at h
    obtain ⟨more, hrest, hmore⟩ := h
    cases hmore
    obtain ⟨actions, -, hit, hchanges⟩ := ih hrest
    obtain ⟨a, htext, hchange⟩ := action_sound affected it hop
    refine ⟨a :: actions, List.cons_ne_nil _ _, ?_, ?_⟩
    · rw [htext, hit]
      simp [actionsText]
    · rw [hchanges, hchange, List.map_cons]
  | case4 c it op hop hlast =>
    rw [changesLoop_operator affected it hop, if_neg hlast, Option.some.injEq, Prod.mk.injEq] at h
    obtain ⟨rfl, rfl⟩ := h
    obtain ⟨a, htext, hchange⟩ := action_sound affected it hop
    refine ⟨[a], List.cons_ne_nil _ _, ?_, ?_⟩
    · rw [htext]
      simp [actionsText]
    · rw [hchange, List.map_singleton]

/-- The loop over the clauses. -/
def clausesLoop (it : Str) : Option (List Change × Str) :=
  if it = [] then some ([], [])
  else
    let r := affectedLoop 0 it
    match _h : changesLoop r.1 r.2 with
    | none => none
    | some (changes, it') =>
      if peek it' ≠ ',' then some (changes, it')
      else (clausesLoop it'.tail).map fun more => (changes ++ more.1, more.2)
termination_by it.length
decreasing_by
  obtain ⟨who, hwho, -⟩ := affectedLoop_sound it 0
  obtain ⟨actions, hne, hactions, -⟩ := changesLoop_sound _h
  have htext := List.length_pos_iff.mpr (actionsText_ne_nil hne)
  rw [hactions] at hwho
  rw [congrArg List.length hwho]
  simp only [List.length_append, List.length_tail]
  omega

def compileSymbolicMode (str : Str) : Option (List Change) :=
  match clausesLoop str with
  | some (changes, []) => some changes
  | _ => none

def compile (str : Str) : Option (List Change) :=
  match str with
  | [] => none
  | c :: _ => if c.isDigit then compileNumericMode str else compileSymbolicMode str

/-! ## Applying -/

/-- One permission of a copy, which becomes that of all classes. -/
def spread (mask value : ModeT) : ModeT := if value &&& mask ≠ 0 then value ||| mask else value

def changeValue (umask newMode : ModeT) (c : Change) : ModeT :=
  let value := if c.type = .Copy then spread S_IX (spread S_IW (spread S_IR (c.value &&& newMode))) else c.value
  if c.affected ≠ 0 then value &&& c.affected else value &&& ~~~umask

def applyChange (umask newMode : ModeT) (c : Change) : ModeT :=
  let value := changeValue umask newMode c
  match c.op with
  | .Equals => (newMode &&& ~~~c.affected) ||| value
  | .Plus => newMode ||| value
  | .Minus => newMode &&& ~~~value

def apply (changes : List Change) (oldMode umask : ModeT) : ModeT := changes.foldl (applyChange umask) oldMode

/-! ## What the loops read -/

theorem compiled_clause (c : Clause) :
    c.changes.map compiled = c.actions.map (actionOf (withWho 0 c.who)) := by
  rw [Clause.changes, List.map_map]
  rfl

theorem compiled_changes (c c' : Clause) (cs : List Clause) :
    (Lib.Chmod.changes c (c' :: cs)).map compiled =
      c.changes.map compiled ++ (Lib.Chmod.changes c' cs).map compiled := by
  rw [Lib.Chmod.changes, List.flatMap_cons, List.map_append]
  rfl

theorem peek_comma {it : Str} (h : peek it = ',') : ∃ it', it = ',' :: it' := by
  cases it with
  | nil => exact absurd h (by decide)
  | cons c it => exact ⟨it, by rw [← show c = ',' from h]⟩

theorem clausesLoop_of_ne_nil {it : Str} (hne : it ≠ []) :
    clausesLoop it = (changesLoop (affectedLoop 0 it).1 (affectedLoop 0 it).2).bind fun r =>
      if peek r.2 ≠ ',' then some r
      else (clausesLoop r.2.tail).map fun more => (r.1 ++ more.1, more.2) := by
  rw [clausesLoop, if_neg hne]
  simp only
  split
  · rename_i hnone
    rw [hnone]
    rfl
  · rename_i changes it' hsome
    rw [hsome]
    rfl

/-- The string that was read, which may end in a comma. -/
theorem clausesLoop_sound (it : Str) : ∀ {changes : List Change}, clausesLoop it = some (changes, []) →
    it = [] ∧ changes = [] ∨
      ∃ c cs, (it = text c cs ∨ it = text c cs ++ [',']) ∧ changes = (Lib.Chmod.changes c cs).map compiled := by
  induction hlength : it.length using Nat.strong_induction_on generalizing it with
  | _ n ih =>
    intro changes h
    by_cases hne : it = []
    · rw [hne, clausesLoop, if_pos rfl] at h
      exact .inl ⟨hne, (congrArg Prod.fst (Option.some.inj h)).symm⟩
    · rw [clausesLoop_of_ne_nil hne] at h
      cases hchanges : changesLoop (affectedLoop 0 it).1 (affectedLoop 0 it).2 with
      | none =>
        rw [hchanges] at h
        cases h
      | some r =>
        obtain ⟨own, it'⟩ := r
        rw [hchanges, Option.bind_some] at h
        obtain ⟨who, hwho, hmask⟩ := affectedLoop_sound it 0
        obtain ⟨actions, hactions, hit, hown⟩ := changesLoop_sound hchanges
        let c : Clause := ⟨who, actions, hactions⟩
        have htext : it = c.text ++ it' := by rw [hwho, hit, Clause.text, List.append_assoc]
        rw [hmask, ← compiled_clause c] at hown
        split at h
        · obtain ⟨rfl, rfl⟩ := Prod.mk.inj (Option.some.inj h)
          rw [List.append_nil] at htext
          exact .inr ⟨c, [], .inl htext, by simpa [Lib.Chmod.changes] using hown⟩
        · rename_i hcomma
          obtain ⟨rest, rfl⟩ := peek_comma (not_not.mp hcomma)
          obtain ⟨more, hmore, heq⟩ := Option.map_eq_some_iff.mp h
          obtain ⟨rfl, hnil⟩ := Prod.mk.inj heq
          have hrest : clausesLoop rest = some (more.1, []) := by
            rw [← hnil]
            exact hmore
          have hlt : rest.length < n := by
            rw [← hlength, htext, List.length_append, List.length_cons]
            omega
          rcases ih rest.length hlt rest rfl hrest with ⟨rfl, hnone⟩ | ⟨c', cs, hread, hchanges'⟩
          · exact .inr ⟨c, [], .inr htext, by simpa [Lib.Chmod.changes, hnone] using hown⟩
          · refine .inr ⟨c, c' :: cs, ?_, ?_⟩
            · rcases hread with rfl | rfl
              · exact .inl htext
              · refine .inr ?_
                rw [htext, text, List.append_assoc]
                rfl
            · rw [compiled_changes, hown, hchanges']

theorem withWho_loop (who : List Who) (affected : ModeT) {rest : Str}
    (h : ∀ w : Who, rest.head? ≠ some w.char) :
    affectedLoop affected (who.map Who.char ++ rest) = (withWho affected who, rest) := by
  induction who generalizing affected with
  | nil =>
    cases rest with
    | nil => rfl
    | cons c rest =>
      have hc : ∀ w : Who, c ≠ w.char := fun w hw => h w (congrArg some hw)
      simp [affectedLoop, withWho, show c ≠ 'a' from hc .all, show c ≠ 'u' from hc (.one .user),
        show c ≠ 'g' from hc (.one .group), show c ≠ 'o' from hc (.one .other)]
  | cons w who ih =>
    have hloop : affectedLoop affected (w.char :: (who.map Who.char ++ rest)) =
        affectedLoop (affected ||| whoMask w) (who.map Who.char ++ rest) := by
      rcases w with _ | _ | _ | _ <;> rfl
    rw [List.map_cons, List.cons_append, hloop, ih]
    rfl

theorem withPerms_loop (ps : List Perm) (value : ModeT) {rest : Str}
    (h : ∀ p : Perm, rest.head? ≠ some p.char) :
    valueLoop value (ps.map Perm.char ++ rest) = (withPerms value ps, rest) := by
  induction ps generalizing value with
  | nil =>
    cases rest with
    | nil => rfl
    | cons c rest =>
      have hc : ∀ p : Perm, c ≠ p.char := fun p hp => h p (congrArg some hp)
      simp [valueLoop, withPerms, show c ≠ 'r' from hc .read, show c ≠ 'w' from hc .write,
        show c ≠ 'x' from hc .exec]
  | cons p ps ih =>
    have hloop : valueLoop value (p.char :: (ps.map Perm.char ++ rest)) =
        valueLoop (value ||| permMask p) (ps.map Perm.char ++ rest) := by
      cases p <;> rfl
    rw [List.map_cons, List.cons_append, hloop, ih]
    rfl

/-- What may follow an operand: an operator, a comma or nothing. -/
def Stops (rest : Str) : Prop := rest.head?.all fun c => c == ',' || isOperator c

theorem Stops.ne {rest : Str} (h : Stops rest) {c : Char} (hc : (c == ',' || isOperator c) = false) :
    rest.head? ≠ some c := by
  intro hhead
  rw [Stops, hhead, Option.all_some, hc] at h
  cases h

theorem compileValue_text (o : Operand) {rest : Str} (h : Stops rest) :
    compileValue (o.text ++ rest) = (typeOf o, valueOf o, rest) := by
  cases o with
  | copy c => cases c <;> rfl
  | perms ps =>
    have hloop := withPerms_loop ps 0 fun p => h.ne (c := p.char) (by cases p <;> rfl)
    cases hread : ps.map Perm.char ++ rest with
    | nil =>
      obtain ⟨hps, rfl⟩ := List.append_eq_nil_iff.mp hread
      rw [List.map_eq_nil_iff.mp hps]
      rfl
    | cons c it =>
      have hclass : ∀ d : ModeClass, c ≠ d.char := by
        rintro d rfl
        cases ps with
        | nil =>
          have hhead : rest.head? = some d.char := by
            rw [List.map_nil, List.nil_append] at hread
            rw [hread]
            rfl
          exact h.ne (by cases d <;> rfl) hhead
        | cons p ps =>
          have hp : p.char = d.char := (List.cons.inj hread).1
          cases p <;> cases d <;> exact absurd hp (by decide)
      rw [Operand.text, hread, compileValue, if_neg (show c ≠ 'u' from hclass .user),
        if_neg (show c ≠ 'g' from hclass .group), if_neg (show c ≠ 'o' from hclass .other), ← hread, hloop]
      rfl

theorem operator_char (o : Op) : operator o.char = some (operatorOf o) := by
  cases o <;> rfl

/-- The loop reads the operations of a clause to their end. -/
theorem changesLoop_text (affected : ModeT) {actions : List (Op × Operand)} (hne : actions ≠ []) {rest : Str}
    (hrest : rest = [] ∨ ∃ it, rest = ',' :: it) :
    changesLoop affected (actionsText actions ++ rest) = some (actions.map (actionOf affected), rest) := by
  have hstops : Stops rest ∧ isOperator (peek rest) = false := by
    rcases hrest with rfl | ⟨it, rfl⟩
    · exact ⟨rfl, rfl⟩
    · exact ⟨rfl, rfl⟩
  induction actions with
  | nil => exact absurd rfl hne
  | cons a actions ih =>
    obtain ⟨o, operand⟩ := a
    have hread : actionsText ((o, operand) :: actions) ++ rest =
        o.char :: (operand.text ++ (actionsText actions ++ rest)) := by
      simp [actionsText]
    rw [hread, changesLoop_operator affected _ (operator_char o)]
    cases actions with
    | nil =>
      rw [show actionsText [] ++ rest = rest from rfl, compileValue_text operand hstops.1, if_neg (by simp [hstops.2])]
      rfl
    | cons b actions =>
      have hpeek : peek (actionsText (b :: actions) ++ rest) = b.1.char := rfl
      have hop : isOperator b.1.char = true := by cases b.1 <;> rfl
      have hmore : Stops (actionsText (b :: actions) ++ rest) := by
        show (b.1.char == ',' || isOperator b.1.char) = true
        rw [hop, Bool.or_true]
      rw [compileValue_text operand hmore, hpeek, if_pos hop, ih (List.cons_ne_nil _ _)]
      rfl

/-- A mode's text compiles to its operations, also with a comma behind it. -/
theorem clausesLoop_text (c : Clause) (cs : List Clause) {tail : Str} (htail : tail = [] ∨ tail = [',']) :
    clausesLoop (text c cs ++ tail) = some ((Lib.Chmod.changes c cs).map compiled, []) := by
  have hclause : ∀ (c : Clause) {rest : Str}, (rest = [] ∨ ∃ it, rest = ',' :: it) →
      changesLoop (affectedLoop 0 (c.text ++ rest)).1 (affectedLoop 0 (c.text ++ rest)).2 =
        some (c.changes.map compiled, rest) := by
    intro c rest hrest
    obtain ⟨⟨o, operand⟩, actions, hactions⟩ := List.exists_cons_of_ne_nil c.some_action
    have hwho : ∀ w : Who, (actionsText c.actions ++ rest).head? ≠ some w.char := by
      intro w hw
      rw [hactions] at hw
      have hchar : o.char = w.char := Option.some.inj hw
      rcases w with _ | _ | _ | _ <;> cases o <;> exact absurd hchar (by decide)
    rw [Clause.text, List.append_assoc, withWho_loop c.who 0 hwho, changesLoop_text _ c.some_action hrest,
      compiled_clause]
  induction cs generalizing c with
  | nil =>
    have hread : text c [] ++ tail = c.text ++ tail := rfl
    rw [hread, clausesLoop_of_ne_nil (List.append_ne_nil_of_left_ne_nil c.text_ne_nil _)]
    rcases htail with rfl | rfl
    · rw [hclause c (.inl rfl), Option.bind_some, if_pos (show peek [] ≠ ',' by decide)]
      simp [Lib.Chmod.changes]
    · rw [hclause c (.inr ⟨[], rfl⟩), Option.bind_some, if_neg (by simp [peek]), List.tail_cons, clausesLoop, if_pos rfl]
      simp [Lib.Chmod.changes]
  | cons c' cs ih =>
    have hread : text c (c' :: cs) ++ tail = c.text ++ ',' :: (text c' cs ++ tail) := by
      rw [text, List.append_assoc]
      rfl
    rw [hread, clausesLoop_of_ne_nil (List.append_ne_nil_of_left_ne_nil c.text_ne_nil _),
      hclause c (.inr ⟨_, rfl⟩), Option.bind_some, if_neg (by simp [peek]), List.tail_cons, ih c', Option.map_some,
      compiled_changes]

/-- A string compiles when it is the text of a mode, or that with a comma behind it. -/
theorem compileSymbolicMode_iff {str : Str} (hne : str ≠ []) (changes : List Change) :
    compileSymbolicMode str = some changes ↔
      ∃ c cs, (str = text c cs ∨ str = text c cs ++ [',']) ∧ changes = (Lib.Chmod.changes c cs).map compiled := by
  constructor
  · intro h
    have hloop : clausesLoop str = some (changes, []) := by
      unfold compileSymbolicMode at h
      split at h
      · rename_i own hloop
        rw [hloop, Option.some.inj h]
      · cases h
    exact (clausesLoop_sound str hloop).resolve_left fun hnil => hne hnil.1
  · rintro ⟨c, cs, hread, rfl⟩
    have hloop : clausesLoop str = some ((Lib.Chmod.changes c cs).map compiled, []) := by
      rcases hread with rfl | rfl
      · simpa using clausesLoop_text c cs (.inl rfl)
      · exact clausesLoop_text c cs (.inr rfl)
    rw [compileSymbolicMode, hloop]

/-! ## What the changes do -/

/-- The place of a permission among the bits of a mode. -/
def place : ModeClass → Perm → Nat
  | .user, .read => 8
  | .user, .write => 7
  | .user, .exec => 6
  | .group, .read => 5
  | .group, .write => 4
  | .group, .exec => 3
  | .other, .read => 2
  | .other, .write => 1
  | .other, .exec => 0

/-- The permissions of a mode. -/
def perms (mode : ModeT) : Perms := fun c p => mode.getLsbD (place c p)

theorem place_lt (c : ModeClass) (p : Perm) : place c p < 32 := by
  cases c <;> cases p <;> decide

section Bits

variable (m m' : ModeT) (c : ModeClass) (p : Perm)

@[simp] theorem perms_or : perms (m ||| m') c p = (perms m c p || perms m' c p) := BitVec.getLsbD_or

@[simp] theorem perms_and : perms (m &&& m') c p = (perms m c p && perms m' c p) := BitVec.getLsbD_and

@[simp] theorem perms_not : perms (~~~m) c p = !perms m c p := by
  rw [perms, BitVec.getLsbD_not, decide_eq_true (place_lt c p), Bool.true_and]
  rfl

@[simp] theorem perms_zero : perms 0#32 c p = false := BitVec.getLsbD_zero

theorem perms_classMask (d : ModeClass) : perms (classMask d) c p = (d == c) := by
  cases d <;> cases c <;> cases p <;> rfl

theorem perms_permMask (q : Perm) : perms (permMask q) c p = (q == p) := by
  cases q <;> cases c <;> cases p <;> rfl

theorem perms_whoMask (w : Who) : perms (whoMask w) c p = (w == .all || w == .one c) := by
  rcases w with _ | _ | _ | _ <;> cases c <;> cases p <;> rfl

end Bits

theorem perms_withWho (who : List Who) (m : ModeT) (c : ModeClass) (p : Perm) :
    perms (withWho m who) c p = (perms m c p || selects who c) := by
  induction who generalizing m with
  | nil => simp [withWho, selects]
  | cons w who ih =>
    have hstep : withWho m (w :: who) = withWho (m ||| whoMask w) who := rfl
    rw [hstep, ih, perms_or, perms_whoMask, Bool.or_assoc]
    rfl

theorem perms_withPerms (ps : List Perm) (m : ModeT) (c : ModeClass) (p : Perm) :
    perms (withPerms m ps) c p = (perms m c p || ps.contains p) := by
  induction ps generalizing m with
  | nil => simp [withPerms]
  | cons q ps ih =>
    have hstep : withPerms m (q :: ps) = withPerms (m ||| permMask q) ps := rfl
    rw [hstep, ih, perms_or, perms_permMask, Bool.or_assoc, List.contains_cons, Bool.beq_comm]

theorem withWho_eq_zero_iff (who : List Who) : withWho 0 who = 0 ↔ who = [] := by
  constructor
  · intro h
    cases who with
    | nil => rfl
    | cons w who =>
      have hw : ∃ c, (w == .all || w == .one c) = true := by
        rcases w with _ | c
        · exact ⟨.user, rfl⟩
        · exact ⟨c, by simp⟩
      obtain ⟨c, hc⟩ := hw
      have hbit := perms_withWho (w :: who) 0 c .read
      rw [h, selects, List.any_cons, hc] at hbit
      simp at hbit
  · rintro rfl
    rfl

/-- A mask of one permission meets a mode in which some class has it. -/
theorem and_permMask_ne_zero_iff (m : ModeT) (p : Perm) : m &&& permMask p ≠ 0 ↔ ∃ c, perms m c p = true := by
  constructor
  · intro h
    by_contra hnone
    have hfalse : ∀ c, m.getLsbD (place c p) = false := fun c =>
      Bool.eq_false_iff.mpr fun hc => hnone ⟨c, hc⟩
    have hmask : permMask p = BitVec.twoPow 32 (place .user p) ||| BitVec.twoPow 32 (place .group p) |||
        BitVec.twoPow 32 (place .other p) := by cases p <;> rfl
    refine h ?_
    rw [hmask, BitVec.and_or_distrib_left, BitVec.and_or_distrib_left, BitVec.and_twoPow, BitVec.and_twoPow,
      BitVec.and_twoPow, hfalse, hfalse, hfalse]
    simp
  · rintro ⟨c, hc⟩ hzero
    have hbit : perms (m &&& permMask p) c p = true := by
      rw [perms_and, hc, perms_permMask]
      simp
    rw [hzero] at hbit
    simp at hbit

theorem perms_spread (p q : Perm) (m : ModeT) (c : ModeClass) :
    perms (spread (permMask p) m) c q = true ↔ perms m c q = true ∨ p = q ∧ ∃ d, perms m d p = true := by
  unfold spread
  split
  · rename_i hsome
    rw [perms_or, perms_permMask, Bool.or_eq_true, beq_iff_eq, and_iff_left ((and_permMask_ne_zero_iff m p).mp hsome)]
  · rename_i hnone
    exact (or_iff_left fun h => hnone ((and_permMask_ne_zero_iff m p).mpr h.2)).symm

/-- A copy has the permissions of one class for all of them. -/
theorem perms_copy (d : ModeClass) (m : ModeT) (c : ModeClass) (q : Perm) :
    perms (spread S_IX (spread S_IW (spread S_IR (classMask d &&& m)))) c q = perms m d q := by
  have hown : ∀ p, (∃ c, perms (classMask d &&& m) c p = true) ↔ perms m d p = true := by
    intro p
    simp only [perms_and, perms_classMask, Bool.and_eq_true, beq_iff_eq, exists_eq_left']
  have hcopied : perms (classMask d &&& m) c q = true → perms m d q = true := fun h => (hown q).mp ⟨c, h⟩
  rw [Bool.eq_iff_iff, show S_IX = permMask .exec from rfl, show S_IW = permMask .write from rfl,
    show S_IR = permMask .read from rfl]
  generalize classMask d &&& m = copied at hown hcopied
  simp only [perms_spread]
  cases q with
  | read => simpa [hown] using hcopied
  | write => simpa [hown] using hcopied
  | exec => simpa [hown] using hcopied

theorem compiled_affected (ch : Lib.Chmod.Change) (c : ModeClass) (p : Perm) :
    perms (compiled ch).affected c p = selects ch.who c := by
  rw [compiled, actionOf, perms_withWho]
  simp

theorem perms_changeValue (umask m : ModeT) (ch : Lib.Chmod.Change) (c : ModeClass) (p : Perm) :
    perms (changeValue umask m (compiled ch)) c p = ch.value (perms umask) (perms m) c p := by
  have hselected : perms (if (compiled ch).type = .Copy then
      spread S_IX (spread S_IW (spread S_IR ((compiled ch).value &&& m))) else (compiled ch).value) c p =
        ch.operand.selected (perms m) c p := by
    obtain ⟨who, op, operand⟩ := ch
    cases operand with
    | copy d => exact perms_copy d m c p
    | perms ps =>
      rw [if_neg (by simp [compiled, actionOf, typeOf])]
      show perms (withPerms 0 ps) c p = ps.contains p
      rw [perms_withPerms]
      simp
  have hwho : (compiled ch).affected ≠ 0 ↔ ch.who ≠ [] := (withWho_eq_zero_iff ch.who).not
  rw [changeValue, Lib.Chmod.Change.value, Lib.Chmod.Change.limit]
  split
  · rename_i hsome
    rw [perms_and, hselected, compiled_affected, if_neg (by simpa using hwho.mp hsome)]
  · rename_i hnone
    rw [perms_and, hselected, perms_not, if_pos (by simpa using hwho.not.mp hnone)]

/-- A change does to the permissions what its operation does, except that an `=` with no classes keeps them. -/
theorem perms_applyChange (umask m : ModeT) (ch : Lib.Chmod.Change) :
    perms (applyChange umask m (compiled ch)) = ch.applyKept (perms umask) (perms m) := by
  funext c p
  have hvalue := perms_changeValue umask m ch c p
  have haffected := compiled_affected ch c p
  have hop : (compiled ch).op = operatorOf ch.op := rfl
  rw [applyChange, hop, Lib.Chmod.Change.applyKept, Lib.Chmod.Change.apply]
  cases ho : ch.op with
  | plus =>
    rw [if_neg fun h => absurd (ho.symm.trans h.1) (by decide)]
    simp [operatorOf, hvalue]
  | minus =>
    rw [if_neg fun h => absurd (ho.symm.trans h.1) (by decide)]
    simp [operatorOf, hvalue]
  | equals =>
    by_cases hwho : ch.who = []
    · rw [if_pos ⟨ho, hwho⟩]
      simp [operatorOf, hvalue, haffected, hwho, selects]
    · have hsome : ch.who.isEmpty = false := by simpa using hwho
      rw [if_neg fun h => hwho h.2]
      simp [operatorOf, hvalue, haffected, hsome]

theorem perms_apply (changes : List Lib.Chmod.Change) (umask : ModeT) :
    ∀ m, perms (apply (changes.map compiled) m umask) = runKept (perms umask) changes (perms m) := by
  induction changes with
  | nil => exact fun m => rfl
  | cons ch changes ih =>
    intro m
    have hrest := ih (applyChange umask m (compiled ch))
    rw [perms_applyChange] at hrest
    exact hrest

/-! ## Numeric modes -/

def digit (c : Char) : Nat := c.toNat - '0'.toNat

theorem numericLoop_value {it : Str} {v : ModeT} :
    ∀ {value factor : Nat}, numericLoop it (BitVec.ofNat 32 value) (BitVec.ofNat 32 factor) = some v →
      v = BitVec.ofNat 32 (value + factor * Nat.ofDigits 8 (it.map digit)) := by
  induction it with
  | nil =>
    intro value factor h
    rw [List.map_nil, Nat.ofDigits_nil, Nat.mul_zero, Nat.add_zero]
    exact (Option.some.inj h).symm
  | cons c it ih =>
    intro value factor h
    rw [numericLoop] at h
    split at h
    · cases h
    · have hvalue : BitVec.ofNat 32 value + BitVec.ofNat 32 (digit c) * BitVec.ofNat 32 factor =
          BitVec.ofNat 32 (value + digit c * factor) := by
        rw [BitVec.ofNat_add, BitVec.ofNat_mul]
      have hfactor : BitVec.ofNat 32 factor * 8 = BitVec.ofNat 32 (factor * 8) := by
        rw [BitVec.ofNat_mul]
        rfl
      rw [show c.toNat - '0'.toNat = digit c from rfl, hvalue, hfactor] at h
      rw [ih h, List.map_cons, Nat.ofDigits_cons]
      congr 1
      rw [Nat.mul_add, Nat.mul_comm (digit c), ← Nat.mul_assoc, Nat.add_assoc]

/-- The permissions that a number's octal digits stand for. -/
def octalPerms (str : Str) : Perms := fun c p => (Nat.ofDigits 8 (str.reverse.map digit)).testBit (place c p)

theorem perms_numeric {str : Str} {changes : List Change} (h : compileNumericMode str = some changes)
    (umask oldMode : ModeT) : perms (apply changes oldMode umask) = octalPerms str := by
  obtain ⟨v, hv, rfl⟩ := Option.map_eq_some_iff.mp h
  unfold numericModeFromString at hv
  split at hv
  · cases hv
  · have hvalue := @numericLoop_value str.reverse v 0 1 hv
    rw [Nat.zero_add, Nat.one_mul] at hvalue
    funext c p
    have hall : perms (S_IRWXU ||| S_IRWXG ||| S_IRWXO) c p = true := by
      cases c <;> cases p <;> rfl
    have hbit : perms v c p = octalPerms str c p := by
      rw [hvalue, perms, BitVec.getLsbD_ofNat, decide_eq_true (place_lt c p), Bool.true_and]
      rfl
    show perms ((oldMode &&& ~~~(S_IRWXU ||| S_IRWXG ||| S_IRWXO)) ||| (v &&& (S_IRWXU ||| S_IRWXG ||| S_IRWXO))) c p
      = octalPerms str c p
    rw [perms_or, perms_and, perms_not, perms_and, hall, hbit]
    simp

/-! ## What chmod does -/

/-- A mode string compiles when it is the text of a mode, and its changes go through the modes that chmod goes
through; a number is the permissions themselves. -/
structure FollowsChmod (str : Str) (umask oldMode : ModeT) : Prop where
  compiles : (∀ c, str.head? = some c → c.isDigit = false) →
    ((compile str).isSome = true ↔ ∃ c cs, str = text c cs)
  symbolic : ∀ c cs changes, str = text c cs → compile str = some changes → ∀ n,
    perms (apply (changes.take n) oldMode umask) =
      run (perms umask) ((Lib.Chmod.changes c cs).take n) (perms oldMode)
  numeric : ∀ c changes, str.head? = some c → c.isDigit = true → compile str = some changes →
    perms (apply changes oldMode umask) = octalPerms str

theorem text_head (c : Clause) (cs : List Clause) {d : Char} (h : (text c cs).head? = some d) :
    d.isDigit = false := by
  obtain ⟨tail, htail⟩ : ∃ tail, text c cs = c.text ++ tail := by
    cases cs with
    | nil => exact ⟨[], (List.append_nil _).symm⟩
    | cons c' cs => exact ⟨_, rfl⟩
  rw [htail, List.head?_append_of_ne_nil _ c.text_ne_nil] at h
  obtain ⟨⟨o, operand⟩, actions, hactions⟩ := List.exists_cons_of_ne_nil c.some_action
  rw [Clause.text, hactions] at h
  cases hwho : c.who with
  | nil =>
    rw [hwho] at h
    rw [← show o.char = d from Option.some.inj h]
    cases o <;> rfl
  | cons w who =>
    rw [hwho] at h
    rw [← show w.char = d from Option.some.inj h]
    rcases w with _ | _ | _ | _ <;> rfl

theorem compile_symbolic {str : Str} (hne : str ≠ []) (h : ∀ c, str.head? = some c → c.isDigit = false) :
    compile str = compileSymbolicMode str := by
  obtain ⟨c, it, rfl⟩ := List.exists_cons_of_ne_nil hne
  rw [compile, if_neg (by rw [h c rfl]; simp)]

theorem compile_text (c : Clause) (cs : List Clause) {str : Str} (h : str = text c cs ∨ str = text c cs ++ [',']) :
    compile str = some ((Lib.Chmod.changes c cs).map compiled) := by
  have hne : str ≠ [] := by
    rcases h with rfl | rfl
    · exact text_ne_nil c cs
    · exact List.append_ne_nil_of_left_ne_nil (text_ne_nil c cs) _
  have hhead : str.head? = (text c cs).head? := by
    rcases h with rfl | rfl
    · rfl
    · exact List.head?_append_of_ne_nil _ (text_ne_nil c cs)
  rw [compile_symbolic hne fun d hd => text_head c cs (hhead ▸ hd)]
  exact (compileSymbolicMode_iff hne _).mpr ⟨c, cs, h, rfl⟩

/-- A mode string does what it does in chmod when it has no comma at its end, and each `=` with no classes comes
to a mode with no other permissions than it sets. -/
theorem followsChmod_iff (str : Str) (umask oldMode : ModeT) :
    FollowsChmod str umask oldMode ↔
      (∀ c cs, str ≠ text c cs ++ [',']) ∧
        ∀ c cs, str = text c cs → Settles (perms umask) (Lib.Chmod.changes c cs) (perms oldMode) := by
  constructor
  · intro h
    refine ⟨?_, ?_⟩
    · rintro c cs rfl
      have hsome := compile_text c cs (.inr rfl)
      obtain ⟨c', cs', hread⟩ := (h.compiles fun d hd => by
        rw [List.head?_append_of_ne_nil _ (text_ne_nil c cs)] at hd
        exact text_head c cs hd).mp (by rw [hsome]; rfl)
      have hlast := text_last c' cs'
      rw [← hread, List.getLast?_concat] at hlast
      exact hlast rfl
    · rintro c cs rfl
      rw [← runKept_eq_iff]
      intro n
      rw [← perms_apply, List.map_take]
      exact h.symbolic c cs _ rfl (compile_text c cs (.inl rfl)) n
  · rintro ⟨hcomma, hsettles⟩
    refine ⟨fun hhead => ⟨fun hsome => ?_, ?_⟩, ?_, ?_⟩
    · obtain ⟨changes, hchanges⟩ := Option.isSome_iff_exists.mp hsome
      have hne : str ≠ [] := by
        rintro rfl
        cases hchanges
      rw [compile_symbolic hne hhead] at hchanges
      obtain ⟨c, cs, hread, -⟩ := (compileSymbolicMode_iff hne changes).mp hchanges
      exact ⟨c, cs, hread.resolve_right (hcomma c cs)⟩
    · rintro ⟨c, cs, hread⟩
      rw [compile_text c cs (.inl hread)]
      rfl
    · intro c cs changes hread hchanges n
      rw [compile_text c cs (.inl hread)] at hchanges
      obtain rfl := Option.some.inj hchanges
      rw [← List.map_take, perms_apply]
      exact (runKept_eq_iff _ _ _).mpr (hsettles c cs hread) n
    · intro c changes hhead hdigit hchanges
      obtain ⟨it, rfl⟩ : ∃ it, str = c :: it := by
        cases str with
        | nil => cases hhead
        | cons d it => exact ⟨it, by rw [Option.some.inj hhead]⟩
      rw [compile, if_pos hdigit] at hchanges
      exact perms_numeric hchanges umask oldMode

/-- Behind its last operation the mode is the one that chmod gives. -/
theorem FollowsChmod.last {str : Str} {umask oldMode : ModeT} (h : FollowsChmod str umask oldMode) {c : Clause}
    {cs : List Clause} (hread : str = text c cs) {changes : List Change} (hchanges : compile str = some changes) :
    perms (apply changes oldMode umask) = run (perms umask) (Lib.Chmod.changes c cs) (perms oldMode) := by
  have hall := h.symbolic c cs changes hread hchanges (max changes.length (Lib.Chmod.changes c cs).length)
  rwa [List.take_of_length_le (Nat.le_max_left _ _), List.take_of_length_le (Nat.le_max_right _ _)] at hall

/-- A comma at the end is accepted, and `=r` leaves a mode all its permissions. -/
theorem mode_differs : ¬ FollowsChmod "u+r,".toList 0 0 ∧ ¬ FollowsChmod "=r".toList 0 0o777 := by
  constructor
  · intro h
    let c : Clause := ⟨[.one .user], [(.plus, .perms [.read])], List.cons_ne_nil _ _⟩
    have hsome : compile "u+r,".toList = some _ := compile_text c [] (.inr rfl)
    have hhead : ∀ d, "u+r,".toList.head? = some d → d.isDigit = false := by
      intro d hd
      rw [← Option.some.inj hd]
      rfl
    obtain ⟨c', cs, hread⟩ := (h.compiles hhead).mp (by rw [hsome]; rfl)
    have hlast := text_last c' cs
    rw [← hread] at hlast
    exact hlast rfl
  · intro h
    let c : Clause := ⟨[], [(.equals, .perms [.read])], List.cons_ne_nil _ _⟩
    have hmode := h.symbolic c [] _ rfl (compile_text c [] (.inl rfl)) 1
    exact absurd (congrFun (congrFun hmode .user) .write) (by decide)

end Mode
end Fs
end Ebftpd
