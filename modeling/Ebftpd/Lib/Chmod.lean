import Mathlib.Data.List.Basic
import Mathlib.Tactic.Common

/-!
# Ebftpd.Lib.Chmod

The symbolic modes of chmod: clauses, joined by commas, of an optional choice of classes and one or more
operations. A mode of a file is the set of its permissions.

`run umask changes mode` is what a list of operations makes of a mode, one after the other. An operation with no
classes is one for all of them that the umask limits; a copy reads the mode that the operations before it left.

* `text_last`: a mode's text does not end in a comma.
* `Settles`: each `=` with no classes finds only permissions that it sets itself. `runKept_eq_iff`: a run in
  which such an `=` keeps what it finds goes through the same modes just then.
-/

namespace Ebftpd
namespace Lib
namespace Chmod

inductive ModeClass where
  | user | group | other
  deriving DecidableEq

inductive Perm where
  | read | write | exec
  deriving DecidableEq

/-- The permissions of each class. -/
abbrev Perms := ModeClass → Perm → Bool

inductive Who where
  | all
  | one (c : ModeClass)
  deriving DecidableEq

inductive Op where
  | plus | minus | equals
  deriving DecidableEq

inductive Operand where
  | copy (c : ModeClass)
  | perms (ps : List Perm)

/-- `[ugoa]*([-+=]([ugo]|[rwx]*))+`. -/
structure Clause where
  who : List Who
  actions : List (Op × Operand)
  some_action : actions ≠ []

/-! ## The text -/

def ModeClass.char : ModeClass → Char
  | .user => 'u'
  | .group => 'g'
  | .other => 'o'

def Perm.char : Perm → Char
  | .read => 'r'
  | .write => 'w'
  | .exec => 'x'

def Who.char : Who → Char
  | .all => 'a'
  | .one c => c.char

def Op.char : Op → Char
  | .plus => '+'
  | .minus => '-'
  | .equals => '='

def Operand.text : Operand → List Char
  | .copy c => [c.char]
  | .perms ps => ps.map Perm.char

def actionsText (actions : List (Op × Operand)) : List Char :=
  actions.flatMap fun a => a.1.char :: a.2.text

def Clause.text (c : Clause) : List Char := c.who.map Who.char ++ actionsText c.actions

/-- One or more clauses. -/
def text : Clause → List Clause → List Char
  | c, [] => c.text
  | c, c' :: cs => c.text ++ ',' :: text c' cs

theorem comma_not_mem_text (o : Operand) : ',' ∉ o.text := by
  cases o with
  | copy c => cases c <;> simp [Operand.text, ModeClass.char]
  | perms ps =>
    intro h
    obtain ⟨p, -, hp⟩ := List.mem_map.mp h
    cases p <;> exact absurd hp (by decide)

theorem comma_not_mem_actionsText (actions : List (Op × Operand)) : ',' ∉ actionsText actions := by
  intro h
  obtain ⟨⟨op, o⟩, -, ha⟩ := List.mem_flatMap.mp h
  rcases List.mem_cons.mp ha with ha | ha
  · cases op <;> simp [Op.char] at ha
  · exact comma_not_mem_text o ha

theorem actionsText_ne_nil {actions : List (Op × Operand)} (h : actions ≠ []) : actionsText actions ≠ [] := by
  obtain ⟨a, actions, rfl⟩ := List.exists_cons_of_ne_nil h
  simp [actionsText]

theorem Clause.text_last (c : Clause) : c.text.getLast? ≠ some ',' := by
  rw [Clause.text, List.getLast?_append_of_ne_nil _ (actionsText_ne_nil c.some_action)]
  exact fun h => comma_not_mem_actionsText c.actions (List.mem_of_getLast? h)

theorem Clause.text_ne_nil (c : Clause) : c.text ≠ [] :=
  List.append_ne_nil_of_right_ne_nil _ (actionsText_ne_nil c.some_action)

theorem text_ne_nil (c : Clause) (cs : List Clause) : text c cs ≠ [] := by
  cases cs with
  | nil => exact c.text_ne_nil
  | cons c' cs => exact List.append_ne_nil_of_left_ne_nil c.text_ne_nil _

/-- A comma is followed by a clause. -/
theorem text_last (c : Clause) (cs : List Clause) : (text c cs).getLast? ≠ some ',' := by
  induction cs generalizing c with
  | nil => exact c.text_last
  | cons c' cs ih =>
    rw [text, List.getLast?_append_cons, List.getLast?_cons_of_ne_nil (text_ne_nil c' cs)]
    exact ih c'

/-! ## The meaning -/

/-- One operation of a mode. -/
structure Change where
  who : List Who
  op : Op
  operand : Operand

def Clause.changes (c : Clause) : List Change := c.actions.map fun a => ⟨c.who, a.1, a.2⟩

def changes (c : Clause) (cs : List Clause) : List Change := (c :: cs).flatMap Clause.changes

def selects (who : List Who) (c : ModeClass) : Bool := who.any fun w => w == .all || w == .one c

/-- The permissions an operand stands for. -/
def Operand.selected (mode : Perms) : Operand → ModeClass → Perm → Bool
  | .copy d, _, p => mode d p
  | .perms ps, _, p => ps.contains p

namespace Change

variable (ch : Change) (umask mode : Perms)

/-- The classes it is for, with what the umask leaves of them when none was chosen. -/
def limit (c : ModeClass) (p : Perm) : Bool := if ch.who.isEmpty then !umask c p else selects ch.who c

def value (c : ModeClass) (p : Perm) : Bool := ch.operand.selected mode c p && ch.limit umask c p

def apply (c : ModeClass) (p : Perm) : Bool :=
  match ch.op with
  | .plus => mode c p || ch.value umask mode c p
  | .minus => mode c p && !ch.value umask mode c p
  | .equals => mode c p && !(ch.who.isEmpty || selects ch.who c) || ch.value umask mode c p

/-- An `=` with no classes. -/
def Assigns : Prop := ch.op = .equals ∧ ch.who = []

instance : Decidable ch.Assigns := inferInstanceAs (Decidable (_ ∧ _))

/-- The operation where an `=` with no classes keeps what it finds. -/
def applyKept (c : ModeClass) (p : Perm) : Bool :=
  if ch.Assigns then mode c p || ch.value umask mode c p else ch.apply umask mode c p

theorem apply_of_assigns (h : ch.Assigns) : ch.apply umask mode = ch.value umask mode := by
  funext c p
  rw [apply, h.1, h.2]
  simp

theorem applyKept_eq_iff : ch.applyKept umask mode = ch.apply umask mode ↔
    (ch.Assigns → ∀ c p, mode c p = true → ch.value umask mode c p = true) := by
  by_cases h : ch.Assigns
  · have hkept : ch.applyKept umask mode = fun c p => mode c p || ch.value umask mode c p := by
      funext c p
      rw [applyKept, if_pos h]
    rw [hkept, apply_of_assigns ch umask mode h]
    simp only [funext_iff, Bool.or_eq_right_iff_imp, h, true_imp_iff]
  · refine iff_of_true ?_ fun hassigns => absurd hassigns h
    funext c p
    rw [applyKept, if_neg h]

end Change

variable (umask : Perms)

def run (changes : List Change) (mode : Perms) : Perms := changes.foldl (fun mode ch => ch.apply umask mode) mode

def runKept (changes : List Change) (mode : Perms) : Perms :=
  changes.foldl (fun mode ch => ch.applyKept umask mode) mode

/-- Each `=` with no classes finds only permissions that it sets. -/
def Settles : List Change → Perms → Prop
  | [], _ => True
  | ch :: changes, mode =>
    (ch.Assigns → ∀ c p, mode c p = true → ch.value umask mode c p = true) ∧ Settles changes (ch.apply umask mode)

/-- The two runs go through the same modes. -/
theorem runKept_eq_iff (changes : List Change) (mode : Perms) :
    (∀ n, runKept umask (changes.take n) mode = run umask (changes.take n) mode) ↔ Settles umask changes mode := by
  induction changes generalizing mode with
  | nil => exact iff_of_true (fun n => by rw [List.take_nil]; rfl) trivial
  | cons ch changes ih =>
    rw [Settles, ← Change.applyKept_eq_iff, ← ih]
    constructor
    · intro h
      have hfirst : ch.applyKept umask mode = ch.apply umask mode := h 1
      refine ⟨hfirst, fun n => ?_⟩
      have hrest := h (n + 1)
      rw [List.take_succ_cons, runKept, run, List.foldl_cons, List.foldl_cons, hfirst] at hrest
      exact hrest
    · rintro ⟨hfirst, hrest⟩ n
      cases n with
      | zero => rfl
      | succ n =>
        rw [List.take_succ_cons, runKept, run, List.foldl_cons, List.foldl_cons, hfirst]
        exact hrest n

end Chmod
end Lib
end Ebftpd
