import Mathlib.Tactic.Common

/-!
# Ebftpd.Lib.Positional

Readers of words by their positions. There is no word behind the last one: to read it is a fault, which
is not an exception of the reader. `Within n` are the readers that have no fault where there are `n`
words.

* `within_bind`: one reader behind another.
* `checked_safe`: a reader behind a count of the words that asks for as many as it needs.
-/

namespace Ebftpd
namespace Lib

universe u

inductive Fault (ε : Type u) where
  | outOfRange
  | thrown (e : ε)

/-- A reader of words of `τ` that throws `ε`. -/
abbrev Positional (τ : Type u) (ε : Type u) := ReaderT (List τ) (Except (Fault ε))

namespace Positional

variable {τ ε α β : Type u}

def word (i : Nat) : Positional τ ε τ := fun words =>
  match words[i]? with
  | some word => .ok word
  | none => .error .outOfRange

/-- The words behind the first `n`, which have to be there. -/
def rest (n : Nat) : Positional τ ε (List τ) := fun words =>
  if words.length < n then .error .outOfRange else .ok (words.drop n)

/-- The word at `i`, where there is one. -/
def wordIfAny (i : Nat) : Positional τ ε (Option τ) := fun words => .ok words[i]?

/-- The word at `i`, where there are just `size` words. -/
def wordOf (size i : Nat) : Positional τ ε (Option τ) := fun words =>
  if words.length = size then (word i words).map some else .ok none

def refuse (e : ε) : Positional τ ε α := fun _ => .error (.thrown e)

def ofOption (e : ε) : Option α → Positional τ ε α
  | some a => pure a
  | none => refuse e

/-- What the word at `i` reads as. -/
def value (e : ε) (i : Nat) (parse : τ → Option α) : Positional τ ε α := do ofOption e (parse (← word i))

def ofResult : Except ε α → Positional τ ε α
  | .ok a => pure a
  | .error e => refuse e

/-- The reader, where the words are counted before. -/
def checked (ok : Nat → Bool) (e : ε) (x : Positional τ ε α) : Positional τ ε α := fun words =>
  if ok words.length then x words else .error (.thrown e)

/-! ## What is read -/

variable {x : Positional τ ε α} {f : α → Positional τ ε β} {words : List τ} {n : Nat}

@[simp] theorem pure_ok {a b : α} : (pure a : Positional τ ε α) words = .ok b ↔ a = b :=
  ⟨fun h => Except.ok.inj h, fun h => congrArg Except.ok h⟩

@[simp] theorem bind_ok {b : β} : (x >>= f) words = .ok b ↔ ∃ a, x words = .ok a ∧ f a words = .ok b := by
  have hbind : (x >>= f) words = x words >>= fun a => f a words := rfl
  rw [hbind]
  cases x words with
  | error e => exact ⟨fun h => (by cases h), fun ⟨_, h, _⟩ => (by cases h)⟩
  | ok a => exact ⟨fun h => ⟨a, rfl, h⟩, fun ⟨_, ha, h⟩ => (by cases ha; exact h)⟩

@[simp] theorem word_ok {i : Nat} {a : τ} : (word i : Positional τ ε τ) words = .ok a ↔ words[i]? = some a := by
  unfold word
  cases words[i]? with
  | none => exact ⟨fun h => (by cases h), fun h => (by cases h)⟩
  | some b => exact ⟨fun h => (by cases h; rfl), fun h => (by cases h; rfl)⟩

@[simp] theorem rest_ok {a : List τ} :
    (rest n : Positional τ ε (List τ)) words = .ok a ↔ n ≤ words.length ∧ words.drop n = a := by
  unfold rest
  split
  · rename_i h
    exact ⟨fun h => (by cases h), fun ⟨hle, _⟩ => absurd hle (Nat.not_le.mpr h)⟩
  · rename_i h
    exact ⟨fun ha => ⟨Nat.not_lt.mp h, Except.ok.inj ha⟩, fun ha => congrArg Except.ok ha.2⟩

@[simp] theorem ofOption_ok {e : ε} {o : Option α} {a : α} :
    (ofOption e o : Positional τ ε α) words = .ok a ↔ o = some a := by
  cases o with
  | none => exact ⟨fun h => (by cases h), fun h => (by cases h)⟩
  | some b => exact ⟨fun h => (by cases h; rfl), fun h => (by cases h; rfl)⟩

@[simp] theorem map_ok {g : α → β} {b : β} : (g <$> x) words = .ok b ↔ ∃ a, x words = .ok a ∧ g a = b := by
  have hmap : (g <$> x) words = g <$> x words := rfl
  rw [hmap]
  cases x words with
  | error e => exact ⟨fun h => (by cases h), fun ⟨_, h, _⟩ => (by cases h)⟩
  | ok a => exact ⟨fun h => ⟨a, rfl, Except.ok.inj h⟩, fun ⟨_, ha, h⟩ => (by cases ha; exact congrArg Except.ok h)⟩

@[simp] theorem value_ok {e : ε} {i : Nat} {parse : τ → Option α} {a : α} :
    value e i parse words = .ok a ↔ words[i]?.bind parse = some a := by
  simp [value, Option.bind_eq_some_iff]

@[simp] theorem wordOf_ok {size i : Nat} {a : Option τ} :
    (wordOf size i : Positional τ ε (Option τ)) words = .ok a ↔
      if words.length = size then ∃ b, words[i]? = some b ∧ some b = a else none = a := by
  unfold wordOf
  split
  · cases hword : (word i : Positional τ ε τ) words with
    | error e =>
      have hno : ∀ b, words[i]? ≠ some b := fun b hb => by
        rw [word_ok.mpr hb] at hword
        cases hword
      exact ⟨fun h => (by cases h), fun ⟨b, hb, _⟩ => absurd hb (hno b)⟩
    | ok b =>
      rw [word_ok] at hword
      exact ⟨fun h => ⟨b, hword, Except.ok.inj h⟩, fun ⟨c, hc, h⟩ => (by rw [hword] at hc; cases hc; rw [← h]; rfl)⟩
  · exact ⟨fun h => Except.ok.inj h, fun h => congrArg Except.ok h⟩

theorem checked_ok {ok : Nat → Bool} {e : ε} {a : α} :
    checked ok e x words = .ok a ↔ ok words.length = true ∧ x words = .ok a := by
  unfold checked
  split
  · rename_i h
    exact (and_iff_right h).symm
  · rename_i h
    exact ⟨fun ha => (by cases ha), fun ha => absurd ha.1 h⟩

theorem refuseIf_ok {c : Prop} [Decidable c] {e : ε} {a : α} :
    (if c then refuse e else x) words = .ok a ↔ ¬c ∧ x words = .ok a := by
  by_cases hc : c
  · rw [if_pos hc]
    exact ⟨fun ha => (by cases ha), fun ha => absurd hc ha.1⟩
  · rw [if_neg hc]
    exact (and_iff_right hc).symm

theorem bind_pure_error {g : α → β} {e : Fault ε} :
    (x >>= fun a => (pure (g a) : Positional τ ε β)) words = .error e ↔ x words = .error e := by
  have hbind : (x >>= fun a => (pure (g a) : Positional τ ε β)) words =
      x words >>= fun a => (pure (g a) : Positional τ ε β) words := rfl
  rw [hbind]
  cases x words with
  | error e' => exact ⟨fun h => (by cases h; rfl), fun h => (by cases h; rfl)⟩
  | ok a => exact ⟨fun h => (by cases h), fun h => (by cases h)⟩

/-! ## Faults -/

def Within (n : Nat) (x : Positional τ ε α) : Prop := ∀ words, n ≤ words.length → x words ≠ .error .outOfRange

theorem within_pure (a : α) : Within n (pure a : Positional τ ε α) := fun _ _ h => by cases h

theorem within_refuse (e : ε) : Within n (refuse e : Positional τ ε α) := fun _ _ h => by cases h

theorem within_ofOption (e : ε) (o : Option α) : Within n (ofOption e o : Positional τ ε α) := by
  cases o with
  | none => exact within_refuse e
  | some a => exact within_pure a

theorem within_word {i : Nat} (h : i < n) : Within n (word i : Positional τ ε τ) := by
  intro words hn
  rw [word, List.getElem?_eq_getElem (Nat.lt_of_lt_of_le h hn)]
  exact fun h => by cases h

theorem within_rest {m : Nat} (h : m ≤ n) : Within n (rest m : Positional τ ε (List τ)) := by
  intro words hn
  rw [rest, if_neg (Nat.not_lt.mpr (Nat.le_trans h hn))]
  exact fun h => by cases h

theorem within_ofResult (r : Except ε α) : Within n (ofResult r : Positional τ ε α) := by
  cases r with
  | error e => exact within_refuse e
  | ok a => exact within_pure a

theorem within_wordIfAny (i : Nat) : Within n (wordIfAny i : Positional τ ε (Option τ)) :=
  fun _ _ h => by cases h

theorem within_wordOf {size i : Nat} (h : i < size) :
    Within n (wordOf size i : Positional τ ε (Option τ)) := by
  intro words _
  unfold wordOf
  split
  · rename_i hsize
    rw [word, List.getElem?_eq_getElem (hsize ▸ h)]
    exact fun h => by cases h
  · exact fun h => by cases h

theorem within_bind (hx : Within n x) (hf : ∀ a, Within n (f a)) : Within n (x >>= f) := by
  intro words hn h
  have hbind : (x >>= f) words = x words >>= fun a => f a words := rfl
  rw [hbind] at h
  cases hx' : x words with
  | error e =>
    rw [hx'] at h
    cases h
    exact hx words hn hx'
  | ok a =>
    rw [hx'] at h
    exact hf a words hn h

theorem within_value {e : ε} {i : Nat} {parse : τ → Option α} (h : i < n) : Within n (value e i parse) :=
  within_bind (within_word h) fun _ => within_ofOption _ _

theorem within_ite {p : Prop} [Decidable p] {y : Positional τ ε α} (hx : Within n x) (hy : Within n y) :
    Within n (if p then x else y) := by
  split
  · exact hx
  · exact hy

theorem Within.mono {m : Nat} (h : Within m x) (hle : m ≤ n) : Within n x :=
  fun words hn => h words (Nat.le_trans hle hn)

/-- Where the count asks for as many words as are needed, no words lead to a fault. -/
theorem checked_safe {ok : Nat → Bool} {e : ε} (h : Within n x) (hok : ∀ k, ok k = true → n ≤ k) :
    checked ok e x words ≠ .error .outOfRange := by
  unfold checked
  split
  · rename_i hlen
    exact h words (hok _ hlen)
  · exact fun h => by cases h

end Positional
end Lib
end Ebftpd
