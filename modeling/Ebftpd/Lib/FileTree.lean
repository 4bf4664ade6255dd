import Mathlib.Data.List.Basic
import Mathlib.Tactic.Common

/-!
# Ebftpd.Lib.FileTree

File trees with symbolic links, over segments `σ`, attributes `α` and link texts `τ`, which `read`
takes apart. A path is walked down from a directory; `walk` says which names are looked up on the
way, and where it ends. Links within links are followed to a given depth.

* `find_append`: a node below a node.
* `walk_congr`: two trees that have the same at the names that are looked up lead to the same place.
* `walk_place`: what is at the end of a walk, and that the names on the way down to it were looked up.
* `walk_self`: the path of a node leads to it.
* `walk_append`: a walk is cut at any directory.
-/

namespace Ebftpd
namespace Lib
namespace FileTree

universe u v w

variable {σ : Type u} {α : Type v} {τ : Type w}

inductive Step (σ : Type u) where
  | stay
  | up
  | down (s : σ)
  deriving DecidableEq

/-- What a link says: from the root or from the directory the link is in. -/
structure Target (σ : Type u) where
  absolute : Bool
  steps : List (Step σ)

inductive Node (σ : Type u) (α : Type v) (τ : Type w) where
  | leaf (regular : Bool) (attr : α)
  | link (attr : α) (target : τ)
  | dir (attr : α) (entries : List (σ × Node σ α τ))

/-- What kind of node it is. -/
inductive Shape (τ : Type w) where
  | leaf (regular : Bool)
  | link (target : τ)
  | dir
  deriving DecidableEq

namespace Node

def shape : Node σ α τ → Shape τ
  | .leaf regular _ => .leaf regular
  | .link _ target => .link target
  | .dir _ _ => .dir

def attr : Node σ α τ → α
  | .leaf _ attr => attr
  | .link attr _ => attr
  | .dir attr _ => attr

def entries : Node σ α τ → List (σ × Node σ α τ)
  | .dir _ entries => entries
  | _ => []

def isLink : Node σ α τ → Bool
  | .link _ _ => true
  | _ => false

theorem shape_of_entries {n : Node σ α τ} {e : σ × Node σ α τ} (h : e ∈ n.entries) : n.shape = .dir := by
  cases n with
  | dir attr entries => rfl
  | leaf regular attr => cases h
  | link attr target => cases h

mutual

/-- How many directories can be entered one below the other. -/
def height : Node σ α τ → Nat
  | .leaf _ _ => 0
  | .link _ _ => 0
  | .dir _ entries => heights entries + 1

def heights : List (σ × Node σ α τ) → Nat
  | [] => 0
  | (_, n) :: entries => max n.height (heights entries)

end

theorem height_le_heights {e : σ × Node σ α τ} {entries : List (σ × Node σ α τ)} (h : e ∈ entries) :
    e.2.height ≤ heights entries := by
  induction entries with
  | nil => cases h
  | cons x entries ih =>
    obtain ⟨s, n⟩ := x
    rw [heights]
    rcases List.mem_cons.mp h with rfl | h
    · exact Nat.le_max_left _ _
    · exact Nat.le_trans (ih h) (Nat.le_max_right _ _)

theorem height_lt {n : Node σ α τ} {e : σ × Node σ α τ} (h : e ∈ n.entries) : e.2.height < n.height := by
  cases n with
  | dir attr entries =>
    rw [height]
    exact Nat.lt_succ_of_le (height_le_heights h)
  | leaf regular attr => cases h
  | link attr target => cases h

variable [DecidableEq σ]

/-- The entry of a name: the first, should there be two. -/
def child (n : Node σ α τ) (s : σ) : Option (Node σ α τ) := (n.entries.find? (·.1 = s)).map Prod.snd

def find : Node σ α τ → List σ → Option (Node σ α τ)
  | n, [] => some n
  | n, s :: p => (n.child s).bind (·.find p)

theorem find_append (n : Node σ α τ) (p r : List σ) : n.find (p ++ r) = (n.find p).bind (·.find r) := by
  induction p generalizing n with
  | nil => rfl
  | cons s p ih =>
    simp only [List.cons_append, find]
    cases n.child s with
    | none => rfl
    | some m => exact ih m

theorem child_of_mem {n : Node σ α τ} {s : σ} (h : s ∈ n.entries.map Prod.fst) :
    ∃ m, n.child s = some m ∧ (s, m) ∈ n.entries := by
  obtain ⟨e, he, rfl⟩ := List.mem_map.mp h
  have hsome : (n.entries.find? (·.1 = e.1)).isSome := by
    rw [List.find?_isSome]
    exact ⟨e, he, by simp⟩
  obtain ⟨x, hx⟩ := Option.isSome_iff_exists.mp hsome
  have hname : x.1 = e.1 := by simpa using List.find?_some hx
  exact ⟨x.2, by rw [child, hx]; rfl, hname ▸ List.mem_of_find?_eq_some hx⟩

/-- Where names are distinct every entry is the one of its name. -/
theorem child_of_entry {n : Node σ α τ} (hnodup : (n.entries.map Prod.fst).Nodup) {e : σ × Node σ α τ}
    (h : e ∈ n.entries) : n.child e.1 = some e.2 := by
  obtain ⟨m, hm, hmem⟩ := child_of_mem (List.mem_map_of_mem h)
  have hne : n.entries.Pairwise fun a b => a.1 ≠ b.1 := List.pairwise_map.mp hnodup
  have hinj : ∀ a ∈ n.entries, ∀ b ∈ n.entries, a.1 = b.1 → a = b := by
    intro a ha b hb
    refine List.Pairwise.forall_of_forall_of_flip (R := fun a b => a.1 = b.1 → a = b) (fun _ _ _ => rfl) ?_ ?_
      ha hb
    · exact hne.imp fun hab heq => absurd heq hab
    · exact hne.imp fun hab heq => absurd heq.symm hab
  rw [hm, ← hinj _ hmem _ h rfl]

theorem mem_of_child {n m : Node σ α τ} {s : σ} (h : n.child s = some m) : s ∈ n.entries.map Prod.fst := by
  obtain ⟨e, he, -⟩ := Option.map_eq_some_iff.mp h
  have hname : e.1 = s := by simpa using List.find?_some he
  exact hname ▸ List.mem_map_of_mem (List.mem_of_find?_eq_some he)

theorem height_child {n m : Node σ α τ} {s : σ} (h : n.child s = some m) : m.height < n.height := by
  obtain ⟨e, he, rfl⟩ := Option.map_eq_some_iff.mp h
  exact height_lt (List.mem_of_find?_eq_some he)

theorem shape_of_child {n m : Node σ α τ} {s : σ} (h : n.child s = some m) : n.shape = .dir := by
  obtain ⟨e, he, -⟩ := Option.map_eq_some_iff.mp h
  exact shape_of_entries (List.mem_of_find?_eq_some he)

theorem height_find {n m : Node σ α τ} {p : List σ} (h : n.find p = some m) : m.height ≤ n.height := by
  induction p generalizing n with
  | nil =>
    cases h
    exact Nat.le_refl _
  | cons s p ih =>
    simp only [find] at h
    obtain ⟨c, hc, hm⟩ := Option.bind_eq_some_iff.mp h
    exact Nat.le_trans (ih hm) (Nat.le_of_lt (height_child hc))

/-- What passes from a node to its entries holds of all nodes below. -/
theorem find_induction {P : Node σ α τ → Prop} (hstep : ∀ n, P n → ∀ e ∈ n.entries, P e.2)
    {n m : Node σ α τ} (hn : P n) {p : List σ} (h : n.find p = some m) : P m := by
  induction p generalizing n with
  | nil =>
    cases h
    exact hn
  | cons s p ih =>
    simp only [find] at h
    obtain ⟨c, hc, hm⟩ := Option.bind_eq_some_iff.mp h
    obtain ⟨e, he, rfl⟩ := Option.map_eq_some_iff.mp hc
    exact ih (hstep n hn e (List.mem_of_find?_eq_some he)) hm

mutual

/-- The node and all below it pass a test. -/
def all (p : Node σ α τ → Bool) : Node σ α τ → Bool
  | .leaf regular attr => p (.leaf regular attr)
  | .link attr target => p (.link attr target)
  | .dir attr entries => p (.dir attr entries) && allEntries p entries

def allEntries (p : Node σ α τ → Bool) : List (σ × Node σ α τ) → Bool
  | [] => true
  | (_, n) :: entries => n.all p && allEntries p entries

end

omit [DecidableEq σ] in
theorem all_of_allEntries {p : Node σ α τ → Bool} {e : σ × Node σ α τ} {entries : List (σ × Node σ α τ)}
    (h : allEntries p entries = true) (he : e ∈ entries) : e.2.all p = true := by
  induction entries with
  | nil => cases he
  | cons x entries ih =>
    obtain ⟨s, n⟩ := x
    rw [allEntries, Bool.and_eq_true] at h
    rcases List.mem_cons.mp he with rfl | he
    · exact h.1
    · exact ih h.2 he

omit [DecidableEq σ] in
theorem all_entries {p : Node σ α τ → Bool} {n : Node σ α τ} (h : n.all p = true) :
    p n = true ∧ ∀ e ∈ n.entries, e.2.all p = true := by
  cases n with
  | leaf regular attr => exact ⟨h, List.forall_mem_nil _⟩
  | link attr target => exact ⟨h, List.forall_mem_nil _⟩
  | dir attr entries =>
    rw [all, Bool.and_eq_true] at h
    exact ⟨h.1, fun e he => all_of_allEntries h.2 he⟩

theorem all_find {p : Node σ α τ → Bool} {n m : Node σ α τ} (h : n.all p = true) {q : List σ}
    (hm : n.find q = some m) : p m = true :=
  (all_entries (find_induction (fun _ hn => (all_entries hn).2) h hm)).1

/-- What has something below it is a directory. -/
theorem shape_of_below {n m : Node σ α τ} {r : List σ} (hr : r ≠ []) (h : n.find r = some m) :
    n.shape = .dir := by
  cases r with
  | nil => exact absurd rfl hr
  | cons s r =>
    simp only [find] at h
    obtain ⟨c, hc, -⟩ := Option.bind_eq_some_iff.mp h
    exact shape_of_child hc

end Node

/-- A tree, from its root directory on. -/
structure Tree (σ : Type u) (α : Type v) (τ : Type w) where
  attr : α
  entries : List (σ × Node σ α τ)

/-- The names that a walk looks up, and where it ends. -/
abbrev Walk (σ : Type u) := List (List σ) × Option (List σ)

namespace Tree

def root (t : Tree σ α τ) : Node σ α τ := .dir t.attr t.entries

variable [DecidableEq σ]

def find (t : Tree σ α τ) (q : List σ) : Option (Node σ α τ) := t.root.find q

def shapeAt (t : Tree σ α τ) (q : List σ) : Option (Shape τ) := (t.find q).map Node.shape

def IsDir (t : Tree σ α τ) (q : List σ) : Prop := t.shapeAt q = some .dir

instance [DecidableEq τ] (t : Tree σ α τ) (q : List σ) : Decidable (t.IsDir q) :=
  inferInstanceAs (Decidable (_ = _))

variable (t : Tree σ α τ)

/-- No directory has two entries of one name. -/
def Distinct : Prop := ∀ q n, t.find q = some n → (n.entries.map Prod.fst).Nodup

theorem distinct_of_root (h : t.root.all (fun n => decide (n.entries.map Prod.fst).Nodup) = true) :
    t.Distinct := fun _ _ hn => of_decide_eq_true (Node.all_find h hn)

/-- No entry is a link. -/
def LinkFree : Prop := ∀ q target, t.shapeAt q ≠ some (.link target)

theorem linkFree_of_root (h : t.root.all (fun n => !n.isLink) = true) : t.LinkFree := by
  intro q target hshape
  obtain ⟨n, hn, hlink⟩ := Option.map_eq_some_iff.mp hshape
  have hno := Node.all_find h hn
  cases n with
  | link attr target => cases hno
  | leaf regular attr => cases hlink
  | dir attr entries => cases hlink

theorem root_isDir : t.IsDir [] := rfl

variable {t}

theorem find_child {q : List σ} {n : Node σ α τ} (hn : t.find q = some n) (s : σ) :
    t.find (q ++ [s]) = n.child s := by
  rw [find, Node.find_append, ← find, hn, Option.bind_some, Node.find]
  cases n.child s <;> rfl

theorem isDir_of_below {q r : List σ} (hr : r ≠ []) (h : (t.find (q ++ r)).isSome) : t.IsDir q := by
  obtain ⟨m, hm⟩ := Option.isSome_iff_exists.mp h
  rw [find, Node.find_append] at hm
  obtain ⟨n, hn, hbelow⟩ := Option.bind_eq_some_iff.mp hm
  rw [IsDir, shapeAt, find, hn, Option.map_some, Node.shape_of_below hr hbelow]

theorem isSome_of_prefix {p q : List σ} (hpre : p <+: q) (h : (t.find q).isSome) : (t.find p).isSome := by
  obtain ⟨r, rfl⟩ := hpre
  rw [find, Node.find_append] at h
  obtain ⟨m, hm⟩ := Option.isSome_iff_exists.mp h
  obtain ⟨n, hn, -⟩ := Option.bind_eq_some_iff.mp hm
  exact Option.isSome_iff_exists.mpr ⟨n, hn⟩

theorem isSome_of_shapeAt {q : List σ} {sh : Shape τ} (h : t.shapeAt q = some sh) : (t.find q).isSome := by
  obtain ⟨n, hn, -⟩ := Option.map_eq_some_iff.mp h
  simp [hn]

theorem IsDir.dropLast {q : List σ} (h : t.IsDir q) : t.IsDir q.dropLast := by
  rcases List.eq_nil_or_concat q with rfl | ⟨p, s, rfl⟩
  · exact h
  · rw [List.concat_eq_append] at h ⊢
    rw [List.dropLast_concat]
    exact isDir_of_below (by simp) (isSome_of_shapeAt h)

end Tree

/-! ## Walking a path -/

variable [DecidableEq σ] [DecidableEq τ] (read : τ → Target σ)

section Walk

variable (t : Tree σ α τ)

/-- One step; `next` follows a link. -/
def stepTo (next : List σ → List (Step σ) → Walk σ) (follow : Bool) (cwd : List σ) : Step σ → Walk σ
  | .stay => ([], some cwd)
  | .up => ([], some cwd.dropLast)
  | .down s =>
    match t.shapeAt (cwd ++ [s]) with
    | none => ([cwd ++ [s]], none)
    | some (.link target) =>
      if follow then
        let r := next (if (read target).absolute then [] else cwd) (read target).steps
        ((cwd ++ [s]) :: r.1, r.2)
      else ([cwd ++ [s]], some (cwd ++ [s]))
    | some _ => ([cwd ++ [s]], some (cwd ++ [s]))

/-- A link at the end is followed if `follow` says so, others always. What is not the end must be a
directory. -/
def stepsTo (next : List σ → List (Step σ) → Walk σ) (follow : Bool) : List σ → List (Step σ) → Walk σ
  | cwd, [] => ([], some cwd)
  | cwd, x :: rest =>
    match stepTo read t next (follow || !rest.isEmpty) cwd x with
    | (asked, none) => (asked, none)
    | (asked, some q) =>
      if rest = [] ∨ t.IsDir q then
        let r := stepsTo next follow q rest
        (asked ++ r.1, r.2)
      else (asked, none)

/-- A walk that follows links to a depth below `n`. -/
def walk : Nat → Bool → List σ → List (Step σ) → Walk σ
  | 0, _ => fun _ _ => ([], none)
  | n + 1, follow => stepsTo read t (walk n true) follow

end Walk

/-! ## Two trees -/

section Congr

variable {read} {t₁ t₂ : Tree σ α τ}

/-- What two resolvers of links have in common where the trees have the same at the names that are
looked up. -/
def Agrees (t₁ t₂ : Tree σ α τ) (next₁ next₂ : List σ → List (Step σ) → Walk σ) : Prop :=
  ∀ cwd steps, t₁.IsDir cwd → t₂.IsDir cwd →
    (∀ q ∈ (next₁ cwd steps).1, t₁.shapeAt q = t₂.shapeAt q) →
      next₁ cwd steps = next₂ cwd steps ∧
        ∀ q, (next₁ cwd steps).2 = some q → t₁.shapeAt q = t₂.shapeAt q

variable {next₁ next₂ : List σ → List (Step σ) → Walk σ}

omit [DecidableEq τ] in
theorem stepTo_congr (hnext : Agrees t₁ t₂ next₁ next₂) {follow : Bool} {cwd : List σ} {x : Step σ}
    (h₁ : t₁.IsDir cwd) (h₂ : t₂.IsDir cwd)
    (h : ∀ q ∈ (stepTo read t₁ next₁ follow cwd x).1, t₁.shapeAt q = t₂.shapeAt q) :
    stepTo read t₁ next₁ follow cwd x = stepTo read t₂ next₂ follow cwd x ∧
      ∀ q, (stepTo read t₁ next₁ follow cwd x).2 = some q → t₁.shapeAt q = t₂.shapeAt q := by
  cases x with
  | stay =>
    refine ⟨rfl, fun q hq => ?_⟩
    cases hq
    exact h₁.trans h₂.symm
  | up =>
    refine ⟨rfl, fun q hq => ?_⟩
    cases hq
    exact h₁.dropLast.trans h₂.dropLast.symm
  | down s =>
    have hsame : t₁.shapeAt (cwd ++ [s]) = t₂.shapeAt (cwd ++ [s]) := by
      apply h
      simp only [stepTo]
      split
      · simp
      · split <;> simp
      · simp
    simp only [stepTo, ← hsame] at h ⊢
    split at h
    · exact ⟨rfl, fun q hq => by cases hq⟩
    · rename_i target _
      cases follow with
      | false =>
        refine ⟨rfl, fun q hq => ?_⟩
        cases hq
        exact hsame
      | true =>
        simp only [if_true] at h ⊢
        have hbase : t₁.IsDir (if (read target).absolute then [] else cwd) ∧
            t₂.IsDir (if (read target).absolute then [] else cwd) := by
          split
          · exact ⟨t₁.root_isDir, t₂.root_isDir⟩
          · exact ⟨h₁, h₂⟩
        obtain ⟨heq, hplace⟩ := hnext _ _ hbase.1 hbase.2 fun q hq => h q (List.mem_cons_of_mem _ hq)
        exact ⟨by rw [heq], hplace⟩
    · refine ⟨rfl, fun q hq => ?_⟩
      cases hq
      exact hsame

theorem stepsTo_congr (hnext : Agrees t₁ t₂ next₁ next₂) {follow : Bool} :
    Agrees t₁ t₂ (stepsTo read t₁ next₁ follow) (stepsTo read t₂ next₂ follow) := by
  intro cwd steps h₁ h₂ h
  induction steps generalizing cwd with
  | nil =>
    refine ⟨rfl, fun q hq => ?_⟩
    cases hq
    exact h₁.trans h₂.symm
  | cons x rest ih =>
    have hasked : ∀ q ∈ (stepTo read t₁ next₁ (follow || !rest.isEmpty) cwd x).1,
        t₁.shapeAt q = t₂.shapeAt q := by
      intro q hq
      apply h
      simp only [stepsTo]
      split
      · rename_i asked heq
        rw [heq] at hq
        exact hq
      · rename_i asked q' heq
        rw [heq] at hq
        split
        · exact List.mem_append_left _ hq
        · exact hq
    obtain ⟨hstep, hplace⟩ := stepTo_congr hnext h₁ h₂ hasked
    simp only [stepsTo, ← hstep] at h ⊢
    split at h
    · exact ⟨rfl, fun q hq => by cases hq⟩
    · rename_i asked q heq
      have hq := hplace q (by rw [heq])
      have hdir : t₁.IsDir q ↔ t₂.IsDir q := by rw [Tree.IsDir, Tree.IsDir, hq]
      by_cases hcase : rest = [] ∨ t₁.IsDir q
      · have hcase₂ : rest = [] ∨ t₂.IsDir q := hcase.imp_right hdir.mp
        simp only [if_pos hcase, if_pos hcase₂] at h ⊢
        cases rest with
        | nil =>
          refine ⟨rfl, fun q' hq' => ?_⟩
          cases hq'
          exact hq
        | cons y rest =>
          have hd : t₁.IsDir q := hcase.resolve_left (by simp)
          obtain ⟨heq', hplace'⟩ := ih q hd (hdir.mp hd) fun q' hq' => h q' (List.mem_append_right _ hq')
          exact ⟨by rw [heq'], hplace'⟩
      · have hcase₂ : ¬ (rest = [] ∨ t₂.IsDir q) := fun h' => hcase (h'.imp_right hdir.mpr)
        simp only [if_neg hcase, if_neg hcase₂]
        exact ⟨trivial, fun q' hq' => by cases hq'⟩

/-- A walk is the same in two trees that have the same at the names it looks up. -/
theorem walk_congr (n : Nat) (follow : Bool) :
    Agrees t₁ t₂ (walk read t₁ n follow) (walk read t₂ n follow) := by
  induction n generalizing follow with
  | zero => exact fun _ _ _ _ _ => ⟨rfl, fun q hq => by cases hq⟩
  | succ n ih => exact stepsTo_congr (ih true)

end Congr

/-! ## Where a walk ends -/

section Place

variable {read} {t : Tree σ α τ}

/-- What `r` says about a walk from `cwd`: its end is there, is no link where these are followed, and
the names on the way down to it were looked up, unless they are on the way to `cwd`. -/
structure Placed (t : Tree σ α τ) (follow : Bool) (cwd : List σ) (r : Walk σ) (q : List σ) : Prop where
  isSome : (t.shapeAt q).isSome
  followed : follow = true → ∀ target, t.shapeAt q ≠ some (.link target)
  looked : ∀ p, p ≠ [] → p <+: q → p <+: cwd ∨ p ∈ r.1

variable {next : List σ → List (Step σ) → Walk σ}

omit [DecidableEq τ] in
theorem stepTo_place (hnext : ∀ cwd steps q, t.IsDir cwd → (next cwd steps).2 = some q →
      Placed t true cwd (next cwd steps) q) {follow : Bool} {cwd q : List σ} {x : Step σ}
    (hcwd : t.IsDir cwd) (h : (stepTo read t next follow cwd x).2 = some q) :
    Placed t follow cwd (stepTo read t next follow cwd x) q := by
  have hdir : ∀ {p : List σ}, t.IsDir p → (t.shapeAt p).isSome ∧
      ∀ target, t.shapeAt p ≠ some (.link target) := by
    intro p hp
    rw [hp]
    exact ⟨rfl, fun target h => nomatch h⟩
  have hname : ∀ (s : σ) (asked : List (List σ)), cwd ++ [s] ∈ asked → ∀ p, p ≠ [] → p <+: cwd ++ [s] →
      p <+: cwd ∨ p ∈ asked := by
    intro s asked hmem p _ hp
    rcases List.prefix_concat_iff.mp hp with rfl | hp
    · exact .inr hmem
    · exact .inl hp
  cases x with
  | stay =>
    cases h
    exact ⟨(hdir hcwd).1, fun _ => (hdir hcwd).2, fun p _ hp => .inl hp⟩
  | up =>
    cases h
    exact ⟨(hdir hcwd.dropLast).1, fun _ => (hdir hcwd.dropLast).2,
      fun p _ hp => .inl (hp.trans (List.dropLast_prefix cwd))⟩
  | down s =>
    simp only [stepTo] at h ⊢
    split at h
    · cases h
    · rename_i target hlink
      cases follow with
      | false =>
        cases h
        refine ⟨by rw [hlink]; rfl, fun hf => ?_, hname s _ (by simp)⟩
        cases hf
      | true =>
        simp only [if_true] at h ⊢
        have hbase : t.IsDir (if (read target).absolute then [] else cwd) := by
          split
          · exact t.root_isDir
          · exact hcwd
        have hplaced := hnext _ _ _ hbase h
        refine ⟨hplaced.isSome, fun _ => hplaced.followed rfl, fun p hp hpre => ?_⟩
        rcases hplaced.looked p hp hpre with hin | hin
        · -- from the root nothing is on the way
          split at hin
          · exact absurd (List.prefix_nil.mp hin) hp
          · exact .inl hin
        · exact .inr (List.mem_cons_of_mem _ hin)
    · rename_i sh hne hsome
      cases h
      refine ⟨by rw [hsome]; rfl, fun _ target heq => ?_, hname s _ (by simp)⟩
      rw [hsome] at heq
      exact hne target (Option.some.inj heq)

theorem stepsTo_place (hnext : ∀ cwd steps q, t.IsDir cwd → (next cwd steps).2 = some q →
      Placed t true cwd (next cwd steps) q) {follow : Bool} {cwd q : List σ} {steps : List (Step σ)}
    (hcwd : t.IsDir cwd) (h : (stepsTo read t next follow cwd steps).2 = some q) :
    Placed t follow cwd (stepsTo read t next follow cwd steps) q := by
  induction steps generalizing cwd with
  | nil =>
    cases h
    refine ⟨by rw [hcwd]; rfl, fun _ target heq => ?_, fun p _ hp => .inl hp⟩
    rw [hcwd] at heq
    cases heq
  | cons x rest ih =>
    simp only [stepsTo] at h ⊢
    split at h
    · cases h
    · rename_i asked q' heq
      have hstep := stepTo_place hnext (q := q') hcwd (by rw [heq])
      rw [heq] at hstep
      by_cases hcase : rest = [] ∨ t.IsDir q'
      · simp only [if_pos hcase] at h ⊢
        cases rest with
        | nil =>
          cases h
          refine ⟨hstep.isSome, fun hf => hstep.followed (by simp [hf]), fun p hp hpre => ?_⟩
          rcases hstep.looked p hp hpre with hin | hin
          · exact .inl hin
          · exact .inr (List.mem_append_left _ hin)
        | cons y rest =>
          have hrest := ih (hcase.resolve_left (by simp)) h
          refine ⟨hrest.isSome, hrest.followed, fun p hp hpre => ?_⟩
          rcases hrest.looked p hp hpre with hin | hin
          · rcases hstep.looked p hp hin with hin | hin
            · exact .inl hin
            · exact .inr (List.mem_append_left _ hin)
          · exact .inr (List.mem_append_right _ hin)
      · simp only [if_neg hcase] at h
        cases h

theorem walk_place (n : Nat) {follow : Bool} {cwd q : List σ} {steps : List (Step σ)} (hcwd : t.IsDir cwd)
    (h : (walk read t n follow cwd steps).2 = some q) :
    Placed t follow cwd (walk read t n follow cwd steps) q := by
  induction n generalizing follow cwd q steps with
  | zero => cases h
  | succ n ih => exact stepsTo_place (fun _ _ _ hc hq => ih hc hq) hcwd h

/-- The path of a node leads to it, if it is no link that is followed. -/
theorem walk_self (n : Nat) {follow : Bool} (cwd r : List σ) {sh : Shape τ} (h : t.shapeAt (cwd ++ r) = some sh)
    (hlink : follow = true → ∀ target, sh ≠ .link target) :
    (walk read t (n + 1) follow cwd (r.map .down)).2 = some (cwd ++ r) := by
  induction r generalizing cwd with
  | nil =>
    rw [List.append_nil]
    rfl
  | cons s r ih =>
    have hassoc : cwd ++ s :: r = (cwd ++ [s]) ++ r := by simp
    rw [hassoc] at h ⊢
    simp only [walk] at ih ⊢
    cases r with
    | nil =>
      rw [List.append_nil] at h ⊢
      have hstep : stepTo read t (walk read t n true) follow cwd (.down s) =
          ([cwd ++ [s]], some (cwd ++ [s])) := by
        simp only [stepTo, h]
        cases sh with
        | link target =>
          cases follow with
          | false => rfl
          | true => exact absurd rfl (hlink rfl target)
        | leaf regular => rfl
        | dir => rfl
      simp [stepsTo, hstep]
    | cons s' r =>
      have hdir : t.IsDir (cwd ++ [s]) := Tree.isDir_of_below (by simp) (Tree.isSome_of_shapeAt h)
      have hstep : stepTo read t (walk read t n true) true cwd (.down s) =
          ([cwd ++ [s]], some (cwd ++ [s])) := by
        simp only [stepTo]
        rw [hdir]
      have hrest := ih (cwd ++ [s]) h
      simp only [List.map_cons] at hrest ⊢
      rw [stepsTo]
      simp only [List.isEmpty_cons, Bool.not_false, Bool.or_true, hstep, if_pos (.inr hdir : _ ∨ _)]
      exact hrest

/-- A name that is not followed is where it is. -/
theorem walk_name {n : Nat} {cwd p : List σ} {s : σ}
    (h : (walk read t (n + 1) false cwd [.down s]).2 = some p) : p = cwd ++ [s] := by
  simp only [walk, stepsTo, stepTo, List.isEmpty_nil, Bool.not_true, Bool.or_self, Bool.false_eq_true,
    if_false] at h
  cases hshape : t.shapeAt (cwd ++ [s]) with
  | none => simp [hshape] at h
  | some sh =>
    cases sh with
    | leaf regular => simpa [hshape] using h.symm
    | link target => simpa [hshape] using h.symm
    | dir => simpa [hshape] using h.symm

/-- A name that is followed is where it is, or it is a link. -/
theorem walk_follow {n : Nat} {cwd p : List σ} {s : σ} (h : (walk read t (n + 1) true cwd [.down s]).2 = some p) :
    p = cwd ++ [s] ∨ (walk read t (n + 1) false cwd [.down s]).2 = some (cwd ++ [s]) ∧
      ∃ target, t.shapeAt (cwd ++ [s]) = some (.link target) := by
  simp only [walk, stepsTo, stepTo, List.isEmpty_nil, Bool.not_true, Bool.or_self, Bool.or_false, if_true,
    Bool.false_eq_true, if_false] at h ⊢
  cases hshape : t.shapeAt (cwd ++ [s]) with
  | none => simp [hshape] at h
  | some sh =>
    cases sh with
    | leaf regular => exact .inl (by simpa [hshape] using h.symm)
    | dir => exact .inl (by simpa [hshape] using h.symm)
    | link target => exact .inr ⟨rfl, target, rfl⟩

/-- A walk is cut at any directory. -/
theorem walk_append (n : Nat) {follow : Bool} {cwd : List σ} (hcwd : t.IsDir cwd)
    (xs : List (Step σ)) {ys : List (Step σ)} (hys : ys ≠ []) :
    (walk read t (n + 1) follow cwd (xs ++ ys)).2 =
      (walk read t (n + 1) true cwd xs).2.bind fun q =>
        if t.IsDir q then (walk read t (n + 1) follow q ys).2 else none := by
  simp only [walk]
  induction xs generalizing cwd with
  | nil => simp [stepsTo, hcwd]
  | cons x rest ih =>
    have hne : (rest ++ ys).isEmpty = false := by simp [hys]
    have hnil : ¬ rest ++ ys = [] := by simp [hys]
    rw [List.cons_append, stepsTo, stepsTo]
    simp only [hne, Bool.not_false, Bool.or_true, Bool.true_or]
    cases stepTo read t (walk read t n true) true cwd x with
    | mk asked place =>
      cases place with
      | none => rfl
      | some q =>
        by_cases hdir : t.IsDir q
        · simp only [hdir, or_true, if_true]
          exact ih hdir
        · simp only [hdir, hnil, or_false, if_false]
          by_cases hrest : rest = []
          · simp [hrest, stepsTo, hdir]
          · simp [hrest]

end Place

end FileTree
end Lib
end Ebftpd
