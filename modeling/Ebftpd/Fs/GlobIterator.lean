import Ebftpd.Fs.Tree
import Ebftpd.Util.Fnmatch

/-!
# Ebftpd.Fs.GlobIterator

`util::path::GlobIterator` (`util/util/path/globiterator.cpp`) over the `recursive_directory_iterator` of
boost, which reads the names of a directory as it opens it.

* `next_pending`: one call of `Next` takes the entries that are left up to the first it stops at.
* `entries_eq`: an iteration yields what is left behind the first entry of the root.
* `glob_exact_iff`: when these are the entries that match and that the filter does not exclude.
-/

namespace Ebftpd
namespace Fs
namespace Glob

open Util Util.Path Lib Lib.Seg Lib.FileTree

/-! ## The recursive directory iterator -/

/-- A directory that is open: its path and the names left in it, the current one in front. -/
structure Frame where
  dir : List Seg
  names : List Seg

/-- The names in a directory. -/
def names (t : Disk) (q : List Seg) : List Seg := (t.find q).elim [] fun n => n.entries.map Prod.fst

/-- The entry that the iterator is at, none at the end. -/
def current : List Frame → Option (List Seg)
  | ⟨dir, s :: _⟩ :: _ => some (dir ++ [s])
  | _ => none

/-- Past the current entry, and out of the directories that have no more. -/
def advance : List Frame → List Frame
  | [] => []
  | ⟨dir, names⟩ :: frames =>
    match names.tail with
    | [] => advance frames
    | s :: rest => ⟨dir, s :: rest⟩ :: frames

/-- `++`: into the current entry if it is a directory and no link, or past it. -/
def increment (t : Disk) (noPush : Bool) (frames : List Frame) : List Frame :=
  match current frames with
  | none => []
  | some q =>
    if !noPush && decide (t.IsDir q) && !(names t q).isEmpty then ⟨q, names t q⟩ :: frames
    else advance frames

/-! ## The iterator -/

/-- Nothing reads the filter. -/
structure GlobIterator where
  pathTokens : List Str
  filter : Str → Bool
  recursive : Bool
  trailingSlash : Bool
  frames : List Frame := []
  noPush : Bool := true

/-- `boost::split` with adjacent delimiters compressed. -/
def compress : List Str → List Str
  | [] => []
  | [s] => [s]
  | s :: rest => if s.isEmpty then compress rest else s :: compress rest

def split (s : Str) : List Str :=
  match s.splitOn '/' with
  | [] => []
  | first :: rest => first :: compress rest

/-- `TokenizePath`, in the directory `cwd`. -/
def tokenizePath (cwd pathMask : Str) : List Str :=
  (split (resolve (if pathMask.head? = some '/' then pathMask else cwd ++ '/' :: pathMask))).tail

/-- `util::path::WildcardMatch`; there are no slashes for `FNM_PATHNAME` to see. -/
def wildcardMatch (pattern : Str) (name : Seg) : Bool := fnmatch pattern name.val false

def isDirectory (t : Disk) (q : List Seg) : Bool :=
  decide ((t.place true (text q)).bind t.shapeAt = some .dir)

/-- What the loop of `Next` does at an entry of some level: what the no-push flag becomes, and whether the
loop is left. -/
def GlobIterator.inspect (it : GlobIterator) (t : Disk) (level : Nat) (q : List Seg) : Bool × Bool :=
  let tokenMatches := (q.getLast?).any (wildcardMatch (it.pathTokens.getD level []))
  if level + 1 < it.pathTokens.length then (!(isDirectory t q && tokenMatches), false)
  else if level + 1 = it.pathTokens.length then
    if tokenMatches then
      if isDirectory t q then (!it.recursive, true)
      else if it.trailingSlash then (true, false)
      else (true, true)
    else (true, false)
  else (!isDirectory t q, true)

inductive Stop where
  | undefined
  | outOfFuel
  deriving DecidableEq

def GlobIterator.next (t : Disk) : Nat → GlobIterator → Except Stop GlobIterator
  | 0, _ => .error .outOfFuel
  | fuel + 1, it =>
    let frames := increment t it.noPush it.frames
    match current frames with
    | none => .ok { it with frames, noPush := true }
    | some q =>
      let (noPush, leave) := it.inspect t (frames.length - 1) q
      if leave then .ok { it with frames, noPush }
      else next t fuel { it with frames, noPush }

/-- `OpenDirectory`: in an empty root there is no entry to set the flag at. -/
def GlobIterator.openDirectory (t : Disk) (fuel : Nat) (it : GlobIterator) : Except Stop GlobIterator :=
  if names t [] = [] then .error .undefined
  else next t fuel { it with frames := [⟨[], names t []⟩], noPush := true }

/-- The entries from here to the end. -/
def GlobIterator.toEnd (t : Disk) (fuel : Nat) : Nat → GlobIterator → Except Stop (List (List Seg))
  | 0, _ => .error .outOfFuel
  | n + 1, it =>
    match current it.frames with
    | none => .ok []
    | some q =>
      match it.next t fuel with
      | .error e => .error e
      | .ok it' => (toEnd t fuel n it').map (q :: ·)

/-- The iterator as it is constructed. -/
def GlobIterator.of (cwd pathMask : Str) (filter : Str → Bool) (recursive : Bool) : GlobIterator where
  pathTokens := tokenizePath cwd pathMask
  filter := filter
  recursive := recursive
  trailingSlash := decide (pathMask.getLast? = some '/')

/-- The entries of an iteration from construction to the end. -/
def entries (t : Disk) (cwd pathMask : Str) (filter : Str → Bool) (recursive : Bool) (fuel : Nat) :
    Except Stop (List (List Seg)) :=
  match (GlobIterator.of cwd pathMask filter recursive).openDirectory t fuel with
  | .error e => .error e
  | .ok it => it.toEnd t fuel fuel

/-! ## The entries below an entry -/

section Below

variable {t : Disk}

theorem mem_names {q : List Seg} {s : Seg} : s ∈ names t q ↔ (t.find (q ++ [s])).isSome := by
  unfold names
  cases hn : t.find q with
  | none => simp [Tree.find, Node.find_append, show t.root.find q = none from hn]
  | some n =>
    rw [Tree.find_child hn, Option.elim_some]
    constructor
    · intro h
      obtain ⟨m, hm, -⟩ := Node.child_of_mem h
      rw [hm]
      rfl
    · intro h
      obtain ⟨m, hm⟩ := Option.isSome_iff_exists.mp h
      exact Node.mem_of_child hm

theorem isDir_of_names {q : List Seg} (h : names t q ≠ []) : t.IsDir q := by
  obtain ⟨s, hs⟩ := List.exists_mem_of_ne_nil _ h
  exact Tree.isDir_of_below (List.cons_ne_nil s []) (mem_names.mp hs)

/-- How many directories can be entered one below the other from `q` on. -/
def height (t : Disk) (q : List Seg) : Nat := (t.find q).elim 0 Node.height

theorem height_le_root (q : List Seg) : height t q ≤ t.root.height := by
  unfold height
  cases hn : t.find q with
  | none => exact Nat.zero_le _
  | some n => exact Node.height_find hn

theorem height_lt {q : List Seg} {s : Seg} (hs : s ∈ names t q) : height t (q ++ [s]) < height t q := by
  unfold names at hs
  unfold height
  cases hn : t.find q with
  | none =>
    rw [hn] at hs
    cases hs
  | some n =>
    rw [hn, Option.elim_some] at hs
    obtain ⟨m, hm, -⟩ := Node.child_of_mem hs
    rw [Tree.find_child hn, hm]
    exact Node.height_child hm

variable (it : GlobIterator)

/-- What the loop does at an entry on its own level. -/
def GlobIterator.judge (t : Disk) (q : List Seg) : Bool × Bool := it.inspect t (q.length - 1) q

/-- An entry and those below it that the iterator comes to, in order. -/
def visits (t : Disk) : Nat → List Seg → List (List Seg)
  | 0, q => [q]
  | h + 1, q => q :: if (it.judge t q).1 then [] else (names t q).flatMap fun s => visits t h (q ++ [s])

theorem visits_stable (h : Nat) : ∀ h' q, height t q ≤ h → height t q ≤ h' →
    visits it t h q = visits it t h' q := by
  have hnone : ∀ q, height t q ≤ 0 → names t q = [] := by
    intro q hq
    refine List.eq_nil_iff_forall_not_mem.mpr fun s hs => ?_
    have := height_lt hs
    omega
  induction h with
  | zero =>
    intro h' q hq _
    cases h' with
    | zero => rfl
    | succ h' => simp [visits, hnone q hq]
  | succ h ih =>
    intro h' q hq hq'
    cases h' with
    | zero => simp [visits, hnone q hq']
    | succ h' =>
      rw [visits, visits]
      congr 2
      refine List.flatMap_congr fun s hs => ?_
      have := height_lt hs
      exact ih h' (q ++ [s]) (by omega) (by omega)

def below (t : Disk) (q : List Seg) : List (List Seg) := visits it t t.root.height q

/-- The entries in `q`, each with those below it. -/
def inside (t : Disk) (q : List Seg) : List (List Seg) := (names t q).flatMap fun s => below it t (q ++ [s])

theorem below_eq (q : List Seg) :
    below it t q = q :: if (it.judge t q).1 then [] else inside it t q := by
  rw [below, visits_stable it _ (t.root.height + 1) q (height_le_root q) (Nat.le_succ_of_le (height_le_root q))]
  rfl

end Below

/-! ## One step -/

section Step

variable {t : Disk} (it : GlobIterator)

/-- Each directory that is open is one level below the next, and has a current entry. -/
def Leveled : List Frame → Prop
  | [] => True
  | f :: frames => f.dir.length = frames.length ∧ f.names ≠ [] ∧ Leveled frames

/-- What is left behind the current entries of the open directories. -/
def behind (t : Disk) : List Frame → List (List Seg)
  | [] => []
  | ⟨dir, names⟩ :: frames => names.tail.flatMap (fun s => below it t (dir ++ [s])) ++ behind t frames

/-- What is left from the current entry on. -/
def upcoming (t : Disk) (frames : List Frame) : List (List Seg) :=
  match current frames with
  | none => []
  | some q => below it t q ++ behind it t frames

theorem current_length {frames : List Frame} (h : Leveled frames) {q : List Seg}
    (hq : current frames = some q) : q.length = frames.length := by
  match frames, h, hq with
  | ⟨dir, s :: rest⟩ :: frames, h, hq =>
    cases hq
    rw [List.length_append, List.length_singleton, List.length_cons, h.1]

theorem current_none {frames : List Frame} (h : Leveled frames) (hnone : current frames = none) :
    frames = [] := by
  match frames, h, hnone with
  | [], _, _ => rfl
  | ⟨dir, []⟩ :: frames, h, _ => exact absurd rfl h.2.1

theorem advance_leveled {frames : List Frame} (h : Leveled frames) : Leveled (advance frames) := by
  induction frames with
  | nil => exact h
  | cons f frames ih =>
    rw [advance]
    split
    · exact ih h.2.2
    · exact ⟨h.1, List.cons_ne_nil _ _, h.2.2⟩

theorem behind_eq (frames : List Frame) : behind it t frames = upcoming it t (advance frames) := by
  induction frames with
  | nil => rfl
  | cons f frames ih =>
    obtain ⟨dir, names⟩ := f
    rw [advance, behind]
    split
    · rename_i htail
      rw [htail, ih]
      rfl
    · rename_i s rest htail
      rw [htail, List.flatMap_cons, List.append_assoc]
      rfl

theorem increment_leveled {frames : List Frame} (h : Leveled frames) (noPush : Bool) :
    Leveled (increment t noPush frames) := by
  unfold increment
  split
  · exact trivial
  · rename_i q hq
    split
    · rename_i hpush
      simp only [Bool.and_eq_true, Bool.not_eq_true', List.isEmpty_eq_false_iff] at hpush
      exact ⟨current_length h hq, hpush.2, h⟩
    · exact advance_leveled h

/-- What is left behind the current entry, and in it unless the flag is set. -/
def pending (t : Disk) (noPush : Bool) (frames : List Frame) : List (List Seg) :=
  match current frames with
  | none => []
  | some q => (if noPush then [] else inside it t q) ++ behind it t frames

theorem increment_upcoming (noPush : Bool) (frames : List Frame) :
    upcoming it t (increment t noPush frames) = pending it t noPush frames := by
  unfold increment pending
  split
  · rfl
  · rename_i q hq
    split
    · rename_i hpush
      simp only [Bool.and_eq_true, Bool.not_eq_true', List.isEmpty_eq_false_iff] at hpush
      obtain ⟨s, rest, hnames⟩ := List.exists_cons_of_ne_nil hpush.2
      rw [hpush.1.1, inside, hnames]
      simp [upcoming, current, behind]
    · rename_i hpush
      rw [← behind_eq]
      have hempty : (if noPush then [] else inside it t q) = [] := by
        split
        · rfl
        · rename_i hno
          have hnames : names t q = [] := by
            by_contra hne
            exact hpush (by simp [hno, isDir_of_names hne, hne])
          rw [inside, hnames]
          rfl
      rw [hempty, List.nil_append]

/-- The current entry is the first that is left, and what is left behind it is pending. -/
theorem upcoming_cons {frames : List Frame} {q : List Seg} (hq : current frames = some q) :
    upcoming it t frames = q :: pending it t (it.judge t q).1 frames := by
  rw [upcoming, pending, hq]
  simp only [below_eq, List.cons_append]

/-- A call of `Next` goes over the entries that are left to the first at which the loop is left. -/
theorem next_pending (fuel : Nat) : ∀ (noPush : Bool) (frames : List Frame), Leveled frames →
    (pending it t noPush frames).length < fuel →
      ∃ noPush' frames', { it with frames, noPush }.next t fuel =
          .ok { it with frames := frames', noPush := noPush' } ∧ Leveled frames' ∧
        (pending it t noPush frames).filter (fun q => (it.judge t q).2) =
          (current frames').toList ++ (pending it t noPush' frames').filter (fun q => (it.judge t q).2) ∧
        (pending it t noPush' frames').length + (current frames').toList.length ≤
          (pending it t noPush frames).length := by
  induction fuel with
  | zero => exact fun _ _ _ hlt => absurd hlt (Nat.not_lt_zero _)
  | succ fuel ih =>
    intro noPush frames hleveled hlt
    have hleveled' := increment_leveled (t := t) hleveled noPush
    rw [← increment_upcoming] at hlt ⊢
    rw [GlobIterator.next]
    simp only
    cases hcurrent : current (increment t noPush frames) with
    | none =>
      refine ⟨true, increment t noPush frames, rfl, hleveled', ?_, ?_⟩
      · simp [hcurrent, upcoming, pending]
      · simp [hcurrent, pending]
    | some q =>
      rw [upcoming_cons it hcurrent, List.length_cons] at hlt
      rw [upcoming_cons it hcurrent, List.filter_cons, List.length_cons]
      have hjudge : ({ it with frames, noPush } : GlobIterator).inspect t ((increment t noPush frames).length - 1) q =
          it.judge t q := by
        rw [GlobIterator.judge, current_length hleveled' hcurrent]
        rfl
      simp only [hjudge]
      by_cases hleave : (it.judge t q).2 = true
      · rw [if_pos hleave, if_pos hleave]
        refine ⟨_, _, rfl, hleveled', ?_, ?_⟩
        · rw [hcurrent, Option.toList_some, List.singleton_append]
        · rw [hcurrent]
          exact Nat.le_refl _
      · rw [if_neg hleave, if_neg hleave]
        obtain ⟨noPush', frames', hnext, hleveled'', hfilter, hlength⟩ :=
          ih (it.judge t q).1 (increment t noPush frames) hleveled' (by omega)
        exact ⟨noPush', frames', hnext, hleveled'', hfilter, by omega⟩

/-- What is yielded from an entry on: itself, and what is left behind it. -/
theorem toEnd_pending (fuel : Nat) (n : Nat) : ∀ (noPush : Bool) (frames : List Frame), Leveled frames →
    (pending it t noPush frames).length < fuel →
    (pending it t noPush frames).length + (current frames).toList.length < n →
      GlobIterator.toEnd t fuel n { it with frames, noPush } = .ok ((current frames).toList ++
        (pending it t noPush frames).filter fun q => (it.judge t q).2) := by
  induction n with
  | zero => exact fun _ _ _ _ hlt => absurd hlt (Nat.not_lt_zero _)
  | succ n ih =>
    intro noPush frames hleveled hfuel hlt
    rw [GlobIterator.toEnd]
    simp only
    cases hcurrent : current frames with
    | none => simp [pending, hcurrent]
    | some q =>
      obtain ⟨noPush', frames', hnext, hleveled', hfilter, hlength⟩ :=
        next_pending it fuel noPush frames hleveled hfuel
      rw [hcurrent, Option.toList_some, List.length_singleton] at hlt
      have hrest := ih noPush' frames' hleveled' (by omega) (by omega)
      simp only [hnext, hrest, hfilter, Option.toList_some, List.singleton_append]
      rfl

end Step

/-! ## The iteration -/

section Entries

variable {t : Disk} (it : GlobIterator)

/-- Everything that the iteration comes to: nothing at or below the first entry of the root. -/
def reached (t : Disk) : List (List Seg) := (names t []).tail.flatMap fun s => below it t [s]

theorem entries_eq {cwd pathMask : Str} {filter : Str → Bool} {recursive : Bool} (hroot : names t [] ≠ [])
    {fuel : Nat} (hfuel : (reached (GlobIterator.of cwd pathMask filter recursive) t).length + 2 ≤ fuel) :
    entries t cwd pathMask filter recursive fuel =
      .ok ((reached (GlobIterator.of cwd pathMask filter recursive) t).filter fun q =>
        ((GlobIterator.of cwd pathMask filter recursive).judge t q).2) := by
  obtain ⟨it, hit⟩ : ∃ it, it = GlobIterator.of cwd pathMask filter recursive := ⟨_, rfl⟩
  rw [← hit] at hfuel ⊢
  obtain ⟨s, rest, hnames⟩ := List.exists_cons_of_ne_nil hroot
  have hleveled : Leveled [⟨[], names t []⟩] := ⟨rfl, hroot, trivial⟩
  have hpending : pending it t true [⟨[], names t []⟩] = reached it t := by
    simp [pending, hnames, current, behind, reached]
  obtain ⟨noPush', frames', hnext, hleveled', hfilter, hlength⟩ :=
    next_pending it fuel true [⟨[], names t []⟩] hleveled (by rw [hpending]; omega)
  rw [hpending] at hfilter hlength
  rw [entries, ← hit, GlobIterator.openDirectory, if_neg hroot, hnext]
  simp only
  rw [toEnd_pending it fuel fuel noPush' frames' hleveled' (by omega) (by omega), hfilter]

theorem below_of_visits (h : Nat) : ∀ q, ∀ r ∈ visits it t h q, q <+: r := by
  induction h with
  | zero =>
    intro q r hr
    rw [visits, List.mem_singleton] at hr
    rw [hr]
  | succ h ih =>
    intro q r hr
    rw [visits] at hr
    rcases List.mem_cons.mp hr with rfl | hr
    · exact List.prefix_rfl
    · split at hr
      · cases hr
      · obtain ⟨s, -, hs⟩ := List.mem_flatMap.mp hr
        exact (List.prefix_append q [s]).trans (ih (q ++ [s]) r hs)

theorem prefix_singleton_inj {q r : List Seg} {s s' : Seg} (h : q ++ [s] <+: r) (h' : q ++ [s'] <+: r) :
    s = s' := by
  have := List.prefix_of_prefix_length_le h h' (by simp)
  simpa using this.eq_of_length (by simp)

/-- The directories next to each other have nothing below them in common. -/
theorem nodup_flatMap_below {q : List Seg} {ss : List Seg} (hnodup : ss.Nodup) {f : Seg → List (List Seg)}
    (hbelow : ∀ s, ∀ r ∈ f s, q ++ [s] <+: r) (hf : ∀ s ∈ ss, (f s).Nodup) : (ss.flatMap f).Nodup := by
  rw [List.nodup_iff_pairwise_ne, List.pairwise_flatMap]
  refine ⟨fun s hs => List.nodup_iff_pairwise_ne.mp (hf s hs), hnodup.imp fun hne r hr r' hr' heq => hne ?_⟩
  subst heq
  exact prefix_singleton_inj (hbelow _ r hr) (hbelow _ r hr')

variable (hdistinct : t.Distinct)

include hdistinct

theorem names_nodup (q : List Seg) : (names t q).Nodup := by
  unfold names
  cases hn : t.find q with
  | none => exact List.nodup_nil
  | some n => exact hdistinct q n hn

theorem visits_nodup (h : Nat) : ∀ q, (visits it t h q).Nodup := by
  induction h with
  | zero => exact fun q => List.nodup_singleton q
  | succ h ih =>
    intro q
    rw [visits, List.nodup_cons]
    split
    · exact ⟨List.not_mem_nil, List.nodup_nil⟩
    · constructor
      · intro hq
        obtain ⟨s, -, hs⟩ := List.mem_flatMap.mp hq
        have := (below_of_visits it h (q ++ [s]) q hs).length_le
        rw [List.length_append, List.length_singleton] at this
        omega
      · exact nodup_flatMap_below (names_nodup hdistinct q) (fun s => below_of_visits it h (q ++ [s])) fun s _ =>
          ih (q ++ [s])

theorem reached_nodup : (reached it t).Nodup :=
  nodup_flatMap_below (q := []) ((names_nodup hdistinct []).sublist (List.tail_sublist _))
    (fun s => below_of_visits it _ [s]) fun s _ => visits_nodup it hdistinct _ [s]

omit hdistinct in
theorem mem_below (x : List Seg) : ∀ q, (t.find q).isSome →
    (q ++ x ∈ below it t q ↔ (t.find (q ++ x)).isSome ∧
      ∀ y, y <+: x → y ≠ x → (it.judge t (q ++ y)).1 = false) := by
  induction x with
  | nil =>
    intro q hq
    rw [List.append_nil, below_eq]
    refine iff_of_true List.mem_cons_self ⟨hq, fun y hy hne => absurd (List.prefix_nil.mp hy) hne⟩
  | cons s x ih =>
    intro q hq
    have hassoc : q ++ s :: x = q ++ [s] ++ x := by simp
    rw [below_eq, List.mem_cons, or_iff_right (by simp)]
    constructor
    · intro hmem
      split at hmem
      · cases hmem
      · rename_i hpush
        obtain ⟨s', hs', hmem⟩ := List.mem_flatMap.mp hmem
        obtain rfl : s = s' := prefix_singleton_inj (hassoc ▸ List.prefix_append _ _)
          (below_of_visits it _ (q ++ [s']) _ hmem)
        rw [hassoc] at hmem ⊢
        obtain ⟨hfind, hdown⟩ := (ih (q ++ [s]) (mem_names.mp hs')).mp hmem
        refine ⟨hfind, fun y hy hne => ?_⟩
        cases y with
        | nil => rw [List.append_nil, Bool.eq_false_iff]; exact hpush
        | cons s' y =>
          obtain ⟨rfl, hpre⟩ := List.cons_prefix_cons.mp hy
          have := hdown y hpre fun heq => hne (heq ▸ rfl)
          simpa using this
    · rintro ⟨hfind, hdown⟩
      have hpush : ¬ (it.judge t q).1 = true := by
        have := hdown [] (List.nil_prefix) (by simp)
        rw [List.append_nil] at this
        rw [this]
        exact Bool.false_ne_true
      have hs : s ∈ names t q :=
        mem_names.mpr (Tree.isSome_of_prefix (hassoc ▸ List.prefix_append _ _) hfind)
      rw [if_neg hpush, inside]
      refine List.mem_flatMap.mpr ⟨s, hs, ?_⟩
      rw [hassoc] at hfind ⊢
      refine (ih (q ++ [s]) (mem_names.mp hs)).mpr ⟨hfind, fun y hy hne => ?_⟩
      have := hdown (s :: y) (List.cons_prefix_cons.mpr ⟨rfl, hy⟩) (by simpa using hne)
      simpa using this

end Entries

/-! ## The tokens of a mask -/

theorem compress_eq {L : List Str} (h : ∀ s ∈ L, s ≠ []) : compress L = L := by
  induction L with
  | nil => rfl
  | cons s L ih =>
    have hs : s.isEmpty = false := List.isEmpty_eq_false_iff.mpr (h s List.mem_cons_self)
    cases L with
    | nil => rfl
    | cons s' L =>
      rw [compress, hs, if_neg Bool.false_ne_true, ih fun x hx => h x (List.mem_cons_of_mem s hx)]
      exact List.cons_ne_nil s' L

/-- The tokens of an absolute mask are the segments of the path that it names. -/
theorem tokenizePath_absolute {cwd pathMask : Str} (h : pathMask.head? = some '/')
    (hsegs : (AbsPath.named pathMask).segs ≠ []) : tokenizePath cwd pathMask = (AbsPath.named pathMask).segs := by
  have hgood : ∀ s ∈ (AbsPath.named pathMask).segs, s ≠ [] := fun s hs =>
    ((AbsPath.named pathMask).good s hs).ne_nil
  rw [tokenizePath, if_pos h, resolve_named h, AbsPath.str, rooted_of_ne_nil hsegs, split,
    splitOn_glue (AbsPath.named pathMask).sepFree]
  simp only [List.tail_cons]
  exact compress_eq hgood

/-! ## What is yielded -/

variable (t : Disk) (tokens : List Str) (recursive : Bool) in
/-- The entry `q` matches a mask of some tokens, or is below a directory that does. -/
structure Matches (q : List Seg) : Prop where
  isSome : (t.find q).isSome
  segs : List.Forall₂ (fun token s => wildcardMatch token s = true) tokens (q.take tokens.length)
  depth : q.length = tokens.length ∨ recursive = true

section Yielded

variable {t : Disk} {it : GlobIterator} (hfree : t.LinkFree) (hk : it.pathTokens ≠ [])

include hfree in
theorem isDirectory_iff {q : List Seg} (hq : (t.find q).isSome) : isDirectory t q = true ↔ t.IsDir q := by
  obtain ⟨n, hn⟩ := Option.isSome_iff_exists.mp hq
  have hplace : t.place true (text q) = some q := by
    refine place_text (shapeAt_of_find hn) fun _ target heq => hfree q target ?_
    rw [shapeAt_of_find hn, heq]
  rw [isDirectory, hplace, decide_eq_true_eq]
  rfl

variable (it) in
/-- The last name of `y` matches the token of its level. -/
def LastMatches (y : List Seg) : Prop :=
  (y.getLast?).any (wildcardMatch (it.pathTokens.getD (y.length - 1) [])) = true

include hfree in
theorem judge_down {y : List Seg} (hne : y ≠ []) (hy : (t.find y).isSome) :
    (it.judge t y).1 = false ↔ t.IsDir y ∧ (y.length ≤ it.pathTokens.length → LastMatches it y) ∧
      (y.length = it.pathTokens.length → it.recursive = true) := by
  have hlength : y.length - 1 + 1 = y.length := Nat.sub_add_cancel (List.length_pos_of_ne_nil hne)
  rw [GlobIterator.judge, GlobIterator.inspect, hlength, ← isDirectory_iff hfree hy, LastMatches]
  split
  · rename_i hlt
    simp [Nat.le_of_lt hlt, Nat.ne_of_lt hlt]
  · split
    · rename_i hlt heq
      simp only [heq, Nat.le_refl, forall_true_left]
      split
      · split
        · simp_all
        · split <;> simp_all
      · simp_all
    · rename_i hlt heq
      have hgt : ¬ y.length ≤ it.pathTokens.length := by omega
      simp [hgt, heq]

include hfree in
theorem judge_leave {q : List Seg} (hne : q ≠ []) (hq : (t.find q).isSome) :
    (it.judge t q).2 = true ↔ it.pathTokens.length ≤ q.length ∧ (q.length = it.pathTokens.length →
      LastMatches it q ∧ (it.trailingSlash = true → t.IsDir q)) := by
  have hlength : q.length - 1 + 1 = q.length := Nat.sub_add_cancel (List.length_pos_of_ne_nil hne)
  rw [GlobIterator.judge, GlobIterator.inspect, hlength, ← isDirectory_iff hfree hq, LastMatches]
  split
  · rename_i hlt
    simp [Nat.not_le_of_lt hlt]
  · split
    · rename_i hlt heq
      simp only [heq, Nat.le_refl, forall_true_left, true_and]
      split
      · split
        · simp_all
        · split <;> simp_all
      · simp_all
    · rename_i hlt heq
      have hle : it.pathTokens.length ≤ q.length := by omega
      simp [hle, heq]

/-- All names to the depth of the mask match their tokens. -/
theorem forall₂_take_iff {q : List Seg} : List.Forall₂ (fun token s => wildcardMatch token s = true)
      it.pathTokens (q.take it.pathTokens.length) ↔
    it.pathTokens.length ≤ q.length ∧
      ∀ y, y ≠ [] → y <+: q → y.length ≤ it.pathTokens.length → LastMatches it y := by
  rw [List.forall₂_iff_get]
  constructor
  · rintro ⟨hlength, hall⟩
    rw [List.length_take] at hlength
    have hle : it.pathTokens.length ≤ q.length := by omega
    refine ⟨hle, fun y hne hpre hy => ?_⟩
    obtain ⟨i, hi⟩ : ∃ i, y.length = i + 1 := ⟨y.length - 1, by have := List.length_pos_of_ne_nil hne; omega⟩
    have hone := hall i (by omega) (by rw [List.length_take]; omega)
    have hin : i < q.length := by omega
    have hlast : y.getLast? = some q[i] := by
      rw [List.getLast?_eq_getElem?, hi, Nat.add_sub_cancel, List.getElem?_eq_getElem (by omega)]
      exact congrArg some (hpre.getElem (by omega))
    rw [LastMatches, hlast, hi, Nat.add_sub_cancel, List.getD_eq_getElem?_getD, List.getElem?_eq_getElem (by omega), Option.getD_some]
    simpa using hone
  · rintro ⟨hle, hall⟩
    refine ⟨by rw [List.length_take]; omega, fun i h₁ h₂ => ?_⟩
    have hone := hall (q.take (i + 1)) (by
        intro h
        have := congrArg List.length h
        rw [List.length_take, List.length_nil] at this
        omega) (List.take_prefix _ _) (by rw [List.length_take]; omega)
    have hlength : (q.take (i + 1)).length = i + 1 := by
      rw [List.length_take]
      omega
    rw [LastMatches, List.getLast?_eq_getElem?, hlength, Nat.add_sub_cancel, List.getD_eq_getElem?_getD, List.getElem?_eq_getElem h₁, Option.getD_some,
      List.getElem?_eq_getElem (by omega)] at hone
    simpa using hone

include hfree hk in
/-- Where an entry is neither at nor below the first of the root it is yielded if it matches; behind a slash
only a directory is. -/
theorem mem_reached_iff {q : List Seg} (hdistinct : t.Distinct) :
    q ∈ (reached it t).filter (fun q => (it.judge t q).2) ↔
      Matches t it.pathTokens it.recursive q ∧ q.head? ≠ (names t []).head? ∧
        ¬ (it.trailingSlash = true ∧ q.length = it.pathTokens.length ∧ ¬ t.IsDir q) := by
  have hpos := List.length_pos_of_ne_nil hk
  rw [List.mem_filter]
  cases q with
  | nil =>
    refine iff_of_false ?_ ?_
    · rintro ⟨hmem, -⟩
      obtain ⟨s, -, hs⟩ := List.mem_flatMap.mp hmem
      exact absurd (List.prefix_nil.mp (below_of_visits it _ [s] [] hs)) (List.cons_ne_nil s [])
    · rintro ⟨hmatches, -⟩
      have := (forall₂_take_iff.mp hmatches.segs).1
      rw [List.length_nil] at this
      omega
  | cons s x =>
    have hhead : s ∈ (names t []).tail ↔ s ∈ names t [] ∧ (s :: x).head? ≠ (names t []).head? := by
      have hnodup := names_nodup hdistinct []
      cases hnames : names t [] with
      | nil => simp
      | cons s₀ rest =>
        rw [hnames, List.nodup_cons] at hnodup
        simp only [List.tail_cons, List.mem_cons, List.head?_cons, ne_eq, Option.some.injEq]
        constructor
        · exact fun hs => ⟨.inr hs, fun heq => hnodup.1 (heq ▸ hs)⟩
        · exact fun h => h.1.resolve_left h.2
    have hreached : s :: x ∈ reached it t ↔ s ∈ (names t []).tail ∧ s :: x ∈ below it t [s] := by
      rw [reached, List.mem_flatMap]
      constructor
      · rintro ⟨s', hs', hmem⟩
        obtain rfl : s = s' := @prefix_singleton_inj [] (s :: x) s s' (List.prefix_append [s] x)
          (below_of_visits it _ [s'] _ hmem)
        exact ⟨hs', hmem⟩
      · exact fun h => ⟨s, h⟩
    rw [hreached, hhead]
    constructor
    · rintro ⟨⟨⟨hs, hne⟩, hmem⟩, hleave⟩
      obtain ⟨hfind, hdown⟩ := (mem_below it x [s] (mem_names.mp hs)).mp hmem
      obtain ⟨hle, hlast⟩ := (judge_leave hfree (List.cons_ne_nil s x) hfind).mp hleave
      have hbelow : ∀ y, y ≠ [] → y <+: s :: x → y ≠ s :: x →
          (y.length ≤ it.pathTokens.length → LastMatches it y) ∧
            (y.length = it.pathTokens.length → it.recursive = true) := by
        intro y hy hpre hneq
        obtain ⟨s', y, rfl⟩ := List.exists_cons_of_ne_nil hy
        obtain ⟨rfl, hpre'⟩ := List.cons_prefix_cons.mp hpre
        have hjudge := hdown y hpre' fun heq => hneq (heq ▸ rfl)
        have hsome : (t.find (s' :: y)).isSome := Tree.isSome_of_prefix hpre hfind
        exact ((judge_down hfree hy hsome).mp hjudge).2
      refine ⟨⟨hfind, forall₂_take_iff.mpr ⟨hle, fun y hy hpre hlen => ?_⟩, ?_⟩, hne, ?_⟩
      · by_cases heq : y = s :: x
        · subst heq
          exact (hlast (Nat.le_antisymm hlen hle)).1
        · exact (hbelow y hy hpre heq).1 hlen
      · by_cases hlen : (s :: x).length = it.pathTokens.length
        · exact .inl hlen
        · have htake : ((s :: x).take it.pathTokens.length).length = it.pathTokens.length := by
            rw [List.length_take]
            omega
          refine .inr ((hbelow _ ?_ (List.take_prefix _ _) ?_).2 htake)
          · intro h
            rw [h, List.length_nil] at htake
            omega
          · intro h
            rw [h] at htake
            exact hlen htake
      · rintro ⟨htrailing, hlen, hdir⟩
        exact hdir ((hlast hlen).2 htrailing)
    · rintro ⟨hmatches, hne, hnot⟩
      have hfind := hmatches.isSome
      obtain ⟨hle, hall⟩ := forall₂_take_iff.mp hmatches.segs
      have hs : s ∈ names t [] :=
        mem_names.mpr (Tree.isSome_of_prefix (List.prefix_append [s] x) hfind)
      refine ⟨⟨⟨hs, hne⟩, (mem_below it x [s] (mem_names.mp hs)).mpr ⟨hfind, fun y hpre hneq => ?_⟩⟩, ?_⟩
      · have hpre' : s :: y <+: s :: x := List.cons_prefix_cons.mpr ⟨rfl, hpre⟩
        have hdir : t.IsDir (s :: y) := by
          obtain ⟨z, hz⟩ := hpre'
          rw [← hz] at hfind
          refine Tree.isDir_of_below (fun hz' => hneq ?_) hfind
          rw [hz', List.append_nil] at hz
          exact (List.cons.inj hz).2
        refine (judge_down hfree (List.cons_ne_nil s y) (Tree.isSome_of_shapeAt hdir)).mpr
          ⟨hdir, hall _ (List.cons_ne_nil s y) hpre', fun hlen => ?_⟩
        refine hmatches.depth.resolve_left fun hdepth => hneq ?_
        have := hpre'.eq_of_length (by rw [hlen, hdepth])
        exact (List.cons.inj this).2
      · refine (judge_leave hfree (List.cons_ne_nil s x) hfind).mpr ⟨hle, fun hlen => ⟨?_, fun htrailing => ?_⟩⟩
        · exact hall _ (List.cons_ne_nil s x) List.prefix_rfl (Nat.le_of_eq hlen)
        · by_contra hdir
          exact hnot ⟨htrailing, hlen, hdir⟩

end Yielded

/-- An iteration comes to its end, and yields every entry that is wanted once. -/
def Enumerates (t : Disk) (cwd pathMask : Str) (filter : Str → Bool) (recursive : Bool)
    (Wanted : List Seg → Prop) : Prop :=
  ∃ qs : List (List Seg), (∃ n, ∀ fuel, n ≤ fuel → entries t cwd pathMask filter recursive fuel = .ok qs) ∧
    qs.Nodup ∧ ∀ q, q ∈ qs ↔ Wanted q

theorem enumerates_iff {t : Disk} {cwd pathMask : Str} {filter : Str → Bool} {recursive : Bool}
    (hdistinct : t.Distinct) {Wanted : List Seg → Prop} :
    Enumerates t cwd pathMask filter recursive Wanted ↔
      names t [] ≠ [] ∧ ∀ q, q ∈ (reached (GlobIterator.of cwd pathMask filter recursive) t).filter (fun q =>
        ((GlobIterator.of cwd pathMask filter recursive).judge t q).2) ↔ Wanted q := by
  constructor
  · rintro ⟨qs, ⟨n, hn⟩, -, hmem⟩
    by_cases hroot : names t [] = []
    · have := hn n (Nat.le_refl n)
      rw [entries, GlobIterator.openDirectory, if_pos hroot] at this
      cases this
    · have hentries := @entries_eq t cwd pathMask filter recursive hroot _ (Nat.le_max_right n _)
      rw [hn _ (Nat.le_max_left n _)] at hentries
      cases hentries
      exact ⟨hroot, hmem⟩
  · rintro ⟨hroot, hmem⟩
    exact ⟨_, ⟨_, fun fuel hfuel => entries_eq hroot hfuel⟩, (reached_nodup _ hdistinct).filter _, hmem⟩

theorem glob_iff {t : Disk} (hdistinct : t.Distinct) (hfree : t.LinkFree) {cwd pathMask : Str}
    (hmask : pathMask.head? = some '/') (hsegs : (AbsPath.named pathMask).segs ≠ []) {filter : Str → Bool}
    {recursive : Bool} :
    Enumerates t cwd pathMask filter recursive (fun q =>
        Matches t (AbsPath.named pathMask).segs recursive q ∧ filter (text q) = false) ↔
      names t [] ≠ [] ∧ ∀ q, Matches t (AbsPath.named pathMask).segs recursive q →
        (filter (text q) = true ↔ q.head? = (names t []).head? ∨
          (pathMask.getLast? = some '/' ∧ q.length = (AbsPath.named pathMask).segs.length ∧ ¬ t.IsDir q)) := by
  have htokens := @tokenizePath_absolute cwd pathMask hmask hsegs
  rw [enumerates_iff hdistinct]
  refine and_congr_right fun _ => forall_congr' fun q => ?_
  have hk : (GlobIterator.of cwd pathMask filter recursive).pathTokens ≠ [] := by
    rw [GlobIterator.of, htokens]
    exact hsegs
  rw [mem_reached_iff hfree hk hdistinct]
  simp only [GlobIterator.of, htokens, decide_eq_true_eq]
  rw [and_congr_right_iff]
  refine imp_congr_right fun _ => ?_
  rw [← Bool.not_eq_true, ← not_or, not_iff_not]
  exact iff_comm

/-- The first entry of the root is passed before it is looked at, and the filter is never asked. So an
iteration yields exactly the matching entries that are not excluded where the root has entries and the filter
excludes just the matching entries at and below the first, and the files behind a slash. -/
theorem glob_exact_iff (t : Disk) (hdistinct : t.Distinct) (hfree : t.LinkFree) (cwd pathMask : Str)
    (hmask : pathMask.head? = some '/') (hsegs : (AbsPath.named pathMask).segs ≠ []) (filter : Str → Bool)
    (recursive : Bool) :
    Enumerates t cwd pathMask filter recursive (fun q =>
        Matches t (AbsPath.named pathMask).segs recursive q ∧ filter (text q) = false) ↔
      names t [] ≠ [] ∧ ∀ q, Matches t (AbsPath.named pathMask).segs recursive q →
        (filter (text q) = true ↔ q.head? = (names t []).head? ∨
          (pathMask.getLast? = some '/' ∧ q.length = (AbsPath.named pathMask).segs.length ∧ ¬ t.IsDir q)) :=
  glob_iff hdistinct hfree hmask hsegs

/-! ## Two directories -/

def segBin : Seg := ⟨"bin".toList, by decide⟩

theorem goodSeg_site : GoodSeg "site".toList := by decide

theorem goodSeg_a : GoodSeg "a".toList := by decide

def segSite : Seg := ⟨"site".toList, goodSeg_site⟩

def segA : Seg := ⟨"a".toList, goodSeg_a⟩

/-- A root with the directories `bin` and `site`, and a file in `site`. -/
def exampleRoot : Disk :=
  ⟨⟨493, 4, 4096, 0, 0, 0⟩, [(segBin, .dir ⟨493, 2, 4096, 0, 0, 0⟩ []),
    (segSite, .dir ⟨493, 2, 4096, 0, 0, 0⟩ [(segA, .leaf true ⟨420, 1, 1, 0, 0, 0⟩)])]⟩

/-- A filter that excludes nothing, and one that excludes the file. -/
def noFilter (_ : Str) : Bool := false

def hideA (path : Str) : Bool := decide (path = "/site/a".toList)

theorem exampleRoot_distinct : exampleRoot.Distinct := Tree.distinct_of_root _ (by decide)

theorem exampleRoot_free : exampleRoot.LinkFree := Tree.linkFree_of_root _ (by decide)

/-- The first directory of the root matches and is passed; the file is excluded and yielded. -/
theorem glob_inexact :
    ¬ Enumerates exampleRoot [] "/*".toList noFilter false (fun q =>
        Matches exampleRoot ["*".toList] false q ∧ noFilter (text q) = false) ∧
      ¬ Enumerates exampleRoot [] "/site/*".toList hideA false (fun q =>
        Matches exampleRoot ["site".toList, "*".toList] false q ∧ hideA (text q) = false) := by
  constructor
  · intro h
    have hbin : Matches exampleRoot ["*".toList] false [segBin] :=
      ⟨by decide, .cons (by decide) .nil, .inl rfl⟩
    have := ((glob_iff exampleRoot_distinct exampleRoot_free rfl (by decide)).mp h).2 [segBin] hbin
    revert this
    decide
  · intro h
    have hfile : Matches exampleRoot ["site".toList, "*".toList] false [segSite, segA] :=
      ⟨by decide, .cons (by decide) (.cons (by decide) .nil), .inl rfl⟩
    have := ((glob_iff exampleRoot_distinct exampleRoot_free rfl (by decide)).mp h).2 [segSite, segA] hfile
    revert this
    decide

example : entries exampleRoot [] "/*".toList noFilter true 5 = .ok [[segSite], [segSite, segA]] := by decide

theorem glob_site :
    Enumerates exampleRoot [] "/site/*".toList noFilter true (fun q =>
        Matches exampleRoot (AbsPath.named "/site/*".toList).segs true q ∧ noFilter (text q) = false) ↔
      names exampleRoot [] ≠ [] ∧ ∀ q, Matches exampleRoot (AbsPath.named "/site/*".toList).segs true q →
        (noFilter (text q) = true ↔ q.head? = (names exampleRoot []).head? ∨
          ("/site/*".toList.getLast? = some '/' ∧ q.length = (AbsPath.named "/site/*".toList).segs.length ∧
            ¬ exampleRoot.IsDir q)) :=
  glob_exact_iff exampleRoot exampleRoot_distinct exampleRoot_free [] "/site/*".toList rfl (by decide) noFilter true

end Glob
end Fs
end Ebftpd
