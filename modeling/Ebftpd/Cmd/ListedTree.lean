import Ebftpd.Cmd.Hidden
import Mathlib.Data.Char
import Mathlib.Data.List.Lex
import Mathlib.Data.List.Perm.Basic

/-!
# Ebftpd.Cmd.ListedTree

What a listing shows of a tree that the user may view, against what the letters of the options ask for.

* `readdir_visible`: a directory is read with all its entries, in the order of the comparator.
* `listPath_walked`: every directory down to the depth is listed once, after its parent.
* `listing_ordered_iff`: the order is the one asked for where entries are ordered by name. Sizes and
  times are ordered the other way round.
-/

namespace Ebftpd
namespace Cmd
namespace DirectoryList

open Util Util.Path Lib Lib.FileTree Fs Acl Acl.Path

/-! ## The letters -/

inductive Order where
  | name
  | size
  | modTime
  deriving DecidableEq

/-- The later of the letters `S` and `t` counts. -/
def Order.of (letters : Str) : Order :=
  match (letters.filter fun c => c == 'S' || c == 't').getLast? with
  | none => .name
  | some c => if c = 'S' then .size else .modTime

/-- `a` may stand before `b`: by name without regard to case, largest first, newest first. -/
def Order.before : Order → DirEntry → DirEntry → Prop
  | .name, a, b => toLowerCopy a.path ≤ toLowerCopy b.path
  | .size, a, b => b.status.attr.size ≤ a.status.attr.size
  | .modTime, a, b => b.status.attr.modTime ≤ a.status.attr.modTime

/-- Neither entry has to stand before the other, by size or by time. -/
def Order.Tied : Order → Attr → Attr → Prop
  | .name, _, _ => True
  | .size, a, b => a.size = b.size
  | .modTime, a, b => a.modTime = b.modTime

instance : (order : Order) → (a b : Attr) → Decidable (order.Tied a b)
  | .name, _, _ => .isTrue trivial
  | .size, a, b => inferInstanceAs (Decidable (a.size = b.size))
  | .modTime, a, b => inferInstanceAs (Decidable (a.modTime = b.modTime))

/-- The order that the letters ask for. -/
def Requested (letters : Str) (a b : DirEntry) : Prop :=
  if 'r' ∈ letters then (Order.of letters).before b a else (Order.of letters).before a b

/-- Names with a dot in front are listed on request. -/
def NameShown (letters : Str) (name : Str) : Prop :=
  name.head? = some '.' → 'a' ∈ letters ∨ 'A' ∈ letters

instance (letters name : Str) : Decidable (NameShown letters name) :=
  inferInstanceAs (Decidable (_ → _))

section Letters

variable (o : ListOptions) (c : Char)

/-- What one letter does to the options. -/
theorem parseOption_fields :
    (o.parseOption c).all = (o.all || (c == 'a' || c == 'A')) ∧
    (o.parseOption c).reverse = (o.reverse || c == 'r') ∧
    (o.parseOption c).recursive = (o.recursive || c == 'R') ∧
    (o.parseOption c).sizeSort = (if c = 'S' then true else if c = 't' then false else o.sizeSort) ∧
    (o.parseOption c).modTimeSort = (if c = 'S' then false else if c = 't' then true else o.modTimeSort) := by
  unfold ListOptions.parseOption
  split <;> simp_all

theorem order_concat (letters : Str) : Order.of (letters ++ [c]) =
    if c = 'S' then .size else if c = 't' then .modTime else Order.of letters := by
  unfold Order.of
  by_cases hS : c = 'S'
  · simp [hS, List.filter_append]
  · by_cases ht : c = 't'
    · simp [ht, List.filter_append]
    · simp [hS, ht, List.filter_append]

/-- What the letters say of the options. -/
structure Parsed (letters : Str) (o : ListOptions) : Prop where
  all : o.all = true ↔ 'a' ∈ letters ∨ 'A' ∈ letters
  reverse : o.reverse = true ↔ 'r' ∈ letters
  recursive : o.recursive = true ↔ 'R' ∈ letters
  sizeSort : o.sizeSort = true ↔ Order.of letters = .size
  modTimeSort : o.modTimeSort = true ↔ Order.of letters = .modTime

theorem parsed (letters : Str) : Parsed letters (letters.foldl ListOptions.parseOption {}) := by
  induction letters using List.reverseRecOn with
  | nil => exact ⟨by simp, by simp, by simp, by simp [Order.of], by simp [Order.of]⟩
  | append_singleton letters c ih =>
    rw [List.foldl_append, List.foldl_cons, List.foldl_nil]
    obtain ⟨hall, hreverse, hrecursive, hsize, htime⟩ :=
      parseOption_fields (letters.foldl ListOptions.parseOption {}) c
    constructor
    · simp only [hall, Bool.or_eq_true, beq_iff_eq, ih.all, List.mem_append, List.mem_singleton,
        @eq_comm Char 'a', @eq_comm Char 'A']
      tauto
    · simp only [hreverse, Bool.or_eq_true, beq_iff_eq, ih.reverse, List.mem_append,
        List.mem_singleton, @eq_comm Char 'r']
    · simp only [hrecursive, Bool.or_eq_true, beq_iff_eq, ih.recursive, List.mem_append,
        List.mem_singleton, @eq_comm Char 'R']
    · rw [hsize, order_concat]
      split
      · simp
      · split
        · simp
        · exact ih.sizeSort
    · rw [htime, order_concat]
      split
      · simp
      · split
        · simp
        · exact ih.modTimeSort

theorem parsed_ofStrings (userDefined forced : Str) :
    Parsed (forced ++ userDefined) (.ofStrings userDefined forced) := parsed (forced ++ userDefined)

end Letters

section Order

variable {letters : Str} {o : ListOptions} (hparsed : Parsed letters o)

include hparsed

theorem isShown_iff (env : Env) (name : Str) :
    isShown env o [] name = true ↔ NameShown letters name := by
  simp only [isShown, List.isEmpty_nil, Bool.true_or, Bool.and_true, Bool.not_eq_true', Bool.and_eq_false_iff,
    beq_eq_false_iff_ne, ne_eq, Bool.not_eq_false', hparsed.all, NameShown]
  exact imp_iff_not_or.symm

/-- Names are ordered as asked for, sizes and times the other way round. -/
theorem less_eq_false {a b : DirEntry} :
    o.less b a = false ↔ if Order.of letters = .name then Requested letters a b else Requested letters b a := by
  have hreverse : o.reverse = decide ('r' ∈ letters) := by
    rw [Bool.eq_iff_iff, hparsed.reverse, decide_eq_true_eq]
  have hsize : o.sizeSort = decide (Order.of letters = .size) := by
    rw [Bool.eq_iff_iff, hparsed.sizeSort, decide_eq_true_eq]
  have htime : o.modTimeSort = decide (Order.of letters = .modTime) := by
    rw [Bool.eq_iff_iff, hparsed.modTimeSort, decide_eq_true_eq]
  rw [ListOptions.less, hsize, htime, hreverse, Requested, Requested]
  cases Order.of letters with
  | name =>
    by_cases hr : 'r' ∈ letters
    · simp [hr, pathGreater, strcasecmpLess, Order.before]
    · simp [hr, pathLess, strcasecmpLess, Order.before]
  | size =>
    by_cases hr : 'r' ∈ letters
    · simp [hr, sizeGreater, Order.before]
    · simp [hr, sizeLess, Order.before]
  | modTime =>
    by_cases hr : 'r' ∈ letters
    · simp [hr, modTimeGreater, Order.before]
    · simp [hr, modTimeLess, Order.before]

end Order

/-! ## The comparators -/

/-- `std::sort` sorts by a strict weak order. -/
def Runtime.Sorts (rt : Runtime) : Prop :=
  ∀ less, IsStrictWeakOrder DirEntry (fun a b => less a b = true) →
    ∀ entries, (rt.sort less entries).Pairwise fun a b => less b a = false

/-- A comparator of keys that are in order. -/
theorem strictWeak_of_key {less : DirEntry → DirEntry → Bool} {β : Type} [LinearOrder β] (key : DirEntry → β)
    (h : ∀ a b, less a b = true ↔ key a < key b) :
    IsStrictWeakOrder DirEntry fun a b => less a b = true where
  irrefl a ha := lt_irrefl _ ((h a a).mp ha)
  trans a b c hab hbc := (h a c).mpr (lt_trans ((h a b).mp hab) ((h b c).mp hbc))
  incomp_trans a b c hab hbc := by
    simp only [h, not_lt] at hab hbc ⊢
    exact ⟨le_trans hbc.1 hab.1, le_trans hab.2 hbc.2⟩

theorem less_strictWeak (o : ListOptions) : IsStrictWeakOrder DirEntry fun a b => o.less a b = true := by
  unfold ListOptions.less
  split
  · split
    · exact strictWeak_of_key (fun de => OrderDual.toDual de.status.attr.size) fun a b => by
        simp [sizeGreater]
    · exact strictWeak_of_key (fun de => de.status.attr.size) fun a b => by simp [sizeLess]
  · split
    · split
      · exact strictWeak_of_key (fun de => OrderDual.toDual de.status.attr.modTime) fun a b => by
          simp [modTimeGreater]
      · exact strictWeak_of_key (fun de => de.status.attr.modTime) fun a b => by simp [modTimeLess]
    · split
      · exact strictWeak_of_key (fun de => OrderDual.toDual (toLowerCopy de.path)) fun a b => by
          simp [pathGreater, strcasecmpLess]
      · exact strictWeak_of_key (fun de => toLowerCopy de.path) fun a b => by simp [pathLess, strcasecmpLess]

/-! ## Reading a directory -/

variable {env : Env} {sys : Sys} {rt : Runtime} {t : Disk} {site : List Seg}

variable (env sys t site) in
/-- Every entry of the tree below `v` passes the check of `View`. -/
def Visible (v : List Seg) : Prop :=
  ∀ r status, t.status (text (site ++ (v ++ r))) = some status →
    passes env sys status.isDirectory (v ++ r) = true

theorem Visible.below {v : List Seg} (h : Visible env sys t site v) (s : Seg) :
    Visible env sys t site (v ++ [s]) := by
  intro r status hstatus
  rw [List.append_assoc] at hstatus ⊢
  exact h ([s] ++ r) status hstatus

section Read

variable (hsitepath : env.cfg.sitepath = text site) (hsite : site ≠ []) {w : List Seg}
  {n : Node Seg Attr Str} (hn : t.find (site ++ w) = some n) (hvisible : Visible env sys t site w)

include hsitepath hsite hn hvisible

theorem enumerate_visible (loadOwners : Bool) {s : Seg} (hs : s ∈ n.entries.map Prod.fst) (de : DirEnumerator) :
    ∃ total entry, enumerate env sys t loadOwners (text (site ++ w)) de s.val =
      .ok ⟨total, de.entries ++ [entry]⟩ ∧
        entry.path = s.val ∧ t.status (text (site ++ (w ++ [s]))) = some entry.status := by
  obtain ⟨m, hm, -⟩ := Node.child_of_mem hs
  have hfind : t.find (site ++ (w ++ [s])) = some m := by
    rw [← List.append_assoc, Tree.find_child hn, hm]
  have hstatus := status_text hfind
  have hpass := hvisible [s] _ hstatus
  rw [passes] at hpass
  simp only [enumerate, join_text, List.append_assoc, hstatus, hsitepath, makeVirtual_text hsite, hpass,
    Bool.not_true, Bool.false_eq_true, if_false]
  exact ⟨_, _, rfl, rfl, rfl⟩

theorem enumerate_all (loadOwners : Bool) {names : List Seg} (hnames : ∀ s ∈ names, s ∈ n.entries.map Prod.fst)
    (de : DirEnumerator) :
    ∃ total entries, (names.map Seg.val).foldlM (enumerate env sys t loadOwners (text (site ++ w))) de =
        .ok ⟨total, de.entries ++ entries⟩ ∧
      List.Forall₂ (fun s entry => entry.path = s.val ∧
        t.status (text (site ++ (w ++ [s]))) = some entry.status) names entries := by
  induction names generalizing de with
  | nil => exact ⟨de.totalBytes, [], by rw [List.append_nil]; rfl, .nil⟩
  | cons s names ih =>
    obtain ⟨total, entry, hone, hentry⟩ :=
      enumerate_visible hsitepath hsite hn hvisible loadOwners (hnames s List.mem_cons_self) de
    obtain ⟨total', entries, hrest, hentries⟩ :=
      ih (fun x hx => hnames x (List.mem_cons_of_mem s hx)) ⟨total, de.entries ++ [entry]⟩
    refine ⟨total', entry :: entries, ?_, .cons hentry hentries⟩
    rw [List.map_cons, List.foldlM_cons, hone]
    refine hrest.trans ?_
    simp

/-- A directory is read with all its entries. -/
theorem enumerateDir_visible (hdir : n.shape = .dir) (loadOwners : Bool) :
    ∃ total entries, enumerateDir env sys t loadOwners (text w) = .ok ⟨total, entries⟩ ∧
      List.Forall₂ (fun s entry => entry.path = s.val ∧
        t.status (text (site ++ (w ++ [s]))) = some entry.status) (n.entries.map Prod.fst) entries := by
  have hshape : t.IsDir (site ++ w) := by rw [Tree.IsDir, shapeAt_of_find hn, hdir]
  have hplace : t.place true (text (site ++ w)) = some (site ++ w) := place_text hshape fun _ => dir_ne_link
  have hpass : passes env sys true w = true := by
    have := hvisible [] _ (by rw [List.append_nil]; exact status_text hn)
    simpa [statusOf, hdir] using this
  have hallowed : (dirAllowed env sys .View (text w)).isOk = true := hpass
  have hopen : t.opendir (text (site ++ w)) = .ok ((n.entries.map Prod.fst).map Seg.val) := by
    rw [Disk.opendir, hplace, Option.bind_some, hn]
    cases n with
    | dir attr entries => simp [Node.entries, Function.comp_def]
    | leaf regular attr => cases hdir
    | link attr target => cases hdir
  obtain ⟨total, entries, hfold, hentries⟩ :=
    enumerate_all hsitepath hsite hn hvisible loadOwners (fun s hs => hs) {}
  refine ⟨total, entries, ?_, hentries⟩
  simp only [enumerateDir, hsitepath, makeReal_text hsite, makeVirtual_text hsite, hallowed, hopen,
    Bool.not_true, Bool.false_eq_true, if_false]
  exact hfold

/-- It comes in the order of the comparator. -/
theorem readdir_visible (hsorts : rt.Sorts) (hdir : n.shape = .dir) (o : ListOptions) :
    ∃ d names, readdir env sys rt t o (text w) = .ok d ∧ names.Perm (n.entries.map Prod.fst) ∧
      List.Forall₂ (fun s entry => entry.path = s.val ∧
        t.status (text (site ++ (w ++ [s]))) = some entry.status) names d.entries ∧
      d.entries.Pairwise fun a b => o.less b a = false := by
  obtain ⟨total, entries, hread, hentries⟩ :=
    enumerateDir_visible hsitepath hsite hn hvisible hdir (!o.noOwners && !o.sizeName)
  obtain ⟨names, hnames, hperm⟩ := List.perm_comp_forall₂ (rt.sort_perm o.less entries) hentries.flip
  refine ⟨_, names, by rw [readdir, hread], hperm, hnames.flip, hsorts _ (less_strictWeak o) entries⟩

end Read

/-! ## The walk -/

variable (t site) in
/-- The directory `r` below `v` is to be listed, in a listing that begins with `depth`. -/
structure ToList (letters : Str) (maxRecursion : Int) (v : List Seg) (depth : Nat) (r : List Seg) : Prop where
  dir : t.IsDir (site ++ (v ++ r))
  shown : ∀ s ∈ r, NameShown letters s.val
  recursive : r ≠ [] → 'R' ∈ letters
  depth : maxRecursion ≠ 0 → ((depth + r.length : Nat) : Int) ≤ maxRecursion

variable (env sys rt t) in
/-- What was read of the directory `w`. -/
def contents (o : ListOptions) (w : List Seg) : DirEnumerator :=
  match readdir env sys rt t o (text w) with
  | .ok d => d
  | .error _ => {}

variable (env sys rt t site) in
/-- A listing is of the directories `dirs` below `v`, each once, under its own path and after its parent. -/
structure Walked (o : ListOptions) (letters : Str) (maxRecursion : Int) (v : List Seg) (depth : Nat)
    (dirs : List (List Seg)) (l : Listing) : Prop where
  ending : l.ending = .done
  messages : l.messages = dirs.map fun r =>
    message env rt t o (text (v ++ r)) [] (depth + r.length) (contents env sys rt t o (v ++ r))
  once : dirs.Nodup
  parents : dirs.Pairwise fun a b => ¬ b <+: a
  mem : ∀ r, r ∈ dirs ↔ ToList t site letters maxRecursion v depth r

section Walk

variable {letters : Str} {o : ListOptions} {maxRecursion : Int} {v : List Seg} {depth : Nat}

/-- The names of the entries that `p` picks out. -/
theorem filter_paths {names : List Seg} {entries : List DirEntry}
    (h : List.Forall₂ (fun s entry => entry.path = s.val ∧
      t.status (text (site ++ (v ++ [s]))) = some entry.status) names entries)
    {p : DirEntry → Bool} {q : Seg → Prop} [DecidablePred q]
    (hp : ∀ s entry, s ∈ names → entry.path = s.val →
      t.status (text (site ++ (v ++ [s]))) = some entry.status → (p entry = true ↔ q s)) :
    (entries.filter p).map DirEntry.path = (names.filter fun s => decide (q s)).map Seg.val := by
  induction h with
  | nil => rfl
  | @cons s entry names entries hentry _ ih =>
    have hrest := ih fun x e hx => hp x e (List.mem_cons_of_mem s hx)
    have hone : p entry = decide (q s) := by
      rw [Bool.eq_iff_iff, decide_eq_true_eq]
      exact hp s entry List.mem_cons_self hentry.1 hentry.2
    rw [List.filter_cons, List.filter_cons, hone]
    split
    · rw [List.map_cons, List.map_cons, hentry.1, hrest]
    · exact hrest

/-- The directories among the entries. -/
theorem subdirectories_paths (hparsed : Parsed letters o) {names : List Seg} {d : DirEnumerator}
    (h : List.Forall₂ (fun s entry => entry.path = s.val ∧
      t.status (text (site ++ (v ++ [s]))) = some entry.status) names d.entries)
    (hnames : ∀ s ∈ names, (t.find (site ++ (v ++ [s]))).isSome) :
    (subdirectories env o [] d).map DirEntry.path =
      (names.filter fun s => decide (t.IsDir (site ++ (v ++ [s])) ∧ NameShown letters s.val)).map Seg.val := by
  refine filter_paths h fun s entry hs hpath hstatus => ?_
  obtain ⟨m, hm⟩ := Option.isSome_iff_exists.mp (hnames s hs)
  rw [status_text hm] at hstatus
  rw [Bool.and_eq_true, Bool.and_eq_true, Bool.not_eq_true', isShown_iff hparsed, hpath,
    ← Option.some.inj hstatus, isDir_status_iff, Tree.IsDir, shapeAt_of_find hm, Option.some.injEq]

/-- What is to be listed below a directory: itself, and what is to be listed below those in it. -/
theorem toList_cons {s : Seg} {r : List Seg} :
    ToList t site letters maxRecursion v depth (s :: r) ↔
      'R' ∈ letters ∧ (t.IsDir (site ++ (v ++ [s])) ∧ NameShown letters s.val) ∧
        ToList t site letters maxRecursion (v ++ [s]) (depth + 1) r := by
  have hpath : site ++ (v ++ s :: r) = site ++ (v ++ [s]) ++ r := by simp
  have hdepth : depth + (s :: r).length = depth + 1 + r.length := by
    rw [List.length_cons]
    omega
  constructor
  · intro h
    have hdir := h.dir
    rw [hpath] at hdir
    refine ⟨h.recursive (by simp), ⟨?_, h.shown s List.mem_cons_self⟩, ?_, ?_, fun _ => h.recursive (by simp), ?_⟩
    · by_cases hr : r = []
      · rwa [hr, List.append_nil] at hdir
      · exact Tree.isDir_of_below hr (Tree.isSome_of_shapeAt hdir)
    · rwa [← List.append_assoc]
    · exact fun x hx => h.shown x (List.mem_cons_of_mem s hx)
    · exact hdepth ▸ h.depth
  · rintro ⟨hrec, ⟨-, hshown⟩, h⟩
    refine ⟨?_, List.forall_mem_cons.mpr ⟨hshown, h.shown⟩, fun _ => hrec, hdepth ▸ h.depth⟩
    rw [hpath, List.append_assoc]
    exact h.dir

theorem toList_nil (hdir : t.IsDir (site ++ v)) :
    ToList t site letters maxRecursion v depth [] ↔ ¬ (maxRecursion ≠ 0 ∧ (depth : Int) > maxRecursion) := by
  constructor
  · rintro h ⟨hne, hgt⟩
    have := h.depth hne
    simp only [List.length_nil, Nat.add_zero] at this
    omega
  · intro h
    refine ⟨by rwa [List.append_nil], List.forall_mem_nil _, fun hne => absurd rfl hne, fun hne => ?_⟩
    simp only [List.length_nil, Nat.add_zero]
    exact not_lt.mp fun hgt => h ⟨hne, hgt⟩

end Walk

variable (env sys rt t site) in
/-- What a directory shows: every entry that is not hidden, as it is on the disk. -/
structure Reads (o : ListOptions) (letters : Str) (w : List Seg) : Prop where
  ok : readdir env sys rt t o (text w) = .ok (contents env sys rt t o w)
  entries : ∃ names : List Seg, (∀ n, t.find (site ++ w) = some n → names.Perm (n.entries.map Prod.fst)) ∧
    List.Forall₂ (fun s entry => entry.path = s.val ∧
      t.status (text (site ++ (w ++ [s]))) = some entry.status) names (contents env sys rt t o w).entries
  sorted : (contents env sys rt t o w).entries.Pairwise fun a b => o.less b a = false

section Walk

variable {letters : Str} {o : ListOptions} (hparsed : Parsed letters o) {maxRecursion : Int}

include hparsed

/-- The directories that are gone into, in the order of the listing. -/
theorem Reads.subdirectories (hdistinct : t.Distinct) {w : List Seg} (hdir : t.IsDir (site ++ w))
    (h : Reads env sys rt t site o letters w) :
    ∃ subs : List Seg, (DirectoryList.subdirectories env o [] (contents env sys rt t o w)).map DirEntry.path =
        subs.map Seg.val ∧
      (∀ s, s ∈ subs ↔ t.IsDir (site ++ (w ++ [s])) ∧ NameShown letters s.val) ∧ subs.Nodup := by
  obtain ⟨n, hn, -⟩ := find_of_shapeAt hdir
  obtain ⟨names, hperm, hentries⟩ := h.entries
  have hperm := hperm n hn
  have hfound : ∀ s, t.find (site ++ (w ++ [s])) = n.child s := fun s => by
    rw [← List.append_assoc, Tree.find_child hn]
  have hpaths := @subdirectories_paths env t site letters o w hparsed _ _ hentries fun s hs => by
    obtain ⟨m, hm, -⟩ := Node.child_of_mem (hperm.mem_iff.mp hs)
    rw [hfound, hm]
    rfl
  refine ⟨_, hpaths, fun s => ?_, (hperm.nodup_iff.mpr (hdistinct _ n hn)).filter _⟩
  rw [List.mem_filter, decide_eq_true_eq, and_iff_right_iff_imp]
  intro hs
  obtain ⟨m, hm, -⟩ := find_of_shapeAt hs.1
  rw [hfound] at hm
  exact hperm.mem_iff.mpr (Node.mem_of_child hm)

/-- A directory and, after it, what is listed below each directory in it. -/
theorem walked_cons {v subs : List Seg} {depth : Nat} {ls : Seg → Listing} {dirsOf : Seg → List (List Seg)}
    (hdir : t.IsDir (site ++ v)) (hmax : ¬ (maxRecursion ≠ 0 ∧ (depth : Int) > maxRecursion))
    (hrec : o.recursive = true)
    (hsubs : ∀ s, s ∈ subs ↔ t.IsDir (site ++ (v ++ [s])) ∧ NameShown letters s.val) (hnodup : subs.Nodup)
    (h : ∀ s ∈ subs,
      Walked env sys rt t site o letters maxRecursion (v ++ [s]) (depth + 1) (dirsOf s) (ls s)) :
    Walked env sys rt t site o letters maxRecursion v depth
      ([] :: subs.flatMap fun s => (dirsOf s).map (s :: ·))
      (.sequence (⟨[message env rt t o (text v) [] depth (contents env sys rt t o v)], .done⟩ ::
        subs.map ls)) := by
  have hends : ∀ l ∈ (⟨[message env rt t o (text v) [] depth (contents env sys rt t o v)], .done⟩ : Listing) ::
      subs.map ls, l.ending = .done := by
    rw [List.forall_mem_cons, List.forall_mem_map]
    exact ⟨rfl, fun s hs => (h s hs).ending⟩
  have hparents : ([] :: subs.flatMap fun s => (dirsOf s).map (s :: ·)).Pairwise fun a b => ¬ b <+: a := by
    rw [List.pairwise_cons, List.pairwise_flatMap]
    refine ⟨fun b hb hpre => ?_, fun s hs => ?_, hnodup.imp fun hne a ha b hb hpre => ?_⟩
    · obtain ⟨s, -, hb⟩ := List.mem_flatMap.mp hb
      obtain ⟨r, -, rfl⟩ := List.mem_map.mp hb
      cases List.prefix_nil.mp hpre
    · rw [List.pairwise_map]
      exact (h s hs).parents.imp fun hno hpre => hno (List.cons_prefix_cons.mp hpre).2
    · obtain ⟨x, -, rfl⟩ := List.mem_map.mp ha
      obtain ⟨y, -, rfl⟩ := List.mem_map.mp hb
      exact hne (List.cons_prefix_cons.mp hpre).1.symm
  have honce : ([] :: subs.flatMap fun s => (dirsOf s).map (s :: ·)).Nodup := by
    refine List.nodup_iff_pairwise_ne.mpr (hparents.imp ?_)
    rintro a _ hno rfl
    exact hno List.prefix_rfl
  refine ⟨sequence_done hends, ?_, honce, hparents, fun r => ?_⟩
  · rw [sequence_messages hends, List.flatMap_cons, List.flatMap_map, List.map_cons, List.map_flatMap,
      List.singleton_append]
    refine congrArg₂ List.cons (by rw [List.append_nil]; rfl) (List.flatMap_congr fun s hs => ?_)
    rw [(h s hs).messages, List.map_map]
    refine List.map_congr_left fun r _ => ?_
    rw [Function.comp_apply, List.append_assoc, List.singleton_append, List.length_cons]
    congr 1
    omega
  · cases r with
    | nil => simp [toList_nil hdir, hmax]
    | cons s r =>
      rw [toList_cons, List.mem_cons, or_iff_right (by simp), List.mem_flatMap]
      constructor
      · rintro ⟨s', hs', hr⟩
        obtain ⟨r', hr', heq⟩ := List.mem_map.mp hr
        cases heq
        exact ⟨hparsed.recursive.mp hrec, (hsubs s).mp hs', ((h s hs').mem r).mp hr'⟩
      · rintro ⟨-, hs, hr⟩
        have hs := (hsubs s).mpr hs
        exact ⟨s, hs, List.mem_map_of_mem (((h s hs).mem r).mpr hr)⟩

variable (hsitepath : env.cfg.sitepath = text site) (hsite : site ≠ []) (hsorts : rt.Sorts)
  (hdistinct : t.Distinct)

omit hparsed in
include hsitepath hsite hsorts in
theorem reads_of_visible {w : List Seg} (hdir : t.IsDir (site ++ w)) (hvisible : Visible env sys t site w) :
    Reads env sys rt t site o letters w := by
  obtain ⟨n, hn, hshape⟩ := find_of_shapeAt hdir
  obtain ⟨d, names, hread, hperm, hentries, hsorted⟩ :=
    readdir_visible hsitepath hsite hn hvisible hsorts hshape o
  have hcontents : contents env sys rt t o w = d := by rw [contents, hread]
  refine ⟨by rw [hcontents, hread], ⟨names, fun m hm => ?_, hcontents ▸ hentries⟩, hcontents ▸ hsorted⟩
  rw [hn] at hm
  cases hm
  exact hperm

include hsitepath hsite hsorts hdistinct

/-- The height of the directory that a listing starts from is enough for it to list everything. -/
theorem listPath_walked (fuel : Nat) : ∀ (v : List Seg) (depth : Nat), t.IsDir (site ++ v) →
    Visible env sys t site v → (∀ n, t.find (site ++ v) = some n → n.height < fuel) →
      ∃ dirs, Walked env sys rt t site o letters maxRecursion v depth dirs
        (listPath env sys rt t o maxRecursion fuel (text v) [] depth) := by
  induction fuel with
  | zero =>
    intro v depth hdir _ hheight
    obtain ⟨n, hn, -⟩ := find_of_shapeAt hdir
    exact absurd (hheight n hn) (Nat.not_lt_zero _)
  | succ fuel ih =>
    intro v depth hdir hvisible hheight
    rw [listPath]
    by_cases hmax : maxRecursion ≠ 0 ∧ (depth : Int) > maxRecursion
    · rw [if_pos hmax]
      refine ⟨[], rfl, rfl, List.nodup_nil, .nil, fun r => ⟨fun h => ?_, fun h => ?_⟩⟩
      · cases h
      · have := h.depth hmax.1
        omega
    rw [if_neg hmax]
    have hreads : Reads env sys rt t site o letters v := reads_of_visible hsitepath hsite hsorts hdir hvisible
    rw [hreads.ok]
    simp only [List.head?_nil, Option.getD_none, List.isEmpty_nil, Bool.not_true, Bool.or_false, List.tail_nil]
    by_cases hrec : o.recursive = true
    · obtain ⟨subs, hpaths, hsubs, hnodup⟩ := hreads.subdirectories hparsed hdistinct hdir
      have hbelow : ∀ s ∈ subs, ∃ dirs, Walked env sys rt t site o letters maxRecursion (v ++ [s]) (depth + 1)
          dirs (listPath env sys rt t o maxRecursion fuel (text (v ++ [s])) [] (depth + 1)) := by
        intro s hs
        refine ih (v ++ [s]) (depth + 1) ((hsubs s).mp hs).1 (hvisible.below s) fun m hm => ?_
        obtain ⟨n, hn, -⟩ := find_of_shapeAt hdir
        rw [← List.append_assoc, Tree.find_child hn] at hm
        exact Nat.lt_of_lt_of_le (Node.height_child hm) (Nat.le_of_lt_succ (hheight n hn))
      choose! dirsOf hdirs using hbelow
      have hlists : (DirectoryList.subdirectories env o [] (contents env sys rt t o v)).map (fun de =>
          listPath env sys rt t o maxRecursion fuel (join (text v) de.path) [] (depth + 1)) =
            subs.map fun s => listPath env sys rt t o maxRecursion fuel (text (v ++ [s])) [] (depth + 1) := by
        have := congrArg (List.map fun path =>
          listPath env sys rt t o maxRecursion fuel (join (text v) path) [] (depth + 1)) hpaths
        simpa only [List.map_map, Function.comp_def, join_text] using this
      rw [if_pos hrec, hlists]
      exact ⟨_, walked_cons hparsed hdir hmax hrec hsubs hnodup hdirs⟩
    · rw [if_neg hrec]
      refine ⟨[[]], rfl, by simp, List.nodup_singleton _, List.pairwise_singleton _ _, fun r => ?_⟩
      rw [List.mem_singleton]
      constructor
      · rintro rfl
        exact (toList_nil hdir).mpr hmax
      · intro h
        by_contra hne
        exact hrec (hparsed.recursive.mpr (h.recursive hne))

end Walk

/-! ## The order -/

/-- The entries that the message about a directory shows. -/
def shownEntries (env : Env) (o : ListOptions) (d : DirEnumerator) : List DirEntry :=
  d.entries.filter fun de => isShown env o [] de.path

variable (env sys rt t site) in
/-- The message about the directory `w` shows every entry that is not hidden once, as it is on the disk, and
in the order that the letters ask for. -/
structure Shows (o : ListOptions) (letters : Str) (w : List Seg) : Prop where
  ok : readdir env sys rt t o (text w) = .ok (contents env sys rt t o w)
  lines : ∀ depth, (message env rt t o (text w) [] depth (contents env sys rt t o w)).lines =
    (shownEntries env o (contents env sys rt t o w)).flatMap (line env rt t o (text w))
  names : ∀ n, t.find (site ++ w) = some n → ((shownEntries env o (contents env sys rt t o w)).map DirEntry.path).Perm
    (((n.entries.map Prod.fst).filter fun s => decide (NameShown letters s.val)).map Seg.val)
  onDisk : ∀ de ∈ shownEntries env o (contents env sys rt t o w),
    ∃ s : Seg, de.path = s.val ∧ t.status (text (site ++ (w ++ [s]))) = some de.status
  ordered : (shownEntries env o (contents env sys rt t o w)).Pairwise (Requested letters)

variable (env sys rt t site) in
/-- A listing is complete and in the order asked for. -/
def Complete (userDefined forced : Str) (maxRecursion : Int) (v : List Seg) (fuel : Nat) : Prop :=
  let o := ListOptions.ofStrings userDefined forced
  let letters := forced ++ userDefined
  ∃ dirs, Walked env sys rt t site o letters maxRecursion v 1 dirs
      (listPath env sys rt t o maxRecursion fuel (text v) [] 1) ∧
    ∀ r ∈ dirs, Shows env sys rt t site o letters (v ++ r) ∧
      (r ≠ [] → (message env rt t o (text (v ++ r)) [] (1 + r.length) (contents env sys rt t o (v ++ r))).head =
        "\r\n".toList ++ (text (v ++ r) ++ ":\r\n".toList))

variable (t site) in
/-- No two entries that are shown side by side differ in what they are ordered by, size or time. -/
def AllTied (letters : Str) (maxRecursion : Int) (v : List Seg) : Prop :=
  ∀ r, ToList t site letters maxRecursion v 1 r → ∀ n, t.find (site ++ (v ++ r)) = some n →
    ∀ e₁ ∈ n.entries, ∀ e₂ ∈ n.entries, NameShown letters e₁.1.val → NameShown letters e₂.1.val →
      (Order.of letters).Tied e₁.2.attr e₂.2.attr

theorem requested_refl (letters : Str) (a : DirEntry) : Requested letters a a := by
  have hrefl : (Order.of letters).before a a := by
    cases Order.of letters with
    | name => exact le_refl (toLowerCopy a.path)
    | size => exact Nat.le_refl _
    | modTime => exact Int.le_refl _
  rw [Requested, ite_self]
  exact hrefl

theorem requested_both {letters : Str} {a b : DirEntry} (hname : Order.of letters ≠ .name) :
    Requested letters a b ∧ Requested letters b a ↔ (Order.of letters).Tied a.status.attr b.status.attr := by
  have hboth : (Order.of letters).before a b ∧ (Order.of letters).before b a ↔
      (Order.of letters).Tied a.status.attr b.status.attr := by
    cases horder : Order.of letters with
    | name => exact absurd horder hname
    | size => exact ⟨fun h => Nat.le_antisymm h.2 h.1, fun h => ⟨Nat.le_of_eq h.symm, Nat.le_of_eq h⟩⟩
    | modTime => exact ⟨fun h => Int.le_antisymm h.2 h.1, fun h => ⟨Int.le_of_eq h.symm, Int.le_of_eq h⟩⟩
  rw [← hboth, Requested, Requested]
  split
  · exact and_comm
  · exact Iff.rfl

/-- Entries in the order of the comparator are in the order asked for, where all are tied. -/
theorem ordered_iff {letters : Str} {o : ListOptions} (hparsed : Parsed letters o) {entries : List DirEntry}
    (h : entries.Pairwise fun a b => o.less b a = false) :
    entries.Pairwise (Requested letters) ↔
      ∀ a ∈ entries, ∀ b ∈ entries, (Order.of letters).Tied a.status.attr b.status.attr := by
  simp only [less_eq_false hparsed] at h
  by_cases hname : Order.of letters = .name
  · simp only [if_pos hname] at h
    refine iff_of_true h fun a _ b _ => ?_
    rw [hname]
    exact trivial
  · simp only [if_neg hname] at h
    constructor
    · intro hordered a ha b hb
      have hall : ∀ x ∈ entries, ∀ y ∈ entries, Requested letters x y := fun x hx y hy =>
        hordered.forall_of_forall_of_flip (fun z _ => requested_refl letters z) h hx hy
      exact (requested_both hname).mp ⟨hall a ha b hb, hall b hb a ha⟩
    · intro htied
      exact List.pairwise_of_forall_mem_list fun a ha b hb => ((requested_both hname).mpr (htied a ha b hb)).1

theorem exists_of_forall₂ {α β : Type} {R : α → β → Prop} {as : List α} {bs : List β}
    (h : List.Forall₂ R as bs) {b : β} (hb : b ∈ bs) : ∃ a ∈ as, R a b := by
  induction h with
  | nil => cases hb
  | @cons a b' as bs hab _ ih =>
    rcases List.mem_cons.mp hb with rfl | hb
    · exact ⟨a, List.mem_cons_self, hab⟩
    · obtain ⟨x, hx, hxb⟩ := ih hb
      exact ⟨x, List.mem_cons_of_mem a hx, hxb⟩

section Shows

variable {letters : Str} {o : ListOptions} (hparsed : Parsed letters o) {w : List Seg}

include hparsed

theorem Reads.shown (h : Reads env sys rt t site o letters w) {n : Node Seg Attr Str}
    (hn : t.find (site ++ w) = some n) :
    ((shownEntries env o (contents env sys rt t o w)).map DirEntry.path).Perm
      (((n.entries.map Prod.fst).filter fun s => decide (NameShown letters s.val)).map Seg.val) := by
  obtain ⟨names, hperm, hentries⟩ := h.entries
  have hpaths := filter_paths (q := fun s => NameShown letters s.val) hentries
    (p := fun de => isShown env o [] de.path) fun s entry _ hpath _ => by rw [isShown_iff hparsed, hpath]
  rw [shownEntries, hpaths]
  exact ((hperm n hn).filter _).map _

omit hparsed in
theorem Reads.onDisk (hdir : t.IsDir (site ++ w)) (h : Reads env sys rt t site o letters w) :
    ∀ de ∈ (contents env sys rt t o w).entries, ∃ n s m, t.find (site ++ w) = some n ∧ n.child s = some m ∧
      de.path = s.val ∧ t.status (text (site ++ (w ++ [s]))) = some de.status ∧ de.status.attr = m.attr := by
  intro de hde
  obtain ⟨n, hn, -⟩ := find_of_shapeAt hdir
  obtain ⟨names, hperm, hentries⟩ := h.entries
  obtain ⟨s, hs, hpath, hstatus⟩ := exists_of_forall₂ hentries hde
  obtain ⟨m, hm, -⟩ := Node.child_of_mem ((hperm n hn).mem_iff.mp hs)
  have hfind : t.find (site ++ (w ++ [s])) = some m := by rw [← List.append_assoc, Tree.find_child hn, hm]
  refine ⟨n, s, m, hn, hm, hpath, hstatus, ?_⟩
  rw [status_text hfind] at hstatus
  rw [← Option.some.inj hstatus, statusOf_attr]

/-- A directory that is read shows what it should, where its order is the one asked for. -/
theorem Reads.shows_iff (hdistinct : t.Distinct) (hdir : t.IsDir (site ++ w))
    (h : Reads env sys rt t site o letters w) :
    Shows env sys rt t site o letters w ↔ ∀ n, t.find (site ++ w) = some n →
      ∀ e₁ ∈ n.entries, ∀ e₂ ∈ n.entries, NameShown letters e₁.1.val → NameShown letters e₂.1.val →
        (Order.of letters).Tied e₁.2.attr e₂.2.attr := by
  have hsorted : (shownEntries env o (contents env sys rt t o w)).Pairwise fun a b => o.less b a = false :=
    h.sorted.sublist List.filter_sublist
  have hmem : ∀ de, de ∈ shownEntries env o (contents env sys rt t o w) ↔
      de ∈ (contents env sys rt t o w).entries ∧ NameShown letters de.path := fun de => by
    rw [shownEntries, List.mem_filter, isShown_iff hparsed]
  constructor
  · intro hshows n hn e₁ he₁ e₂ he₂ hshown₁ hshown₂
    have htied := (ordered_iff hparsed hsorted).mp hshows.ordered
    have hentry : ∀ e ∈ n.entries, NameShown letters e.1.val →
        ∃ de ∈ shownEntries env o (contents env sys rt t o w), de.status.attr = e.2.attr := by
      intro e he hshown
      have hname : e.1.val ∈ (shownEntries env o (contents env sys rt t o w)).map DirEntry.path := by
        refine (hshows.names n hn).mem_iff.mpr (List.mem_map_of_mem (List.mem_filter.mpr ⟨?_, ?_⟩))
        · exact List.mem_map_of_mem he
        · rwa [decide_eq_true_eq]
      obtain ⟨de, hde, hpath⟩ := List.mem_map.mp hname
      obtain ⟨n', s, m, hn', hm, hpath', -, hattr⟩ := h.onDisk hdir de ((hmem de).mp hde).1
      obtain rfl := Option.some.inj (hn.symm.trans hn')
      obtain rfl : e.1 = s := Seg.ext (hpath.symm.trans hpath')
      rw [Node.child_of_entry (hdistinct _ n hn) he] at hm
      exact ⟨de, hde, hattr.trans (congrArg Node.attr (Option.some.inj hm)).symm⟩
    obtain ⟨de₁, hde₁, hattr₁⟩ := hentry e₁ he₁ hshown₁
    obtain ⟨de₂, hde₂, hattr₂⟩ := hentry e₂ he₂ hshown₂
    rw [← hattr₁, ← hattr₂]
    exact htied de₁ hde₁ de₂ hde₂
  · intro htied
    refine ⟨h.ok, fun depth => rfl, fun n hn => h.shown hparsed hn, fun de hde => ?_,
      (ordered_iff hparsed hsorted).mpr fun a ha b hb => ?_⟩
    · obtain ⟨n, s, m, -, -, hpath, hstatus, -⟩ := h.onDisk hdir de ((hmem de).mp hde).1
      exact ⟨s, hpath, hstatus⟩
    · have hentry : ∀ de ∈ shownEntries env o (contents env sys rt t o w), ∃ n, t.find (site ++ w) = some n ∧
          ∃ e ∈ n.entries, NameShown letters e.1.val ∧ de.status.attr = e.2.attr := by
        intro de hde
        obtain ⟨n, s, m, hn, hm, hpath, -, hattr⟩ := h.onDisk hdir de ((hmem de).mp hde).1
        obtain ⟨m', hm', hentry⟩ := Node.child_of_mem (Node.mem_of_child hm)
        obtain rfl := Option.some.inj (hm.symm.trans hm')
        exact ⟨n, hn, (s, m), hentry, hpath ▸ ((hmem de).mp hde).2, hattr⟩
      obtain ⟨n, hn, e₁, he₁, hshown₁, hattr₁⟩ := hentry a ha
      obtain ⟨n', hn', e₂, he₂, hshown₂, hattr₂⟩ := hentry b hb
      obtain rfl := Option.some.inj (hn.symm.trans hn')
      rw [hattr₁, hattr₂]
      exact htied n hn e₁ he₁ e₂ he₂ hshown₁ hshown₂

end Shows

/-- The message about a directory below the first has its path above it. -/
theorem message_head {o : ListOptions} {v r : List Seg} {d : DirEnumerator} (hr : r ≠ [])
    (hrec : o.recursive = true) : (message env rt t o (text (v ++ r)) [] (1 + r.length) d).head =
      "\r\n".toList ++ (text (v ++ r) ++ ":\r\n".toList) := by
  have hdepth : 1 + r.length > 1 := by
    have := List.length_pos_of_ne_nil hr
    omega
  have hpath : (text (v ++ r)).isEmpty = false := by
    rw [text_of_ne_nil (by simp [hr])]
    obtain ⟨s, q, hq⟩ := List.exists_cons_of_ne_nil (show v ++ r ≠ [] by simp [hr])
    rw [hq]
    rfl
  simp [message, hdepth, hpath, hrec]

section Complete

variable (hsitepath : env.cfg.sitepath = text site) (hsite : site ≠ []) (hsorts : rt.Sorts)
  (hdistinct : t.Distinct) (userDefined forced : Str) (maxRecursion : Int) {v : List Seg} {fuel : Nat}

include hsitepath hsite hsorts hdistinct

theorem complete_iff (hdir : t.IsDir (site ++ v)) (hvisible : Visible env sys t site v)
    (hfuel : t.root.height < fuel) :
    Complete env sys rt t site userDefined forced maxRecursion v fuel ↔
      AllTied t site (forced ++ userDefined) maxRecursion v := by
  have hparsed := parsed_ofStrings userDefined forced
  have hreads : ∀ r, t.IsDir (site ++ (v ++ r)) → Reads env sys rt t site (.ofStrings userDefined forced)
      (forced ++ userDefined) (v ++ r) := by
    intro r hr
    refine reads_of_visible hsitepath hsite hsorts hr fun q status hstatus => ?_
    rw [List.append_assoc] at hstatus ⊢
    exact hvisible (r ++ q) status hstatus
  constructor
  · rintro ⟨dirs, hwalked, hshows⟩ r hr
    have hmem := (hwalked.mem r).mpr hr
    exact ((hreads r hr.dir).shows_iff hparsed hdistinct hr.dir).mp (hshows r hmem).1
  · intro htied
    obtain ⟨dirs, hwalked⟩ : ∃ dirs, Walked env sys rt t site (.ofStrings userDefined forced)
        (forced ++ userDefined) maxRecursion v 1 dirs
        (listPath env sys rt t (.ofStrings userDefined forced) maxRecursion fuel (text v) [] 1) :=
      listPath_walked hparsed hsitepath hsite hsorts hdistinct fuel v 1 hdir hvisible fun n hn =>
        Nat.lt_of_le_of_lt (Node.height_find hn) hfuel
    refine ⟨dirs, hwalked, fun r hr => ?_⟩
    have hlist := (hwalked.mem r).mp hr
    refine ⟨((hreads r hlist.dir).shows_iff hparsed hdistinct hlist.dir).mpr (htied r hlist), fun hne => ?_⟩
    exact message_head hne (hparsed.recursive.mpr (hlist.recursive hne))

end Complete

/-- A listing of a directory whose tree the user may view is complete; its order is the one that the letters
ask for exactly where no size or time is to be ordered by: the largest and the newest entries come last, and
first with `r`. -/
theorem listing_complete_iff (env : Env) (sys : Sys) (rt : Runtime) (hsorts : rt.Sorts) (t : Disk)
    (hdistinct : t.Distinct) (site : List Seg) (hsitepath : env.cfg.sitepath = text site) (hsite : site ≠ [])
    (userDefined forced : Str) (maxRecursion : Int) (v : List Seg) (hdir : t.IsDir (site ++ v))
    (hvisible : Visible env sys t site v) (fuel : Nat) (hfuel : t.root.height < fuel) :
    Complete env sys rt t site userDefined forced maxRecursion v fuel ↔
      AllTied t site (forced ++ userDefined) maxRecursion v :=
  complete_iff hsitepath hsite hsorts hdistinct userDefined forced maxRecursion hdir hvisible hfuel

theorem allTied_of_name {letters : Str} (h : Order.of letters = .name) (maxRecursion : Int) (v : List Seg) :
    AllTied t site letters maxRecursion v := by
  intro r _ n _ e₁ _ e₂ _ _ _
  rw [h]
  exact trivial

/-! ## Two files -/

/-- A site where nothing is hidden. -/
def exampleOpen : Env where
  cfg :=
    { sitepath := "/site".toList
      tlsControl := ACL.fromString "!*".toList
      maxOnline := ⟨10, 0⟩
      wildcardMatch := fun mask text => decide (mask = text) }
  user := { id := 1, name := "alice".toList }
  gidToName := fun _ => "site".toList

def segB : Seg := ⟨"b".toList, by decide⟩

/-- The file `b` is larger than `a`, and newer. -/
def exampleFiles : Disk :=
  ⟨⟨493, 3, 4096, 0, 0, 0⟩,
    [(segSite, .dir ⟨493, 2, 4096, 0, 0, 0⟩
      [(segA, .leaf true ⟨420, 1, 1, 10, 0, 0⟩), (segB, .leaf true ⟨420, 1, 2, 20, 0, 0⟩)])]⟩

theorem exampleRuntime_sorts : exampleRuntime.Sorts := by
  intro less hless entries
  have htotal : Std.Total fun a b : DirEntry => less b a = false := by
    refine ⟨fun a b => ?_⟩
    by_contra hno
    simp only [not_or, Bool.not_eq_false] at hno
    exact hless.irrefl a (hless.trans a b a hno.2 hno.1)
  have htrans : IsTrans DirEntry fun a b : DirEntry => less b a = false := by
    refine ⟨fun a b c hab hbc => ?_⟩
    by_contra hca
    rw [Bool.not_eq_false] at hca
    rw [← Bool.not_eq_true] at hab hbc
    -- neither side of `b` can be told from it, so they cannot be told apart
    have hba : ¬ less a b = true := fun h => hbc (hless.trans c a b hca h)
    have hcb : ¬ less b c = true := fun h => hab (hless.trans b c a h hca)
    exact (hless.incomp_trans a b c ⟨hba, hab⟩ ⟨hcb, hbc⟩).2 hca
  exact List.pairwise_insertionSort _ entries

theorem exampleOpen_passes (isDirectory : Bool) (v : List Seg) :
    passes exampleOpen exampleSystem isDirectory v = true := by
  have hhead : ∃ rest, text v = '/' :: rest := by
    cases v with
    | nil => exact ⟨[], rfl⟩
    | cons s v => exact ⟨_, rfl⟩
  obtain ⟨rest, hrest⟩ := hhead
  have hinner : ∀ path : Str, innerAllowed exampleOpen exampleSystem .View ('/' :: path) = .ok () := fun path => by
    simp [innerAllowed, insideHomeDir, exampleOpen, privatePath, allowedTraits, hiddenFile, startsWith]
  rw [passes, hrest, entryAllowed]
  cases isDirectory with
  | false =>
    rw [if_neg (by decide), fileAllowed, hinner]
    rfl
  | true =>
    rw [if_pos rfl, dirAllowed, if_neg (by simp)]
    split
    · rw [List.cons_append, hinner]
      rfl
    · rw [hinner]
      rfl

theorem exampleFiles_dir : exampleFiles.IsDir ([segSite] ++ []) := rfl

theorem exampleFiles_visible : Visible exampleOpen exampleSystem exampleFiles [segSite] [] :=
  fun _ _ _ => exampleOpen_passes _ _

theorem exampleFiles_tied {letters : Str} (hshown : ∀ name ∈ ["a".toList, "b".toList], NameShown letters name)
    (h : Complete exampleOpen exampleSystem exampleRuntime exampleFiles [segSite] letters [] 0 [] 5) :
    (Order.of letters).Tied ⟨420, 1, 1, 10, 0, 0⟩ ⟨420, 1, 2, 20, 0, 0⟩ := by
  have htied := (complete_iff rfl (by decide) exampleRuntime_sorts (Tree.distinct_of_root _ (by decide)) letters
    [] 0 exampleFiles_dir exampleFiles_visible (by decide)).mp h
  exact htied [] ((toList_nil exampleFiles_dir).mpr (by simp)) _ rfl _ List.mem_cons_self _
    (List.mem_cons_of_mem _ List.mem_cons_self) (hshown _ (by simp [segA])) (hshown _ (by simp [segB]))

/-- The smaller file and the older one come first. -/
theorem listing_smallest_first :
    ¬ Complete exampleOpen exampleSystem exampleRuntime exampleFiles [segSite] "S".toList [] 0 [] 5 ∧
      ¬ Complete exampleOpen exampleSystem exampleRuntime exampleFiles [segSite] "t".toList [] 0 [] 5 ∧
      ¬ Complete exampleOpen exampleSystem exampleRuntime exampleFiles [segSite] "tr".toList [] 0 [] 5 :=
  ⟨fun h => absurd (exampleFiles_tied (by decide) h) (by decide),
    fun h => absurd (exampleFiles_tied (by decide) h) (by decide),
    fun h => absurd (exampleFiles_tied (by decide) h) (by decide)⟩

theorem listing_complete_names :
    Complete exampleOpen exampleSystem exampleRuntime exampleFiles [segSite] "R".toList "l".toList 0 [] 5 ↔
      AllTied exampleFiles [segSite] ("l".toList ++ "R".toList) 0 [] :=
  listing_complete_iff exampleOpen exampleSystem exampleRuntime exampleRuntime_sorts exampleFiles
    (Tree.distinct_of_root _ (by decide)) [segSite] rfl (by decide) "R".toList "l".toList 0 [] exampleFiles_dir
    exampleFiles_visible 5 (by decide)

end DirectoryList
end Cmd
end Ebftpd
