import Ebftpd.Cmd.DirectoryList
import Mathlib.Data.List.Sort

/-!
# Ebftpd.Cmd.Hidden

What a listing shows of the entries that the user may not view. Two trees agree where they show him the
same: every entry that passes the check of `View`, itself and all its ancestors from the home directory
on. A listing asks for more than that: the argument and the links in a directory are followed through
whatever is in the way, and the total counts every entry.

* `readdir_alike`: where nothing hidden is in the way, a directory is listed alike in both trees.
* `listing_reveals_iff`: then only the totals tell the trees apart.
-/

namespace Ebftpd
namespace Cmd
namespace DirectoryList

open Util Util.Path Lib Lib.FileTree Fs Acl Acl.Path

variable (env : Env) (sys : Sys) (site : List Seg)

/-! ## What the user may view -/

/-- The check of `View`, in the form for directories or the one for files. -/
def passes (isDirectory : Bool) (v : List Seg) : Bool := entryAllowed env sys .View isDirectory (text v)

/-- The directories on the way from the home directory pass the check. -/
def ancestorsPass (v : List Seg) : Bool :=
  v.inits.all fun a => decide (a = v) || !insideHomeDir env (slashed (text a)) || passes env sys true a

/-- There is an entry that the user may view. -/
def viewable (t : Disk) (v : List Seg) : Bool :=
  match t.find (site ++ v) with
  | none => false
  | some _ =>
    (t.status (text (site ++ v))).any (fun status => passes env sys status.isDirectory v) &&
      ancestorsPass env sys v

/-- What the user may know of an entry. -/
structure Seen where
  attr : Attr
  shape : Shape Str
  names : List Seg

def seen (t : Disk) (v : List Seg) : Option Seen :=
  if viewable env sys site t v then
    (t.find (site ++ v)).map fun n =>
      ⟨n.attr, n.shape, (n.entries.map Prod.fst).filter fun s => viewable env sys site t (v ++ [s])⟩
  else none

/-- The trees agree on every entry that the user may view. -/
def Agree (t₁ t₂ : Disk) : Prop := ∀ v, seen env sys site t₁ v = seen env sys site t₂ v

/-- The name of an entry that the user may view if it is there, or of a directory on the way to one. -/
def IsOpen (t : Disk) (q : List Seg) : Prop :=
  (∃ v, q = site ++ v ∧ passes env sys true v = true ∧ passes env sys false v = true ∧
    ancestorsPass env sys v = true) ∨
  ∃ v, viewable env sys site t v = true ∧ q <+: site ++ v ∧ q ≠ site ++ v

variable {env sys site}

theorem ancestorsPass_iff {v : List Seg} : ancestorsPass env sys v = true ↔
    ∀ a, a <+: v → a ≠ v → insideHomeDir env (slashed (text a)) = true → passes env sys true a = true := by
  simp only [ancestorsPass, List.all_eq_true, List.mem_inits, Bool.or_eq_true, decide_eq_true_eq,
    Bool.not_eq_true']
  refine forall_congr' fun a => imp_congr_right fun _ => ?_
  constructor
  · intro h hne hin
    rcases h with (h | h) | h
    · exact absurd h hne
    · rw [h] at hin
      cases hin
    · exact h
  · intro h
    by_cases hne : a = v
    · exact .inl (.inl hne)
    · cases hin : insideHomeDir env (slashed (text a)) with
      | false => exact .inl (.inr rfl)
      | true => exact .inr (h hne hin)

/-- The ancestors of a child are those of the directory and the directory itself. -/
theorem ancestorsPass_child {v : List Seg} (s : Seg) (hpass : passes env sys true v = true)
    (h : ancestorsPass env sys v = true) : ancestorsPass env sys (v ++ [s]) = true := by
  rw [ancestorsPass_iff] at h ⊢
  intro a ha hne hin
  have hpre : a <+: v := (List.prefix_concat_iff.mp ha).resolve_left hne
  by_cases hav : a = v
  · exact hav ▸ hpass
  · exact h a hpre hav hin

theorem viewable_find {t : Disk} {v : List Seg} (h : viewable env sys site t v = true) :
    ∃ n, t.find (site ++ v) = some n := by
  unfold viewable at h
  split at h
  · cases h
  · exact ⟨_, ‹_›⟩

theorem viewable_ancestors {t : Disk} {v : List Seg} (h : viewable env sys site t v = true) :
    ancestorsPass env sys v = true := by
  unfold viewable at h
  split at h
  · cases h
  · exact (Bool.and_eq_true_iff.mp h).2

theorem viewable_iff {t : Disk} {v : List Seg} {n : Node Seg Attr Str} (hn : t.find (site ++ v) = some n) :
    viewable env sys site t v = true ↔
      passes env sys (statusOf n ((t.place true (text (site ++ v))).bind t.shapeAt)).isDirectory v = true ∧
        ancestorsPass env sys v = true := by
  simp only [viewable, hn, status_text hn, Option.any_some, Bool.and_eq_true]

theorem seen_of_viewable {t : Disk} {v : List Seg} {n : Node Seg Attr Str} (hn : t.find (site ++ v) = some n)
    (h : viewable env sys site t v = true) :
    seen env sys site t v = some ⟨n.attr, n.shape,
      (n.entries.map Prod.fst).filter fun s => viewable env sys site t (v ++ [s])⟩ := by
  rw [seen, if_pos h, hn]
  rfl

theorem seen_isSome {t : Disk} {v : List Seg} :
    (seen env sys site t v).isSome = true ↔ viewable env sys site t v = true := by
  by_cases h : viewable env sys site t v = true
  · obtain ⟨n, hn⟩ := viewable_find h
    simp [seen_of_viewable hn h, h]
  · simp [seen, h]

section Agree

variable {t₁ t₂ : Disk} (hagree : Agree env sys site t₁ t₂)

include hagree

theorem viewable_congr (v : List Seg) : viewable env sys site t₁ v = viewable env sys site t₂ v := by
  rw [Bool.eq_iff_iff, ← seen_isSome, ← seen_isSome, hagree v]

/-- An entry that the user may view is the same in both trees. -/
theorem find_agree {v : List Seg} {n : Node Seg Attr Str} (hn : t₁.find (site ++ v) = some n)
    (h : viewable env sys site t₁ v = true) :
    ∃ m, t₂.find (site ++ v) = some m ∧ n.attr = m.attr ∧ n.shape = m.shape ∧
      (n.entries.map Prod.fst).filter (fun s => viewable env sys site t₁ (v ++ [s])) =
        (m.entries.map Prod.fst).filter (fun s => viewable env sys site t₂ (v ++ [s])) := by
  have h₂ : viewable env sys site t₂ v = true := viewable_congr hagree v ▸ h
  obtain ⟨m, hm⟩ := viewable_find h₂
  have hsame := hagree v
  rw [seen_of_viewable hn h, seen_of_viewable hm h₂] at hsame
  simp only [Option.some.injEq, Seen.mk.injEq] at hsame
  exact ⟨m, hm, hsame⟩

theorem agree_symm : Agree env sys site t₂ t₁ := fun v => (hagree v).symm

/-- At an open name both trees have the same kind of thing, or nothing. -/
theorem shapeAt_agree {q : List Seg} (h : IsOpen env sys site t₁ q) : t₁.shapeAt q = t₂.shapeAt q := by
  rcases h with ⟨v, rfl, hdir, hfile, hanc⟩ | ⟨v, hview, hpre, hne⟩
  · have hboth : ∀ {t : Disk} {n : Node Seg Attr Str}, t.find (site ++ v) = some n →
        viewable env sys site t v = true := by
      intro t n hn
      refine (viewable_iff hn).mpr ⟨?_, hanc⟩
      cases (statusOf n ((t.place true (text (site ++ v))).bind t.shapeAt)).isDirectory with
      | true => exact hdir
      | false => exact hfile
    cases h₁ : t₁.find (site ++ v) with
    | some n =>
      obtain ⟨m, hm, -, hshape, -⟩ := find_agree hagree h₁ (hboth h₁)
      rw [shapeAt_of_find h₁, shapeAt_of_find hm, hshape]
    | none =>
      cases h₂ : t₂.find (site ++ v) with
      | none => rw [Tree.shapeAt, Tree.shapeAt, h₁, h₂]
      | some m =>
        obtain ⟨n, hn, -⟩ := find_agree (agree_symm hagree) h₂ (hboth h₂)
        rw [hn] at h₁
        cases h₁
  · obtain ⟨r, hr⟩ := hpre
    have hrne : r ≠ [] := by
      rintro rfl
      rw [List.append_nil] at hr
      exact hne hr
    obtain ⟨n, hn⟩ := viewable_find hview
    obtain ⟨m, hm, -⟩ := find_agree hagree hn hview
    rw [← hr] at hn hm
    have hd₁ : t₁.IsDir q := Tree.isDir_of_below hrne (by rw [hn]; rfl)
    have hd₂ : t₂.IsDir q := Tree.isDir_of_below hrne (by rw [hm]; rfl)
    exact hd₁.trans hd₂.symm

theorem walk_agree {follow : Bool} {path : Str}
    (h : ∀ q ∈ (t₁.walk follow path).1, IsOpen env sys site t₁ q) :
    t₁.walk follow path = t₂.walk follow path ∧
      ∀ q, t₁.place follow path = some q → t₁.shapeAt q = t₂.shapeAt q :=
  walk_congr maxSymLinks follow [] (steps path) t₁.root_isDir t₂.root_isDir
    fun q hq => shapeAt_agree hagree (h q hq)

end Agree

/-! ## The argument -/

section Split

variable {wd path : Str}

/-- Whether a path is a regular file is a matter of the kinds of things it leads to. -/
theorem any_isRegularFile (t : Disk) (p : Str) :
    (t.status p).any Fs.Status.isRegularFile =
      match (t.place false p).bind t.shapeAt with
      | some (.leaf regular) => regular
      | some (.link _) => decide ((t.place true p).bind t.shapeAt = some (.leaf true))
      | _ => false := by
  unfold Disk.status
  cases h : t.place false p with
  | none => rfl
  | some q =>
    simp only [Option.bind_some, Tree.shapeAt]
    cases t.find q with
    | none => rfl
    | some n =>
      simp only [Option.map_some, Option.any_some, statusOf]
      cases n.shape <;> rfl

/-- The walks behind the names that are looked up for a text of the user. -/
theorem asked_open {t : Disk} {sitepath x : Str}
    (h : ∀ q ∈ t.asked sitepath wd x, IsOpen env sys site t q) :
    (∀ q ∈ (t.walk true (unresolved sitepath wd x)).1, IsOpen env sys site t q) ∧
      (t.place true (unresolved sitepath wd x) = none →
        ∀ q ∈ (t.walk true (dirname (unresolved sitepath wd x))).1, IsOpen env sys site t q) := by
  constructor
  · intro q hq
    apply h
    simp only [Disk.asked]
    split
    · exact hq
    · exact List.mem_append_left _ hq
  · intro hnone q hq
    apply h
    simp only [Disk.asked, hnone]
    exact List.mem_append_right _ hq

variable {t₁ t₂ : Disk} (hagree : Agree env sys site t₁ t₂)

include hagree

theorem makeRealPath_agree {x : Str}
    (h : ∀ q ∈ t₁.asked env.cfg.sitepath wd x, IsOpen env sys site t₁ q) :
    makeRealPath env.cfg.sitepath t₁.realpath wd x = makeRealPath env.cfg.sitepath t₂.realpath wd x := by
  obtain ⟨hp, hd⟩ := asked_open h
  have hwalk := (walk_agree hagree hp).1
  simp only [unresolved] at hwalk hd
  simp only [makeRealPath, Disk.realpath, Disk.place] at hd ⊢
  rw [← hwalk]
  cases hplace : (t₁.walk true (append env.cfg.sitepath (resolve (join wd x)))).2 with
  | some q => rfl
  | none => simp only [Option.map_none, (walk_agree hagree (hd hplace)).1]

theorem asked_agree {x : Str} (h : ∀ q ∈ t₁.asked env.cfg.sitepath wd x, IsOpen env sys site t₁ q) :
    t₁.asked env.cfg.sitepath wd x = t₂.asked env.cfg.sitepath wd x := by
  obtain ⟨hp, hd⟩ := asked_open h
  have hwalk := (walk_agree hagree hp).1
  simp only [Disk.asked, Disk.place, ← hwalk]
  split
  · rfl
  · rename_i hnone
    rw [(walk_agree hagree (hd hnone)).1]

theorem fromUser_agree {x : Str} (h : ∀ q ∈ t₁.asked env.cfg.sitepath wd x, IsOpen env sys site t₁ q) :
    fromUser env t₁ wd x = fromUser env t₂ wd x := by
  simp only [fromUser, pathFromUser, makeVirtualPath, makeRealPath_agree hagree h]

theorem bind_shapeAt_agree {follow : Bool} {p : Str}
    (h : ∀ q ∈ (t₁.walk follow p).1, IsOpen env sys site t₁ q) :
    (t₁.place follow p).bind t₁.shapeAt = (t₂.place follow p).bind t₂.shapeAt := by
  obtain ⟨hwalk, hshape⟩ := walk_agree hagree h
  have hplace : t₁.place follow p = t₂.place follow p := congrArg Prod.snd hwalk
  rw [← hplace]
  cases hq : t₁.place follow p with
  | none => rfl
  | some q => exact hshape q hq

/-- Where all the names are open, the argument is split alike. -/
theorem splitPath_agree (h : ∀ q ∈ splitAsked env t₁ wd path, IsOpen env sys site t₁ q) :
    splitPath env t₁ wd path = splitPath env t₂ wd path := by
  have hpath : ∀ q ∈ t₁.asked env.cfg.sitepath wd path, IsOpen env sys site t₁ q := fun q hq =>
    h q (List.mem_append_left _ (List.mem_append_left _ hq))
  have hreal := makeRealPath_agree hagree hpath
  have hregular : isRegular env t₁ wd path = isRegular env t₂ wd path := by
    unfold isRegular
    rw [← hreal, any_isRegularFile, any_isRegularFile]
    rw [bind_shapeAt_agree hagree fun q hq => h q (List.mem_append_left _ (List.mem_append_right _
        (List.mem_append_left _ hq))),
      bind_shapeAt_agree hagree fun q hq => h q (List.mem_append_left _ (List.mem_append_right _
        (List.mem_append_right _ hq)))]
  have hrest := fun q hq => h q (List.mem_append_right _ hq)
  unfold splitPath
  rw [← hregular]
  split
  · rename_i hreg
    rw [if_pos hreg] at hrest
    rw [fromUser_agree hagree hrest]
  · rename_i hreg
    rw [if_neg hreg] at hrest
    have htop : (if path.head? = some '/' then fromUser env t₁ wd "/".toList else .ok []) =
        (if path.head? = some '/' then fromUser env t₂ wd "/".toList else .ok []) := by
      split
      · rename_i habs
        rw [if_pos habs] at hrest
        exact fromUser_agree hagree fun q hq => hrest q (List.mem_append_left _ hq)
      · rfl
    rw [← htop]
    split
    · rfl
    · rename_i top heq
      rw [heq] at hrest
      simp only
      rw [fromUser_agree hagree fun q hq => hrest q (List.mem_append_right _ hq)]

end Split

/-! ## The enumeration of a directory -/

variable (env sys site) in
/-- The entry of a directory as it is listed. -/
def entryOf (t : Disk) (loadOwners : Bool) (v : List Seg) (s : Seg) : Option DirEntry :=
  (t.status (text (site ++ (v ++ [s])))).map fun status =>
    let hideOwner := entryAllowed env sys .Hideowner status.isDirectory (text (v ++ [s]))
    ⟨s.val, status, if !hideOwner && loadOwners then t.getOwner (text (site ++ (v ++ [s]))) else ⟨0, 0⟩⟩

/-- The entries that the user may view, as they are listed. -/
def listedEntries (env : Env) (sys : Sys) (site : List Seg) (t : Disk) (loadOwners : Bool) (v : List Seg)
    (names : List Seg) : List DirEntry :=
  (names.filter fun s => viewable env sys site t (v ++ [s])).filterMap
    (entryOf env sys site t loadOwners v)

/-- The size of an entry. -/
def childSize (n : Node Seg Attr Str) (s : Seg) : Nat := ((n.child s).map fun m => m.attr.size).getD 0

/-- The sizes of all entries of a directory, those the user may not view as well. -/
def totalSize (n : Node Seg Attr Str) : Nat := ((n.entries.map Prod.fst).map (childSize n)).sum

section Enumerate

variable (hsitepath : env.cfg.sitepath = text site) (hsite : site ≠ []) {t : Disk} {v : List Seg}
  {n : Node Seg Attr Str} (hn : t.find (site ++ v) = some n) (hpass : passes env sys true v = true)
  (hanc : ancestorsPass env sys v = true) (loadOwners : Bool)

include hsitepath hsite hn hpass hanc

theorem enumerate_name {s : Seg} {m : Node Seg Attr Str} (hm : n.child s = some m) (de : DirEnumerator) :
    enumerate env sys t loadOwners (text (site ++ v)) de s.val =
      .ok ⟨(de.totalBytes + m.attr.size) % 2 ^ 64,
        de.entries ++ listedEntries env sys site t loadOwners v [s]⟩ := by
  have hfind : t.find (site ++ (v ++ [s])) = some m := by
    rw [← List.append_assoc, Tree.find_child hn, hm]
  have hjoin : join (text (site ++ v)) s.val = text (site ++ (v ++ [s])) := by
    rw [join_text, List.append_assoc]
  have hview : viewable env sys site t (v ++ [s]) = entryAllowed env sys .View
      (statusOf m ((t.place true (text (site ++ (v ++ [s])))).bind t.shapeAt)).isDirectory
      (text (v ++ [s])) := by
    rw [Bool.eq_iff_iff, viewable_iff hfind, ancestorsPass_child s hpass hanc]
    exact and_iff_left rfl
  simp only [enumerate, hjoin, status_text hfind, hsitepath, makeVirtual_text hsite, statusOf_attr,
    listedEntries, List.filter_cons, List.filter_nil, ← hview]
  cases viewable env sys site t (v ++ [s]) with
  | false => simp
  | true => simp [entryOf, status_text hfind]

theorem enumerate_names {names : List Seg} (hnames : ∀ s ∈ names, s ∈ n.entries.map Prod.fst)
    (de : DirEnumerator) (hde : de.totalBytes < 2 ^ 64) :
    (names.map Seg.val).foldlM (enumerate env sys t loadOwners (text (site ++ v))) de =
      .ok ⟨(de.totalBytes + (names.map (childSize n)).sum) % 2 ^ 64,
        de.entries ++ listedEntries env sys site t loadOwners v names⟩ := by
  induction names generalizing de with
  | nil =>
    simp only [listedEntries, List.map_nil, List.sum_nil, Nat.add_zero, Nat.mod_eq_of_lt hde,
      List.filter_nil, List.filterMap_nil, List.append_nil]
    rfl
  | cons s names ih =>
    obtain ⟨m, hm, -⟩ := Node.child_of_mem (hnames s (by simp))
    have hsize : childSize n s = m.attr.size := by rw [childSize, hm]; rfl
    rw [List.map_cons, List.foldlM_cons, enumerate_name hsitepath hsite hn hpass hanc loadOwners hm]
    have hrest := ih (fun x hx => hnames x (by simp [hx]))
      ⟨(de.totalBytes + m.attr.size) % 2 ^ 64, de.entries ++ listedEntries env sys site t loadOwners v [s]⟩
      (Nat.mod_lt _ (by decide))
    refine hrest.trans ?_
    have hentries : listedEntries env sys site t loadOwners v [s] ++
        listedEntries env sys site t loadOwners v names =
          listedEntries env sys site t loadOwners v (s :: names) := by
      simp only [listedEntries, ← List.filterMap_append, ← List.filter_append]
      rfl
    rw [List.append_assoc, hentries, List.map_cons, List.sum_cons, hsize, Nat.mod_add_mod, Nat.add_assoc]

/-- A directory that the user may view is enumerated: what he may view of it, and the size of everything. -/
theorem enumerateDir_eq (hplace : t.place true (text (site ++ v)) = some (site ++ v))
    (hdir : n.shape = .dir) :
    enumerateDir env sys t loadOwners (text v) =
      .ok ⟨totalSize n % 2 ^ 64,
        listedEntries env sys site t loadOwners v (n.entries.map Prod.fst)⟩ := by
  have hallowed : (dirAllowed env sys .View (text v)).isOk = true := hpass
  have hopen : t.opendir (text (site ++ v)) = .ok ((n.entries.map Prod.fst).map Seg.val) := by
    rw [Disk.opendir, hplace, Option.bind_some, hn]
    cases n with
    | dir attr entries => simp [Node.entries, Function.comp_def]
    | leaf regular attr => cases hdir
    | link attr target => cases hdir
  have hfold := enumerate_names hsitepath hsite hn hpass hanc loadOwners (fun s hs => hs) {} (by decide)
  simp only [enumerateDir, hsitepath, makeReal_text hsite, makeVirtual_text hsite, hallowed, hopen,
    Bool.not_true, Bool.false_eq_true, if_false]
  refine hfold.trans ?_
  simp [totalSize]

end Enumerate

/-! ## One directory in both trees -/

variable (env sys site) in
/-- A link that the user may view in the directory leads, through open names, to an entry that he may view,
or to nothing. -/
def LinksOpen (t : Disk) (v : List Seg) : Prop :=
  ∀ s target, viewable env sys site t (v ++ [s]) = true →
    t.shapeAt (site ++ (v ++ [s])) = some (.link target) →
      (∀ q ∈ (t.walk true (text (site ++ (v ++ [s])))).1, IsOpen env sys site t q) ∧
        ∀ q, t.place true (text (site ++ (v ++ [s]))) = some q →
          ∃ w, q = site ++ w ∧ viewable env sys site t w = true

variable (env sys) in
/-- The kilobytes of a directory that the user may view, all its entries counted. -/
def kBytes (t : Disk) (path : Str) : Nat :=
  if (dirAllowed env sys .View path).isOk then
    match (t.place true (makeReal env.cfg.sitepath path)).bind t.find with
    | some n => totalSize n % 2 ^ 64 / 1024
    | none => 0
  else 0

theorem kBytes_zero {t : Disk} {v : List Seg} (hsitepath : env.cfg.sitepath = text site) (hsite : site ≠ [])
    (h : ∀ q, t.place true (text (site ++ v)) = some q → ¬ t.IsDir q) : kBytes env sys t (text v) = 0 := by
  rw [kBytes, hsitepath, makeReal_text hsite]
  split
  · cases hplace : t.place true (text (site ++ v)) with
    | none => rfl
    | some q =>
      rw [Option.bind_some]
      cases hn : t.find q with
      | none => rfl
      | some n =>
        have hempty : n.entries = [] := List.eq_nil_iff_forall_not_mem.mpr fun e he =>
          h q hplace (by rw [Tree.IsDir, shapeAt_of_find hn, Node.shape_of_entries he])
        simp [totalSize, hempty]
  · rfl

/-! ## The directories that a listing goes into -/

variable (env sys site) in
/-- The names that are listed of a directory. -/
def shownNames (t : Disk) (v : List Seg) : List Seg :=
  if passes env sys true v then
    ((t.find (site ++ v)).elim [] fun n => n.entries.map Prod.fst).filter fun s =>
      viewable env sys site t (v ++ [s])
  else []

variable (env sys site) in
/-- The directories among them that are gone into. -/
def subdirNames (t : Disk) (options : ListOptions) (mask : Str) (v : List Seg) : List Seg :=
  (shownNames env sys site t v).filter fun s =>
    decide (t.IsDir (site ++ (v ++ [s]))) && isShown env options mask s.val

variable (env sys site) in
/-- The directories that a listing of `v` asks for. -/
def listedDirs (t : Disk) (options : ListOptions) (maxRecursion : Int) :
    Nat → List Seg → List Str → Nat → List (List Seg)
  | 0, _, _, _ => []
  | fuel + 1, v, masks, depth =>
    if maxRecursion ≠ 0 ∧ (depth : Int) > maxRecursion then []
    else
      let mask := masks.head?.getD []
      v :: if options.recursive || !mask.isEmpty then
        (subdirNames env sys site t options mask v).flatMap fun s =>
          listedDirs t options maxRecursion fuel (v ++ [s]) masks.tail (depth + 1)
      else []

theorem shownNames_eq {t : Disk} {v : List Seg} {n : Node Seg Attr Str} (hn : t.find (site ++ v) = some n)
    (hpass : passes env sys true v = true) :
    shownNames env sys site t v =
      (n.entries.map Prod.fst).filter fun s => viewable env sys site t (v ++ [s]) := by
  rw [shownNames, if_pos hpass, hn]
  rfl

theorem shownNames_nil {t : Disk} {v : List Seg} (h : ¬ t.IsDir (site ++ v)) :
    shownNames env sys site t v = [] := by
  refine List.eq_nil_iff_forall_not_mem.mpr fun s hs => ?_
  unfold shownNames at hs
  split at hs
  · cases hn : t.find (site ++ v) with
    | none => simp [hn] at hs
    | some n =>
      rw [hn] at hs
      obtain ⟨e, he, -⟩ := List.mem_map.mp (List.mem_filter.mp hs).1
      exact h (by rw [Tree.IsDir, shapeAt_of_find hn, Node.shape_of_entries he])
  · cases hs

variable (env sys site) in
/-- What a listing of `v` needs to go on alike in both trees. -/
inductive Shared (t₁ t₂ : Disk) (v : List Seg) : Prop where
  | nothing (h₁ : t₁.place true (text (site ++ v)) = none) (h₂ : t₂.place true (text (site ++ v)) = none)
  | node (h₁ : t₁.place true (text (site ++ v)) = some (site ++ v))
      (h₂ : t₂.place true (text (site ++ v)) = some (site ++ v))
      (hshape : t₁.shapeAt (site ++ v) = t₂.shapeAt (site ++ v))
      (hanc : passes env sys true v = true → ancestorsPass env sys v = true)

theorem readlink_text {t : Disk} {q : List Seg} {n : Node Seg Attr Str} (hn : t.find q = some n) :
    t.readlink (text q) = match n.shape with | .link dest => some dest | _ => none := by
  have hplace : t.place false (text q) = some q := place_text (shapeAt_of_find hn) fun hf => nomatch hf
  rw [Disk.readlink, hplace, Option.bind_some, hn]
  cases n <;> rfl

theorem getOwner_congr {t₁ t₂ : Disk} {path : Str} (hplace : t₁.place true path = t₂.place true path)
    (hattr : ∀ q, t₁.place true path = some q →
      (t₁.find q).map Node.attr = (t₂.find q).map Node.attr) : t₁.getOwner path = t₂.getOwner path := by
  have hmap : ∀ t : Disk, t.getOwner path =
      match ((t.place true path).bind t.find).map Node.attr with
      | some attr => ⟨attr.uid, attr.gid⟩
      | none => ⟨0, 0⟩ := by
    intro t
    unfold Disk.getOwner
    cases (t.place true path).bind t.find <;> rfl
  rw [hmap, hmap, ← hplace]
  cases hq : t₁.place true path with
  | none => rfl
  | some q => rw [Option.bind_some, Option.bind_some, hattr q hq]

section Both

variable {t₁ t₂ : Disk} (hagree : Agree env sys site t₁ t₂)

include hagree

/-- An entry that the user may view is listed alike, where it is no link into the dark. -/
theorem entryOf_agree {v : List Seg} (hlinks : LinksOpen env sys site t₁ v) (loadOwners : Bool) {s : Seg}
    (hview : viewable env sys site t₁ (v ++ [s]) = true) :
    entryOf env sys site t₁ loadOwners v s = entryOf env sys site t₂ loadOwners v s := by
  obtain ⟨n, hn⟩ := viewable_find hview
  obtain ⟨m, hm, hattr, hshape, -⟩ := find_agree hagree hn hview
  have hn' := shapeAt_of_find hn
  have hm' := shapeAt_of_find hm
  -- what the entry leads to
  have hled : t₁.place true (text (site ++ (v ++ [s]))) = t₂.place true (text (site ++ (v ++ [s]))) ∧
      (∀ target, n.shape = .link target → (t₁.place true (text (site ++ (v ++ [s])))).bind t₁.shapeAt =
        (t₂.place true (text (site ++ (v ++ [s])))).bind t₂.shapeAt) ∧
      ∀ q, t₁.place true (text (site ++ (v ++ [s]))) = some q →
        (t₁.find q).map Node.attr = (t₂.find q).map Node.attr := by
    by_cases hlink : ∃ target, n.shape = .link target
    · obtain ⟨target, htarget⟩ := hlink
      obtain ⟨hopen, hplace⟩ := hlinks s target hview (by rw [hn', htarget])
      refine ⟨congrArg Prod.snd (walk_agree hagree hopen).1, fun _ _ => bind_shapeAt_agree hagree hopen,
        fun q hq => ?_⟩
      obtain ⟨w, rfl, hw⟩ := hplace q hq
      obtain ⟨x, hx⟩ := viewable_find hw
      obtain ⟨y, hy, hsame, -⟩ := find_agree hagree hx hw
      rw [hx, hy, Option.map_some, Option.map_some, hsame]
    · have hno : ∀ target, n.shape ≠ .link target := fun target h => hlink ⟨target, h⟩
      rw [place_text hn' fun _ => hno, place_text hm' fun _ => hshape ▸ hno]
      refine ⟨rfl, fun target h => absurd h (hno target), fun q hq => ?_⟩
      cases hq
      rw [hn, hm, Option.map_some, Option.map_some, hattr]
  obtain ⟨hplace, hstatus, howner⟩ := hled
  simp only [entryOf, status_text hn, status_text hm, statusOf_congr hattr hshape hstatus,
    getOwner_congr hplace howner]

theorem listedEntries_agree {v : List Seg} (hlinks : LinksOpen env sys site t₁ v) (loadOwners : Bool)
    {n m : Node Seg Attr Str}
    (hnames : (n.entries.map Prod.fst).filter (fun s => viewable env sys site t₁ (v ++ [s])) =
      (m.entries.map Prod.fst).filter (fun s => viewable env sys site t₂ (v ++ [s]))) :
    listedEntries env sys site t₁ loadOwners v (n.entries.map Prod.fst) =
      listedEntries env sys site t₂ loadOwners v (m.entries.map Prod.fst) := by
  unfold listedEntries
  rw [← hnames]
  refine List.filterMap_congr fun s hs => ?_
  exact entryOf_agree hagree hlinks loadOwners (List.mem_filter.mp hs).2

variable (env sys site) in
/-- An entry of `v` shows the same and is gone into alike. -/
structure EntryShared (t₁ t₂ : Disk) (v : List Seg) (de : DirEntry) : Prop where
  name : ∃ s ∈ shownNames env sys site t₁ v, de.path = s.val ∧
    t₁.readlink (text (site ++ (v ++ [s]))) = t₂.readlink (text (site ++ (v ++ [s]))) ∧
      (de.status.isDirectory = true → de.status.isSymLink = false →
        t₁.IsDir (site ++ (v ++ [s])) ∧ Shared env sys site t₁ t₂ (v ++ [s]))

theorem entryShared_of_mem {v : List Seg} (hpass : passes env sys true v = true)
    (hanc : ancestorsPass env sys v = true) {loadOwners : Bool} {x : Node Seg Attr Str} {de : DirEntry}
    (hx : t₁.find (site ++ v) = some x)
    (h : de ∈ listedEntries env sys site t₁ loadOwners v (x.entries.map Prod.fst)) :
    EntryShared env sys site t₁ t₂ v de := by
  obtain ⟨s, hs, hentry⟩ := List.mem_filterMap.mp h
  have hview := (List.mem_filter.mp hs).2
  obtain ⟨n, hn⟩ := viewable_find hview
  obtain ⟨m, hm, -, hshape, -⟩ := find_agree hagree hn hview
  rw [entryOf, status_text hn] at hentry
  simp only [Option.map_some, Option.some.injEq] at hentry
  subst hentry
  refine ⟨s, shownNames_eq hx hpass ▸ hs, rfl, by rw [readlink_text hn, readlink_text hm, hshape],
    fun hdir hlink => ?_⟩
  have hd := isDir_of_status hdir hlink
  have hd₁ : t₁.IsDir (site ++ (v ++ [s])) := by rw [Tree.IsDir, shapeAt_of_find hn, hd]
  have hd₂ : t₂.IsDir (site ++ (v ++ [s])) := by rw [Tree.IsDir, shapeAt_of_find hm, ← hshape, hd]
  exact ⟨hd₁, .node (place_text hd₁ fun _ => dir_ne_link) (place_text hd₂ fun _ => dir_ne_link)
    (hd₁.trans hd₂.symm) fun _ => ancestorsPass_child s hpass hanc⟩

end Both

/-- A directory that the user may view has its entry. -/
theorem mem_listedEntries {t : Disk} {v : List Seg} {x : Node Seg Attr Str} {s : Seg} (loadOwners : Bool)
    (hx : t.find (site ++ v) = some x) (hs : s ∈ shownNames env sys site t v)
    (hdir : t.IsDir (site ++ (v ++ [s]))) :
    ∃ de ∈ listedEntries env sys site t loadOwners v (x.entries.map Prod.fst),
      de.path = s.val ∧ de.status.isDirectory = true ∧ de.status.isSymLink = false := by
  have hpass : passes env sys true v = true := by
    by_contra hno
    rw [shownNames, if_neg hno] at hs
    cases hs
  rw [shownNames_eq hx hpass] at hs
  obtain ⟨n, hn, hshape⟩ := find_of_shapeAt hdir
  refine ⟨_, List.mem_filterMap.mpr ⟨s, hs, by rw [entryOf, status_text hn]; rfl⟩, rfl, ?_, ?_⟩
  · simp only [statusOf, hshape]
  · simp only [statusOf, hshape]

variable (env sys site) in
/-- What two readings of the directory `v` have in common, whose entries are the same. -/
structure ReadAlike (t₁ t₂ : Disk) (v : List Seg) (d₁ d₂ : DirEnumerator) : Prop where
  entries : d₁.entries = d₂.entries
  total₁ : d₁.totalBytes / 1024 = kBytes env sys t₁ (text v)
  total₂ : d₂.totalBytes / 1024 = kBytes env sys t₂ (text v)
  shared : ∀ de ∈ d₁.entries, EntryShared env sys site t₁ t₂ v de
  complete : ∀ s ∈ shownNames env sys site t₁ v, t₁.IsDir (site ++ (v ++ [s])) →
    ∃ de ∈ d₁.entries, de.path = s.val ∧ de.status.isDirectory = true ∧ de.status.isSymLink = false

variable (env sys site) in
/-- A directory is read in neither tree; or in both, and alike where its links are open. -/
def BothRead (t₁ t₂ : Disk) (v : List Seg) (r₁ r₂ : Except Exn DirEnumerator) : Prop :=
  (∃ e₁ e₂, r₁ = .error (.systemError e₁) ∧ r₂ = .error (.systemError e₂) ∧
      shownNames env sys site t₁ v = [] ∧ kBytes env sys t₁ (text v) = kBytes env sys t₂ (text v)) ∨
    (∃ d₁, r₁ = .ok d₁) ∧
      (LinksOpen env sys site t₁ v →
        ∃ d₁ d₂, r₁ = .ok d₁ ∧ r₂ = .ok d₂ ∧ ReadAlike env sys site t₁ t₂ v d₁ d₂)

section Read

variable (hsitepath : env.cfg.sitepath = text site) (hsite : site ≠ [])

include hsitepath hsite

theorem enumerateDir_hidden {t : Disk} {v : List Seg} (hpass : passes env sys true v = false)
    (loadOwners : Bool) : enumerateDir env sys t loadOwners (text v) = .ok {} := by
  have hdenied : (dirAllowed env sys .View (text v)).isOk = false := hpass
  simp [enumerateDir, hsitepath, makeReal_text hsite, makeVirtual_text hsite, hdenied]

theorem enumerateDir_error {t : Disk} {v : List Seg} (hpass : passes env sys true v = true)
    (loadOwners : Bool) {e : Errno} (h : t.opendir (text (site ++ v)) = .error e) :
    enumerateDir env sys t loadOwners (text v) = .error (.systemError e) := by
  have hallowed : (dirAllowed env sys .View (text v)).isOk = true := hpass
  simp [enumerateDir, hsitepath, makeReal_text hsite, makeVirtual_text hsite, hallowed, h]

theorem kBytes_eq {t : Disk} {v : List Seg} {n : Node Seg Attr Str} (hn : t.find (site ++ v) = some n)
    (hplace : t.place true (text (site ++ v)) = some (site ++ v)) (hpass : passes env sys true v = true) :
    kBytes env sys t (text v) = totalSize n % 2 ^ 64 / 1024 := by
  have hallowed : (dirAllowed env sys .View (text v)).isOk = true := hpass
  rw [kBytes, if_pos hallowed, hsitepath, makeReal_text hsite, hplace, Option.bind_some, hn]

variable {t₁ t₂ : Disk} (hagree : Agree env sys site t₁ t₂) {v : List Seg}
  (hshared : Shared env sys site t₁ t₂ v)

include hagree hshared

theorem enumerateDir_alike (loadOwners : Bool) :
    BothRead env sys site t₁ t₂ v (enumerateDir env sys t₁ loadOwners (text v))
      (enumerateDir env sys t₂ loadOwners (text v)) := by
  cases hpass : passes env sys true v with
  | false =>
    have hdenied : (dirAllowed env sys .View (text v)).isOk = false := hpass
    have hzero : ∀ t : Disk, kBytes env sys t (text v) = 0 := fun t => by simp [kBytes, hdenied]
    refine .inr ⟨⟨_, enumerateDir_hidden hsitepath hsite hpass loadOwners⟩, fun _ => ⟨_, _,
      enumerateDir_hidden hsitepath hsite hpass loadOwners,
      enumerateDir_hidden hsitepath hsite hpass loadOwners, rfl, (hzero t₁).symm, (hzero t₂).symm, ?_, ?_⟩⟩
    · intro de hde
      cases hde
    · intro s hs
      simp [shownNames, hpass] at hs
  | true =>
    -- in both trees the path leads to no directory
    have herror : ∀ e₁ e₂, t₁.opendir (text (site ++ v)) = .error e₁ →
        t₂.opendir (text (site ++ v)) = .error e₂ →
        (∀ q, t₁.place true (text (site ++ v)) = some q → ¬ t₁.IsDir q) →
        (∀ q, t₂.place true (text (site ++ v)) = some q → ¬ t₂.IsDir q) → BothRead env sys site t₁ t₂ v
          (enumerateDir env sys t₁ loadOwners (text v)) (enumerateDir env sys t₂ loadOwners (text v)) := by
      intro e₁ e₂ h₁ h₂ hno₁ hno₂
      refine .inl ⟨e₁, e₂, enumerateDir_error hsitepath hsite hpass loadOwners h₁,
        enumerateDir_error hsitepath hsite hpass loadOwners h₂, shownNames_nil fun hdir => ?_, ?_⟩
      · exact hno₁ _ (place_text hdir fun _ => dir_ne_link) hdir
      · rw [kBytes_zero hsitepath hsite hno₁, kBytes_zero hsitepath hsite hno₂]
    cases hshared with
    | nothing h₁ h₂ =>
      refine herror .ENOENT .ENOENT ?_ ?_ (fun q hq => ?_) (fun q hq => ?_)
      · rw [Disk.opendir, h₁]
        rfl
      · rw [Disk.opendir, h₂]
        rfl
      · rw [h₁] at hq
        cases hq
      · rw [h₂] at hq
        cases hq
    | node h₁ h₂ hshape hanc =>
      obtain ⟨sh, hsh⟩ := Option.isSome_iff_exists.mp (placed_of_walk h₁).isSome
      obtain ⟨n, hn, hnsh⟩ := find_of_shapeAt hsh
      obtain ⟨m, hm, hmsh⟩ := find_of_shapeAt (hshape ▸ hsh)
      by_cases hdir : sh = .dir
      · subst hdir
        have hview : viewable env sys site t₁ v = true := by
          refine (viewable_iff hn).mpr ⟨?_, hanc hpass⟩
          simpa [statusOf, hnsh] using hpass
        obtain ⟨m', hm', -, -, hnames⟩ := find_agree hagree hn hview
        obtain rfl := Option.some.inj (hm.symm.trans hm')
        have hd₁ := enumerateDir_eq hsitepath hsite hn hpass (hanc hpass) loadOwners h₁ hnsh
        have hd₂ := enumerateDir_eq hsitepath hsite hm hpass (hanc hpass) loadOwners h₂ hmsh
        refine .inr ⟨⟨_, hd₁⟩, fun hlinks => ⟨_, _, hd₁, hd₂, ?_, ?_, ?_, ?_, ?_⟩⟩
        · exact listedEntries_agree hagree hlinks loadOwners hnames
        · exact (kBytes_eq hsitepath hsite hn h₁ hpass).symm
        · exact (kBytes_eq hsitepath hsite hm h₂ hpass).symm
        · exact fun de hde => entryShared_of_mem hagree hpass (hanc hpass) hn hde
        · exact fun s hs hchild => mem_listedEntries loadOwners hn hs hchild
      · have hnot : ∀ {t : Disk} {x : Node Seg Attr Str}, t.place true (text (site ++ v)) = some (site ++ v) →
            t.find (site ++ v) = some x → x.shape = sh → t.opendir (text (site ++ v)) = .error .ENOTDIR := by
          intro t x hplace hx hxsh
          rw [Disk.opendir, hplace, Option.bind_some, hx]
          cases x with
          | dir attr entries => exact absurd hxsh.symm hdir
          | leaf regular attr => rfl
          | link attr target => rfl
        refine herror .ENOTDIR .ENOTDIR (hnot h₁ hn hnsh) (hnot h₂ hm hmsh) (fun q hq => ?_) (fun q hq => ?_)
        · rw [h₁] at hq
          cases hq
          rw [Tree.IsDir, hsh]
          exact fun h => hdir (Option.some.inj h)
        · rw [h₂] at hq
          cases hq
          rw [Tree.IsDir, ← hshape, hsh]
          exact fun h => hdir (Option.some.inj h)

theorem readdir_alike (rt : Runtime) (options : ListOptions) :
    BothRead env sys site t₁ t₂ v (readdir env sys rt t₁ options (text v))
      (readdir env sys rt t₂ options (text v)) := by
  have halike := enumerateDir_alike hsitepath hsite hagree hshared (!options.noOwners && !options.sizeName)
  unfold readdir
  rcases halike with ⟨e₁, e₂, h₁, h₂, hnothing⟩ | ⟨⟨d₁, h₁⟩, hlinked⟩
  · exact .inl ⟨e₁, e₂, by rw [h₁], by rw [h₂], hnothing⟩
  · refine .inr ⟨⟨{ d₁ with entries := rt.sort options.less d₁.entries }, by rw [h₁]⟩, fun hlinks => ?_⟩
    obtain ⟨d₁, d₂, h₁, h₂, halike⟩ := hlinked hlinks
    refine ⟨{ d₁ with entries := rt.sort options.less d₁.entries },
      { d₂ with entries := rt.sort options.less d₂.entries }, by rw [h₁], by rw [h₂], ?_, halike.total₁,
      halike.total₂, ?_, ?_⟩
    · simp only [halike.entries]
    · intro de hde
      exact halike.shared de ((rt.sort_perm _ _).mem_iff.mp hde)
    · intro s hs hdir
      obtain ⟨de, hde, hentry⟩ := halike.complete s hs hdir
      exact ⟨de, (rt.sort_perm _ _).mem_iff.mpr hde, hentry⟩

end Read

/-! ## The listing in both trees -/

/-- Two messages that differ in their totals at most. -/
structure MessageAlike (options : ListOptions) (total₁ total₂ : Str → Nat) (m₁ m₂ : Message) : Prop where
  path : m₁.path = m₂.path
  head : m₁.head = m₂.head
  lines : m₁.lines = m₂.lines
  total₁ : m₁.total = if options.longFormat then some (total₁ m₁.path) else none
  total₂ : m₂.total = if options.longFormat then some (total₂ m₂.path) else none

structure ListingAlike (options : ListOptions) (total₁ total₂ : Str → Nat) (l₁ l₂ : Listing) : Prop where
  messages : List.Forall₂ (MessageAlike options total₁ total₂) l₁.messages l₂.messages
  ending : l₁.ending = l₂.ending

section Sequence

variable {options : ListOptions} {total₁ total₂ : Str → Nat}

/-- Listings one after the other, as far as they go. -/
theorem sequence_alike {ls₁ ls₂ : List Listing}
    (h : List.Forall₂ (ListingAlike options total₁ total₂) ls₁ ls₂) :
    ListingAlike options total₁ total₂ (.sequence ls₁) (.sequence ls₂) := by
  induction h with
  | nil => exact ⟨.nil, rfl⟩
  | @cons l₁ l₂ ls₁ ls₂ hl _ ih =>
    rw [Listing.sequence, Listing.sequence, ← hl.ending]
    split
    · exact ⟨List.rel_append hl.messages ih.messages, ih.ending⟩
    · exact ⟨hl.messages, rfl⟩

theorem sequence_ending {ls : List Listing} (h : (Listing.sequence ls).ending = .done) :
    ∀ l ∈ ls, l.ending = .done := by
  induction ls with
  | nil => exact List.forall_mem_nil _
  | cons l ls ih =>
    rw [Listing.sequence] at h
    split at h
    · rename_i hl
      exact List.forall_mem_cons.mpr ⟨hl, ih h⟩
    · rename_i hl
      exact absurd h hl

/-- A sequence that comes to its end has every listing in it. -/
theorem sequence_forall {Q : Message → Prop} {ls : List Listing} (h : ∀ l ∈ ls, l.ending = .done) :
    (∀ m ∈ (Listing.sequence ls).messages, Q m) ↔ ∀ l ∈ ls, ∀ m ∈ l.messages, Q m := by
  rw [sequence_messages h, List.forall_mem_flatMap]

end Sequence

section Listing

variable (hsitepath : env.cfg.sitepath = text site) (hsite : site ≠ []) {t₁ t₂ : Disk}
  (rt : Runtime) (options : ListOptions)

include hsitepath hsite in
theorem line_congr {v : List Seg} {de : DirEntry} (h : EntryShared env sys site t₁ t₂ v de) :
    line env rt t₁ options (text v) de = line env rt t₂ options (text v) de := by
  obtain ⟨s, -, hs, hlink, -⟩ := h.name
  have hreal : makeReal env.cfg.sitepath (join (text v) de.path) = text (site ++ (v ++ [s])) := by
    rw [hs, join_text, hsitepath, makeReal_text hsite]
  simp only [line, hreal, hlink]

include hsitepath hsite in
theorem message_alike {v : List Seg} {d₁ d₂ : DirEnumerator} (h : ReadAlike env sys site t₁ t₂ v d₁ d₂)
    (masks : List Str) (depth : Nat) :
    MessageAlike options (kBytes env sys t₁) (kBytes env sys t₂)
      (message env rt t₁ options (text v) masks depth d₁)
      (message env rt t₂ options (text v) masks depth d₂) where
  path := rfl
  head := rfl
  lines := by
    simp only [message, ← h.entries]
    split
    · refine List.flatMap_congr fun de hde => ?_
      exact line_congr hsitepath hsite rt options (h.shared de (List.mem_filter.mp hde).1)
    · rfl
  total₁ := by simp only [message, h.total₁]
  total₂ := by simp only [message, h.total₂]

/-- A reading finds the directories to go into, and each is in both trees. -/
theorem subdirectories_forall {v : List Seg} {d₁ d₂ : DirEnumerator}
    (h : ReadAlike env sys site t₁ t₂ v d₁ d₂) (mask : Str) {P : Str → Prop} :
    (∀ de ∈ subdirectories env options mask d₁, P de.path) ↔
      ∀ s ∈ subdirNames env sys site t₁ options mask v, P s.val := by
  constructor
  · intro hP s hs
    obtain ⟨hshown, hkind⟩ := List.mem_filter.mp hs
    simp only [Bool.and_eq_true, decide_eq_true_eq] at hkind
    obtain ⟨de, hde, hname, hdir, hlink⟩ := h.complete s hshown hkind.1
    rw [← hname]
    refine hP de (List.mem_filter.mpr ⟨hde, ?_⟩)
    simp only [hdir, hlink, hname, hkind.2, Bool.not_false, Bool.and_self]
  · intro hP de hde
    obtain ⟨hmem, hkind⟩ := List.mem_filter.mp hde
    obtain ⟨s, hshown, hname, -, hdir⟩ := (h.shared de hmem).name
    simp only [Bool.and_eq_true, Bool.not_eq_true', hname] at hkind
    obtain ⟨hchild, -⟩ := hdir hkind.1.1 hkind.1.2
    rw [hname]
    refine hP s (List.mem_filter.mpr ⟨hshown, ?_⟩)
    simp only [hchild, hkind.2, decide_true, Bool.and_self]

theorem subdirNames_shared {v : List Seg} {d₁ d₂ : DirEnumerator}
    (h : ReadAlike env sys site t₁ t₂ v d₁ d₂) {mask : Str} {s : Seg}
    (hs : s ∈ subdirNames env sys site t₁ options mask v) : Shared env sys site t₁ t₂ (v ++ [s]) := by
  obtain ⟨hshown, hkind⟩ := List.mem_filter.mp hs
  simp only [Bool.and_eq_true, decide_eq_true_eq] at hkind
  obtain ⟨de, hde, hname, hdir, hlink⟩ := h.complete s hshown hkind.1
  obtain ⟨s', -, hname', -, hshared⟩ := (h.shared de hde).name
  obtain rfl : s' = s := Seg.ext (hname'.symm.trans hname)
  exact (hshared hdir hlink).2

variable (maxRecursion : Int)

include hsitepath hsite in
/-- Where the links in the directories that are listed are open, a listing differs in its totals at most. -/
theorem listPath_alike (hagree : Agree env sys site t₁ t₂) (fuel : Nat) :
    ∀ (v : List Seg) (masks : List Str) (depth : Nat), Shared env sys site t₁ t₂ v →
      (∀ w ∈ listedDirs env sys site t₁ options maxRecursion fuel v masks depth,
        LinksOpen env sys site t₁ w) →
      ListingAlike options (kBytes env sys t₁) (kBytes env sys t₂)
        (listPath env sys rt t₁ options maxRecursion fuel (text v) masks depth)
        (listPath env sys rt t₂ options maxRecursion fuel (text v) masks depth) := by
  induction fuel with
  | zero => exact fun _ _ _ _ _ => ⟨.nil, rfl⟩
  | succ fuel ih =>
    intro v masks depth hshared hlinks
    rw [listPath, listPath]
    split
    · exact ⟨.nil, rfl⟩
    · rename_i hdepth
      rw [listedDirs, if_neg hdepth] at hlinks
      rcases readdir_alike hsitepath hsite hagree hshared rt options with
        ⟨e₁, e₂, h₁, h₂, -⟩ | ⟨-, hlinked⟩
      · rw [h₁, h₂]
        exact ⟨.nil, rfl⟩
      · obtain ⟨d₁, d₂, h₁, h₂, halike⟩ := hlinked (hlinks v List.mem_cons_self)
        have hmessage := message_alike hsitepath hsite rt options halike masks depth
        rw [h₁, h₂]
        simp only
        split
        · rename_i hdown
          simp only [if_pos hdown] at hlinks
          refine sequence_alike (.cons ⟨.cons hmessage .nil, rfl⟩ ?_)
          have hsub : subdirectories env options (masks.head?.getD []) d₂ =
              subdirectories env options (masks.head?.getD []) d₁ := by
            simp only [subdirectories, halike.entries]
          rw [hsub, List.forall₂_map_left_iff, List.forall₂_map_right_iff, List.forall₂_same]
          refine (subdirectories_forall options halike _ (P := fun name =>
            ListingAlike options (kBytes env sys t₁) (kBytes env sys t₂)
              (listPath env sys rt t₁ options maxRecursion fuel (join (text v) name) masks.tail (depth + 1))
              (listPath env sys rt t₂ options maxRecursion fuel (join (text v) name) masks.tail (depth + 1)))
            ).mpr fun s hs => ?_
          rw [join_text]
          exact ih (v ++ [s]) masks.tail (depth + 1) (subdirNames_shared options halike hs) fun w hw =>
            hlinks w (List.mem_cons_of_mem v (List.mem_flatMap.mpr ⟨s, hs, hw⟩))
        · exact ⟨.cons hmessage .nil, rfl⟩

include hsitepath hsite in
/-- The totals of a listing that comes to its end are those of the directories that it asks for. -/
theorem listPath_totals (hagree : Agree env sys site t₁ t₂) (fuel : Nat) :
    ∀ (v : List Seg) (masks : List Str) (depth : Nat), Shared env sys site t₁ t₂ v →
      (∀ w ∈ listedDirs env sys site t₁ options maxRecursion fuel v masks depth,
        LinksOpen env sys site t₁ w) →
      (listPath env sys rt t₁ options maxRecursion fuel (text v) masks depth).ending = .done →
      ((∀ m ∈ (listPath env sys rt t₁ options maxRecursion fuel (text v) masks depth).messages,
          kBytes env sys t₁ m.path = kBytes env sys t₂ m.path) ↔
        ∀ w ∈ listedDirs env sys site t₁ options maxRecursion fuel v masks depth,
          kBytes env sys t₁ (text w) = kBytes env sys t₂ (text w)) := by
  induction fuel with
  | zero => exact fun _ _ _ _ _ hdone => by cases hdone
  | succ fuel ih =>
    intro v masks depth hshared hlinks hdone
    rw [listPath] at hdone ⊢
    rw [listedDirs] at hlinks ⊢
    split
    · exact iff_of_true (List.forall_mem_nil _) (List.forall_mem_nil _)
    · rename_i hdepth
      rw [if_neg hdepth] at hlinks hdone
      rcases readdir_alike hsitepath hsite hagree hshared rt options with
        ⟨e₁, e₂, h₁, -, hnothing, htotal⟩ | ⟨-, hlinked⟩
      · simp [h₁, subdirNames, hnothing, htotal]
      · obtain ⟨d₁, d₂, h₁, -, halike⟩ := hlinked (hlinks v List.mem_cons_self)
        rw [h₁] at hdone ⊢
        simp only at hdone ⊢
        split
        · rename_i hdown
          rw [if_pos hdown] at hdone
          simp only [if_pos hdown] at hlinks
          have hends := sequence_ending hdone
          rw [sequence_forall hends]
          rw [List.forall_mem_cons, List.forall_mem_map] at hends ⊢
          have hsubEnds := (subdirectories_forall options halike _ (P := fun name => (listPath env sys rt t₁
            options maxRecursion fuel (join (text v) name) masks.tail (depth + 1)).ending = .done)).mp hends.2
          have hsubTotals := subdirectories_forall options halike (masks.head?.getD []) (P := fun name =>
            ∀ m ∈ (listPath env sys rt t₁ options maxRecursion fuel (join (text v) name) masks.tail
              (depth + 1)).messages, kBytes env sys t₁ m.path = kBytes env sys t₂ m.path)
          rw [hsubTotals, List.forall_mem_singleton, List.forall_mem_cons, List.forall_mem_flatMap]
          refine and_congr_right fun _ => forall₂_congr fun s hs => ?_
          rw [join_text]
          refine ih (v ++ [s]) masks.tail (depth + 1) (subdirNames_shared options halike hs) (fun w hw =>
            hlinks w (List.mem_cons_of_mem v (List.mem_flatMap.mpr ⟨s, hs, hw⟩))) ?_
          rw [← join_text]
          exact hsubEnds s hs
        · rw [List.forall_mem_singleton, List.forall_mem_singleton]
          rfl

end Listing

/-! ## The bytes -/

theorem toDigits_cr_inj {a b : Nat} {x y : Str} :
    Nat.toDigits 10 a ++ '\r' :: x = Nat.toDigits 10 b ++ '\r' :: y ↔ a = b ∧ x = y := by
  have hfree : ∀ n, '\r' ∉ Nat.toDigits 10 n := by
    intro n h
    have hdigit := Nat.isDigit_of_mem_toDigits (by decide) (by decide) h
    revert hdigit
    decide
  rw [Seg.cut_inj (hfree a) (hfree b)]
  refine and_congr_left fun _ => ⟨fun hdigits => ?_, fun h => h ▸ rfl⟩
  have := congrArg (Nat.ofDigitChars 10 · 0) hdigits
  simpa only [Nat.ofDigitChars_ten_toDigits] using this

section Bytes

variable {options : ListOptions} {total₁ total₂ : Str → Nat}

/-- Two messages are told apart by their totals. -/
theorem str_append_inj {m₁ m₂ : Message} (h : MessageAlike options total₁ total₂ m₁ m₂) {r₁ r₂ : Str} :
    m₁.str ++ r₁ = m₂.str ++ r₂ ↔
      (options.longFormat = true → total₁ m₁.path = total₂ m₁.path) ∧ r₁ = r₂ := by
  simp only [Message.str, Message.totalLine, h.head, h.lines, h.total₁, h.total₂, ← h.path]
  cases options.longFormat with
  | false => simp
  | true =>
    simp only [if_true, List.append_assoc, List.append_cancel_left_eq, forall_const]
    simp only [show "\r\n".toList = ['\r', '\n'] from rfl, List.cons_append, List.nil_append, toDigits_cr_inj]
    simp

theorem bytes_inj {l₁ l₂ : Listing} (h : ListingAlike options total₁ total₂ l₁ l₂) :
    l₁.bytes = l₂.bytes ↔
      (options.longFormat = true → ∀ m ∈ l₁.messages, total₁ m.path = total₂ m.path) := by
  obtain ⟨messages₁, ending₁⟩ := l₁
  obtain ⟨messages₂, ending₂⟩ := l₂
  have hmessages : List.Forall₂ _ messages₁ messages₂ := h.messages
  clear h
  unfold Listing.bytes
  induction hmessages with
  | nil => simp
  | cons hm _ ih =>
    simp only at ih
    simp only [List.flatMap_cons, str_append_inj hm, ih, List.forall_mem_cons]
    tauto

end Bytes

/-! ## What a listing reveals -/

variable (env sys site) in
/-- The directory `w` is one that a listing of the user's path asks for. -/
def Lists (t : Disk) (options : ListOptions) (maxRecursion : Int) (wd path : Str) (fuel : Nat)
    (w : List Seg) : Prop :=
  ∃ v masks, splitPath env t wd path = .ok (text v, masks) ∧
    w ∈ listedDirs env sys site t options maxRecursion fuel v masks 1

variable (env sys site) in
/-- Nothing hidden is in the way of the argument, nor of a link in a directory that is listed. -/
structure Unhidden (options : ListOptions) (maxRecursion : Int) (wd path : Str) (fuel : Nat) (t : Disk) :
    Prop where
  argument : ∀ q ∈ splitAsked env t wd path, IsOpen env sys site t q
  links : ∀ w, Lists env sys site t options maxRecursion wd path fuel w → LinksOpen env sys site t w

/-- On the way to a node through open names the ancestors pass. -/
theorem ancestors_of_open {t : Disk} {v : List Seg}
    (h : ∀ p, p ≠ [] → p <+: site ++ v → IsOpen env sys site t p) (hsite : site ≠ []) :
    ancestorsPass env sys v = true := by
  rw [ancestorsPass_iff]
  intro a ha hne hin
  rcases h (site ++ a) (by simp [hsite]) ((List.prefix_append_right_inj site).mpr ha) with
    ⟨w, hw, hdir, -, -⟩ | ⟨w, hview, hpre, hneq⟩
  · rw [List.append_cancel_left hw]
    exact hdir
  · have hanc := ancestorsPass_iff.mp (viewable_ancestors hview)
    exact hanc a ((List.prefix_append_right_inj site).mp hpre) (fun h => hneq (h ▸ rfl)) hin

section Execute

variable (hsitepath : env.cfg.sitepath = text site) (hsite : site ≠ []) {t₁ t₂ : Disk}
  (hagree : Agree env sys site t₁ t₂) {wd : List Seg}

include hsitepath hsite hagree

/-- A text of the user leads to the same in both trees. -/
theorem fromUser_shared {x virt : Str}
    (h : ∀ q ∈ t₁.asked env.cfg.sitepath (text wd) x, IsOpen env sys site t₁ q)
    (hvirt : fromUser env t₁ (text wd) x = .ok virt) :
    ∃ v, virt = text v ∧ Shared env sys site t₁ t₂ v := by
  have hvirt₂ : fromUser env t₂ (text wd) x = .ok virt := fromUser_agree hagree h ▸ hvirt
  have hasked := asked_agree hagree h
  rw [fromUser, hsitepath] at hvirt hvirt₂
  rw [hsitepath] at h hasked
  obtain ⟨v, rfl, hplace₁⟩ := pathFromUser_place hsite hvirt
  obtain ⟨v', htext, hplace₂⟩ := pathFromUser_place hsite hvirt₂
  obtain rfl := text_inj htext
  -- the path of a node on the way to which all names are open is one in the other tree
  have hnode : ∀ {t t' : Disk}, t.place true (text (site ++ v)) = some (site ++ v) →
      t.shapeAt (site ++ v) = t'.shapeAt (site ++ v) → t'.place true (text (site ++ v)) = some (site ++ v) := by
    intro t t' hplace hshape
    have hplaced := placed_of_walk hplace
    obtain ⟨sh, hsh⟩ := Option.isSome_iff_exists.mp hplaced.isSome
    refine place_text (hshape ▸ hsh) fun _ target heq => ?_
    exact hplaced.followed rfl target (heq ▸ hsh)
  have hself : site ++ v ≠ [] := by simp [hsite]
  refine ⟨v, rfl, ?_⟩
  rcases hplace₁ with hnone₁ | ⟨hsome₁, hlooked⟩
  · rcases hplace₂ with hnone₂ | ⟨hsome₂, hlooked⟩
    · exact .nothing hnone₁ hnone₂
    · have hopen := h _ (hasked ▸ hlooked (site ++ v) hself List.prefix_rfl)
      have hsome := hnode hsome₂ (shapeAt_agree hagree hopen).symm
      rw [hsome] at hnone₁
      cases hnone₁
  · have hopen : ∀ p, p ≠ [] → p <+: site ++ v → IsOpen env sys site t₁ p := fun p hp hpre =>
      h p (hlooked p hp hpre)
    have hshape := shapeAt_agree hagree (hopen (site ++ v) hself List.prefix_rfl)
    exact .node hsome₁ (hnode hsome₁ hshape) hshape fun _ => ancestors_of_open hopen hsite

/-- What the listing starts from. -/
theorem splitPath_shared {path parent : Str} {masks : List Str}
    (h : ∀ q ∈ splitAsked env t₁ (text wd) path, IsOpen env sys site t₁ q)
    (hsplit : splitPath env t₁ (text wd) path = .ok (parent, masks)) :
    ∃ v, parent = text v ∧ Shared env sys site t₁ t₂ v := by
  obtain ⟨x, hx, hasked⟩ := splitPath_ok hsplit
  exact fromUser_shared hsitepath hsite hagree (fun q hq => h q (hasked q hq)) hx

variable {rt : Runtime} {options : ListOptions} {maxRecursion : Int} {path : Str} {fuel : Nat}
  (h : Unhidden env sys site options maxRecursion (text wd) path fuel t₁)

include h

theorem execute_alike :
    ListingAlike options (kBytes env sys t₁) (kBytes env sys t₂)
      (execute env sys rt t₁ options maxRecursion (text wd) fuel path)
      (execute env sys rt t₂ options maxRecursion (text wd) fuel path) := by
  unfold execute
  rw [← splitPath_agree hagree h.argument]
  split
  · exact ⟨.nil, rfl⟩
  · rename_i parent masks hsplit
    obtain ⟨v, rfl, hshared⟩ := splitPath_shared hsitepath hsite hagree h.argument hsplit
    exact listPath_alike hsitepath hsite rt options maxRecursion hagree fuel v masks 1 hshared
      fun w hw => h.links w ⟨v, masks, hsplit, hw⟩

theorem execute_totals (hfuel : t₁.root.height < fuel) :
    (∀ m ∈ (execute env sys rt t₁ options maxRecursion (text wd) fuel path).messages,
        kBytes env sys t₁ m.path = kBytes env sys t₂ m.path) ↔
      ∀ w, Lists env sys site t₁ options maxRecursion (text wd) path fuel w →
        kBytes env sys t₁ (text w) = kBytes env sys t₂ (text w) := by
  unfold execute
  split
  · rename_i e hsplit
    refine iff_of_true (List.forall_mem_nil _) ?_
    rintro w ⟨v, masks, heq, -⟩
    rw [hsplit] at heq
    cases heq
  · rename_i parent masks hsplit
    obtain ⟨v, rfl, hshared⟩ := splitPath_shared hsitepath hsite hagree h.argument hsplit
    have hlisted : ∀ w, Lists env sys site t₁ options maxRecursion (text wd) path fuel w ↔
        w ∈ listedDirs env sys site t₁ options maxRecursion fuel v masks 1 := by
      refine fun w => ⟨?_, fun hw => ⟨v, masks, hsplit, hw⟩⟩
      rintro ⟨v', masks', heq, hw⟩
      rw [hsplit] at heq
      simp only [Except.ok.injEq, Prod.mk.injEq] at heq
      rw [text_inj heq.1, heq.2]
      exact hw
    simp only [hlisted]
    exact listPath_totals hsitepath hsite rt options maxRecursion hagree fuel v masks 1 hshared
      (fun w hw => h.links w ((hlisted w).mpr hw))
      (listPath_total hsitepath hsite hfuel v masks 1)

end Execute

/-! ## A hidden file -/

def segSite : Seg := ⟨"site".toList, by decide⟩

def segA : Seg := ⟨"a".toList, by decide⟩

def segSecret : Seg := ⟨"secret".toList, by decide⟩

/-- A file `secret` of the site is hidden. -/
def exampleHiding : Env where
  cfg :=
    { sitepath := "/site".toList
      hiddenFiles := [⟨"/".toList, ["secret".toList]⟩]
      tlsControl := ACL.fromString "!*".toList
      maxOnline := ⟨10, 0⟩
      wildcardMatch := fun mask text => decide (mask = text) }
  user := { id := 1, name := "alice".toList }
  gidToName := fun _ => "site".toList

def exampleSystem : Sys where
  realpath := some
  status _ := .error .ENOENT
  readdir _ := .ok []
  ownerUID _ := 0

def exampleRuntime : Runtime where
  uidToName _ := "root".toList
  timestamp _ := "Jan 01 00:00".toList
  sort less entries := entries.insertionSort fun a b => less b a = false
  sort_perm _ entries := List.perm_insertionSort _ entries

def exampleFile (size : Nat) : Node Seg Attr Str := .leaf true ⟨420, 1, size, 0, 0, 0⟩

/-- A site with a file `a` of two kilobytes, and the hidden file or none. -/
def exampleTree (secret : List (Seg × Node Seg Attr Str)) : Disk :=
  ⟨⟨493, 3, 4096, 0, 0, 0⟩,
    [(segSite, .dir ⟨493, 2, 4096, 0, 0, 0⟩ ((segA, exampleFile 2048) :: secret))]⟩

def exampleListing (secret : List (Seg × Node Seg Attr Str)) (path : Str) : Listing :=
  execute exampleHiding exampleSystem exampleRuntime (exampleTree secret)
    (.ofStrings "l".toList []) 0 (text []) 5 path


end DirectoryList
end Cmd
end Ebftpd
