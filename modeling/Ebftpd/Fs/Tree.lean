import Ebftpd.Acl.User
import Ebftpd.Fs.Path
import Ebftpd.Lib.FileTree

/-!
# Ebftpd.Fs.Tree

What the calls of the operating system answer on a file tree: `realpath(3)`, the `Status` of a path
(`util/util/path/status.cpp`), `opendir(3)` and `readdir_r(3)`, `Readlink` (`util/util/path/path.cpp`) and
`GetOwner` (`src/fs/owner.cpp`).

* `place_text`: the path of a node leads to it.
* `pathFromUser_place`: a virtual path made from a user's text is the path of a node that is no link, or
  of nothing.
-/

namespace Ebftpd
namespace Fs

open Util Util.Path Lib Lib.Seg Lib.FileTree Acl

/-- A name that a file can have. -/
@[ext]
structure Seg where
  val : Str
  good : GoodSeg val
  deriving DecidableEq

/-- The path of a node. -/
def text (q : List Seg) : Str := rooted '/' (q.map Seg.val)

def absPath (q : List Seg) : AbsPath where
  segs := q.map Seg.val
  good := by
    intro s hs
    obtain ⟨x, _, rfl⟩ := List.mem_map.mp hs
    exact x.good

def stepOf (s : Str) : Step Seg :=
  if h : GoodSeg s then .down ⟨s, h⟩ else if s = "..".toList then .up else .stay

def steps (path : Str) : List (Step Seg) :=
  ((if path.head? = some '/' then path.tail else path).splitOn '/').map stepOf

def target (path : Str) : Target Seg := ⟨path.head? == some '/', steps path⟩

/-- What `lstat(2)` tells about a node beside its kind, and the owner in the attributes of the file. -/
structure Attr where
  mode : Nat
  nlink : Nat
  size : Nat
  modTime : Int
  uid : UserID := 0
  gid : GroupID := 0

abbrev Disk := Tree Seg Attr Str

/-- Links within links are followed to this depth. -/
def maxSymLinks : Nat := 40

/-- The names that are looked up for a path, and the place it leads to. -/
def Disk.walk (t : Disk) (follow : Bool) (path : Str) : Walk Seg :=
  FileTree.walk target t maxSymLinks follow [] (steps path)

def Disk.place (t : Disk) (follow : Bool) (path : Str) : Option (List Seg) := (t.walk follow path).2

def Disk.realpath (t : Disk) : Realpath := fun path => (t.place true path).map text

structure Status where
  attr : Attr
  isSymLink : Bool
  isDirectory : Bool
  isRegularFile : Bool

/-- The status of a node; `linked` is what a link leads to. -/
def statusOf (n : Node Seg Attr Str) (linked : Option (Shape Str)) : Status :=
  match n.shape with
  | .leaf regular => ⟨n.attr, false, false, regular⟩
  | .dir => ⟨n.attr, false, true, false⟩
  | .link _ => ⟨n.attr, true, decide (linked = some .dir), decide (linked = some (.leaf true))⟩

/-- `Status(path)`, or no status where `lstat` fails. Where the `stat` of a link fails the constructor goes
on, with what happened to be in the buffer: here nothing. -/
def Disk.status (t : Disk) (path : Str) : Option Status :=
  ((t.place false path).bind t.find).map fun n => statusOf n ((t.place true path).bind t.shapeAt)

def Disk.opendir (t : Disk) (path : Str) : Except Errno (List Str) :=
  match (t.place true path).bind t.find with
  | none => .error .ENOENT
  | some (.dir _ entries) => .ok (entries.map fun e => e.1.val)
  | some _ => .error .ENOTDIR

def Disk.readlink (t : Disk) (path : Str) : Option Str :=
  match (t.place false path).bind t.find with
  | some (.link _ dest) => some dest
  | _ => none

structure Owner where
  uid : UserID
  gid : GroupID

/-- `GetOwner`; `getxattr` follows links. -/
def Disk.getOwner (t : Disk) (path : Str) : Owner :=
  match (t.place true path).bind t.find with
  | some n => ⟨n.attr.uid, n.attr.gid⟩
  | none => ⟨0, 0⟩

/-! ## Paths of nodes -/

theorem text_eq (q : List Seg) : text q = (absPath q).str := rfl

theorem text_of_ne_nil {q : List Seg} (h : q ≠ []) : text q = glue '/' (q.map Seg.val) :=
  rooted_of_ne_nil (mt List.map_eq_nil_iff.mp h)

theorem exists_text (p : AbsPath) : ∃ q : List Seg, p.str = text q := by
  refine ⟨p.segs.attach.map fun s => ⟨s.1, p.good s.1 s.2⟩, ?_⟩
  simp [text, AbsPath.str]

theorem text_inj {p q : List Seg} (h : text p = text q) : p = q := by
  have hparts : (absPath p).segs = (absPath q).segs := by
    have hdrop := congrArg dropSlash h
    rw [text_eq, text_eq, dropSlash_str, dropSlash_str] at hdrop
    exact glue_inj (absPath p).sepFree (absPath q).sepFree hdrop
  exact List.map_injective_iff.mpr (fun _ _ => Seg.ext) hparts

theorem join_text (q : List Seg) (s : Seg) : join (text q) s.val = text (q ++ [s]) := by
  rw [text_eq, join_str_name _ s.good.ne_nil s.good.no_slash, text_of_ne_nil (by simp), List.map_append]
  rfl

theorem stepOf_seg (s : Seg) : stepOf s.val = .down s := by
  rw [stepOf, dif_pos s.good]

theorem glue_eq_intercalate (s : Str) (L : List Str) : s ++ glue '/' L = ['/'].intercalate (s :: L) := by
  induction L generalizing s with
  | nil => simp
  | cons t L ih => simp [glue, ih, List.intercalate]

theorem steps_text {q : List Seg} (hq : q ≠ []) : steps (text q) = q.map .down := by
  cases q with
  | nil => exact absurd rfl hq
  | cons s q =>
    have hfree : ∀ t ∈ (s :: q).map Seg.val, '/' ∉ t := (absPath (s :: q)).sepFree
    have htext : text (s :: q) = '/' :: (s.val ++ glue '/' (q.map Seg.val)) := rfl
    have hsplit : (['/'].intercalate ((s :: q).map Seg.val)).splitOn '/' = (s :: q).map Seg.val :=
      List.splitOn_intercalate '/' hfree (by simp)
    rw [List.map_cons, ← glue_eq_intercalate] at hsplit
    simp only [steps, htext, List.head?_cons, if_true, List.tail_cons, hsplit]
    rw [← List.map_cons, List.map_map]
    exact List.map_congr_left fun x _ => stepOf_seg x

theorem steps_root : steps (text []) = [.stay] := by decide

section Place

variable {t : Disk}

theorem place_eq (follow : Bool) (q : List Seg) :
    t.place follow (text q) = (FileTree.walk target t maxSymLinks follow [] (q.map .down)).2 := by
  by_cases hq : q = []
  · subst hq
    rw [Disk.place, Disk.walk, steps_root]
    rfl
  · rw [Disk.place, Disk.walk, steps_text hq]

theorem dir_ne_link (target : Str) : (Shape.dir : Shape Str) ≠ .link target := by
  intro h
  cases h

/-- The path of a node leads to it. -/
theorem place_text {follow : Bool} {q : List Seg} {sh : Shape Str} (h : t.shapeAt q = some sh)
    (hlink : follow = true → ∀ target, sh ≠ .link target) : t.place follow (text q) = some q := by
  rw [place_eq]
  exact walk_self 39 [] q h hlink

theorem place_child (follow : Bool) (q : List Seg) (s : Seg) :
    t.place follow (text (q ++ [s])) = (t.place true (text q)).bind fun q' =>
      if t.IsDir q' then (FileTree.walk target t maxSymLinks follow q' [.down s]).2 else none := by
  rw [place_eq, place_eq, List.map_append]
  exact walk_append 39 t.root_isDir (q.map .down) (by simp)

theorem placed_of_walk {follow : Bool} {path : Str} {q : List Seg} (h : t.place follow path = some q) :
    Placed t follow [] (t.walk follow path) q := walk_place maxSymLinks t.root_isDir h

/-- A place behind the followed links leads to itself. -/
theorem place_again {path : Str} {q : List Seg} (h : t.place true path = some q) :
    t.place true (text q) = some q := by
  have hplaced := placed_of_walk h
  obtain ⟨sh, hsh⟩ := Option.isSome_iff_exists.mp hplaced.isSome
  refine place_text hsh fun _ target heq => ?_
  exact hplaced.followed rfl target (heq ▸ hsh)

theorem find_of_shapeAt {q : List Seg} {sh : Shape Str} (h : t.shapeAt q = some sh) :
    ∃ n, t.find q = some n ∧ n.shape = sh := Option.map_eq_some_iff.mp h

theorem shapeAt_of_find {q : List Seg} {n : Node Seg Attr Str} (h : t.find q = some n) :
    t.shapeAt q = some n.shape := Option.map_eq_some_iff.mpr ⟨n, h, rfl⟩

theorem status_text {q : List Seg} {n : Node Seg Attr Str} (h : t.find q = some n) :
    t.status (text q) = some (statusOf n ((t.place true (text q)).bind t.shapeAt)) := by
  have hplace : t.place false (text q) = some q := place_text (shapeAt_of_find h) fun hf => nomatch hf
  rw [Disk.status, hplace, Option.bind_some, h]
  rfl

theorem status_of_none {q : List Seg} (h : t.place false (text q) = none) : t.status (text q) = none := by
  rw [Disk.status, h]
  rfl

theorem statusOf_attr (n : Node Seg Attr Str) (linked : Option (Shape Str)) :
    (statusOf n linked).attr = n.attr := by
  unfold statusOf
  cases n.shape <;> rfl

theorem isDir_of_status {n : Node Seg Attr Str} {linked : Option (Shape Str)}
    (hdir : (statusOf n linked).isDirectory = true) (hlink : (statusOf n linked).isSymLink = false) :
    n.shape = .dir := by
  unfold statusOf at hdir hlink
  cases h : n.shape with
  | leaf regular => simp [h] at hdir
  | link target => simp [h] at hlink
  | dir => rfl

theorem isDir_status_iff {n : Node Seg Attr Str} {linked : Option (Shape Str)} :
    (statusOf n linked).isDirectory = true ∧ (statusOf n linked).isSymLink = false ↔ n.shape = .dir := by
  refine ⟨fun h => isDir_of_status h.1 h.2, fun h => ?_⟩
  simp only [statusOf, h, and_self]

/-- What the entries of a directory have in a status. -/
theorem statusOf_congr {n m : Node Seg Attr Str} {l₁ l₂ : Option (Shape Str)} (hattr : n.attr = m.attr)
    (hshape : n.shape = m.shape) (hlink : ∀ target, n.shape = .link target → l₁ = l₂) :
    statusOf n l₁ = statusOf m l₂ := by
  unfold statusOf
  rw [← hshape, hattr]
  cases h : n.shape with
  | leaf regular => rfl
  | link target => rw [hlink target h]
  | dir => rfl

end Place

/-! ## Virtual paths -/

section Virtual

variable {site : List Seg} (hsite : site ≠ [])

include hsite

theorem makeReal_text (v : List Seg) : makeReal (text site) (text v) = text (site ++ v) := by
  have hs : (absPath site).segs ≠ [] := mt List.map_eq_nil_iff.mp hsite
  rw [text_eq site, text_eq v, makeReal_str hs, ← text_eq site, text_of_ne_nil hsite,
    text_of_ne_nil (by simp [hsite]), List.map_append, glue_append]
  rfl

theorem makeVirtual_text (v : List Seg) : makeVirtual (text site) (text (site ++ v)) = .ok (text v) := by
  have hs : (absPath site).segs ≠ [] := mt List.map_eq_nil_iff.mp hsite
  rw [← makeReal_text hsite]
  exact makeVirtual_makeReal hs (absPath v)

theorem makeVirtual_text_inv {q : List Seg} {virt : Str} (h : makeVirtual (text site) (text q) = .ok virt) :
    ∃ v, q = site ++ v ∧ virt = text v := by
  have hglue := text_of_ne_nil hsite
  by_cases hq : q = []
  · -- the site path is longer than the root
    obtain ⟨rest, hroot, -, -⟩ := makeVirtual_ok h
    obtain ⟨s, site', rfl⟩ := List.exists_cons_of_ne_nil hsite
    have hlen := congrArg List.length hroot
    have hpos := List.length_pos_of_ne_nil s.good.ne_nil
    rw [hq, hglue] at hlen
    simp only [text, List.map_nil, List.map_cons, rooted, glue, List.length_cons, List.length_append,
      List.length_nil] at hlen
    omega
  · rw [text_of_ne_nil hq] at h
    obtain ⟨L₁, L₂, hL, hs, rfl⟩ := makeVirtual_glue (absPath q).sepFree h
    obtain ⟨q₁, q₂, rfl, rfl, rfl⟩ := List.map_eq_append_iff.mp hL
    refine ⟨q₂, ?_, rfl⟩
    rw [hglue] at hs
    have hsegs := glue_inj (absPath site).sepFree (absPath q₁).sepFree hs
    rw [List.map_injective_iff.mpr (fun _ _ => Seg.ext) hsegs]

end Virtual

/-! ## The text of a user -/

/-- The real path that a text of the user stands for, with the links in it not yet followed. -/
def unresolved (sitepath workDirectory path : Str) : Str := append sitepath (resolve (join workDirectory path))

/-- The names that `MakeReal` looks up for a text of the user. -/
def Disk.asked (t : Disk) (sitepath workDirectory path : Str) : List (List Seg) :=
  let p := unresolved sitepath workDirectory path
  match t.place true p with
  | some _ => (t.walk true p).1
  | none => (t.walk true p).1 ++ (t.walk true (dirname p)).1

section Unresolved

variable {site : List Seg} (hsite : site ≠ []) (wd : List Seg) (path : Str)

include hsite

theorem unresolved_text : ∃ w, unresolved (text site) (text wd) path = text (site ++ w) := by
  obtain ⟨p, hp⟩ := resolve_normalised (join_head (absPath wd) path)
  obtain ⟨w, hw⟩ := exists_text p
  refine ⟨w, ?_⟩
  rw [unresolved, text_eq wd, hp, hw, ← makeReal_text hsite]
  rfl

variable {wd path}

/-- A virtual path made from a text of the user is the path of a node that is no link, on the way to which
every name was looked up; or there is nothing at the end of it. -/
theorem pathFromUser_place {t : Disk} {virt : Str}
    (h : pathFromUser (text site) t.realpath (text wd) path = .ok virt) :
    ∃ v, virt = text v ∧
      (t.place true (text (site ++ v)) = none ∨
        t.place true (text (site ++ v)) = some (site ++ v) ∧
          ∀ p, p ≠ [] → p <+: site ++ v → p ∈ t.asked (text site) (text wd) path) := by
  obtain ⟨w, hw⟩ := unresolved_text hsite wd path
  have happend : append (text site) (resolve (join (text wd) path)) = text (site ++ w) := hw
  simp only [pathFromUser, makeVirtualPath, makeRealPath, happend, Disk.realpath] at h
  cases hplace : t.place true (text (site ++ w)) with
  | some q =>
    simp only [hplace, Option.map_some] at h
    obtain ⟨v, rfl, rfl⟩ := makeVirtual_text_inv hsite h
    refine ⟨v, rfl, .inr ⟨place_again hplace, fun p hp hpre => ?_⟩⟩
    rw [Disk.asked, hw, hplace]
    have hplaced := placed_of_walk hplace
    exact (hplaced.looked p hp hpre).resolve_left fun hnil => hp (List.prefix_nil.mp hnil)
  | none =>
    simp only [hplace, Option.map_none] at h
    obtain ⟨M, b, hM⟩ : ∃ M b, site ++ w = M ++ [b] := by
      rcases List.eq_nil_or_concat (site ++ w) with hnil | ⟨M, b, hM⟩
      · exact absurd (List.append_eq_nil_iff.mp hnil).1 hsite
      · exact ⟨M, b, by rw [hM, List.concat_eq_append]⟩
    have hgood : ∀ s ∈ M.map Seg.val ++ [b.val], GoodSeg s := by
      have := (absPath (M ++ [b])).good
      simpa [absPath] using this
    have hglue : text (site ++ w) = glue '/' (M.map Seg.val ++ [b.val]) := by
      rw [hM, text_of_ne_nil (by simp), List.map_append]
      rfl
    rw [hglue, dirname_glue hgood, basename_glue hgood] at h
    cases hdir : t.place true (rooted '/' (M.map Seg.val)) with
    | some q =>
      simp only [hdir, Option.map_some] at h
      rw [join_text] at h
      obtain ⟨v, hv, rfl⟩ := makeVirtual_text_inv hsite h
      refine ⟨v, rfl, .inl ?_⟩
      -- the name is looked up in the same directory
      rw [hM, place_child, show t.place true (text M) = some q from hdir, Option.bind_some] at hplace
      rw [← hv, place_child, place_again hdir, Option.bind_some, hplace]
    | none =>
      simp only [hdir, Option.map_none, ← hglue] at h
      obtain ⟨v, hv, rfl⟩ := makeVirtual_text_inv hsite h
      exact ⟨v, rfl, .inl (hv ▸ hplace)⟩

end Unresolved

end Fs
end Ebftpd
