import Ebftpd.Util.Path
import Ebftpd.Util.Error

/-!
# Ebftpd.Fs.Path

Real and virtual paths (`src/fs/path.cpp`). A virtual path is what the user sees; the real path
is the site path with the virtual path behind it. `PathFromUser` takes a text from the user to a
virtual path: it is joined to the work directory and resolved, mapped to a real path, the links
in it are followed by `Realpath`, and what comes back must lie under the site path again.

The C++ overloads on `Path`, `VirtualPath` and `RealPath` have one name each here:
`makeRealPath` and `makeVirtualPath` take a `Path`, `makeReal` a `VirtualPath`, `makeVirtual` a
`RealPath`. The caches inside a path object hold what these functions return and are left out.

* `makeVirtual_glue`: the prefix test of `MakeVirtual` cuts between two segments.
* `makeVirtualPath_normalised`: whatever the site path is and whatever the links lead to, a virtual
  path that comes back is normalised. The case to see is a path that does not exist yet, where the
  base name is put behind the real directory: a base name `..` could only come from the site path
  itself, and such a site path is no prefix of a real path.
-/

namespace Ebftpd
namespace Fs

open Util Util.Path Lib Lib.Seg

/-- What `realpath(3)` answers for each text; `none` is failure. -/
abbrev Realpath := Str → Option Str

/-- `realpath(3)` returns an absolute path without `.`, `..`, empty segments or trailing slash. -/
def Realpath.Canonical (realpath : Realpath) : Prop :=
  ∀ path dest, realpath path = some dest → Normalised dest

/-- `MakeVirtual(const RealPath&)`. -/
def makeVirtual (sitepath path : Str) : Except Exn Str :=
  let newpath := path.drop sitepath.length
  if sitepath.isPrefixOf path && (newpath.head? == some '/' || path.length == sitepath.length) then
    .ok (if newpath.isEmpty then "/".toList else newpath)
  else .error (.logicError "Path resides outside the site root")

/-- `MakeReal(const VirtualPath&)`. -/
def makeReal (sitepath path : Str) : Str := append sitepath path

/-- `MakeReal(const Path&)`. -/
def makeRealPath (sitepath : Str) (realpath : Realpath) (workDirectory path : Str) : Str :=
  let virt := resolve (join workDirectory path)
  let p := append sitepath virt
  match realpath p with
  | some noSymlinks => noSymlinks
  | none =>
    -- deal with paths that don't exist yet
    match realpath (dirname p) with
    | some noSymlinks => join noSymlinks (basename p)
    | none => p

/-- `MakeVirtual(const Path&)`. -/
def makeVirtualPath (sitepath : Str) (realpath : Realpath) (workDirectory path : Str) :
    Except Exn Str :=
  makeVirtual sitepath (makeRealPath sitepath realpath workDirectory path)

def pathFromUser (sitepath : Str) (realpath : Realpath) (workDirectory path : Str) :
    Except Exn Str :=
  makeVirtualPath sitepath realpath workDirectory path

/-! ## The prefix test -/

theorem makeVirtual_ok {site path v : Str} (h : makeVirtual site path = .ok v) :
    ∃ rest, path = site ++ rest ∧ (rest = [] ∨ ∃ r, rest = '/' :: r) ∧
      v = if rest = [] then "/".toList else rest := by
  simp only [makeVirtual] at h
  split at h
  · rename_i hc
    simp only [Bool.and_eq_true, List.isPrefixOf_iff_prefix, Bool.or_eq_true, beq_iff_eq] at hc
    obtain ⟨⟨rest, rfl⟩, hc⟩ := hc
    simp only [List.drop_left, Except.ok.injEq, List.isEmpty_iff] at h hc
    refine ⟨rest, rfl, ?_, h.symm⟩
    rcases hc with hc | hc
    · cases rest with
      | nil => simp at hc
      | cons c r => exact .inr ⟨r, by simpa using hc⟩
    · left
      simpa using hc
  · cases h

/-- The prefix test of `MakeVirtual` cuts a path between two segments. -/
theorem makeVirtual_glue {site v : Str} {L : List Str} (hL : SepFree '/' L)
    (h : makeVirtual site (glue '/' L) = .ok v) :
    ∃ L₁ L₂, L = L₁ ++ L₂ ∧ site = glue '/' L₁ ∧ v = rooted '/' L₂ := by
  obtain ⟨rest, hg, hr, hv⟩ := makeVirtual_ok h
  obtain ⟨L₁, L₂, hL', hs, hrest⟩ := glue_split hL hg hr
  refine ⟨L₁, L₂, hL', hs, ?_⟩
  rw [hv, hrest]
  cases L₂ with
  | nil => rfl
  | cons s L => simp [rooted, glue]

/-- A path that `realpath` returned comes back normalised. -/
theorem makeVirtual_str {site v : Str} {q : AbsPath} (h : makeVirtual site q.str = .ok v) :
    Normalised v := by
  by_cases hq : q.segs = []
  · refine ⟨AbsPath.root, ?_⟩
    obtain ⟨rest, hg, hr, rfl⟩ := makeVirtual_ok h
    simp only [AbsPath.str, hq, rooted] at hg
    rcases hr with rfl | ⟨r, rfl⟩
    · rfl
    · -- the site path is empty and the real path the root
      have : site = [] ∧ r = [] := by
        cases site with
        | nil => simpa using hg
        | cons c s => simp at hg
      simp [this.2, AbsPath.str, AbsPath.root, rooted]
  · rw [AbsPath.str, rooted_of_ne_nil hq] at h
    obtain ⟨L₁, L₂, hL, _, rfl⟩ := makeVirtual_glue q.sepFree h
    exact ⟨⟨L₂, fun s hs => q.good s (by simp [hL, hs])⟩, rfl⟩

/-- A path that no link was followed for comes back as it was. -/
theorem makeVirtual_append {site v : Str} {p : AbsPath} (h : makeVirtual site (append site p.str) = .ok v) :
    Normalised v := by
  by_cases hs : site = []
  · subst hs
    rw [append_nil_str] at h
    exact makeVirtual_str h
  · rw [append_str hs] at h
    split at h
    · exact makeVirtual_str (q := AbsPath.root) h
    · obtain ⟨rest, hg, hr, rfl⟩ := makeVirtual_ok h
      by_cases hlast : site.getLast? = some '/'
      · -- a trailing slash of the site path is the first slash of the virtual path: then no
        -- slash can follow the site path
        exfalso
        obtain ⟨t, rfl⟩ : ∃ t, site = t ++ ['/'] := by
          rcases List.eq_nil_or_concat site with h0 | ⟨t, c, h0⟩
          · exact absurd h0 hs
          · refine ⟨t, ?_⟩
            simp only [List.concat_eq_append] at h0
            subst h0
            simpa using hlast
        have hd : dropSlash (t ++ ['/']) = t := by simp [dropSlash]
        rw [hd, List.append_assoc, List.append_cancel_left_eq] at hg
        cases hp : p.segs with
        | nil => rw [hp] at hg; simp at hg
        | cons s L =>
          rw [hp] at hg
          have good := p.good s (by simp [hp])
          simp only [glue, List.cons_append, List.nil_append, List.cons.injEq, true_and] at hg
          obtain ⟨c, s', rfl⟩ := List.exists_cons_of_ne_nil good.ne_nil
          rcases hr with rfl | ⟨r, rfl⟩
          · simp at hg
          · simp only [List.cons_append, List.cons.injEq] at hg
            exact good.no_slash (by simp [hg.1])
      · have hd : dropSlash site = site := by simp [dropSlash, hlast]
        rw [hd, List.append_cancel_left_eq] at hg
        refine ⟨p, ?_⟩
        rw [← hg, AbsPath.str]
        cases p.segs with
        | nil => rfl
        | cons s L => simp [rooted, glue]

/-- A name put behind a real directory comes back normalised. -/
theorem makeVirtual_join {site v : Str} {p q : AbsPath}
    (h : makeVirtual site (join q.str (basename (append site p.str))) = .ok v) : Normalised v := by
  rcases basename_slash (append site p.str) with hb | hb
  · -- the whole path is the root
    rw [hb] at h
    have : join q.str "/".toList = AbsPath.root.str := by
      simp [join, AbsPath.str, AbsPath.root, rooted]
    rw [this] at h
    exact makeVirtual_str h
  · by_cases hne : basename (append site p.str) = []
    · rw [hne] at h
      have : join q.str [] = q.str := by simp [join, str_isEmpty]
      rw [this] at h
      exact makeVirtual_str h
    · rw [join_str_name q hne hb] at h
      have hfree : SepFree '/' (q.segs ++ [basename (append site p.str)]) := by
        intro s hs
        rcases List.mem_append.mp hs with hs | hs
        · exact q.sepFree s hs
        · simp only [List.mem_singleton] at hs
          exact hs ▸ hb
      obtain ⟨L₁, L₂, hL, hsite, rfl⟩ := makeVirtual_glue hfree h
      rcases List.eq_nil_or_concat L₂ with rfl | ⟨M, b, rfl⟩
      · exact ⟨AbsPath.root, rfl⟩
      · -- the site path is made of real segments, so the base name is one too
        simp only [List.concat_eq_append] at hL ⊢
        rw [← List.append_assoc] at hL
        obtain ⟨hq, hbase⟩ := List.append_inj' hL rfl
        simp only [List.cons.injEq, and_true] at hbase
        have hgood₁ : ∀ s ∈ L₁ ++ M, GoodSeg s := hq ▸ q.good
        have hL₁ : ∀ s ∈ L₁, GoodSeg s := fun s hs => hgood₁ s (by simp [hs])
        let w : AbsPath := ⟨L₁ ++ p.segs, fun s hs =>
          (List.mem_append.mp hs).elim (hL₁ s) (p.good s)⟩
        have hw : append site p.str = w.str := by rw [hsite, append_glue hL₁]; rfl
        have hbgood : GoodSeg b := by
          rw [← hbase, hw]
          exact basename_good (by rw [← hw]; exact hb)
        refine ⟨⟨M ++ [b], fun s hs => ?_⟩, rfl⟩
        rcases List.mem_append.mp hs with hs | hs
        · exact hgood₁ s (by simp [hs])
        · rw [List.mem_singleton.mp hs]; exact hbgood

/-- Whatever the site path and wherever the links lead, a virtual path made from a user's text is
normalised. -/
theorem makeVirtualPath_normalised {site : Str} {realpath : Realpath} (hreal : realpath.Canonical)
    {wd : Str} (hwd : Normalised wd) {path v : Str}
    (h : makeVirtualPath site realpath wd path = .ok v) : Normalised v := by
  obtain ⟨w, rfl⟩ := hwd
  obtain ⟨p, hp⟩ := resolve_normalised (join_head w path)
  simp only [makeVirtualPath, makeRealPath, hp] at h
  split at h
  · rename_i r hr
    obtain ⟨q, rfl⟩ := hreal _ _ hr
    exact makeVirtual_str h
  · split at h
    · rename_i r hr
      obtain ⟨q, rfl⟩ := hreal _ _ hr
      exact makeVirtual_join h
    · exact makeVirtual_append h

/-! ## Confinement to the site path -/

section Confined

variable {site : AbsPath} (hsite : site.segs ≠ [])

include hsite

theorem makeReal_str (w : AbsPath) : makeReal site.str w.str = site.str ++ glue '/' w.segs := by
  have hs : site.str = glue '/' site.segs := rooted_of_ne_nil hsite
  rw [makeReal, hs, append_glue site.good, rooted_of_ne_nil (by simp [hsite]), glue_append]

theorem makeVirtual_makeReal (w : AbsPath) :
    makeVirtual site.str (makeReal site.str w.str) = .ok w.str := by
  rw [makeReal_str hsite]
  cases hw : w.segs with
  | nil => simp [makeVirtual, AbsPath.str, hw, rooted]
  | cons s L => simp [makeVirtual, AbsPath.str, hw, rooted, glue]

end Confined

/-- A user's text leads to a normalised virtual path under the site path, or to an exception; and
a normalised virtual path survives the way to its real path and back. -/
theorem pathFromUser_confined {sitepath : Str} (hsite : Normalised sitepath)
    (hroot : sitepath ≠ "/".toList) {realpath : Realpath} (hreal : realpath.Canonical)
    {workDirectory : Str} (hwd : Normalised workDirectory) :
    (∀ path v, pathFromUser sitepath realpath workDirectory path = .ok v →
      Normalised v ∧
        (makeReal sitepath v = sitepath ∨ ∃ r, makeReal sitepath v = sitepath ++ '/' :: r)) ∧
    (∀ w, Normalised w → makeVirtual sitepath (makeReal sitepath w) = .ok w) := by
  obtain ⟨site, rfl⟩ := hsite
  have hne : site.segs ≠ [] := by
    intro h
    exact hroot (by simp [AbsPath.str, h, rooted])
  constructor
  · intro path v h
    obtain ⟨w, rfl⟩ := makeVirtualPath_normalised hreal hwd h
    refine ⟨⟨w, rfl⟩, ?_⟩
    rw [makeReal_str hne]
    rcases (glue_nil_or_head w.segs : glue '/' w.segs = [] ∨ _) with hg | ⟨r, hg⟩
    · exact .inl (by rw [hg, List.append_nil])
    · exact .inr ⟨r, by rw [hg]⟩
  · rintro _ ⟨w, rfl⟩
    exact makeVirtual_makeReal hne w

/-- The site `/site` with a directory `pub` and a link `up` in it that leads out of the site. -/
def exampleRealpath : Realpath := fun path =>
  if path = "/site".toList ∨ path = "/site/pub".toList then some path
  else if path = "/site/up".toList then some "/etc".toList
  else none

theorem exampleRealpath_canonical : exampleRealpath.Canonical := by
  intro path dest h
  simp only [exampleRealpath] at h
  split at h
  · rename_i hp
    cases h
    rcases hp with rfl | rfl
    · exact normalised_of_segs ["site".toList] (by decide)
    · exact normalised_of_segs ["site".toList, "pub".toList] (by decide)
  · split at h
    · cases h
      exact normalised_of_segs ["etc".toList] (by decide)
    · cases h

/-- `../../pub/x` from `/pub` leads to `/pub/x`, which does not exist yet; the link out of the
site is refused. -/
theorem pathFromUser_site :
    pathFromUser "/site".toList exampleRealpath "/pub".toList "../../pub/x".toList =
        .ok "/pub/x".toList ∧
      (∀ v, pathFromUser "/site".toList exampleRealpath "/pub".toList "/up".toList ≠ .ok v) ∧
      Normalised "/pub/x".toList ∧
      makeVirtual "/site".toList (makeReal "/site".toList "/pub".toList) = .ok "/pub".toList := by
  have hpub : Normalised "/pub".toList := normalised_of_segs ["pub".toList] (by decide)
  have hrun : pathFromUser "/site".toList exampleRealpath "/pub".toList "../../pub/x".toList =
      .ok "/pub/x".toList := by decide
  have hsite : Normalised "/site".toList := normalised_of_segs ["site".toList] (by decide)
  have hall := pathFromUser_confined hsite (by decide) exampleRealpath_canonical hpub
  refine ⟨hrun, ?_, (hall.1 _ _ hrun).1, hall.2 _ hpub⟩
  intro v hv
  have hup : pathFromUser "/site".toList exampleRealpath "/pub".toList "/up".toList =
      .error (.logicError "Path resides outside the site root") := by decide
  rw [hup] at hv
  cases hv

end Fs
end Ebftpd
