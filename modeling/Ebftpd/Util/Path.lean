import Ebftpd.Lib.Segments
import Ebftpd.Util.String

/-!
# Ebftpd.Util.Path

The path functions of `util/util/path/path.cpp`, and what they do to absolute paths.

An absolute path is, abstractly, the list of its segments (`AbsPath`): no segment is empty, `.`,
`..` or holds a slash. `Normalised s` says that the text `s` is such a path written out.

* `resolve_absolute`: `Resolve` of any text with a leading slash is the stack reading of its
  segments. `SplitSegments` keeps an empty first and last segment, and `..` may take back the empty
  segment that stands for the root, so the segment vector at the end of the loop has one of four
  shapes (`resolveLoop_shape`); the last lines of `Resolve` bring all four to the same text.
* `append_str`, `basename_glue`: the other functions on normalised paths.
* `resolve_canonical`: what `Resolve` returns is resolved.
-/

namespace Ebftpd
namespace Util
namespace Path

open Lib Lib.Seg

def trimTrailingSlash (path : Str) (keepRootSlash : Bool) : Str :=
  if path.getLast? = some '/' then
    if keepRootSlash && path.length == 1 then path else path.dropLast
  else path

/-- The two loops of `SplitSegments` as one: `cur` is `path.substr(pos1, pos2 - pos1)`, `first`
that `pos1` is still 0. A slash ends a segment; an empty one is kept only at the very start. What
follows the last slash is always kept. -/
def splitSegmentsLoop : Bool → Str → Str → List Str
  | _, cur, [] => [cur]
  | first, cur, c :: cs =>
    if c = '/' then
      if !cur.isEmpty || first then cur :: splitSegmentsLoop false [] cs
      else splitSegmentsLoop false [] cs
    else splitSegmentsLoop first (cur ++ [c]) cs

def splitSegments (path : Str) : List Str :=
  if path.isEmpty then [] else splitSegmentsLoop true [] path

def joinSegments : List Str → Str
  | [] => []
  | s :: L => L.foldl (fun result t => result ++ '/' :: t) s

/-- The loop of `Resolve`: `acc` holds the segments in front of the iterator, the nearest first. -/
def resolveLoop : List Str → List Str → List Str
  | acc, [] => acc.reverse
  | acc, s :: rest =>
    if s = ".".toList then resolveLoop acc rest
    else if s = "..".toList then
      match acc with
      | [] => resolveLoop [] rest
      | _ :: acc' => resolveLoop acc' rest
    else resolveLoop (s :: acc) rest

def resolveFinish (absolute : Bool) (result : Str) : Str :=
  if result.isEmpty then "/".toList
  else if absolute && result.head? != some '/' then trimTrailingSlash ('/' :: result) true
  else trimTrailingSlash result true

def resolve (path : Str) : Str :=
  if path.isEmpty then []
  else
    resolveFinish (path.head? == some '/') (joinSegments (resolveLoop [] (splitSegments path)))

def join (path1 path2 : Str) : Str :=
  if path1.isEmpty then path2
  else if path2.isEmpty then path1
  else if path2.head? = some '/' then path2
  else if path1.getLast? = some '/' then path1 ++ path2
  else path1 ++ '/' :: path2

/-- A path less one trailing slash (`substr(0, len)` in `Append`). -/
def dropSlash (path : Str) : Str :=
  if path.getLast? = some '/' then path.dropLast else path

def append (path1 path2 : Str) : Str :=
  if path1.isEmpty then path2
  else if path2.isEmpty then path1
  else
    let mid := if path2.head? = some '/' then [] else ['/']
    let result := dropSlash path1 ++ mid ++ dropSlash path2
    if result.isEmpty then "/".toList else result

/-- The text before and after the last slash (`find_last_of('/')`). -/
def lastSlash : Str → Option (Str × Str)
  | [] => none
  | c :: cs =>
    match lastSlash cs with
    | some (before, after) => some (c :: before, after)
    | none => if c = '/' then some ([], cs) else none

def dirname (path : Str) : Str :=
  let path := trimTrailingSlash path true
  if path = "/".toList then path
  else
    match lastSlash path with
    | some ([], _) => "/".toList
    | none => []
    | some (before, _) => before

def basename (path : Str) : Str :=
  let path := trimTrailingSlash path true
  if path = "/".toList then path
  else
    match lastSlash path with
    | none => path
    | some (_, after) => after

/-! ## Absolute paths as segment lists -/

structure GoodSeg (s : Str) : Prop where
  ne_nil : s ≠ []
  no_slash : '/' ∉ s
  ne_dot : s ≠ ".".toList
  ne_dotdot : s ≠ "..".toList

instance (s : Str) : Decidable (GoodSeg s) :=
  decidable_of_iff (s ≠ [] ∧ '/' ∉ s ∧ s ≠ ".".toList ∧ s ≠ "..".toList)
    ⟨fun h => ⟨h.1, h.2.1, h.2.2.1, h.2.2.2⟩, fun h => ⟨h.ne_nil, h.no_slash, h.ne_dot, h.ne_dotdot⟩⟩

/-- An absolute path without `.`, `..` and empty segments. -/
structure AbsPath where
  segs : List Str
  good : ∀ s ∈ segs, GoodSeg s

namespace AbsPath

def str (p : AbsPath) : Str := rooted '/' p.segs

def root : AbsPath := ⟨[], by simp⟩

theorem sepFree (p : AbsPath) : SepFree '/' p.segs := fun s hs => (p.good s hs).no_slash

/-- `p` is `q` or an ancestor of `q`. -/
def Above (p q : AbsPath) : Prop := p.segs <+: q.segs

end AbsPath

/-- `s` is an absolute path written without `.`, `..`, empty segments and trailing slash (the root
is written `/`). -/
def Normalised (s : Str) : Prop := ∃ p : AbsPath, s = p.str

theorem normalised_of_segs {s : Str} (L : List Str)
    (h : (∀ t ∈ L, GoodSeg t) ∧ s = rooted '/' L) : Normalised s :=
  ⟨⟨L, h.1⟩, h.2⟩

def isSkipped (s : Str) : Bool := s.isEmpty || s == ".".toList

def isUp (s : Str) : Bool := s == "..".toList

/-- The path a list of segments leads to from the root: empty and `.` segments are dropped, `..`
takes back the segment before it and is ignored at the root. -/
def AbsPath.ofSegments (L : List Str) (hL : SepFree '/' L) : AbsPath where
  segs := collapse isSkipped isUp [] L
  good := by
    intro s hs
    rcases mem_collapse hs with h | ⟨h, hskip, hup⟩
    · simp at h
    · simp only [isSkipped, isUp, Bool.or_eq_false_iff, List.isEmpty_eq_false_iff, beq_eq_false_iff_ne,
        ne_eq] at hskip hup
      exact ⟨hskip.1, hL s h, hskip.2, hup⟩

/-! ## Splitting and joining -/

def pieces (cur s : Str) : List Str := (s.splitOn '/').modifyHead (cur ++ ·)

theorem pieces_nil (cur : Str) : pieces cur [] = [cur] := by simp [pieces]

theorem pieces_slash (cur s : Str) : pieces cur ('/' :: s) = cur :: s.splitOn '/' := by
  simp [pieces, List.splitOn_cons_eq_if_modifyHead]

theorem pieces_cons {c : Char} (hc : c ≠ '/') (cur s : Str) :
    pieces cur (c :: s) = pieces (cur ++ [c]) s := by
  simp [pieces, List.splitOn_cons_eq_if_modifyHead, hc, List.modifyHead_modifyHead, Function.comp_def]

theorem pieces_empty (s : Str) : pieces [] s = s.splitOn '/' := by
  simp only [pieces, List.nil_append]
  cases s.splitOn '/' <;> rfl

theorem pieces_sepFree {cur s : Str} (hcur : '/' ∉ cur) : SepFree '/' (pieces cur s) := by
  induction s generalizing cur with
  | nil =>
    rw [pieces_nil]
    intro t ht
    simp only [List.mem_singleton] at ht
    exact ht ▸ hcur
  | cons c s ih =>
    by_cases hc : c = '/'
    · subst hc
      rw [pieces_slash, ← pieces_empty]
      intro t ht
      rcases List.mem_cons.mp ht with rfl | ht
      · exact hcur
      · exact ih (by simp) t ht
    · rw [pieces_cons hc]
      refine ih ?_
      simpa [hcur] using fun h => hc h.symm

theorem splitOn_sepFree (s : Str) : SepFree '/' (s.splitOn '/') := by
  rw [← pieces_empty]
  exact pieces_sepFree (by simp)

/-- Behind the first slash `SplitSegments` drops the empty segments, except one at the end. -/
theorem splitSegmentsLoop_eq (cur s : Str) :
    ∃ E, (E = [] ∨ E = [[]]) ∧
      splitSegmentsLoop false cur s = (pieces cur s).filter (fun t => !t.isEmpty) ++ E := by
  induction s generalizing cur with
  | nil =>
    rw [pieces_nil]
    cases cur with
    | nil => exact ⟨[[]], .inr rfl, rfl⟩
    | cons c cs => exact ⟨[], .inl rfl, rfl⟩
  | cons c s ih =>
    simp only [splitSegmentsLoop]
    by_cases hc : c = '/'
    · subst hc
      obtain ⟨E, hE, h⟩ := ih []
      rw [pieces_empty] at h
      refine ⟨E, hE, ?_⟩
      rw [pieces_slash, if_pos rfl, h]
      cases cur <;> simp
    · rw [if_neg hc, pieces_cons hc]
      exact ih _

theorem joinSegments_cons (s : Str) (L : List Str) : joinSegments (s :: L) = s ++ glue '/' L := by
  simp only [joinSegments]
  induction L generalizing s with
  | nil => simp
  | cons t L ih => simp [ih, glue]

theorem glue_last {L : List Str} (hL : ∀ s ∈ L, GoodSeg s) (hne : L ≠ []) :
    ∃ t c, glue '/' L = t ++ [c] ∧ t ≠ [] ∧ c ≠ '/' := by
  obtain ⟨M, s, rfl⟩ : ∃ M s, L = M ++ [s] := by
    rcases List.eq_nil_or_concat L with h | ⟨M, s, h⟩
    · exact absurd h hne
    · exact ⟨M, s, by simpa using h⟩
  have hs := hL s (by simp)
  obtain ⟨t, c, hst⟩ : ∃ t c, s = t ++ [c] := by
    rcases List.eq_nil_or_concat s with h | ⟨t, c, h⟩
    · exact absurd h hs.ne_nil
    · exact ⟨t, c, by simpa using h⟩
  refine ⟨glue '/' M ++ '/' :: t, c, ?_, by simp, ?_⟩
  · simp [glue_append, glue, hst]
  · rintro rfl
    exact hs.no_slash (by simp [hst])

theorem trimTrailingSlash_of_last {t : Str} {c : Char} (hc : c ≠ '/') (k : Bool) :
    trimTrailingSlash (t ++ [c]) k = t ++ [c] := by
  simp [trimTrailingSlash, hc]

theorem trimTrailingSlash_slash {t : Str} (ht : t ≠ []) (k : Bool) :
    trimTrailingSlash (t ++ ['/']) k = t := by
  have : t.length ≠ 0 := fun h => ht (List.eq_nil_of_length_eq_zero h)
  simp [trimTrailingSlash, ht]

/-! ## `Resolve` -/

/-- The segment vector when the loop of `Resolve` ends: the root's empty segment or none (`..` may
have taken it), the stack reading of the segments, and the empty segment of a trailing slash. -/
theorem resolveLoop_shape {E : List Str} (hE : E = [] ∨ E = [[]]) :
    ∀ {Q : List Str} (st R : List Str), (∀ s ∈ Q, s ≠ []) → (R = [] ∨ R = [[]]) →
      ∃ R', (R' = [] ∨ R' = [[]]) ∧
        resolveLoop (st ++ R) (Q ++ E) = R' ++ collapse isSkipped isUp st Q ++ E := by
  intro Q
  induction Q with
  | nil =>
    intro st R _ hR
    refine ⟨R, hR, ?_⟩
    rcases hR with rfl | rfl <;> rcases hE with rfl | rfl <;> simp [resolveLoop, collapse]
  | cons s Q ih =>
    intro st R hQ hR
    have hs : s ≠ [] := hQ s (by simp)
    have hQ' : ∀ t ∈ Q, t ≠ [] := fun t ht => hQ t (by simp [ht])
    by_cases hdot : s = ".".toList
    · subst hdot
      simpa [resolveLoop, collapse, isSkipped] using ih st R hQ' hR
    · by_cases hup : s = "..".toList
      · subst hup
        cases st with
        | nil =>
          -- at the root: the iterator stands at the first or second element
          obtain ⟨R', hR', h⟩ := ih [] [] hQ' (.inl rfl)
          refine ⟨R', hR', ?_⟩
          rcases hR with rfl | rfl <;> simpa [resolveLoop, collapse, isSkipped, isUp] using h
        | cons y st =>
          simpa [resolveLoop, collapse, isSkipped, isUp] using ih st R hQ' hR
      · have hskip : isSkipped s = false := by simpa [isSkipped, hs] using hdot
        have hup' : isUp s = false := by simpa [isUp] using hup
        obtain ⟨R', hR', h⟩ := ih (s :: st) R hQ' hR
        refine ⟨R', hR', ?_⟩
        simp only [List.cons_append, resolveLoop, if_neg hdot, if_neg hup, collapse, hskip, hup',
          Bool.false_eq_true, if_false]
        exact h

/-- The end of `Resolve` writes all four shapes of the segment vector as the same path. -/
theorem resolveFinish_shape {S R E : List Str} (hS : ∀ s ∈ S, GoodSeg s)
    (hR : R = [] ∨ R = [[]]) (hE : E = [] ∨ E = [[]]) :
    resolveFinish true (joinSegments (R ++ S ++ E)) = rooted '/' S := by
  cases S with
  | nil =>
    rcases hR with rfl | rfl <;> rcases hE with rfl | rfl <;>
      simp [joinSegments, resolveFinish, rooted, trimTrailingSlash]
  | cons s S =>
    have hs := hS s (by simp)
    obtain ⟨t, c, hg, ht, hc⟩ := glue_last hS (by simp)
    have htrim : trimTrailingSlash (glue '/' (s :: S) ++ glue '/' E) true = glue '/' (s :: S) := by
      rw [hg]
      rcases hE with rfl | rfl
      · simpa using trimTrailingSlash_of_last hc true
      · simpa [glue] using trimTrailingSlash_slash (t := t ++ [c]) (by simp) true
    rcases hR with rfl | rfl
    · -- the root segment is gone: the leading slash is put back
      obtain ⟨x, s', rfl⟩ : ∃ x s', s = x :: s' := List.exists_cons_of_ne_nil hs.ne_nil
      have hx : x ≠ '/' := fun h => hs.no_slash (by simp [h])
      rw [List.nil_append, List.cons_append, joinSegments_cons, glue_append]
      have : resolveFinish true (x :: s' ++ (glue '/' S ++ glue '/' E)) =
          trimTrailingSlash (glue '/' ((x :: s') :: S) ++ glue '/' E) true := by
        simp [resolveFinish, hx, glue]
      rw [this, htrim]; rfl
    · rw [List.singleton_append, List.cons_append, joinSegments_cons, glue_append]
      have : resolveFinish true ([] ++ (glue '/' (s :: S) ++ glue '/' E)) =
          trimTrailingSlash (glue '/' (s :: S) ++ glue '/' E) true := by
        simp [resolveFinish, glue]
      rw [this, htrim]; rfl

theorem collapse_filter {L : List Str} :
    ∀ st, collapse isSkipped isUp st (L.filter (fun t => !t.isEmpty)) = collapse isSkipped isUp st L := by
  induction L with
  | nil => intro st; rfl
  | cons s L ih =>
    intro st
    cases s with
    | nil => simpa [collapse, isSkipped] using ih st
    | cons c s => simp [collapse, ih]

/-- `Resolve` of a text with a leading slash is the stack reading of its segments. -/
theorem resolve_absolute (rest : Str) :
    resolve ('/' :: rest) = (AbsPath.ofSegments (rest.splitOn '/') (splitOn_sepFree rest)).str := by
  obtain ⟨E, hE, hsplit⟩ := splitSegmentsLoop_eq [] rest
  rw [pieces_empty] at hsplit
  have hsegs : splitSegments ('/' :: rest) =
      [] :: ((rest.splitOn '/').filter (fun t => !t.isEmpty) ++ E) := by
    simp [splitSegments, splitSegmentsLoop, hsplit]
  obtain ⟨R', hR', hloop⟩ := resolveLoop_shape hE (Q := (rest.splitOn '/').filter (fun t => !t.isEmpty))
    [] [[]] (by simp) (.inr rfl)
  rw [collapse_filter] at hloop
  have hstart : resolveLoop [] (splitSegments ('/' :: rest)) =
      R' ++ collapse isSkipped isUp [] (rest.splitOn '/') ++ E := by
    rw [hsegs, ← hloop]
    simp [resolveLoop]
  have hend := resolveFinish_shape (AbsPath.ofSegments (rest.splitOn '/') (splitOn_sepFree rest)).good hR' hE
  simp only [resolve, hstart]
  exact hend

theorem resolve_normalised {path : Str} (h : path.head? = some '/') : Normalised (resolve path) := by
  cases path with
  | nil => simp at h
  | cons c rest =>
    simp only [List.head?_cons, Option.some.injEq] at h
    subst h
    exact ⟨_, resolve_absolute rest⟩

/-! ## The directory a text names -/

/-- The absolute path a text names, whatever slashes, `.` and `..` it is written with. -/
def AbsPath.named (text : Str) : AbsPath := .ofSegments (text.splitOn '/') (splitOn_sepFree text)

theorem resolve_named {path : Str} (h : path.head? = some '/') : resolve path = (AbsPath.named path).str := by
  obtain ⟨rest, rfl⟩ : ∃ rest, path = '/' :: rest := by
    cases path with
    | nil => cases h
    | cons c rest => exact ⟨rest, by rw [Option.some.inj h]⟩
  have hsplit : ('/' :: rest).splitOn '/' = [] :: rest.splitOn '/' := by
    simp [List.splitOn_cons_eq_if_modifyHead]
  rw [resolve_absolute, AbsPath.str, AbsPath.str, AbsPath.named]
  simp only [AbsPath.ofSegments, hsplit]
  rfl

theorem glue_eq_intercalate (L : List Str) : glue '/' L = ['/'].intercalate ([] :: L) := by
  induction L with
  | nil => rfl
  | cons s L ih =>
    cases L with
    | nil => simp [glue, List.intercalate]
    | cons t L => simpa [glue, List.intercalate] using ih

theorem splitOn_glue {L : List Str} (hL : SepFree '/' L) : (glue '/' L).splitOn '/' = [] :: L := by
  rw [glue_eq_intercalate, List.splitOn_intercalate]
  · intro s hs
    rcases List.mem_cons.mp hs with rfl | hs
    · simp
    · exact hL s hs
  · simp

/-- Good segments are put on the stack as they are. -/
theorem collapse_push {L : List Str} (hL : ∀ s ∈ L, GoodSeg s) (R : List Str) :
    ∀ st, collapse isSkipped isUp st (L ++ R) = collapse isSkipped isUp (L.reverse ++ st) R := by
  induction L with
  | nil => intro st; rfl
  | cons s L ih =>
    intro st
    have hs := hL s (by simp)
    have hskip : isSkipped s = false := by simpa [isSkipped, hs.ne_nil] using hs.ne_dot
    have hup : isUp s = false := by simpa [isUp] using hs.ne_dotdot
    simp only [List.cons_append, collapse, hskip, hup, Bool.false_eq_true, if_false]
    rw [ih (fun t ht => hL t (by simp [ht]))]
    simp

theorem collapse_good {L : List Str} (hL : ∀ s ∈ L, GoodSeg s) (st : List Str) :
    collapse isSkipped isUp st L = st.reverse ++ L := by
  simpa [collapse] using collapse_push hL [] st

/-- A slash behind a path is one more, empty segment. -/
theorem glue_slash (p : AbsPath) :
    SepFree '/' (p.segs ++ [[]]) ∧ glue '/' (p.segs ++ [[]]) = glue '/' p.segs ++ ['/'] := by
  constructor
  · intro s hs
    rcases List.mem_append.mp hs with hs | hs
    · exact p.sepFree s hs
    · rw [List.mem_singleton.mp hs]
      simp
  · rw [glue_append, glue, glue_nil, List.append_nil]

/-- Written out, with a slash behind it or without, a path names itself. -/
theorem named_slash (p : AbsPath) : (AbsPath.named (glue '/' p.segs ++ ['/'])).segs = p.segs := by
  obtain ⟨hfree, hglue⟩ := glue_slash p
  have hsegs : (p.segs ++ [[]]).filter (fun t => !t.isEmpty) = p.segs := by
    rw [List.filter_append, List.filter_eq_self.mpr (fun s hs => by simp [(p.good s hs).ne_nil])]
    simp
  simp only [AbsPath.named, AbsPath.ofSegments, ← hglue, splitOn_glue hfree]
  rw [← collapse_filter, List.filter_cons_of_neg (by simp), hsegs, collapse_good p.good]
  rfl

theorem named_str (p : AbsPath) : (AbsPath.named p.str).segs = p.segs := by
  by_cases h : p.segs = []
  · have hslash := named_slash p
    rw [h, glue_nil, List.nil_append] at hslash
    have hstr : p.str = ['/'] := by simp [AbsPath.str, h, rooted]
    rw [h, hstr, hslash]
  · simp only [AbsPath.named, AbsPath.ofSegments, AbsPath.str, rooted_of_ne_nil h, splitOn_glue p.sepFree]
    have hskip : isSkipped [] = true := rfl
    rw [collapse, if_pos hskip, collapse_good p.good]
    rfl

/-! ## The other functions on normalised paths -/

theorem str_head (p : AbsPath) : p.str.head? = some '/' := by
  obtain ⟨t, h⟩ : ∃ t, rooted '/' p.segs = '/' :: t := rooted_head p.segs
  rw [AbsPath.str, h]; rfl

theorem dropSlash_str (p : AbsPath) : dropSlash p.str = glue '/' p.segs := by
  by_cases h : p.segs = []
  · simp [AbsPath.str, h, rooted, dropSlash]
  · obtain ⟨t, c, hg, _, hc⟩ := glue_last p.good h
    simp [AbsPath.str, rooted_of_ne_nil h, hg, dropSlash, hc]

theorem str_isEmpty (p : AbsPath) : p.str.isEmpty = false := by
  simpa [AbsPath.str] using rooted_ne_nil p.segs

theorem join_head (p : AbsPath) (s : Str) : (join p.str s).head? = some '/' := by
  obtain ⟨t, h⟩ : ∃ t, rooted '/' p.segs = '/' :: t := rooted_head p.segs
  have hp : p.str = '/' :: t := h
  unfold join
  rw [str_isEmpty, hp]
  split
  · contradiction
  · split
    · rfl
    · split
      · assumption
      · split <;> rfl

/-- `Append` of an absolute path: the first path without its trailing slash, then the segments. -/
theorem append_str {site : Str} (hs : site ≠ []) (p : AbsPath) :
    append site p.str =
      if dropSlash site ++ glue '/' p.segs = [] then "/".toList
      else dropSlash site ++ glue '/' p.segs := by
  simp only [append, List.isEmpty_eq_false_iff.mpr hs, str_isEmpty, str_head, dropSlash_str,
    Bool.false_eq_true, if_false, if_true, List.append_nil, List.isEmpty_iff]

/-- `Append` of two absolute paths puts their segments one behind the other. -/
theorem append_glue {L : List Str} (hL : ∀ s ∈ L, GoodSeg s) (p : AbsPath) :
    append (glue '/' L) p.str = rooted '/' (L ++ p.segs) := by
  by_cases h : L = []
  · simp [h, append, AbsPath.str]
  · obtain ⟨t, c, hg, ht, hc⟩ := glue_last hL h
    have hd : dropSlash (glue '/' L) = glue '/' L := by simp [dropSlash, hg, hc]
    have hne : glue '/' L ≠ [] := by simp [hg]
    rw [append_str hne, hd, ← glue_append, rooted_of_ne_nil (by simp [h]), if_neg]
    simp [glue_append, hne]

theorem append_nil_str (p : AbsPath) : append [] p.str = p.str := by simp [append]

theorem lastSlash_cons (c : Char) (cs : Str) :
    lastSlash (c :: cs) =
      match lastSlash cs with
      | some (before, after) => some (c :: before, after)
      | none => if c = '/' then some ([], cs) else none := rfl

theorem lastSlash_eq_none {s : Str} : lastSlash s = none ↔ '/' ∉ s := by
  induction s with
  | nil => simp [lastSlash]
  | cons c s ih =>
    rw [lastSlash_cons, List.mem_cons, not_or]
    split
    · rename_i hs
      have : '/' ∈ s := by
        by_contra hn
        rw [ih.mpr hn] at hs
        cases hs
      simp [this]
    · rename_i hs
      have hn := ih.mp hs
      by_cases hc : c = '/'
      · simp [hc]
      · simp [hc, hn, Ne.symm hc]

theorem lastSlash_append (b : Str) {a : Str} (h : '/' ∉ a) : lastSlash (b ++ '/' :: a) = some (b, a) := by
  have hnone : lastSlash a = none := by
    rw [lastSlash_eq_none]
    exact h
  induction b with
  | nil => rw [List.nil_append, lastSlash_cons, hnone]; rfl
  | cons c b ih => rw [List.cons_append, lastSlash_cons, ih]

theorem lastSlash_after {s b a : Str} (h : lastSlash s = some (b, a)) : '/' ∉ a := by
  induction s generalizing b with
  | nil => cases h
  | cons c s ih =>
    rw [lastSlash_cons] at h
    split at h
    · rename_i hs
      cases h
      exact ih hs
    · rename_i hs
      split at h
      · cases h
        rw [lastSlash_eq_none] at hs
        exact hs
      · cases h

/-- A base name is the root's slash or holds no slash. -/
theorem basename_slash (path : Str) : basename path = "/".toList ∨ '/' ∉ basename path := by
  simp only [basename]
  split
  · rename_i h; exact .inl h
  · split
    · rename_i h
      rw [lastSlash_eq_none] at h
      exact .inr h
    · rename_i h
      exact .inr (lastSlash_after h)

/-- A path that ends in a segment has no slash to trim and is not the root. -/
theorem trim_glue {L : List Str} {s : Str} (hL : ∀ t ∈ L ++ [s], GoodSeg t) :
    trimTrailingSlash (glue '/' (L ++ [s])) true = glue '/' L ++ '/' :: s ∧
      glue '/' L ++ '/' :: s ≠ "/".toList := by
  obtain ⟨t, c, hg, ht, hc⟩ := glue_last hL (by simp)
  constructor
  · rw [hg, trimTrailingSlash_of_last hc, ← hg]
    simp [glue_append, glue]
  · intro h
    have := congrArg List.length h
    have hpos := List.length_pos_of_ne_nil (hL s (by simp)).ne_nil
    simp at this
    omega

theorem basename_glue {L : List Str} {s : Str} (hL : ∀ t ∈ L ++ [s], GoodSeg t) :
    basename (glue '/' (L ++ [s])) = s := by
  obtain ⟨htrim, hne⟩ := trim_glue hL
  simp only [basename, htrim, if_neg hne, lastSlash_append _ (hL s (by simp)).no_slash]

theorem dirname_glue {L : List Str} {s : Str} (hL : ∀ t ∈ L ++ [s], GoodSeg t) :
    dirname (glue '/' (L ++ [s])) = rooted '/' L := by
  obtain ⟨htrim, hne⟩ := trim_glue hL
  simp only [dirname, htrim, if_neg hne, lastSlash_append _ (hL s (by simp)).no_slash]
  cases L with
  | nil => rfl
  | cons t L => rfl

/-- A normalised path is determined by its directory and its base name. -/
theorem str_eq_of_parts {p q : AbsPath} (hdir : dirname p.str = dirname q.str)
    (hbase : basename p.str = basename q.str) : p.str = q.str := by
  have hroot : ∀ {r : AbsPath}, r.segs = [] → r.str = "/".toList := by
    intro r hr
    simp [AbsPath.str, hr, rooted]
  have hname : ∀ {r : AbsPath} {L : List Str} {s : Str}, r.segs = L ++ [s] →
      dirname r.str = rooted '/' L ∧ basename r.str = s ∧ r.str = glue '/' (L ++ [s]) ∧ '/' ∉ s := by
    intro r L s hr
    have hgood : ∀ t ∈ L ++ [s], GoodSeg t := hr ▸ r.good
    have hstr : r.str = glue '/' (L ++ [s]) := by
      rw [AbsPath.str, hr, rooted_of_ne_nil (by simp)]
    exact ⟨by rw [hstr, dirname_glue hgood], by rw [hstr, basename_glue hgood], hstr,
      (hgood s (by simp)).no_slash⟩
  have hslash : basename "/".toList = "/".toList := by decide
  rcases List.eq_nil_or_concat p.segs with hp | ⟨L, s, hp⟩
  · rcases List.eq_nil_or_concat q.segs with hq | ⟨M, t, hq⟩
    · rw [hroot hp, hroot hq]
    · rw [List.concat_eq_append] at hq
      obtain ⟨-, hb, -, hfree⟩ := hname hq
      rw [hroot hp, hslash, hb] at hbase
      exact absurd (by simp [← hbase]) hfree
  · rw [List.concat_eq_append] at hp
    obtain ⟨hd, hb, hstr, hfree⟩ := hname hp
    rcases List.eq_nil_or_concat q.segs with hq | ⟨M, t, hq⟩
    · rw [hroot hq, hslash, hb] at hbase
      exact absurd (by simp [hbase]) hfree
    · rw [List.concat_eq_append] at hq
      obtain ⟨hd', hb', hstr', -⟩ := hname hq
      have hLM : L = M := by
        have hgoodL : ∀ t ∈ L, GoodSeg t := fun t ht => p.good t (by simp [hp, ht])
        have hgoodM : ∀ t ∈ M, GoodSeg t := fun t ht => q.good t (by simp [hq, ht])
        have hglue : AbsPath.str ⟨L, hgoodL⟩ = AbsPath.str ⟨M, hgoodM⟩ := by
          rw [AbsPath.str, AbsPath.str, ← hd, ← hd', hdir]
        have hdrop := congrArg dropSlash hglue
        rw [dropSlash_str, dropSlash_str] at hdrop
        exact glue_inj (AbsPath.sepFree ⟨L, hgoodL⟩) (AbsPath.sepFree ⟨M, hgoodM⟩) hdrop
      rw [hstr, hstr', hLM, ← hb, ← hb', hbase]

/-- A slash-free base name of a normalised path is one of its segments. -/
theorem basename_good {p : AbsPath} (h : '/' ∉ basename p.str) : GoodSeg (basename p.str) := by
  rcases List.eq_nil_or_concat p.segs with hp | ⟨L, s, hp⟩
  · exfalso
    simp [AbsPath.str, hp, rooted, basename, trimTrailingSlash] at h
  · rw [List.concat_eq_append] at hp
    have hgood : ∀ t ∈ L ++ [s], GoodSeg t := hp ▸ p.good
    rw [AbsPath.str, hp, rooted_of_ne_nil (by simp), basename_glue hgood]
    exact hgood s (by simp)

/-- Joined to an absolute path, the segments of a relative one stand behind its own. -/
theorem join_str_glue (p : AbsPath) {s : Str} (hs : s ≠ []) (hslash : '/' ∉ s) (R : List Str) :
    join p.str (s ++ glue '/' R) = glue '/' (p.segs ++ s :: R) := by
  obtain ⟨c, s, rfl⟩ : ∃ c t, s = c :: t := List.exists_cons_of_ne_nil hs
  have hc : c ≠ '/' := fun h => hslash (by simp [h])
  have hhead : (c :: s ++ glue '/' R).head? ≠ some '/' := by simpa using hc
  have hempty : (c :: s ++ glue '/' R).isEmpty = false := rfl
  simp only [join, str_isEmpty, hempty, Bool.false_eq_true, if_false, if_neg hhead]
  by_cases h : p.segs = []
  · simp [AbsPath.str, h, rooted, glue]
  · obtain ⟨t, c, hg, _, hc⟩ := glue_last p.good h
    have hlast : (AbsPath.str p).getLast? ≠ some '/' := by
      simp [AbsPath.str, rooted_of_ne_nil h, hg, hc]
    rw [if_neg hlast, AbsPath.str, rooted_of_ne_nil h, glue_append]
    simp [glue]

theorem join_str_name (p : AbsPath) {s : Str} (hs : s ≠ []) (hslash : '/' ∉ s) :
    join p.str s = glue '/' (p.segs ++ [s]) := by
  simpa using join_str_glue p hs hslash []

/-! ## `Resolve` is canonical -/

theorem str_eq_of_segs {p q : AbsPath} (h : p.segs = q.segs) : p.str = q.str := by
  rw [AbsPath.str, AbsPath.str, h]

theorem resolve_str (p : AbsPath) : resolve p.str = p.str := by
  rw [resolve_named (str_head p)]
  exact str_eq_of_segs (named_str p)

theorem str_tail (p : AbsPath) : ∃ r, p.str = '/' :: r ∧
    (r = [] ∨ (∀ s ∈ r.splitOn '/', GoodSeg s) ∧ r.getLast? ≠ some '/') := by
  by_cases h : p.segs = []
  · exact ⟨[], by simp [AbsPath.str, h, rooted], .inl rfl⟩
  · obtain ⟨t, c, hlast, ht, hc⟩ := glue_last p.good h
    obtain ⟨s, L, hL⟩ : ∃ s L, p.segs = s :: L := List.exists_cons_of_ne_nil h
    have hstr : p.str = '/' :: (s ++ glue '/' L) := by
      rw [AbsPath.str, hL]
      rfl
    refine ⟨s ++ glue '/' L, hstr, .inr ⟨?_, ?_⟩⟩
    · have hsplit := splitOn_glue p.sepFree
      rw [hL, glue, List.splitOn_cons_eq_if_modifyHead, if_pos (beq_self_eq_true _)] at hsplit
      rw [(List.cons.inj hsplit).2, ← hL]
      exact p.good
    · rw [hL, glue] at hlast
      obtain ⟨x, t', rfl⟩ : ∃ x t', t = x :: t' := List.exists_cons_of_ne_nil ht
      rw [List.cons_append, List.cons.injEq] at hlast
      simp [hlast.2, hc]

/-- `Resolve` of an absolute path is its stack reading: absolute, without `.`, `..` and empty
segments, with no trailing slash unless it is the root, and resolved already. -/
theorem resolve_canonical (rest : Str) :
    resolve ('/' :: rest) = rooted '/' (collapse isSkipped isUp [] (('/' :: rest).splitOn '/')) ∧
      ∃ r, resolve ('/' :: rest) = '/' :: r ∧
        (r = [] ∨ (∀ s ∈ r.splitOn '/', GoodSeg s) ∧ r.getLast? ≠ some '/') ∧
        resolve ('/' :: r) = '/' :: r := by
  have h : resolve ('/' :: rest) = (AbsPath.named ('/' :: rest)).str := resolve_named rfl
  obtain ⟨r, hr, hgood⟩ := str_tail (AbsPath.named ('/' :: rest))
  refine ⟨h, r, h.trans hr, hgood, ?_⟩
  rw [← hr]
  exact resolve_str _

end Path
end Util
end Ebftpd
