import Ebftpd.Fs.Path

/-!
# Ebftpd.Fs.Relative

Paths as the user reads them from the work directory: `Relative` of `util/util/path/path.cpp`,
`MakeRelative` and `MakePretty` of `src/fs/path.cpp`.

The common prefix of the two segment vectors is cut one segment short of the path, so that its
last segment is always written; the root's vector is two empty segments, and the second of them
is what is written then.

* `relative_segs`: what `Relative` writes is one `..` for each segment of the work directory behind
  the common prefix, and then the rest of the path.
* `relative_leads_back`: joined to the work directory and resolved, it is the path again.
-/

namespace Ebftpd
namespace Util
namespace Path

open Lib Lib.Seg

/-- The loop of `Relative`: how many of the first `maxLen` segments the two vectors share. -/
def commonSegments : Nat → List Str → List Str → Nat
  | 0, _, _ => 0
  | maxLen + 1, w :: wpSegments, p :: pSegments =>
    if w ≠ p then 0 else commonSegments maxLen wpSegments pSegments + 1
  | _ + 1, _, _ => 0

def relative (workPath path : Str) : Except Exn Str :=
  if path.isEmpty then .ok []
  else if path.head? ≠ some '/' then .ok path
  else if workPath.isEmpty || workPath.head? != some '/' then
    .error (.logicError "workPath must be absolute work directory")
  else if workPath = "/".toList then .ok (path.drop 1)
  else
    let wpSegments := splitSegments workPath
    let pSegments := splitSegments path
    let maxLen := min wpSegments.length (pSegments.length - 1)
    let i := commonSegments maxLen wpSegments pSegments
    .ok (joinSegments (List.replicate (wpSegments.length - i) "..".toList ++ pSegments.drop i))

/-! ## The segments written -/

theorem commonSegments_le : ∀ (maxLen : Nat) (W P : List Str), commonSegments maxLen W P ≤ maxLen
  | 0, _, _ => by simp [commonSegments]
  | maxLen + 1, [], _ => by simp [commonSegments]
  | maxLen + 1, _ :: _, [] => by simp [commonSegments]
  | maxLen + 1, w :: W, p :: P => by
    simp only [commonSegments]
    split
    · exact Nat.zero_le _
    · exact Nat.succ_le_succ (commonSegments_le maxLen W P)

theorem take_commonSegments : ∀ (maxLen : Nat) (W P : List Str),
    W.take (commonSegments maxLen W P) = P.take (commonSegments maxLen W P)
  | 0, _, _ => by simp [commonSegments]
  | maxLen + 1, [], _ => by simp [commonSegments]
  | maxLen + 1, _ :: _, [] => by simp [commonSegments]
  | maxLen + 1, w :: W, p :: P => by
    simp only [commonSegments]
    split
    · rfl
    · rename_i h
      rw [not_not.mp h, List.take_succ_cons, List.take_succ_cons, take_commonSegments maxLen W P]

/-- The segment vector of a path behind the root's empty segment. -/
def AbsPath.written (p : AbsPath) : List Str := if p.segs = [] then [[]] else p.segs

theorem splitSegmentsLoop_word {s : Str} (hs : '/' ∉ s) (first : Bool) (cur rest : Str) :
    splitSegmentsLoop first cur (s ++ rest) = splitSegmentsLoop first (cur ++ s) rest := by
  induction s generalizing cur with
  | nil => simp
  | cons c s ih =>
    rw [List.mem_cons, not_or] at hs
    rw [List.cons_append, splitSegmentsLoop, if_neg (Ne.symm hs.1), ih hs.2]
    simp

theorem splitSegmentsLoop_glue {L : List Str} (hL : ∀ s ∈ L, GoodSeg s) {cur : Str}
    (hcur : cur ≠ []) : splitSegmentsLoop false cur (glue '/' L) = cur :: L := by
  induction L generalizing cur with
  | nil => rfl
  | cons s L ih =>
    have hs := hL s (by simp)
    rw [glue, splitSegmentsLoop, if_pos rfl, if_pos (by simp [hcur]),
      splitSegmentsLoop_word hs.no_slash, List.nil_append,
      ih (fun t ht => hL t (by simp [ht])) hs.ne_nil]

theorem splitSegments_str (p : AbsPath) : splitSegments p.str = [] :: p.written := by
  obtain ⟨L, hL⟩ := p
  cases L with
  | nil => rfl
  | cons s L =>
    have hs := hL s (by simp)
    have hstr : AbsPath.str ⟨s :: L, hL⟩ = '/' :: (s ++ glue '/' L) := rfl
    rw [hstr, splitSegments, if_neg (by simp), splitSegmentsLoop, if_pos rfl, if_pos (by simp),
      splitSegmentsLoop_word hs.no_slash, List.nil_append,
      splitSegmentsLoop_glue (fun t ht => hL t (by simp [ht])) hs.ne_nil]
    rfl

theorem written_ne_nil (p : AbsPath) : p.written ≠ [] := by
  unfold AbsPath.written
  split
  · simp
  · assumption

/-- From a work directory other than the root: one `..` for each of its segments behind the ones
it shares with the path, then the path from there on, its last segment in any case. -/
theorem relative_segs {work : AbsPath} (hwork : work.segs ≠ []) (p : AbsPath) :
    ∃ k, k ≤ work.segs.length ∧ k < p.written.length ∧
      work.segs.take k = p.written.take k ∧
      relative work.str p.str = .ok (joinSegments
        (List.replicate (work.segs.length - k) "..".toList ++ p.written.drop k)) := by
  have hwritten : work.written = work.segs := if_neg hwork
  have hpos : 0 < p.written.length := List.length_pos_of_ne_nil (written_ne_nil p)
  have hroot : work.str ≠ "/".toList := by
    intro h
    have hsegs := congrArg (fun s => (splitSegments s).tail) h
    rw [splitSegments_str, hwritten] at hsegs
    obtain ⟨s, hs⟩ := List.exists_mem_of_ne_nil _ hwork
    have hmem : s ∈ [[]] := by
      have : work.segs = [[]] := hsegs
      exact this ▸ hs
    exact (work.good s hs).ne_nil (List.mem_singleton.mp hmem)
  refine ⟨commonSegments (min work.segs.length (p.written.length - 1)) work.segs p.written,
    ?_, ?_, take_commonSegments _ _ _, ?_⟩
  · exact (commonSegments_le _ _ _).trans (Nat.min_le_left _ _)
  · have := (commonSegments_le (min work.segs.length (p.written.length - 1)) work.segs
      p.written).trans (Nat.min_le_right _ _)
    omega
  · obtain ⟨n, hn⟩ : ∃ n, p.written.length = n + 1 := ⟨_, (Nat.succ_pred hpos.ne').symm⟩
    rw [relative, if_neg (by simp [str_isEmpty]), if_neg (by simp [str_head]),
      if_neg (by simp [str_isEmpty, str_head]), if_neg hroot, splitSegments_str, splitSegments_str,
      hwritten]
    simp only [List.length_cons, Nat.add_sub_cancel, hn]
    rw [Nat.add_min_add_right, commonSegments, if_neg (by simp), List.drop_succ_cons,
      Nat.add_sub_add_right]

/-! ## Back from the work directory -/

/-- `..` takes back as many segments as there are. -/
theorem collapse_up (n : Nat) (R : List Str) :
    ∀ st, collapse isSkipped isUp st (List.replicate n "..".toList ++ R) =
      collapse isSkipped isUp (st.drop n) R := by
  induction n with
  | zero => intro st; rfl
  | succ n ih =>
    intro st
    rw [List.replicate_succ, List.cons_append, collapse, if_neg (by decide), if_pos (by decide), ih,
      List.drop_tail]

theorem collapse_written (p : AbsPath) (k : Nat) (st : List Str) :
    collapse isSkipped isUp st (p.written.drop k) = st.reverse ++ p.segs.drop k := by
  unfold AbsPath.written
  split
  · rename_i h
    cases k with
    | zero => simp [h, collapse, isSkipped]
    | succ k => simp [h, collapse]
  · exact collapse_good (fun s hs => p.good s (List.mem_of_mem_drop hs)) st

theorem take_written (p : AbsPath) {k : Nat} (hk : k < p.written.length) :
    p.written.take k = p.segs.take k := by
  unfold AbsPath.written at hk ⊢
  split at hk
  · rename_i h
    have : k = 0 := by simpa using hk
    simp [this]
  · rename_i h
    rw [if_neg h]

theorem resolve_glue {L : List Str} (hL : SepFree '/' L) (hne : L ≠ []) {p : AbsPath}
    (h : collapse isSkipped isUp [] L = p.segs) : resolve (glue '/' L) = p.str := by
  have hhead : (glue '/' L).head? = some '/' := by
    obtain ⟨s, M, rfl⟩ := List.exists_cons_of_ne_nil hne
    rfl
  rw [resolve_named hhead]
  refine str_eq_of_segs ?_
  have hskip : isSkipped [] = true := rfl
  simp only [AbsPath.named, AbsPath.ofSegments, splitOn_glue hL]
  rw [collapse, if_pos hskip, h]

theorem root_leads_back (p : AbsPath) : resolve (join AbsPath.root.str (p.str.drop 1)) = p.str := by
  obtain ⟨L, hL⟩ := p
  cases L with
  | nil => rfl
  | cons s L =>
    have hs := hL s (by simp)
    have hrest : (AbsPath.str ⟨s :: L, hL⟩).drop 1 = s ++ glue '/' L := rfl
    rw [hrest, join_str_glue _ hs.ne_nil hs.no_slash]
    exact resolve_str ⟨s :: L, hL⟩

/-- The segments written begin with `..` or with a segment of the path, so joining keeps the work
directory in front. -/
theorem relative_head {W : List Str} (hW : W ≠ []) (p : AbsPath) {k : Nat}
    (hk : k < p.written.length) :
    ∃ x R, List.replicate (W.length - k) "..".toList ++ p.written.drop k = x :: R ∧
      x ≠ [] ∧ '/' ∉ x := by
  cases hn : W.length - k with
  | succ n => exact ⟨"..".toList, _, rfl, by decide, by decide⟩
  | zero =>
    have hpos := List.length_pos_of_ne_nil hW
    have hsegs : p.segs ≠ [] := by
      intro h
      simp only [AbsPath.written, if_pos h, List.length_singleton] at hk
      omega
    rw [AbsPath.written, if_neg hsegs] at hk ⊢
    have hgood := p.good p.segs[k] (List.getElem_mem hk)
    exact ⟨p.segs[k], _, List.drop_eq_getElem_cons hk, hgood.ne_nil, hgood.no_slash⟩

theorem sepFree_relative (work p : AbsPath) (n k : Nat) :
    SepFree '/' (work.segs ++ (List.replicate n "..".toList ++ p.written.drop k)) := by
  intro s hs
  rcases List.mem_append.mp hs with hs | hs
  · exact work.sepFree s hs
  · rcases List.mem_append.mp hs with hs | hs
    · rw [List.eq_of_mem_replicate hs]
      decide
    · have hmem := List.mem_of_mem_drop hs
      unfold AbsPath.written at hmem
      split at hmem
      · rw [List.mem_singleton.mp hmem]
        simp
      · exact p.sepFree s hmem

/-- `Resolve(Join(work, Relative(work, p)))` is `p`, wherever the two paths lie. -/
theorem relative_leads_back (work p : AbsPath) :
    ∃ rel, relative work.str p.str = .ok rel ∧ resolve (join work.str rel) = p.str := by
  by_cases hwork : work.segs = []
  · have hroot : work.str = AbsPath.root.str := str_eq_of_segs hwork
    refine ⟨p.str.drop 1, ?_, ?_⟩
    · rw [hroot, relative, if_neg (by simp [str_isEmpty]), if_neg (by simp [str_head]),
        if_neg (by simp [str_isEmpty, str_head])]
      rfl
    · rw [hroot]
      exact root_leads_back p
  · obtain ⟨k, hkW, hkP, htake, hrel⟩ := relative_segs hwork p
    refine ⟨_, hrel, ?_⟩
    obtain ⟨x, R, hx, hxne, hxslash⟩ := relative_head hwork p hkP
    have hfree := sepFree_relative work p (work.segs.length - k) k
    have hcollapse : collapse isSkipped isUp []
        (work.segs ++ (List.replicate (work.segs.length - k) "..".toList ++ p.written.drop k)) =
          p.segs := by
      have hback : (work.segs.reverse.drop (work.segs.length - k)).reverse = p.segs.take k := by
        rw [List.drop_reverse, List.reverse_reverse, Nat.sub_sub_self hkW, htake,
          take_written p hkP]
      rw [collapse_push work.good, collapse_up, collapse_written, List.append_nil, hback,
        List.take_append_drop]
    rw [hx] at hfree hcollapse ⊢
    rw [joinSegments_cons, join_str_glue work hxne hxslash]
    exact resolve_glue hfree (by simp) hcollapse

end Path
end Util

namespace Fs

open Util Util.Path Lib Lib.Seg

def makeRelative (workDirectory path : Str) : Except Exn Str := relative workDirectory path

/-- `MakePretty(const VirtualPath&)`. -/
def makePretty (workDirectory path : Str) : Except Exn Str :=
  match makeRelative workDirectory path with
  | .error e => .error e
  | .ok pretty =>
    if pretty.isEmpty then .ok ".".toList
    else if pretty.take 3 ≠ "../".toList then .ok pretty
    else .ok path

theorem resolve_dot (work : AbsPath) : resolve (join work.str ".".toList) = work.str := by
  rw [join_str_name work (by decide) (by decide)]
  refine resolve_glue ?_ (by simp) ?_
  · intro s hs
    rcases List.mem_append.mp hs with hs | hs
    · exact work.sepFree s hs
    · rw [List.mem_singleton.mp hs]
      decide
  · have hskip : isSkipped ".".toList = true := by decide
    rw [collapse_push work.good, collapse, if_pos hskip]
    simp [collapse]

/-- What the user is shown for a path leads to it from the work directory. -/
theorem makePretty_leads_back (work p : AbsPath) :
    ∃ pretty, makePretty work.str p.str = .ok pretty ∧ resolve (join work.str pretty) = p.str := by
  obtain ⟨rel, hrel, hback⟩ := relative_leads_back work p
  unfold makePretty makeRelative
  rw [hrel]
  by_cases hempty : rel.isEmpty
  · have hstay : join work.str [] = work.str := by simp [join, str_isEmpty]
    rw [List.isEmpty_iff.mp hempty, hstay, resolve_str] at hback
    exact ⟨_, if_pos hempty, (resolve_dot work).trans hback⟩
  · by_cases hup : rel.take 3 ≠ "../".toList
    · exact ⟨rel, by simp only [if_neg hempty, if_pos hup], hback⟩
    · -- a path above the work directory is shown in full
      have hpath : join work.str p.str = p.str := by
        rw [join, if_neg (by simp [str_isEmpty]), if_neg (by simp [str_isEmpty]),
          if_pos (str_head p)]
      exact ⟨p.str, by simp only [if_neg hempty, if_neg hup], by rw [hpath, resolve_str]⟩

end Fs
end Ebftpd
