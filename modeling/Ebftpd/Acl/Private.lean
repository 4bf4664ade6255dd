import Ebftpd.Acl.Path
import Ebftpd.Lib.FirstMatch

/-!
# Ebftpd.Acl.Private

Which directories are private (`PrivatePath` in `src/acl/path.cpp`, `Privpath` in
`src/cfg/setting.cpp`). An entry names a directory, and what lies below that directory segment by
segment is what the entry is for; the code compares the text of the entry with the beginning of the
path's text.

* `privatePath_exact_iff`: for a path in both forms the checks pass, exactly when the answer is that
  of the first entry whose directory contains the path.
* `plain_readings`, `slash_readings`: which entries bring the texts and the segments apart. `/priv` is
  a textual prefix of `/private`, and `/priv/` is none of `/priv`.
* `privatePath_of_written`: without such entries the answer is the right one.
-/

namespace Ebftpd
namespace Acl
namespace Private

open Path Util Util.Path Lib Lib.Seg Lib.FirstMatch Cfg

variable (env : Env) (p : AbsPath)

/-- The directory of the entry is the path or an ancestor of it. -/
def contains (entry : Privpath) : Bool := (AbsPath.named entry.path).segs.isPrefixOf p.segs

/-- What `PrivatePath` asks of an entry. -/
def textPrefix (path : Str) (entry : Privpath) : Bool := entry.path.isPrefixOf path

def refuses (entry : Privpath) : Bool := !(entry.acl.evaluate env.info).1

/-- The first entry whose directory contains the path does not admit the user. -/
def PrivateBySegments : Prop :=
  ∃ entry, env.cfg.privpath.find? (contains p) = some entry ∧ refuses env entry = true

/-- The three ways an entry is held against a path: by segments, and by text in either form of the
path. -/
def readings : List (Privpath → Bool) := [contains p, textPrefix p.str, textPrefix (slashed p.str)]

variable {env p}

theorem privatePath_eq (path : Str) :
    privatePath env path = decision false (refuses env) (textPrefix path) env.cfg.privpath := by
  have htext : (fun entry : Privpath => entry.path.isPrefixOf path) = textPrefix path := rfl
  rw [privatePath, htext]
  cases h : env.cfg.privpath.find? (textPrefix path) with
  | none => rw [decision_of_none h]
  | some entry => rw [decision_of_find h, refuses]

theorem privateBySegments_iff :
    PrivateBySegments env p ↔ decision false (refuses env) (contains p) env.cfg.privpath = true := by
  unfold PrivateBySegments
  cases h : env.cfg.privpath.find? (contains p) with
  | none => simp [decision_of_none h]
  | some entry => simp [decision_of_find h]

theorem exact_iff_agree :
    ((privatePath env p.str = true ↔ PrivateBySegments env p) ∧
        privatePath env (slashed p.str) = privatePath env p.str) ↔
      ∀ r ∈ readings p, ∀ s ∈ readings p, decision false (refuses env) r env.cfg.privpath =
        decision false (refuses env) s env.cfg.privpath := by
  rw [privateBySegments_iff, privatePath_eq, privatePath_eq, ← Bool.eq_iff_iff]
  constructor
  · rintro ⟨htext, hslash⟩
    have hall : ∀ r ∈ readings p, decision false (refuses env) r env.cfg.privpath =
        decision false (refuses env) (contains p) env.cfg.privpath := by
      intro r hr
      simp only [readings, List.mem_cons, List.not_mem_nil, or_false] at hr
      rcases hr with rfl | rfl | rfl
      · rfl
      · exact htext
      · exact hslash.trans htext
    intro r hr s hs
    rw [hall r hr, hall s hs]
  · intro h
    exact ⟨h _ (by simp [readings]) _ (by simp [readings]),
      h _ (by simp [readings]) _ (by simp [readings])⟩

/-- The answer is that of the first entry containing the path, for the path with a slash behind it
and without, if and only if every reading that misses the first entry any of them sees comes to an
entry with the same answer, or to none where that entry admits the user. -/
theorem privatePath_exact_iff (env : Env) (p : AbsPath) :
    ((privatePath env p.str = true ↔ PrivateBySegments env p) ∧
        privatePath env (slashed p.str) = privatePath env p.str) ↔
      ∀ entry, env.cfg.privpath.find? (anyOf (readings p)) = some entry →
        ∀ reading ∈ readings p, reading entry = false →
          (∀ next, env.cfg.privpath.find? reading = some next → refuses env next = refuses env entry) ∧
            (env.cfg.privpath.find? reading = none → false = refuses env entry) :=
  exact_iff_agree.trans decision_agree_iff

/-! ## Which entries the readings see differently -/

theorem str_prefix_of_above {d : AbsPath} (h : d.Above p) : d.str <+: p.str := by
  obtain ⟨below, hbelow⟩ := h
  by_cases hd : d.segs = []
  · obtain ⟨t, ht⟩ : ∃ t, rooted '/' p.segs = '/' :: t := rooted_head p.segs
    rw [AbsPath.str, AbsPath.str, hd, ht]
    exact ⟨t, rfl⟩
  · have hp : p.segs ≠ [] := by
      intro hp
      rw [hp, List.append_eq_nil_iff] at hbelow
      exact hd hbelow.1
    rw [AbsPath.str, AbsPath.str, rooted_of_ne_nil hd, rooted_of_ne_nil hp, ← hbelow, glue_append]
    exact List.prefix_append _ _

/-- A directory written without a slash is a prefix of both forms of a path or of neither. -/
theorem str_prefix_slashed {d : AbsPath} : d.str <+: slashed p.str ↔ d.str <+: p.str := by
  unfold slashed
  split
  · rfl
  · rw [List.prefix_concat_iff]
    refine or_iff_right fun heq => ?_
    by_cases hd : d.segs = []
    · have hlen := congrArg List.length heq
      have hpos := List.length_pos_of_ne_nil (List.isEmpty_eq_false_iff.mp (str_isEmpty p))
      simp only [AbsPath.str, hd, rooted, List.length_append, List.length_singleton] at hlen hpos
      omega
    · obtain ⟨t, c, hg, -, hc⟩ := glue_last d.good hd
      rw [AbsPath.str, rooted_of_ne_nil hd, hg] at heq
      have hlast := (List.append_inj' heq rfl).2
      simp only [List.cons.injEq, and_true] at hlast
      exact hc hlast

theorem textPrefix_iff {path : Str} {entry : Privpath} :
    textPrefix path entry = true ↔ entry.path <+: path := by
  rw [textPrefix, List.isPrefixOf_iff_prefix]

theorem contains_iff {entry : Privpath} {d : AbsPath}
    (hwritten : entry.path = d.str ∨ entry.path = glue '/' d.segs ++ ['/']) :
    contains p entry = true ↔ d.Above p := by
  have hnamed : (AbsPath.named entry.path).segs = d.segs := by
    rcases hwritten with h | h
    · rw [h, named_str]
    · rw [h, named_slash]
  rw [contains, hnamed, List.isPrefixOf_iff_prefix, AbsPath.Above]

theorem anyOf_readings {entry : Privpath} :
    anyOf (readings p) entry = true ↔ contains p entry = true ∨ textPrefix p.str entry = true ∨
      textPrefix (slashed p.str) entry = true := by
  simp [anyOf, readings]

theorem all_readings {entry : Privpath} :
    (∀ reading ∈ readings p, reading entry = true) ↔ contains p entry = true ∧
      textPrefix p.str entry = true ∧ textPrefix (slashed p.str) entry = true := by
  simp [readings]

/-- A directory written without a slash: the texts see it also where its name runs into the name of
a sibling. -/
theorem plain_readings {entry : Privpath} {d : AbsPath} (hpath : entry.path = d.str) :
    (anyOf (readings p) entry = true ↔ d.str <+: p.str) ∧
      ((∀ reading ∈ readings p, reading entry = true) ↔ d.Above p) := by
  rw [anyOf_readings, all_readings, contains_iff (.inl hpath), textPrefix_iff, textPrefix_iff, hpath,
    str_prefix_slashed, or_self, and_self]
  exact ⟨or_iff_right_of_imp str_prefix_of_above, and_iff_left_of_imp str_prefix_of_above⟩

/-- A directory written with a slash: the text of the directory itself does not show it. -/
theorem slash_readings {entry : Privpath} {d : AbsPath} (hpath : entry.path = glue '/' d.segs ++ ['/']) :
    (anyOf (readings p) entry = true ↔ d.Above p) ∧
      ((∀ reading ∈ readings p, reading entry = true) ↔
        d.Above p ∧ (d.segs = p.segs → d.segs = [])) := by
  rw [anyOf_readings, all_readings, contains_iff (.inr hpath), textPrefix_iff, textPrefix_iff, hpath,
    slashed_str, slash_prefix_slashed, slash_prefix_str]
  tauto

/-- Where no entry runs into a sibling's name and none is the path with a slash behind it, private is
what lies below an entry that refuses the user. -/
theorem privatePath_of_written (hwritten : ∀ entry ∈ env.cfg.privpath, ∃ d : AbsPath,
      entry.path = d.str ∧ (d.str <+: p.str → d.Above p) ∨
        entry.path = glue '/' d.segs ++ ['/'] ∧ (d.segs = p.segs → d.segs = [])) :
    (privatePath env p.str = true ↔ PrivateBySegments env p) ∧
      privatePath env (slashed p.str) = privatePath env p.str := by
  refine exact_iff_agree.mpr (decision_agree_iff.mpr fun entry hentry reading hmem hmiss => ?_)
  obtain ⟨d, hd⟩ := hwritten entry (List.mem_of_find?_eq_some hentry)
  have hany : anyOf (readings p) entry = true := List.find?_some hentry
  have hall : ∀ reading ∈ readings p, reading entry = true := by
    rcases hd with ⟨hpath, hsibling⟩ | ⟨hpath, hown⟩
    · exact (plain_readings hpath).2.mpr (hsibling ((plain_readings hpath).1.mp hany))
    · exact (slash_readings hpath).2.mpr ⟨(slash_readings hpath).1.mp hany, hown⟩
  rw [hall reading hmem] at hmiss
  cases hmiss

/-! ## `/priv` and `/private` -/

def exampleEnv (entry : Str) : Env where
  cfg :=
    { sitepath := "/site".toList
      privpath := [⟨entry, ACL.fromString "!*".toList⟩]
      tlsControl := ACL.fromString "!*".toList
      maxOnline := ⟨10, 0⟩
      wildcardMatch := fun _ _ => false }
  user := { id := 1, name := "alice".toList }
  gidToName := fun _ => []

def exampleDir : AbsPath := ⟨["private".toList], by decide⟩

/-- The entry `/priv` hides `/private`, and the entry `/private/` hides it in one form only. -/
theorem privatePath_sibling :
    (privatePath (exampleEnv "/priv".toList) exampleDir.str = true ∧
        ¬ PrivateBySegments (exampleEnv "/priv".toList) exampleDir) ∧
      privatePath (exampleEnv "/private/".toList) exampleDir.str = false ∧
        privatePath (exampleEnv "/private/".toList) (slashed exampleDir.str) = true := by
  rw [privateBySegments_iff]
  decide

end Private
end Acl
end Ebftpd
