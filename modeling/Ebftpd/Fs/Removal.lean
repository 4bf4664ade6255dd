import Ebftpd.Fs.Directory
import Ebftpd.Fs.GlobIterator
import Ebftpd.Lib.Pruning

/-!
# Ebftpd.Fs.Removal

`DeleteFile` (`src/fs/file.cpp`) and `RemoveDirectory` (`src/fs/directory.cpp`) of a user, on a tree that they
change. Every deletion is kept with the tree in which the user's rights were checked.

* `Accounted`: what is gone from a tree has been deleted, and rightly so.
* `removeDirectory_accounted`: a directory goes after the entries with a dot in front of their names.
* `next_tracked`: an iteration stays in the tree that it started in while entries are deleted.
-/

namespace Ebftpd
namespace Fs

open Util Util.Path Lib Lib.Seg Lib.FileTree Acl Acl.Path Glob

/-- What the system decides, beside what is in the tree. -/
structure Kernel where
  -- why `unlink(2)` or `rmdir(2)` fails at an entry that it could delete
  refuses : Disk → List Seg → Option Errno
  isWriteable : Fs.Status → Bool
  isExecutable : Fs.Status → Bool

def Kernel.sys (kernel : Kernel) (t : Disk) : Sys where
  realpath := t.realpath
  status path :=
    match t.status path with
    | none => .error .ENOENT
    | some status => .ok ⟨status.isDirectory, kernel.isExecutable status⟩
  readdir := t.opendir
  ownerUID path := (t.getOwner path).uid

/-- An entry that is deleted, and the tree in which the user's rights were checked. -/
structure Deletion where
  path : List Seg
  found : Disk

/-- The tree, and what has been deleted from it, the last in front. -/
structure Progress where
  disk : Disk
  deletions : List Deletion

abbrev EBUSY : Errno := .other 16

abbrev EISDIR : Errno := .other 21

abbrev ENOTEMPTY : Errno := .other 39

variable (env : Env) (kernel : Kernel)

def Kernel.delete (found : Disk) (q : List Seg) (p : Progress) : Progress × Except Errno Unit :=
  match kernel.refuses p.disk q with
  | some e => (p, .error e)
  | none => (⟨p.disk.prune q, ⟨q, found⟩ :: p.deletions⟩, .ok ())

/-- `unlink(2)`. -/
def Kernel.unlink (found : Disk) (path : Str) (p : Progress) : Progress × Except Errno Unit :=
  match p.disk.place false path with
  | none => (p, .error .ENOENT)
  | some q => if p.disk.IsDir q then (p, .error EISDIR) else kernel.delete found q p

/-- `rmdir(2)`. -/
def Kernel.rmdir (found : Disk) (path : Str) (p : Progress) : Progress × Except Errno Unit :=
  match p.disk.place false path with
  | none => (p, .error .ENOENT)
  | some q =>
    if ¬ p.disk.IsDir q then (p, .error .ENOTDIR)
    else if q = [] then (p, .error EBUSY)
    else if names p.disk q ≠ [] then (p, .error ENOTEMPTY)
    else kernel.delete found q p

def Kernel.deleteFile (path : Str) (p : Progress) : Progress × Except Errno Unit :=
  match fileAllowed env (kernel.sys p.disk) .Delete path with
  | .error e => (p, .error e)
  | .ok () => kernel.unlink p.disk (makeReal env.cfg.sitepath path) p

/-- The first loop of `RemoveDirectory`. -/
def checkEntries (t : Disk) (real : Str) : List Str → Except Errno Unit
  | [] => .ok ()
  | name :: names =>
    if name.head? ≠ some '.' then .error ENOTEMPTY
    else
      match t.status (join real name) with
      | none => .error .ENOENT
      | some status =>
        if status.isDirectory || !kernel.isWriteable status then .error ENOTEMPTY
        else checkEntries t real names

/-- The second loop: the entries are deleted, no right being asked for. -/
def unlinkEntries (found : Disk) (real : Str) : List Str → Progress → Progress × Except Errno Unit
  | [], p => (p, .ok ())
  | name :: names, p =>
    match kernel.unlink found (join real name) p with
    | (p, .error e) => (p, .error e)
    | (p, .ok ()) => unlinkEntries found real names p

def removeDirectory (path : Str) (p : Progress) : Progress × Except Errno Unit :=
  match dirAllowed env (kernel.sys p.disk) .Delete path with
  | .error e => (p, .error e)
  | .ok () =>
    let real := makeReal env.cfg.sitepath path
    match p.disk.opendir real with
    | .error e => (p, .error e)
    | .ok names =>
      match checkEntries kernel p.disk real names with
      | .error e => (p, .error e)
      | .ok () =>
        match unlinkEntries kernel p.disk real names p with
        | (p', .error e) => (p', .error e)
        | (p', .ok ()) => kernel.rmdir p.disk real p'

/-! ## What is gone has been deleted -/

/-- Entries are gone from `t₀` only by deletions that are right. -/
structure Accounted (t₀ : Disk) (Right : Deletion → Prop) (p : Progress) : Prop where
  within : p.disk.Within t₀
  gone : ∀ q, (t₀.find q).isSome → p.disk.find q = none → ∃ d ∈ p.deletions, d.path = q ∧ Right d

section Accounted

variable {env kernel} {t₀ : Disk} {Right : Deletion → Prop} {p : Progress}

theorem accounted_start : Accounted t₀ Right ⟨t₀, []⟩ := by
  refine ⟨Tree.Within.refl t₀, fun q hq hgone => ?_⟩
  rw [show t₀.find q = none from hgone] at hq
  cases hq

theorem Accounted.delete (h : Accounted t₀ Right p) {found : Disk} {q : List Seg} (hq : q ≠ [])
    (hleaf : ∀ r, r ≠ [] → p.disk.find (q ++ r) = none) (hright : Right ⟨q, found⟩) :
    Accounted t₀ Right (kernel.delete found q p).1 := by
  unfold Kernel.delete
  split
  · exact h
  · refine ⟨(Tree.prune_within hq).trans h.within, fun x hx hgone => ?_⟩
    by_cases hbefore : p.disk.find x = none
    · obtain ⟨d, hd, hpath⟩ := h.gone x hx hbefore
      exact ⟨d, List.mem_cons_of_mem _ hd, hpath⟩
    · have := Tree.gone_of_prune hq hleaf (Option.isSome_iff_ne_none.mpr hbefore) hgone
      exact ⟨_, List.mem_cons_self, this.symm, hright⟩

/-- A path that is an entry of the tree leads in what is left of the tree to the entry, or nowhere. -/
theorem place_entry {t : Disk} (hwithin : t.Within t₀) {q r : List Seg} (hq : (t₀.find q).isSome)
    (hplace : t.place false (text q) = some r) : r = q := by
  obtain ⟨n, hn⟩ := Option.isSome_iff_exists.mp hq
  have hself : t₀.place false (text q) = some q := place_text (shapeAt_of_find hn) fun hf => nomatch hf
  have := walk_within hwithin maxSymLinks hplace
  exact Option.some.inj (this.symm.trans hself)

theorem unlink_accounted (h : Accounted t₀ Right p) {found : Disk} {path : Str}
    (hright : ∀ q, p.disk.place false path = some q → Right ⟨q, found⟩) :
    Accounted t₀ Right (kernel.unlink found path p).1 := by
  unfold Kernel.unlink
  split
  · exact h
  · rename_i q hplace
    split
    · exact h
    · rename_i hdir
      refine h.delete (fun hroot => hdir (hroot ▸ Tree.root_isDir p.disk)) (fun r hr => ?_) (hright q hplace)
      by_contra hsome
      exact hdir (Tree.isDir_of_below hr (Option.isSome_iff_ne_none.mpr hsome))

theorem rmdir_accounted (h : Accounted t₀ Right p) {found : Disk} {path : Str}
    (hright : ∀ q, p.disk.place false path = some q → Right ⟨q, found⟩) :
    Accounted t₀ Right (kernel.rmdir found path p).1 := by
  unfold Kernel.rmdir
  split
  · exact h
  · rename_i q hplace
    split
    · exact h
    · split
      · exact h
      · rename_i hroot
        split
        · exact h
        · rename_i hempty
          refine h.delete hroot (fun r hr => ?_) (hright q hplace)
          obtain ⟨s, r, rfl⟩ := List.exists_cons_of_ne_nil hr
          by_contra hsome
          have hs : s ∈ names p.disk q := by
            refine mem_names.mpr (Tree.isSome_of_prefix (q := q ++ s :: r) ?_ (Option.isSome_iff_ne_none.mpr hsome))
            exact ⟨r, by simp⟩
          rw [not_not.mp hempty] at hs
          cases hs

theorem unlinkEntries_accounted {found : Disk} {real : Str} (names : List Str)
    (hright : ∀ name ∈ names, ∀ t : Disk, t.Within t₀ → ∀ q, t.place false (join real name) = some q →
      Right ⟨q, found⟩) (h : Accounted t₀ Right p) :
    Accounted t₀ Right (unlinkEntries kernel found real names p).1 := by
  induction names generalizing p with
  | nil => exact h
  | cons name names ih =>
    have hone : Accounted t₀ Right (kernel.unlink found (join real name) p).1 :=
      unlink_accounted h fun q hplace => hright name List.mem_cons_self p.disk h.within q hplace
    rw [unlinkEntries]
    split
    · rename_i heq
      rw [heq] at hone
      exact hone
    · rename_i heq
      rw [heq] at hone
      exact ih (fun name hname => hright name (List.mem_cons_of_mem _ hname)) hone

theorem checkEntries_ok {t : Disk} {real : Str} {names : List Str} (h : checkEntries kernel t real names = .ok ())
    {name : Str} (hname : name ∈ names) : name.head? = some '.' ∧
      ∃ status, t.status (join real name) = some status ∧ status.isDirectory = false := by
  induction names with
  | nil => cases hname
  | cons x names ih =>
    rw [checkEntries] at h
    split at h
    · cases h
    · rename_i hdot
      split at h
      · cases h
      · rename_i status hstatus
        split at h
        · cases h
        · rename_i hcheck
          simp only [Bool.or_eq_true, not_or, Bool.not_eq_true] at hcheck
          rcases List.mem_cons.mp hname with rfl | hname
          · exact ⟨not_not.mp hdot, status, hstatus, hcheck.1⟩
          · exact ih h hname

theorem opendir_text {t : Disk} {q : List Seg} (hdir : t.IsDir q) :
    t.opendir (text q) = .ok ((names t q).map Seg.val) := by
  have hplace : t.place true (text q) = some q := place_text hdir fun _ => dir_ne_link
  obtain ⟨n, hn, hshape⟩ := find_of_shapeAt hdir
  rw [Disk.opendir, hplace, Option.bind_some, hn, names, hn]
  cases n with
  | dir attr entries => simp [Node.entries]
  | leaf regular attr => cases hshape
  | link attr target => cases hshape

/-- A directory that is no longer there is not found. -/
theorem opendir_gone {t : Disk} (hwithin : t.Within t₀) {q : List Seg} (hdir : t₀.IsDir q) (hgone : ¬ t.IsDir q) :
    t.opendir (text q) = .error .ENOENT := by
  have hplace : t.place true (text q) = none := by
    cases hplace : t.place true (text q) with
    | none => rfl
    | some r =>
      have hbefore : t₀.place true (text q) = some r := walk_within hwithin maxSymLinks hplace
      have hself : t₀.place true (text q) = some q := place_text hdir fun _ => dir_ne_link
      obtain rfl : q = r := Option.some.inj (hself.symm.trans hbefore)
      obtain ⟨sh, hsh⟩ := Option.isSome_iff_exists.mp (placed_of_walk hplace).isSome
      rw [Option.some.inj ((hwithin.shapeAt hsh).symm.trans hdir)] at hsh
      exact absurd hsh hgone
  rw [Disk.opendir, hplace]
  rfl

variable {site : List Seg} (hsitepath : env.cfg.sitepath = text site) (hsite : site ≠ []) {v : List Seg}

include hsitepath hsite

theorem deleteFile_accounted (h : Accounted t₀ Right p) (hv : (t₀.find (site ++ v)).isSome)
    (hright : fileAllowed env (kernel.sys p.disk) .Delete (text v) = .ok () → Right ⟨site ++ v, p.disk⟩) :
    Accounted t₀ Right (Kernel.deleteFile env kernel (text v) p).1 := by
  unfold Kernel.deleteFile
  split
  · exact h
  · rename_i hallowed
    rw [hsitepath, makeReal_text hsite]
    refine unlink_accounted h fun q hplace => ?_
    rw [place_entry h.within hv hplace]
    exact hright hallowed

/-- A directory goes after the entries with a dot in front of their names. -/
theorem removeDirectory_accounted (h : Accounted t₀ Right p) (hdir : t₀.IsDir (site ++ v))
    (hright : p.disk.IsDir (site ++ v) → dirAllowed env (kernel.sys p.disk) .Delete (text v) = .ok () →
      Right ⟨site ++ v, p.disk⟩ ∧
        ∀ s : Seg, s.val.head? = some '.' → (p.disk.find (site ++ (v ++ [s]))).isSome →
          (∃ status, p.disk.status (text (site ++ (v ++ [s]))) = some status ∧ status.isDirectory = false) →
            Right ⟨site ++ (v ++ [s]), p.disk⟩) :
    Accounted t₀ Right (removeDirectory env kernel (text v) p).1 := by
  unfold removeDirectory
  split
  · exact h
  · rename_i hallowed
    simp only [hsitepath, makeReal_text hsite]
    by_cases hleft : p.disk.IsDir (site ++ v)
    · obtain ⟨hself, hentries⟩ := hright hleft hallowed
      simp only [opendir_text hleft]
      split
      · exact h
      · rename_i hcheck
        have hunlink : Accounted t₀ Right (unlinkEntries kernel p.disk (text (site ++ v))
            ((names p.disk (site ++ v)).map Seg.val) p).1 := by
          refine unlinkEntries_accounted _ (fun name hname t hwithin q hplace => ?_) h
          obtain ⟨hdot, hstatus⟩ := checkEntries_ok hcheck hname
          obtain ⟨s, hs, rfl⟩ := List.mem_map.mp hname
          rw [join_text, List.append_assoc] at hstatus hplace
          have hfind := mem_names.mp hs
          rw [List.append_assoc] at hfind
          rw [place_entry hwithin (h.within.isSome hfind) hplace]
          exact hentries s hdot hfind hstatus
        split
        · rename_i heq
          rw [heq] at hunlink
          exact hunlink
        · rename_i heq
          rw [heq] at hunlink
          refine rmdir_accounted hunlink fun q hplace => ?_
          rw [place_entry hunlink.within (Tree.isSome_of_shapeAt hdir) hplace]
          exact hself
    · simp only [opendir_gone h.within hdir hleft]
      exact h

end Accounted

/-! ## An iteration over a tree that shrinks -/

/-- Each name matches its token. -/
def Fits (tokens : List Str) (q : List Seg) : Prop :=
  List.Forall₂ (fun token s => Glob.wildcardMatch token s = true) tokens q

instance (tokens : List Str) (q : List Seg) : Decidable (Fits tokens q) := inferInstanceAs (Decidable (List.Forall₂ _ _ _))

/-- The open directories match the tokens of their levels, and the names in them are entries of `t₀`. -/
def Tracked (t₀ : Disk) (tokens : List Str) : List Frame → Prop
  | [] => True
  | f :: frames => f.dir.length < tokens.length ∧ Fits (tokens.take f.dir.length) f.dir ∧
      (∀ s ∈ f.names, (t₀.find (f.dir ++ [s])).isSome) ∧ Tracked t₀ tokens frames

section Tracked

variable {t₀ t : Disk} {tokens : List Str} {frames : List Frame}

theorem fits_concat {q : List Seg} {s : Seg} (hlt : q.length < tokens.length) (hq : Fits (tokens.take q.length) q)
    (hs : Glob.wildcardMatch (tokens.getD q.length []) s = true) :
    Fits (tokens.take (q ++ [s]).length) (q ++ [s]) := by
  rw [List.length_append, List.length_singleton, List.take_succ_eq_append_getElem hlt]
  rw [List.getD_eq_getElem?_getD, List.getElem?_eq_getElem hlt, Option.getD_some] at hs
  exact List.rel_append hq (.cons hs .nil)

theorem fits_concat_inv {q : List Seg} {token : Str} (h : Fits (tokens ++ [token]) q) :
    ∃ x s, q = x ++ [s] ∧ Fits tokens x := by
  induction tokens generalizing q with
  | nil =>
    cases h with
    | @cons _ s _ _ _ hrest =>
      cases hrest
      exact ⟨[], s, rfl, .nil⟩
  | cons first tokens ih =>
    cases h with
    | @cons _ s _ q hs hrest =>
      obtain ⟨x, s', rfl, hx⟩ := ih hrest
      exact ⟨s :: x, s', rfl, .cons hs hx⟩

theorem advance_tracked (h : Tracked t₀ tokens frames) : Tracked t₀ tokens (advance frames) := by
  induction frames with
  | nil => exact h
  | cons f frames ih =>
    rw [advance]
    split
    · exact ih h.2.2.2
    · rename_i s rest htail
      refine ⟨h.1, h.2.1, fun x hx => h.2.2.1 x (List.mem_of_mem_tail ?_), h.2.2.2⟩
      rw [htail]
      exact hx

/-- The entry that the iterator is at: it is in the directory that was opened last. -/
theorem current_tracked (h : Tracked t₀ tokens frames) {q : List Seg} (hq : current frames = some q) :
    (t₀.find q).isSome ∧ ∃ dir s, q = dir ++ [s] ∧ dir.length < tokens.length ∧ Fits (tokens.take dir.length) dir := by
  match frames, h, hq with
  | ⟨dir, s :: names⟩ :: frames, h, hq =>
    cases hq
    exact ⟨h.2.2.1 s List.mem_cons_self, dir, s, rfl, h.1, h.2.1⟩

theorem increment_tracked (hwithin : t.Within t₀) (h : Tracked t₀ tokens frames) {noPush : Bool}
    (hpush : noPush = false → ∀ q, current frames = some q →
      q.length < tokens.length ∧ Fits (tokens.take q.length) q) :
    Tracked t₀ tokens (increment t noPush frames) := by
  unfold increment
  split
  · exact trivial
  · rename_i q hq
    split
    · rename_i hcase
      simp only [Bool.and_eq_true, Bool.not_eq_true'] at hcase
      obtain ⟨hlt, hfits⟩ := hpush hcase.1.1 q hq
      exact ⟨hlt, hfits, fun s hs => hwithin.isSome (mem_names.mp hs), h⟩
    · exact advance_tracked h

/-- What holds of an iterator that does not descend below its mask, before it is moved. -/
structure Tracks (t₀ : Disk) (it : GlobIterator) : Prop where
  flat : it.recursive = false
  leveled : Leveled it.frames
  tracked : Tracked t₀ it.pathTokens it.frames
  pushed : it.noPush = false → ∀ q, current it.frames = some q →
    q.length < it.pathTokens.length ∧ Fits (it.pathTokens.take q.length) q

theorem next_tracked (hwithin : t.Within t₀) (fuel : Nat) {it it' : GlobIterator} (h : Tracks t₀ it)
    (hnext : it.next t fuel = .ok it') :
    Tracks t₀ it' ∧ it'.pathTokens = it.pathTokens ∧
      ∀ q, current it'.frames = some q → (t₀.find q).isSome ∧ Fits it.pathTokens q := by
  induction fuel generalizing it with
  | zero => cases hnext
  | succ fuel ih =>
    have hleveled : Leveled (increment t it.noPush it.frames) := increment_leveled h.leveled it.noPush
    have htracked := increment_tracked hwithin h.tracked h.pushed
    rw [GlobIterator.next] at hnext
    generalize increment t it.noPush it.frames = frames at hnext hleveled htracked
    simp only at hnext
    cases hcurrent : current frames with
    | none =>
      simp only [hcurrent, Except.ok.injEq] at hnext
      subst hnext
      refine ⟨⟨h.flat, hleveled, htracked, fun hf => absurd hf (by simp)⟩, rfl, fun q hq => ?_⟩
      cases hcurrent.symm.trans hq
    | some q =>
      obtain ⟨hsome, dir, s, rfl, hlt, hfits⟩ := current_tracked htracked hcurrent
      have hlevel : frames.length - 1 = dir.length := by
        rw [← current_length hleveled hcurrent, List.length_append, List.length_singleton, Nat.add_sub_cancel]
      have hlast : ((dir ++ [s]).getLast?).any (Glob.wildcardMatch (it.pathTokens.getD dir.length [])) =
          Glob.wildcardMatch (it.pathTokens.getD dir.length []) s := by simp
      have hlength : (dir ++ [s]).length = dir.length + 1 := by simp
      simp only [hcurrent, hlevel, GlobIterator.inspect, hlast] at hnext
      by_cases hinner : dir.length + 1 < it.pathTokens.length
      · simp only [if_pos hinner, Bool.false_eq_true, if_false] at hnext
        have htracks : Tracks t₀ { it with
            frames
            noPush := !(isDirectory t (dir ++ [s]) && Glob.wildcardMatch (it.pathTokens.getD dir.length []) s) } := by
          refine ⟨h.flat, hleveled, htracked, fun hf q hq => ?_⟩
          cases hcurrent.symm.trans hq
          simp only [Bool.not_eq_false', Bool.and_eq_true] at hf
          exact ⟨hlength ▸ hinner, fits_concat hlt hfits hf.2⟩
        have hrest := ih htracks hnext
        exact hrest
      · -- the entry is at the depth of the mask, and is not entered
        have hall : dir.length + 1 = it.pathTokens.length := by omega
        have htracks : Tracks t₀ { it with frames, noPush := true } :=
          ⟨h.flat, hleveled, htracked, fun hf => absurd hf (by simp)⟩
        simp only [if_neg hinner, if_pos hall] at hnext
        by_cases hmatch : Glob.wildcardMatch (it.pathTokens.getD dir.length []) s = true
        · have hfit : Fits it.pathTokens (dir ++ [s]) := by
            have := fits_concat hlt hfits hmatch
            rwa [hlength, hall, List.take_length] at this
          have hdone : Tracks t₀ { it with frames, noPush := true } ∧ it.pathTokens = it.pathTokens ∧
              ∀ q, current frames = some q → (t₀.find q).isSome ∧ Fits it.pathTokens q := by
            refine ⟨htracks, rfl, fun q hq => ?_⟩
            cases hcurrent.symm.trans hq
            exact ⟨hsome, hfit⟩
          simp only [if_pos hmatch] at hnext
          by_cases hdir : isDirectory t (dir ++ [s]) = true
          · have hflat : (!it.recursive) = true := by rw [h.flat, Bool.not_false]
            simp only [if_pos hdir, hflat, if_true, Except.ok.injEq] at hnext
            exact hnext ▸ hdone
          · simp only [if_neg hdir] at hnext
            by_cases hslash : it.trailingSlash = true
            · simp only [if_pos hslash, Bool.false_eq_true, if_false] at hnext
              have hrest := ih htracks hnext
              exact hrest
            · simp only [if_neg hslash, if_true, Except.ok.injEq] at hnext
              exact hnext ▸ hdone
        · simp only [if_neg hmatch, Bool.false_eq_true, if_false] at hnext
          have hrest := ih htracks hnext
          exact hrest

/-- Where an iteration starts. -/
theorem openDirectory_tracked (hwithin : t.Within t₀) {fuel : Nat} {it it' : GlobIterator}
    (hflat : it.recursive = false) (htokens : it.pathTokens ≠ []) (h : it.openDirectory t fuel = .ok it') :
    Tracks t₀ it' ∧ it'.pathTokens = it.pathTokens ∧
      ∀ q, current it'.frames = some q → (t₀.find q).isSome ∧ Fits it.pathTokens q := by
  rw [GlobIterator.openDirectory] at h
  split at h
  · cases h
  · rename_i hroot
    have hstart : Tracks t₀ { it with frames := [⟨[], names t []⟩], noPush := true } := by
      refine ⟨hflat, ⟨rfl, hroot, trivial⟩, ⟨List.length_pos_of_ne_nil htokens, .nil,
        fun s hs => hwithin.isSome (mem_names.mp hs), trivial⟩,
        fun hf => absurd hf (by simp)⟩
    have hnext := next_tracked hwithin fuel hstart h
    exact hnext

end Tracked

end Fs
end Ebftpd
