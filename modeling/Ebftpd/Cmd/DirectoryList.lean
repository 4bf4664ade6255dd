import Mathlib.Algebra.GroupWithZero.Nat
import Ebftpd.Acl.Path
import Ebftpd.Fs.Tree

/-!
# Ebftpd.Cmd.DirectoryList

Directory listings (`src/cmd/rfc/dirlist.cpp`), and the enumeration of a directory under them
(`src/fs/direnumerator.cpp`). A listing is the messages that it writes, one for each directory.

The recursion goes down the tree with some fuel; `listPath_total` says how much is enough.
-/

namespace Ebftpd
namespace Cmd
namespace DirectoryList

open Util Util.Path Lib Lib.FileTree Fs Acl Acl.Path

structure ListOptions where
  all : Bool := false
  longFormat : Bool := false
  slashDirs : Bool := false
  reverse : Bool := false
  recursive : Bool := false
  sizeSort : Bool := false
  modTimeSort : Bool := false
  noGroup : Bool := false
  sizeName : Bool := false
  noOwners : Bool := false

def ListOptions.parseOption (o : ListOptions) (option : Char) : ListOptions :=
  match option with
  | 'a' => { o with all := true }
  | 'A' => { o with all := true }
  | 'l' => { o with longFormat := true }
  | 'p' => { o with slashDirs := true }
  | 'r' => { o with reverse := true }
  | 'R' => { o with recursive := true }
  | 'S' => { o with sizeSort := true, modTimeSort := false }
  | 't' => { o with modTimeSort := true, sizeSort := false }
  | 'o' => { o with noGroup := true }
  | 'z' => { o with sizeName := true }
  | 'y' => { o with noOwners := true }
  | _ => o

/-- `ListOptions(userDefined, forced)`. -/
def ListOptions.ofStrings (userDefined forced : Str) : ListOptions :=
  (forced ++ userDefined).foldl ListOptions.parseOption {}

structure DirEntry where
  path : Str
  status : Fs.Status
  owner : Owner

def strcasecmpLess (a b : Str) : Bool := decide (toLowerCopy a < toLowerCopy b)

def pathLess (de₁ de₂ : DirEntry) : Bool := strcasecmpLess de₁.path de₂.path

def pathGreater (de₁ de₂ : DirEntry) : Bool := strcasecmpLess de₂.path de₁.path

def sizeLess (de₁ de₂ : DirEntry) : Bool := decide (de₁.status.attr.size < de₂.status.attr.size)

def sizeGreater (de₁ de₂ : DirEntry) : Bool := decide (de₁.status.attr.size > de₂.status.attr.size)

def modTimeLess (de₁ de₂ : DirEntry) : Bool := decide (de₁.status.attr.modTime < de₂.status.attr.modTime)

def modTimeGreater (de₁ de₂ : DirEntry) : Bool := decide (de₁.status.attr.modTime > de₂.status.attr.modTime)

/-- The order that the options ask for. -/
def ListOptions.less (o : ListOptions) : DirEntry → DirEntry → Bool :=
  if o.sizeSort then if o.reverse then sizeGreater else sizeLess
  else if o.modTimeSort then if o.reverse then modTimeGreater else modTimeLess
  else if o.reverse then pathGreater else pathLess

/-- What a listing takes from its surroundings: the names of users, `strftime` of the local time, and
`std::sort`, which puts entries that compare equal in some order. -/
structure Runtime where
  uidToName : UserID → Str
  timestamp : Int → Str
  sort : (DirEntry → DirEntry → Bool) → List DirEntry → List DirEntry
  sort_perm : ∀ less entries, (sort less entries).Perm entries

structure DirEnumerator where
  totalBytes : Nat := 0
  entries : List DirEntry := []

/-- One message, about the directory `path`. -/
structure Message where
  path : Str
  head : Str
  total : Option Nat
  lines : Str

def Message.totalLine (m : Message) : Str :=
  match m.total with
  | some kBytes => "total ".toList ++ Nat.toDigits 10 kBytes ++ "\r\n".toList
  | none => []

def Message.str (m : Message) : Str := m.head ++ (m.totalLine ++ m.lines)

inductive Ending where
  | done
  | thrown (e : Exn)
  | outOfFuel

structure Listing where
  messages : List Message
  ending : Ending

/-- The bytes that a listing writes. -/
def Listing.bytes (l : Listing) : Str := l.messages.flatMap Message.str

/-- One listing after the other, up to the first that does not come to its end. -/
def Listing.sequence : List Listing → Listing
  | [] => ⟨[], .done⟩
  | l :: rest =>
    match l.ending with
    | .done => ⟨l.messages ++ (sequence rest).messages, (sequence rest).ending⟩
    | e => ⟨l.messages, e⟩

variable (env : Env) (sys : Sys) (rt : Runtime) (t : Disk)

/-! ## The enumeration -/

/-- `DirAllowed<type>` or `FileAllowed<type>`, by the kind of the entry. -/
def entryAllowed (type : AccessType) (isDirectory : Bool) (virt : Str) : Bool :=
  if isDirectory then (dirAllowed env sys type virt).isOk else (fileAllowed env sys type virt).isOk

/-- The loop of `Readdir`, for one name. -/
def enumerate (loadOwners : Bool) (path : Str) (de : DirEnumerator) (name : Str) :
    Except Exn DirEnumerator :=
  let entryPath := join path name
  match t.status entryPath with
  | none => .ok de
  | some status =>
    let de := { de with totalBytes := (de.totalBytes + status.attr.size) % 2 ^ 64 }
    match makeVirtual env.cfg.sitepath entryPath with
    | .error e => .error e
    | .ok virtPath =>
      if !entryAllowed env sys .View status.isDirectory virtPath then .ok de
      else
        let hideOwner := entryAllowed env sys .Hideowner status.isDirectory virtPath
        let owner := if !hideOwner && loadOwners then t.getOwner entryPath else ⟨0, 0⟩
        .ok { de with entries := de.entries ++ [⟨name, status, owner⟩] }

/-- `DirEnumerator::Readdir`. -/
def enumerateDir (loadOwners : Bool) (path : Str) : Except Exn DirEnumerator :=
  let real := makeReal env.cfg.sitepath path
  match makeVirtual env.cfg.sitepath real with
  | .error e => .error e
  | .ok virt =>
    if !(dirAllowed env sys .View virt).isOk then .ok {}
    else
      match t.opendir real with
      | .error e => .error (.systemError e)
      | .ok names => names.foldlM (enumerate env sys t loadOwners real) {}

/-! ## The listing -/

variable (options : ListOptions)

/-- `DirectoryList::Readdir`. -/
def readdir (path : Str) : Except Exn DirEnumerator :=
  match enumerateDir env sys t (!options.noOwners && !options.sizeName) path with
  | .error e => .error e
  | .ok dirEnum => .ok { dirEnum with entries := rt.sort options.less dirEnum.entries }

def permissions (status : Fs.Status) : Str :=
  let kind := if status.isSymLink then 'l' else if status.isDirectory then 'd' else '-'
  kind :: ("rwxrwxrwx".toList.zip [8, 7, 6, 5, 4, 3, 2, 1, 0]).map fun p =>
    if status.attr.mode.testBit p.2 then p.1 else '-'

def Runtime.time (status : Fs.Status) : Str :=
  rt.timestamp (status.attr.modTime - status.attr.modTime.tmod 60)

/-- The line of an entry of the directory `path`. -/
def line (path : Str) (de : DirEntry) : Str :=
  if options.longFormat then
    let size := Nat.toDigits 10 de.status.attr.size
    let details :=
      if options.sizeName then size.rightpad 10 ' ' ++ ' ' :: de.path
      else
        permissions de.status ++
          ' ' :: (Nat.toDigits 10 de.status.attr.nlink).leftpad 3 ' ' ++
          ' ' :: ((rt.uidToName de.owner.uid).take 10).rightpad 10 ' ' ++ [' '] ++
          (if options.noGroup then [] else ((env.gidToName de.owner.gid).take 10).rightpad 10 ' ' ++ [' ']) ++
          size.leftpad 10 ' ' ++ ' ' :: rt.time de.status ++ ' ' :: de.path
    let dest :=
      if de.status.isSymLink then
        match t.readlink (makeReal env.cfg.sitepath (join path de.path)) with
        | some dest => " -> ".toList ++ dest
        | none => []
      else []
    details ++ dest ++ (if options.slashDirs && de.status.isDirectory then ['/'] else []) ++ "\r\n".toList
  else de.path ++ "\r\n".toList

/-- Whether an entry is not skipped; no mask is the empty one. -/
def isShown (mask name : Str) : Bool :=
  !(name.head? == some '.' && !options.all) && (mask.isEmpty || env.cfg.wildcardMatch mask name)

/-- The message about the directory `path`. -/
def message (path : Str) (masks : List Str) (depth : Nat) (dirEnum : DirEnumerator) : Message where
  path := path
  head :=
    (if depth > 1 then "\r\n".toList else []) ++
      (if !path.isEmpty && decide (depth > 1) && (options.recursive || !masks.isEmpty) then
        path ++ ":\r\n".toList
      else [])
  total := if options.longFormat then some (dirEnum.totalBytes / 1024) else none
  lines :=
    if masks.tail.isEmpty then
      (dirEnum.entries.filter fun de => isShown env options (masks.head?.getD []) de.path).flatMap
        (line env rt t options path)
    else []

/-- The entries that the listing goes into. -/
def subdirectories (mask : Str) (dirEnum : DirEnumerator) : List DirEntry :=
  dirEnum.entries.filter fun de =>
    de.status.isDirectory && !de.status.isSymLink && isShown env options mask de.path

variable (maxRecursion : Int)

def listPath : Nat → Str → List Str → Nat → Listing
  | 0, _, _, _ => ⟨[], .outOfFuel⟩
  | fuel + 1, path, masks, depth =>
    if maxRecursion ≠ 0 ∧ (depth : Int) > maxRecursion then ⟨[], .done⟩
    else
      match readdir env sys rt t options path with
      -- silent failure
      | .error (.systemError _) => ⟨[], .done⟩
      | .error e => ⟨[], .thrown e⟩
      | .ok dirEnum =>
        let mask := masks.head?.getD []
        let written : Listing := ⟨[message env rt t options path masks depth dirEnum], .done⟩
        if options.recursive || !mask.isEmpty then
          .sequence (written :: (subdirectories env options mask dirEnum).map fun de =>
            listPath fuel (join path de.path) masks.tail (depth + 1))
        else written

/-! ## The argument -/

def wildcardChars : Str := "*?[]".toList

/-- The loop over the tokens: the path up to the first wildcard, and the masks from there. -/
def splitTokens : Str → List Str → Str × List Str
  | parent, [] => (parent, [])
  | parent, token :: tokens =>
    if token.any wildcardChars.contains then (parent, token :: tokens)
    else splitTokens (join parent token) tokens

def tokens (path : Str) : List Str := (path.splitOn '/').filter fun token => !token.isEmpty

variable (workDirectory : Str)

def fromUser (path : Str) : Except Exn Str := pathFromUser env.cfg.sitepath t.realpath workDirectory path

/-- The first test of `SplitPath`. -/
def isRegular (path : Str) : Bool :=
  (t.status (makeRealPath env.cfg.sitepath t.realpath workDirectory path)).any Fs.Status.isRegularFile

/-- What the parent of a path is made from, where there are wildcards in it. -/
def splitPath (path : Str) : Except Exn (Str × List Str) :=
  if isRegular env t workDirectory path then
    match fromUser env t workDirectory (dirname path) with
    | .error e => .error e
    | .ok parent => .ok (parent, [basename path])
  else
    match (if path.head? = some '/' then fromUser env t workDirectory "/".toList else .ok []) with
    | .error e => .error e
    | .ok top =>
      let (parent, masks) := splitTokens top (tokens path)
      match fromUser env t workDirectory parent with
      | .error e => .error e
      | .ok parent => .ok (parent, masks)

/-- The names that `SplitPath` looks up. -/
def splitAsked (path : Str) : List (List Seg) :=
  let real := makeRealPath env.cfg.sitepath t.realpath workDirectory path
  let asked := t.asked env.cfg.sitepath workDirectory
  asked path ++ ((t.walk false real).1 ++ (t.walk true real).1) ++
    if isRegular env t workDirectory path then asked (dirname path)
    else
      (if path.head? = some '/' then asked "/".toList else []) ++
        match (if path.head? = some '/' then fromUser env t workDirectory "/".toList else .ok []) with
        | .error _ => []
        | .ok top => asked (splitTokens top (tokens path)).1

/-- `DirectoryList::Execute`. -/
def execute (fuel : Nat) (path : Str) : Listing :=
  match splitPath env t workDirectory path with
  | .error e => ⟨[], .thrown e⟩
  | .ok (parent, masks) => listPath env sys rt t options maxRecursion fuel parent masks 1

/-! ## Enough fuel -/

variable {env sys rt t options maxRecursion workDirectory}

theorem sequence_done {ls : List Listing} (h : ∀ l ∈ ls, l.ending = .done) :
    (Listing.sequence ls).ending = .done := by
  induction ls with
  | nil => rfl
  | cons l ls ih =>
    rw [Listing.sequence, h l List.mem_cons_self]
    exact ih fun x hx => h x (List.mem_cons_of_mem l hx)

/-- Listings that come to their ends write one after the other. -/
theorem sequence_messages {ls : List Listing} (h : ∀ l ∈ ls, l.ending = .done) :
    (Listing.sequence ls).messages = ls.flatMap Listing.messages := by
  induction ls with
  | nil => rfl
  | cons l ls ih =>
    rw [Listing.sequence, h l List.mem_cons_self, List.flatMap_cons]
    simp only [ih fun x hx => h x (List.mem_cons_of_mem l hx)]

/-- The entries of an enumeration are names that were read, with their status. -/
theorem enumerate_mem {loadOwners : Bool} {real : Str} {names : List Str} {d d' : DirEnumerator}
    (h : names.foldlM (enumerate env sys t loadOwners real) d = .ok d') :
    ∀ de ∈ d'.entries, de ∈ d.entries ∨ de.path ∈ names ∧ t.status (join real de.path) = some de.status := by
  induction names generalizing d with
  | nil =>
    cases h
    exact fun de hde => .inl hde
  | cons name names ih =>
    rw [List.foldlM_cons] at h
    obtain ⟨d₁, h₁, h₂⟩ : ∃ d₁, enumerate env sys t loadOwners real d name = .ok d₁ ∧
        names.foldlM (enumerate env sys t loadOwners real) d₁ = .ok d' := by
      cases hstep : enumerate env sys t loadOwners real d name with
      | error e =>
        rw [hstep] at h
        cases h
      | ok d₁ =>
        rw [hstep] at h
        exact ⟨d₁, rfl, h⟩
    have hone : ∀ de ∈ d₁.entries, de ∈ d.entries ∨
        de.path = name ∧ t.status (join real de.path) = some de.status := by
      intro de hde
      simp only [enumerate] at h₁
      split at h₁
      · cases h₁
        exact .inl hde
      · rename_i status hstatus
        split at h₁
        · cases h₁
        · split at h₁
          · cases h₁
            exact .inl hde
          · cases h₁
            rcases List.mem_append.mp hde with hold | hnew
            · exact .inl hold
            · rw [List.mem_singleton.mp hnew]
              exact .inr ⟨rfl, hstatus⟩
    intro de hde
    rcases ih h₂ de hde with hold | ⟨hname, hstatus⟩
    · rcases hone de hold with hold | ⟨rfl, hstatus⟩
      · exact .inl hold
      · exact .inr ⟨List.mem_cons_self, hstatus⟩
    · exact .inr ⟨List.mem_cons_of_mem name hname, hstatus⟩

/-- An entry that a listing goes into is a directory below the directory it is in. -/
theorem subdirectory_place {q v : List Seg} {s : Seg} {status : Fs.Status}
    (hplace : t.place true (text v) = some q) (hstatus : t.status (text (v ++ [s])) = some status)
    (hdir : status.isDirectory = true) (hlink : status.isSymLink = false) :
    t.place true (text (v ++ [s])) = some (q ++ [s]) ∧ t.IsDir (q ++ [s]) := by
  obtain ⟨n, hn, rfl⟩ := Option.map_eq_some_iff.mp hstatus
  obtain ⟨p, hp, hfind⟩ := Option.bind_eq_some_iff.mp hn
  have hshape : t.shapeAt p = some .dir := by
    rw [shapeAt_of_find hfind, isDir_of_status hdir hlink]
  rw [place_child, hplace, Option.bind_some] at hp ⊢
  split at hp
  · rename_i hq
    obtain rfl := walk_name hp
    rw [if_pos hq]
    exact ⟨walk_self 39 q [s] hshape (fun _ => dir_ne_link), hshape⟩
  · cases hp

theorem opendir_ok {path : Str} {names : List Str} (h : t.opendir path = .ok names) :
    ∃ q n, t.place true path = some q ∧ t.find q = some n ∧
      names = (n.entries.map Prod.fst).map Seg.val := by
  unfold Disk.opendir at h
  split at h
  · cases h
  · rename_i attr entries hbind
    cases h
    obtain ⟨q, hq, hfind⟩ := Option.bind_eq_some_iff.mp hbind
    exact ⟨q, _, hq, hfind, by simp [Node.entries, Function.comp_def]⟩
  · cases h

/-- What `SplitPath` returns is a path of the user that it has asked about. -/
theorem splitPath_ok {path parent : Str} {masks : List Str}
    (h : splitPath env t workDirectory path = .ok (parent, masks)) :
    ∃ x, fromUser env t workDirectory x = .ok parent ∧
      ∀ q ∈ t.asked env.cfg.sitepath workDirectory x, q ∈ splitAsked env t workDirectory path := by
  unfold splitPath at h
  unfold splitAsked
  split at h
  · rename_i hreg
    split at h
    · cases h
    · rename_i found hfound
      cases h
      refine ⟨dirname path, hfound, fun q hq => List.mem_append_right _ ?_⟩
      rw [if_pos hreg]
      exact hq
  · rename_i hreg
    split at h
    · cases h
    · rename_i top htop
      simp only at h
      split at h
      · cases h
      · rename_i found hfound
        cases h
        refine ⟨_, hfound, fun q hq => List.mem_append_right _ ?_⟩
        rw [if_neg hreg]
        exact List.mem_append_right _ hq

variable {site : List Seg} (hsitepath : env.cfg.sitepath = text site) (hsite : site ≠ [])

include hsitepath hsite in
/-- An entry that a listing goes into is below the node that was read. -/
theorem readdir_place {v : List Seg} {d : DirEnumerator}
    (h : readdir env sys rt t options (text v) = .ok d) {de : DirEntry} (hde : de ∈ d.entries)
    (hdir : de.status.isDirectory = true) (hlink : de.status.isSymLink = false) :
    ∃ q n s, t.place true (text (site ++ v)) = some q ∧ t.find q = some n ∧ de.path = s.val ∧
      s ∈ n.entries.map Prod.fst ∧ t.place true (text (site ++ (v ++ [s]))) = some (q ++ [s]) := by
  unfold readdir at h
  split at h
  · cases h
  · rename_i dirEnum henum
    cases h
    have hmem := (rt.sort_perm _ _).mem_iff.mp hde
    simp only [enumerateDir, hsitepath, makeReal_text hsite, makeVirtual_text hsite] at henum
    split at henum
    · cases henum
      cases hmem
    · split at henum
      · cases henum
      · rename_i names hopen
        obtain ⟨q, n, hplace, hn, hnames⟩ := opendir_ok hopen
        rcases enumerate_mem henum de hmem with hnil | ⟨hname, hstatus⟩
        · cases hnil
        · rw [hnames] at hname
          obtain ⟨s, hs, hval⟩ := List.mem_map.mp hname
          rw [← hval, join_text] at hstatus
          have hsub := subdirectory_place hplace hstatus hdir hlink
          rw [List.append_assoc] at hsub
          exact ⟨q, n, s, hplace, hn, hval.symm, hs, hsub.1⟩

include hsitepath hsite in
/-- The names of a directory make virtual paths. -/
theorem enumerate_total {loadOwners : Bool} {v : List Seg} (names : List Seg) (d : DirEnumerator) :
    ∃ d', (names.map Seg.val).foldlM (enumerate env sys t loadOwners (text (site ++ v))) d = .ok d' := by
  induction names generalizing d with
  | nil => exact ⟨d, rfl⟩
  | cons s names ih =>
    have hone : ∃ d', enumerate env sys t loadOwners (text (site ++ v)) d s.val = .ok d' := by
      simp only [enumerate, join_text, List.append_assoc, hsitepath, makeVirtual_text hsite]
      split
      · exact ⟨_, rfl⟩
      · split
        · exact ⟨_, rfl⟩
        · exact ⟨_, rfl⟩
    obtain ⟨d', hd'⟩ := hone
    obtain ⟨d'', hd''⟩ := ih d'
    refine ⟨d'', ?_⟩
    rw [List.map_cons, List.foldlM_cons, hd']
    exact hd''

include hsitepath hsite in
/-- A directory is read, or the system refuses it. -/
theorem readdir_error {v : List Seg} {e : Exn} (h : readdir env sys rt t options (text v) = .error e) :
    ∃ errno, e = .systemError errno := by
  unfold readdir at h
  split at h
  · rename_i e' henum
    cases h
    simp only [enumerateDir, hsitepath, makeReal_text hsite, makeVirtual_text hsite] at henum
    split at henum
    · cases henum
    · split at henum
      · cases henum
        exact ⟨_, rfl⟩
      · rename_i names hopen
        obtain ⟨q, n, -, -, rfl⟩ := opendir_ok hopen
        obtain ⟨d, hd⟩ := enumerate_total hsitepath hsite (n.entries.map Prod.fst) {}
        rw [hd] at henum
        cases henum
  · cases h

include hsitepath hsite in
/-- The height of the directory that a listing starts from is enough fuel. -/
theorem listPath_done (fuel : Nat) : ∀ (v : List Seg) (masks : List Str) (depth : Nat), 0 < fuel →
    (∀ q n, t.place true (text (site ++ v)) = some q → t.find q = some n → n.height < fuel) →
      (listPath env sys rt t options maxRecursion fuel (text v) masks depth).ending = .done := by
  induction fuel with
  | zero => exact fun _ _ _ hpos => absurd hpos (lt_irrefl 0)
  | succ fuel ih =>
    intro v masks depth _ hheight
    rw [listPath]
    split
    · rfl
    · split
      · rfl
      · rename_i e hnot hread
        obtain ⟨errno, rfl⟩ := readdir_error hsitepath hsite hread
        exact absurd rfl (hnot errno)
      · rename_i d hread
        simp only
        split
        · refine sequence_done fun l hl => ?_
          rcases List.mem_cons.mp hl with rfl | hl
          · rfl
          · obtain ⟨de, hde, rfl⟩ := List.mem_map.mp hl
            obtain ⟨hmem, hkind⟩ := List.mem_filter.mp hde
            simp only [Bool.and_eq_true, Bool.not_eq_true'] at hkind
            obtain ⟨q, n, s, hplace, hn, hname, hs, hchild⟩ :=
              readdir_place hsitepath hsite hread hmem hkind.1.1 hkind.1.2
            obtain ⟨m, hm, hentry⟩ := Node.child_of_mem hs
            have hlower := Node.height_lt hentry
            have hn' := hheight q n hplace hn
            rw [hname, join_text]
            refine ih (v ++ [s]) masks.tail (depth + 1) (by omega) fun q' m' hq' hm' => ?_
            rw [hchild] at hq'
            obtain rfl := Option.some.inj hq'
            rw [Tree.find_child hn, hm] at hm'
            obtain rfl := Option.some.inj hm'
            exact Nat.lt_of_lt_of_le hlower (by omega)
        · rfl

include hsitepath hsite in
/-- So the height of the whole tree is enough for every listing. -/
theorem listPath_total {fuel : Nat} (h : t.root.height < fuel) (v : List Seg) (masks : List Str)
    (depth : Nat) : (listPath env sys rt t options maxRecursion fuel (text v) masks depth).ending = .done :=
  listPath_done hsitepath hsite fuel v masks depth (by omega) fun _ _ _ hn =>
    Nat.lt_of_le_of_lt (Node.height_find hn) h

end DirectoryList
end Cmd
end Ebftpd
