import Ebftpd.Db.Connection
import Ebftpd.Fs.File

/-!
# Ebftpd.Fs.Owner

Owners and the users they name (`src/fs/owner.cpp`, `User::Create` and `User::Purge` of
`src/db/user/user.cpp`). The owner of a file is a uid in an attribute of the file, which outlasts the
user. A purge removes the document of the user and leaves no mark, and a new user gets the uid one above
the largest that is there: a uid can come back, and with it the files of the user who had it.

Creations are calls of `InsertAutoIncrement`; any number of them runs at once, and their steps interleave
with purges and with what happens to the files. Which uids were assigned is what the users at the start
have and what the calls have returned.

* `step_inv`: what a step keeps where no uid of a purged user is taken.
* `uids_unused`: over every interleaving, no uid comes back and no file of a purged user is inherited.
* `takesPurged_of_top`: none is taken while the user with the largest uid is there.
* `getOwner_eq_iff`: the user whom a file names is the one `GetOwner` is compared with.
-/

namespace Ebftpd
namespace Fs
namespace Owner

open Util Acl Lib Lib.Parties Db.AutoIncrement

variable {δ : Type}

/-- `SetOwner`. -/
def setOwner (files : Files) (path : Str) (uid : UserID) : Files :=
  match files.lookup path with
  | some file => if uid = -1 then files else files.insert path { file with owner := uid }
  | none => files

structure Server (δ : Type) where
  -- the users at the start
  base : Collection δ
  users : State δ
  files : Files

inductive Move (δ : Type) where
  -- `User::Create` is called
  | create (obj : Obj δ)
  -- the next step of a creation in the database
  | call (i : Nat)
  | purge (uid : UserID)
  | store (path : Str) (file : File)
  | chown (path : Str) (uid : UserID)
  | unlink (path : Str)

def Server.create (s : Server δ) (obj : Obj δ) : Server δ :=
  { s with users := { s.users with calls := s.users.calls ++ [⟨obj, .next⟩] } }

/-- `User::Purge`. -/
def Server.purge (s : Server δ) (uid : UserID) : Server δ :=
  { s with users := { s.users with table := s.users.table.remove uid } }

def step (s : Server δ) : Move δ → Option (Server δ)
  | .create obj => some (s.create obj)
  | .call i =>
    match Db.AutoIncrement.step s.users i with
    | some users => some { s with users := users }
    | none => none
  | .purge uid => some (s.purge uid)
  | .store path file => some { s with files := s.files.insert path file }
  | .chown path uid => some { s with files := setOwner s.files path uid }
  | .unlink path => some { s with files := Fs.unlink s.files path }

def start (base : Collection δ) (files : Files) : Server δ := ⟨base, Db.AutoIncrement.start base [], files⟩

/-- Every uid that was assigned so far. -/
def Server.assigned (s : Server δ) : List Int :=
  s.base.rows.map Doc.id ++ s.users.documents.map Doc.id

/-- The uids of the users that exist. -/
def Server.present (s : Server δ) : List Int := s.users.table.rows.map Doc.id

def Server.purged (s : Server δ) (uid : Int) : Bool :=
  s.assigned.contains uid && !s.present.contains uid

/-- The user whom the attribute of a file names. -/
def Server.owner (s : Server δ) (path : Str) : Option (Doc δ) :=
  match s.files.lookup path with
  | some file => s.users.table.byId file.owner
  | none => none

/-! ## Uids that are taken -/

/-- The next creation to read a uid reads that of a purged user. -/
def Server.takesPurged (s : Server δ) : Bool :=
  decide (0 ≤ nextAutoIncrement s.users.table.rows) && s.purged (nextAutoIncrement s.users.table.rows)

def Server.reads (s : Server δ) (i : Nat) : Bool :=
  match s.users.calls[i]? with
  | some c => decide (c.pc = .next)
  | none => false

/-- A creation has read the uid and has not inserted it. -/
def Server.pending (s : Server δ) (uid : Int) : Bool := s.users.calls.any fun c => decide (c.pc = .insert uid)

/-- No creation reads the uid of a purged user, and no user is purged while a creation that has read his
uid is about to insert it. -/
def Unused (s : Server δ) : Move δ → Prop
  | .call i => (s.reads i && s.takesPurged) = false
  | .purge uid => s.pending uid = false
  | _ => True

instance (s : Server δ) : ∀ m : Move δ, Decidable (Unused s m)
  | .create _ => .isTrue trivial
  | .call i => inferInstanceAs (Decidable ((s.reads i && s.takesPurged) = false))
  | .purge uid => inferInstanceAs (Decidable (s.pending uid = false))
  | .store _ _ => .isTrue trivial
  | .chown _ _ => .isTrue trivial
  | .unlink _ => .isTrue trivial

theorem purged_eq_false {s : Server δ} {uid : Int} (h : s.purged uid = false) (huid : uid ∈ s.assigned) :
    uid ∈ s.present := by
  unfold Server.purged at h
  rw [List.contains_iff_mem.mpr huid, Bool.true_and, Bool.not_eq_false'] at h
  exact List.contains_iff_mem.mp h

structure Inv (s : Server δ) : Prop where
  assigned : s.assigned.Nodup
  isInt : ∀ uid ∈ s.assigned, intMin ≤ uid ∧ uid ≤ intMax
  present : s.present ⊆ s.assigned
  pending : ∀ c ∈ s.users.calls, ∀ uid : Int, c.pc = .insert uid →
    0 ≤ uid ∧ uid ≤ intMax ∧ (uid ∈ s.assigned → uid ∈ s.present)

theorem start_inv (base : Collection δ) (files : Files) : Inv (start base files) := by
  have hassigned : (start base files).assigned = base.rows.map Doc.id := List.append_nil _
  refine ⟨?_, ?_, ?_, fun c hc => (by cases hc)⟩
  · rw [hassigned]
    exact base.ids
  · intro uid huid
    rw [hassigned] at huid
    obtain ⟨d, hd, rfl⟩ := List.mem_map.mp huid
    exact base.isInt d hd
  · rw [hassigned]
    exact List.Subset.refl _

/-- What lies between two states of a run: an assigned uid stays assigned, and whoever has it was there
already. -/
structure Later (s s' : Server δ) : Prop where
  assigned : s.assigned ⊆ s'.assigned
  rows : ∀ d ∈ s'.users.table.rows, d.id ∈ s.assigned → d ∈ s.users.table.rows

theorem Later.refl (s : Server δ) : Later s s := ⟨List.Subset.refl _, fun _ hd _ => hd⟩

theorem Later.trans {s s1 s2 : Server δ} (h1 : Later s s1) (h2 : Later s1 s2) : Later s s2 :=
  ⟨fun _ huid => h2.assigned (h1.assigned huid),
    fun d hd huid => h1.rows d (h2.rows d hd (h1.assigned huid)) huid⟩

/-! ## One step -/

/-- A step of a creation that inserts nothing. -/
theorem Inv.keep {s : Server δ} (hs : Inv s) {users : State δ} {i : Nat} {c : Call δ} {pc : Pc}
    (hc : s.users.calls[i]? = some c) (htable : users.table = s.users.table)
    (hcalls : users.calls = s.users.calls.set i { c with pc := pc })
    (hdoc : ({ c with pc := pc } : Call δ).document = c.document)
    (hpending : ∀ uid : Int, pc = .insert uid →
      0 ≤ uid ∧ uid ≤ intMax ∧ (uid ∈ s.assigned → uid ∈ s.present)) :
    Inv { s with users := users } ∧ Later s { s with users := users } := by
  have hdocs := documents_set hc hcalls hdoc
  have hassigned : ({ s with users := users } : Server δ).assigned = s.assigned := by
    unfold Server.assigned
    rw [hdocs]
  have hpresent : ({ s with users := users } : Server δ).present = s.present := by
    unfold Server.present
    rw [htable]
  refine ⟨⟨hassigned ▸ hs.assigned, hassigned ▸ hs.isInt, ?_, ?_⟩, ?_, ?_⟩
  · rw [hassigned, hpresent]
    exact hs.present
  · rw [hassigned, hpresent]
    show ∀ c ∈ users.calls, _
    rw [hcalls]
    exact forall_set hs.pending hpending
  · rw [hassigned]
    exact List.Subset.refl _
  · intro d hd _
    exact htable ▸ hd

/-- The step of a creation that inserts: its uid is new. -/
theorem Inv.add {s : Server δ} (hs : Inv s) {users : State δ} {i : Nat} {c : Call δ} {uid : Int}
    (hc : s.users.calls[i]? = some c) (hpc : c.pc = .insert uid)
    (hinsert : s.users.table.insert ⟨uid, c.obj.name, c.obj.fields⟩ = some users.table)
    (hcalls : users.calls = s.users.calls.set i { c with pc := .done uid }) :
    Inv { s with users := users } ∧ Later s { s with users := users } := by
  obtain ⟨hpos, hmax, hthere⟩ := hs.pending c (List.mem_of_getElem? hc) uid hpc
  obtain ⟨hnew, -, hrows⟩ := Table.insert_eq_some hinsert
  have hfresh : uid ∉ s.assigned := fun huid => hnew (hthere huid)
  have hne : uid ≠ -1 := by omega
  have hdocs := documents_done hc hcalls hpc hne
  have hassigned : ({ s with users := users } : Server δ).assigned.Perm (s.assigned ++ [uid]) := by
    unfold Server.assigned
    rw [List.append_assoc]
    refine List.Perm.append_left _ ?_
    have hids := hdocs.map Doc.id
    rwa [List.map_append] at hids
  have hpresent : ({ s with users := users } : Server δ).present = s.present ++ [uid] := by
    unfold Server.present
    rw [hrows, List.map_append]
    rfl
  have hmem : ∀ u, u ∈ ({ s with users := users } : Server δ).assigned ↔ u ∈ s.assigned ∨ u = uid := by
    intro u
    rw [hassigned.mem_iff, List.mem_append, List.mem_singleton]
  refine ⟨⟨?_, ?_, ?_, ?_⟩, ?_, ?_⟩
  · rw [hassigned.nodup_iff]
    refine List.nodup_append.mpr ⟨hs.assigned, List.nodup_singleton _, ?_⟩
    rintro a ha b hb rfl
    rw [List.mem_singleton.mp hb] at ha
    exact hfresh ha
  · intro u hu
    rcases (hmem u).mp hu with hu | rfl
    · exact hs.isInt u hu
    · simp only [intMin]
      omega
  · intro u hu
    rw [hpresent, List.mem_append, List.mem_singleton] at hu
    exact (hmem u).mpr (hu.imp (fun h => hs.present h) id)
  · show ∀ c ∈ users.calls, _
    rw [hcalls]
    apply forall_set
    · intro c' hc' u hu
      obtain ⟨hpos', hmax', hthere'⟩ := hs.pending c' hc' u hu
      refine ⟨hpos', hmax', fun hassigned' => ?_⟩
      rw [hpresent, List.mem_append, List.mem_singleton]
      exact ((hmem u).mp hassigned').imp hthere' id
    · intro u hu
      cases hu
  · intro u hu
    exact (hmem u).mpr (.inl hu)
  · intro d hd hdassigned
    have hd : d ∈ users.table.rows := hd
    rw [hrows, List.mem_append, List.mem_singleton] at hd
    rcases hd with hd | rfl
    · exact hd
    · exact absurd hdassigned hfresh

theorem wrap32_le (z : Int) : wrap32 z ≤ intMax := by
  simp only [wrap32, intMax]
  omega

theorem step_inv (s : Server δ) (m : Move δ) (s' : Server δ) (hs : Inv s) (hm : Unused s m)
    (h : step s m = some s') : Inv s' ∧ Later s s' := by
  cases m with
  | create obj =>
    cases h
    have hdocs : (s.create obj).users.documents = s.users.documents := by
      simp [State.documents, Server.create, List.filterMap_append, Call.document]
    have hassigned : (s.create obj).assigned = s.assigned := by
      unfold Server.assigned
      rw [hdocs]
      rfl
    refine ⟨⟨hassigned ▸ hs.assigned, hassigned ▸ hs.isInt, hassigned ▸ hs.present, ?_⟩,
      hassigned ▸ List.Subset.refl _, fun d hd _ => hd⟩
    rw [hassigned]
    intro c hc uid hpc
    rcases List.mem_append.mp hc with hc | hc
    · exact hs.pending c hc uid hpc
    · rw [List.mem_singleton.mp hc] at hpc
      cases hpc
  | call i =>
    simp only [step] at h
    split at h
    · rename_i users hcall
      cases h
      obtain ⟨c, pc, hc, hmoves, hcalls⟩ := step_moves hcall
      generalize htable : users.table = table at hmoves
      cases hmoves with
      | noId hpc _ =>
        exact hs.keep hc htable hcalls (by simp [Call.document, hpc]) fun _ h => (by cases h)
      | nextId hpc hpos =>
        have hreads : s.reads i = true := by simp [Server.reads, hc, hpc]
        refine hs.keep hc htable hcalls (by simp [Call.document, hpc]) fun uid huid => ?_
        cases huid
        refine ⟨hpos, wrap32_le _, purged_eq_false ?_⟩
        have hm : (s.reads i && s.takesPurged) = false := hm
        rwa [hreads, Bool.true_and, Server.takesPurged, decide_eq_true hpos, Bool.true_and] at hm
      | inserted uid hpc hinsert => exact hs.add hc hpc (htable ▸ hinsert) hcalls
      | duplicate uid hpc _ =>
        exact hs.keep hc htable hcalls (by simp [Call.document, hpc]) fun _ h => (by cases h)
      | again uid hpc _ =>
        exact hs.keep hc htable hcalls (by simp [Call.document, hpc]) fun _ h => (by cases h)
      | nameTaken uid hpc _ =>
        exact hs.keep hc htable hcalls (by simp [Call.document, hpc]) fun _ h => (by cases h)
    · cases h
  | purge uid =>
    cases h
    have hrows : ∀ d, d ∈ (s.purge uid).users.table.rows ↔ d ∈ s.users.table.rows ∧ d.id ≠ uid := by
      intro d
      simp [Server.purge, Table.remove]
    refine ⟨⟨hs.assigned, hs.isInt, ?_, ?_⟩, List.Subset.refl _, fun d hd _ => ((hrows d).mp hd).1⟩
    · intro u hu
      obtain ⟨d, hd, rfl⟩ := List.mem_map.mp hu
      exact hs.present (List.mem_map_of_mem ((hrows d).mp hd).1)
    · intro c hc u hpc
      obtain ⟨hpos, hmax, hthere⟩ := hs.pending c hc u hpc
      refine ⟨hpos, hmax, fun hassigned => ?_⟩
      -- the purged user is not the one whose uid the creation holds
      have hne : u ≠ uid := by
        rintro rfl
        have := List.any_eq_false.mp hm c hc
        simp [hpc] at this
      obtain ⟨d, hd, rfl⟩ := List.mem_map.mp (hthere hassigned)
      exact List.mem_map_of_mem ((hrows d).mpr ⟨hd, hne⟩)
  | store path file =>
    cases h
    exact ⟨⟨hs.assigned, hs.isInt, hs.present, hs.pending⟩, List.Subset.refl _, fun _ hd _ => hd⟩
  | chown path uid =>
    cases h
    exact ⟨⟨hs.assigned, hs.isInt, hs.present, hs.pending⟩, List.Subset.refl _, fun _ hd _ => hd⟩
  | unlink path =>
    cases h
    exact ⟨⟨hs.assigned, hs.isInt, hs.present, hs.pending⟩, List.Subset.refl _, fun _ hd _ => hd⟩

/-- Where the user with the largest uid assigned so far is there, no uid of a purged user is read. -/
theorem takesPurged_of_top {s : Server δ} (hs : Inv s) {top : Int} (hthere : top ∈ s.present)
    (htop : ∀ uid ∈ s.assigned, uid ≤ top) : s.takesPurged = false := by
  have hmem : top ∈ s.users.table.rows.map Doc.id := hthere
  have hnext : nextId s.users.table.rows = top + 1 := by
    apply nextId_eq
    · rwa [Int.add_sub_cancel]
    · intro uid huid
      have := htop uid (hs.present huid)
      omega
  have hbounds := hs.isInt top (hs.present hthere)
  have hwrap := wrap32_next (z := top + 1) (by omega)
  unfold Server.takesPurged Server.purged nextAutoIncrement
  rw [hnext]
  by_cases hpos : 0 ≤ wrap32 (top + 1)
  · have hnew : wrap32 (top + 1) ∉ s.assigned := by
      intro h
      have := htop _ h
      omega
    simp [hnew]
  · simp [hpos]

/-! ## Over a run -/

/-- Over every interleaving of creations, purges and file operations in which no uid of a purged user is
taken: all uids that are assigned are different, and a file that names a user purged at some moment is
owned by nobody at any later one. -/
theorem uids_unused (base : Collection δ) (files : Files) (moves : List (Move δ)) {s : Server δ}
    (hrun : run step (start base files) moves = some s)
    (hunused : Meets step Unused (start base files) moves) :
    s.assigned.Nodup ∧
      ∀ (before after : List (Move δ)) (s1 : Server δ), moves = before ++ after →
        run step (start base files) before = some s1 →
        ∀ (path : Str) (file : File), s.files.lookup path = some file → s1.purged file.owner = true →
          s.owner path = none := by
  have hinv : Inv s := run_invariant_of_meets (fun s m s' hs hm h => (step_inv s m s' hs hm h).1) moves
    (start_inv base files) hunused hrun
  refine ⟨hinv.assigned, ?_⟩
  rintro before after s1 rfl hbefore path file hfile hpurged
  obtain ⟨hmeets, hmeets'⟩ := hunused.append_inv hbefore
  have hinv1 : Inv s1 := run_invariant_of_meets (fun s m s' hs hm h => (step_inv s m s' hs hm h).1) before
    (start_inv base files) hmeets hbefore
  have hafter : run step s1 after = some s := by
    rw [run_append, hbefore] at hrun
    exact hrun
  have hlater : Inv s ∧ Later s1 s := by
    refine run_invariant_of_meets (P := fun s => Inv s ∧ Later s1 s) (fun s m s' hs hm h => ?_) after
      ⟨hinv1, .refl s1⟩ hmeets' hafter
    obtain ⟨hinv', hstep⟩ := step_inv s m s' hs.1 hm h
    exact ⟨hinv', hs.2.trans hstep⟩
  unfold Server.purged at hpurged
  rw [Bool.and_eq_true, Bool.not_eq_true', List.contains_iff_mem] at hpurged
  obtain ⟨hassigned, hgone⟩ := hpurged
  unfold Server.owner
  rw [hfile]
  cases hd : s.users.table.byId file.owner with
  | none => exact hd
  | some d =>
    -- whoever has the uid would have been there
    have hid := Table.byId_id hd
    have hthere := hlater.2.rows d (Table.byId_mem hd) (hid ▸ hassigned)
    have : file.owner ∈ s1.present := hid ▸ List.mem_map_of_mem hthere
    rw [List.contains_iff_mem.mpr this] at hgone
    cases hgone

def exampleBase : Collection Unit where
  rows := [⟨0, "root".toList, ()⟩]
  ids := by decide
  names := by decide
  isInt := by decide

def exampleFile : File := ⟨[], 1, 0⟩

/-- Of three users the first one created is purged; the uid of the next one is 3. -/
def exampleMoves : List (Move Unit) :=
  [.create ⟨"a".toList, ()⟩, .call 0, .call 0, .store "/f".toList exampleFile, .create ⟨"b".toList, ()⟩,
    .call 1, .call 1, .purge 1, .create ⟨"c".toList, ()⟩, .call 2, .call 2]

theorem uids_unused_three :
    ∃ s, run step (start exampleBase ∅) exampleMoves = some s ∧
      Meets step Unused (start exampleBase ∅) exampleMoves ∧
      s.assigned = [0, 1, 2, 3] ∧ s.assigned.Nodup ∧ s.owner "/f".toList = none := by
  obtain ⟨s, hrun, hassigned, hfile, hpurged⟩ : ∃ s, run step (start exampleBase ∅) exampleMoves = some s ∧
      s.assigned = [0, 1, 2, 3] ∧ s.files.lookup "/f".toList = some exampleFile ∧ s.purged 1 = true :=
    run_ends (by decide)
  have hunused : Meets step Unused (start exampleBase ∅) exampleMoves := by decide
  have hkept := uids_unused exampleBase ∅ exampleMoves hrun hunused
  exact ⟨s, hrun, hunused, hassigned, hkept.1,
    hkept.2 exampleMoves [] s (List.append_nil _).symm hrun _ exampleFile hfile hpurged⟩

/-- The user with the largest uid is purged, and the next user who is created has his uid and owns his
file. -/
theorem purged_uid_comes_back :
    let before : List (Move Unit) :=
      [.create ⟨"a".toList, ()⟩, .call 0, .call 0, .store "/f".toList exampleFile, .purge 1]
    let after : List (Move Unit) := [.create ⟨"b".toList, ()⟩, .call 1, .call 1]
    ∃ s1 s, run step (start exampleBase ∅) before = some s1 ∧ run step s1 after = some s ∧
      s1.purged 1 = true ∧ s1.owner "/f".toList = none ∧
      s.assigned = [0, 1, 1] ∧ s.owner "/f".toList = some ⟨1, "b".toList, ()⟩ :=
  ⟨_, _, rfl, rfl, by decide, by decide, by decide, by decide⟩

/-! ## What an owner may -/

/-- The user whom a file names is the one whom the rights of an owner, the credits a deletion takes and the
nukes ask for. -/
theorem getOwner_eq_iff {env : Acl.Path.Env} {sys : Acl.Path.Sys} {s : Server δ} {path : Str} {file : File}
    {d : Doc δ} (hfile : s.files.lookup path = some file) (hd : d ∈ s.users.table.rows) :
    getOwner env sys s.files path = d.id ↔ s.owner path = some d := by
  unfold Server.owner
  rw [getOwner_of_lookup hfile, hfile]
  simp only [Table.byId_eq_some, hd, true_and]
  exact eq_comm

end Owner
end Fs
end Ebftpd
