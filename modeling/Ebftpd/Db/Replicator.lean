import Ebftpd.Db.Caches

/-!
# Ebftpd.Db.Replicator

The replicator thread (`src/db/replicator.cpp`) among writers. A writer writes to the database and
appends its entry to `updatelog` in a second step. The thread populates the caches one after the
other, reads the id of the last entry of the log, and then passes on every entry with a greater id.
An error of the tail sends it back to the start. An error of a query inside `Populate` or `Replicate`
does not: `GetUsers` and `GetGroups` then return nothing, and the result of `Replicate` is ignored.

An entry of the log has an id of its own, given by the client that inserts it. Three things are kept
that no step reads: all versions of the database, the version a write made, and a mark on writes
that are not logged yet, set once the cache of their collection has been populated since.

* `step_inv`: what the caches hold against the database, at every point of the thread.
* `replicated`: in every run that avoids the gap between `Populate` and the reading of the last
  entry, what was logged is in the caches when the tail has passed on all there is.
-/

namespace Ebftpd
namespace Db
namespace Replicator

open Util Lib Lib.Replica Acl

structure Unlogged where
  entry : Entry
  version : Nat
  seen : Bool
  deriving DecidableEq

structure LogEntry where
  oid : Nat
  entry : Entry
  version : Nat
  deriving DecidableEq

/-- Where the thread is: before `Populate` of the users, of the groups, before `InitialiseLastOID`,
or behind it with the last id. -/
inductive Thread where
  | populateUsers
  | populateGroups
  | initialise
  | tail (lastOID : Option Nat)
  deriving DecidableEq

structure State where
  db : Database
  versions : List Database
  unlogged : List Unlogged
  log : List LogEntry
  users : UserCache
  groups : GroupCache
  thread : Thread

inductive Input where
  | write (w : Write)
  | append (u : Unlogged) (oid : Nat)
  -- `ok` is whether the queries of the step succeed
  | populate (ok : Bool)
  | initialiseLastOID
  | next (ok : Bool)
  | restart

/-- The entries `Tail::Next` has still to return: those with an id greater than the last. -/
def pending (log : List LogEntry) (lastOID : Option Nat) : List LogEntry :=
  match lastOID with
  | some oid => log.filter fun e => oid < e.oid
  | none => log

def seeUser (u : Unlogged) : Unlogged :=
  match u.entry with
  | .users _ => { u with seen := true }
  | .groups _ => u

def seeGroup (u : Unlogged) : Unlogged :=
  match u.entry with
  | .users _ => u
  | .groups _ => { u with seen := true }

/-- `UserCache::Populate`, then `GroupCache::Populate`. -/
def State.populate (s : State) (ok : Bool) : Option State :=
  match s.thread with
  | .populateUsers =>
    some { s with
      users := if ok then UserCache.populate s.db.users else {}
      unlogged := s.unlogged.map seeUser
      thread := .populateGroups }
  | .populateGroups =>
    some { s with
      groups := if ok then GroupCache.populate s.db.groups else {}
      unlogged := s.unlogged.map seeGroup
      thread := .initialise }
  | _ => none

def State.replicate (s : State) (entry : Entry) : State :=
  match entry with
  | .users uid => { s with users := s.users.replicate s.db.users uid }
  | .groups gid => { s with groups := s.groups.replicate s.db.groups gid }

def step (s : State) : Input → Option State
  | .write w =>
    match s.db.apply w with
    | some db => some { s with
        db := db
        versions := s.versions ++ [db]
        unlogged := ⟨w.entry, s.versions.length, false⟩ :: s.unlogged }
    | none => none
  | .append u oid =>
    if s.unlogged.contains u then
      some { s with
        unlogged := s.unlogged.erase u
        log := s.log ++ [⟨oid, u.entry, u.version⟩] }
    else none
  | .populate ok => s.populate ok
  | .initialiseLastOID =>
    match s.thread with
    | .initialise => some { s with thread := .tail (s.log.getLast?.map LogEntry.oid) }
    | _ => none
  | .next ok =>
    match s.thread with
    | .tail lastOID =>
      match pending s.log lastOID with
      | e :: _ =>
        let s := { s with thread := .tail (some e.oid) }
        some (if ok then s.replicate e.entry else s)
      | [] => none
    | _ => none
  | .restart => some { s with thread := .populateUsers }

/-- The thread starts with whatever is in the caches and the log, of writes in the past. -/
def start (db : Database) (log : List (Nat × Entry)) (users : UserCache) (groups : GroupCache) :
    State where
  db := db
  versions := [db]
  unlogged := []
  log := log.map fun e => ⟨e.1, e.2, 0⟩
  users := users
  groups := groups
  thread := .populateUsers

/-! ## The runs that lose nothing -/

/-- No other user the cache knows by the user's name has a write that is not logged: the entry of one
who gave the name up comes before the entry of the one who took it. -/
def inOrder (s : State) (entry : Entry) : Bool :=
  match entry with
  | .users uid => s.unlogged.all fun v =>
      match v.entry with
      | .users other => other == uid || (s.users.names.lookup other).isNone ||
          s.users.names.lookup other != (s.db.users.byId uid).map User.name
      | .groups _ => true
  | .groups gid => s.unlogged.all fun v =>
      match v.entry with
      | .users _ => true
      | .groups other => other == gid || (s.groups.names.lookup other).isNone ||
          s.groups.names.lookup other != (s.db.groups.byId gid).map Group.name

/-- An entry appended while the thread is between reading a collection and reading the last entry of
the log is behind the tail from the start: its write must have come before the collection was read. -/
def outsideGap (s : State) (u : Unlogged) : Bool :=
  match s.thread with
  | .populateUsers => true
  | .populateGroups => u.entry.uid?.isNone || u.seen
  | .initialise => u.seen
  | .tail _ => inOrder s u.entry

/-- The condition on a step: ids grow with the log, entries keep out of the gap, queries succeed. -/
def keepsUp (s : State) : Input → Bool
  | .append u oid => s.log.all (fun e => e.oid < oid) && outsideGap s u
  | .populate ok => ok
  | .next ok => ok
  | _ => true

/-! ## The tail -/

theorem pending_next {log : List LogEntry} (hsorted : log.Pairwise fun a b => a.oid < b.oid)
    {lastOID : Option Nat} {e : LogEntry} {rest : List LogEntry}
    (h : pending log lastOID = e :: rest) : pending log (some e.oid) = rest := by
  have hsub : (e :: rest).Sublist log := by
    rw [← h]
    unfold pending
    split
    · exact List.filter_sublist
    · exact List.Sublist.refl _
  have hrest := List.pairwise_cons.mp (hsorted.sublist hsub)
  -- what comes after the last id and what comes after the new one differ by the head
  have hfilter : log.filter (fun x => e.oid < x.oid) =
      (pending log lastOID).filter (fun x => e.oid < x.oid) := by
    unfold pending
    split
    · rename_i last
      have hlast : last < e.oid := by
        have hmem : e ∈ pending log (some last) := by
          rw [h]
          exact List.mem_cons_self
        simpa using (List.mem_filter.mp hmem).2
      rw [List.filter_filter]
      apply List.filter_congr
      intro x _
      rw [Bool.eq_iff_iff]
      simp only [Bool.and_eq_true, decide_eq_true_eq]
      omega
    · rfl
  rw [pending, hfilter, h, List.filter_cons_of_neg (by simp)]
  apply List.filter_eq_self.mpr
  intro x hx
  simpa using hrest.1 x hx

theorem pending_append {log : List LogEntry} {lastOID : Option Nat} (new : LogEntry)
    (hlast : ∀ last, lastOID = some last → last ∈ log.map LogEntry.oid)
    (hoid : ∀ e ∈ log, e.oid < new.oid) :
    pending (log ++ [new]) lastOID = pending log lastOID ++ [new] := by
  unfold pending
  split
  · rename_i last
    obtain ⟨e, he, hfst⟩ := List.mem_map.mp (hlast last rfl)
    have hlt : last < new.oid := hfst ▸ hoid e he
    rw [List.filter_append, List.filter_cons_of_pos (by simpa using hlt), List.filter_nil]
  · rfl

theorem pending_getLast {log : List LogEntry} (hsorted : log.Pairwise fun a b => a.oid < b.oid) :
    pending log (log.getLast?.map LogEntry.oid) = [] := by
  rcases List.eq_nil_or_concat log with rfl | ⟨init, last, rfl⟩
  · rfl
  · rw [List.concat_eq_append] at hsorted ⊢
    simp only [List.getLast?_append, List.getLast?_singleton, Option.some_or, Option.map_some, pending]
    rw [List.filter_eq_nil_iff]
    intro e he
    rw [List.mem_append, List.mem_singleton] at he
    have hlast : e.oid ≤ last.oid := by
      rcases he with hinit | rfl
      · exact le_of_lt ((List.pairwise_append.mp hsorted).2.2 e hinit last (by simp))
      · exact le_refl _
    simpa using hlast

/-! ## What is not logged -/

def fresh (l : List Unlogged) : List Unlogged := l.filter fun u => !u.seen

/-- The writes a cache cannot know of: behind the tail's start all that are not logged, before it
those made since the collection was read. -/
def State.unknown (s : State) : List Unlogged :=
  match s.thread with
  | .tail _ => s.unlogged
  | _ => fresh s.unlogged

def State.pending (s : State) : List LogEntry :=
  match s.thread with
  | .tail lastOID => Replicator.pending s.log lastOID
  | _ => []

section Erase

variable {β : Type} {l : List Unlogged} {u : Unlogged} (hu : u ∈ l) (f : Unlogged → Option β)

include hu

theorem filterMap_erase [DecidableEq β] {x : β} (hf : f u = some x) :
    (l.filterMap f).erase x ⊆ (l.erase u).filterMap f := by
  have hperm := (List.perm_cons_erase hu).filterMap f
  rw [List.filterMap_cons_some hf] at hperm
  have := hperm.erase x
  rw [List.erase_cons_head] at this
  exact this.subset

theorem filterMap_erase_none (hf : f u = none) : l.filterMap f ⊆ (l.erase u).filterMap f := by
  have hperm := (List.perm_cons_erase hu).filterMap f
  rw [List.filterMap_cons_none hf] at hperm
  exact hperm.subset

theorem fresh_erase_seen (hseen : u.seen = true) :
    (fresh l).filterMap f ⊆ (fresh (l.erase u)).filterMap f := by
  have hperm := (List.perm_cons_erase hu).filter fun u => !u.seen
  rw [List.filter_cons_of_neg (by simp [hseen])] at hperm
  exact (hperm.filterMap f).subset

theorem fresh_erase_none (hf : f u = none) :
    (fresh l).filterMap f ⊆ (fresh (l.erase u)).filterMap f := by
  have hperm := (List.perm_cons_erase hu).filter fun u => !u.seen
  by_cases hseen : u.seen = true
  · rw [List.filter_cons_of_neg (by simp [hseen])] at hperm
    exact (hperm.filterMap f).subset
  · rw [List.filter_cons_of_pos (by simpa using hseen)] at hperm
    have := hperm.filterMap f
    rw [List.filterMap_cons_none hf] at this
    exact this.subset

end Erase

def Unlogged.uid? (u : Unlogged) : Option UserID := u.entry.uid?

def Unlogged.gid? (u : Unlogged) : Option GroupID := u.entry.gid?

theorem fresh_seeUser_uid (l : List Unlogged) :
    (fresh (l.map seeUser)).filterMap Unlogged.uid? = [] := by
  rw [List.filterMap_eq_nil_iff]
  intro u hu
  obtain ⟨hmem, hfresh⟩ := List.mem_filter.mp hu
  obtain ⟨v, -, rfl⟩ := List.mem_map.mp hmem
  unfold seeUser at hfresh ⊢
  split
  · rename_i hentry
    simp [hentry] at hfresh
  · rename_i gid hentry
    simp [Unlogged.uid?, hentry, Entry.uid?]

theorem fresh_seeGroup_gid (l : List Unlogged) :
    (fresh (l.map seeGroup)).filterMap Unlogged.gid? = [] := by
  rw [List.filterMap_eq_nil_iff]
  intro u hu
  obtain ⟨hmem, hfresh⟩ := List.mem_filter.mp hu
  obtain ⟨v, -, rfl⟩ := List.mem_map.mp hmem
  unfold seeGroup at hfresh ⊢
  split
  · rename_i uid hentry
    simp [Unlogged.gid?, hentry, Entry.gid?]
  · rename_i hentry
    simp [hentry] at hfresh

theorem fresh_seeGroup_uid (l : List Unlogged) :
    (fresh l).filterMap Unlogged.uid? ⊆ (fresh (l.map seeGroup)).filterMap Unlogged.uid? := by
  intro uid huid
  obtain ⟨u, hu, hentry⟩ := List.mem_filterMap.mp huid
  obtain ⟨hmem, hfresh⟩ := List.mem_filter.mp hu
  have hsee : seeGroup u = u := by
    unfold seeGroup
    split
    · rfl
    · rename_i hgroup
      simp [Unlogged.uid?, hgroup, Entry.uid?] at hentry
  refine List.mem_filterMap.mpr ⟨u, List.mem_filter.mpr ⟨?_, hfresh⟩, hentry⟩
  exact List.mem_map.mpr ⟨u, hmem, hsee⟩

/-! ## The invariant -/

def LogEntry.uid? (e : LogEntry) : Option UserID := e.entry.uid?

def LogEntry.gid? (e : LogEntry) : Option GroupID := e.entry.gid?

structure Inv (s : State) : Prop where
  sorted : s.log.Pairwise fun a b => a.oid < b.oid
  last : ∀ oid, s.thread = .tail (some oid) → oid ∈ s.log.map LogEntry.oid
  users : s.thread ≠ .populateUsers →
    UserFollows s.db.users (s.pending.filterMap LogEntry.uid?) (s.unknown.filterMap Unlogged.uid?) s.users
  groups : s.thread ≠ .populateUsers → s.thread ≠ .populateGroups →
    GroupFollows s.db.groups (s.pending.filterMap LogEntry.gid?) (s.unknown.filterMap Unlogged.gid?) s.groups

/-- The entry the thread has come to is in the log. -/
theorem Inv.last_mem {s : State} (hinv : Inv s) {lastOID : Option Nat} (hthread : s.thread = .tail lastOID) :
    ∀ last, lastOID = some last → last ∈ s.log.map LogEntry.oid := by
  rintro last rfl
  exact hinv.last last hthread

theorem start_inv (db : Database) {log : List (Nat × Entry)} (users : UserCache) (groups : GroupCache)
    (hsorted : log.Pairwise fun a b => a.1 < b.1) : Inv (start db log users groups) where
  sorted := List.pairwise_map.mpr hsorted
  last := fun _ h => by cases h
  users := fun h => absurd rfl h
  groups := fun h => absurd rfl h

theorem inv_write {s : State} {w : Write} {db : Database} (hinv : Inv s)
    (happly : s.db.apply w = some db) :
    Inv { s with
      db := db
      versions := s.versions ++ [db]
      unlogged := ⟨w.entry, s.versions.length, false⟩ :: s.unlogged } := by
  have hunknown : State.unknown { s with
      db := db
      versions := s.versions ++ [db]
      unlogged := ⟨w.entry, s.versions.length, false⟩ :: s.unlogged } =
      ⟨w.entry, s.versions.length, false⟩ :: s.unknown := by
    unfold State.unknown
    simp only
    split
    · rfl
    · rfl
  have hpending : State.pending { s with
      db := db
      versions := s.versions ++ [db]
      unlogged := ⟨w.entry, s.versions.length, false⟩ :: s.unlogged } = s.pending := rfl
  refine ⟨hinv.sorted, hinv.last, ?_, ?_⟩
  · intro hthread
    rw [hunknown, hpending]
    rcases apply_written happly with ⟨uid, hentry, hw, -⟩ | ⟨gid, hentry, -, husers⟩
    · rw [List.filterMap_cons_some (b := uid) (by simp [Unlogged.uid?, hentry, Entry.uid?])]
      exact (hinv.users hthread).write hw
    · rw [List.filterMap_cons_none (by simp [Unlogged.uid?, hentry, Entry.uid?])]
      simp only [husers]
      exact hinv.users hthread
  · intro hthread hgroups
    rw [hunknown, hpending]
    rcases apply_written happly with ⟨uid, hentry, -, hsame⟩ | ⟨gid, hentry, hw, -⟩
    · rw [List.filterMap_cons_none (by simp [Unlogged.gid?, hentry, Entry.gid?])]
      simp only [hsame]
      exact hinv.groups hthread hgroups
    · rw [List.filterMap_cons_some (b := gid) (by simp [Unlogged.gid?, hentry, Entry.gid?])]
      exact Follows.write hw (hinv.groups hthread hgroups)

/-- The condition of `Follows.append`, for a user. -/
theorem inOrder_users {s : State} {uid : UserID} (h : inOrder s (.users uid) = true) :
    ∀ data, s.db.users.byId uid = some data → ∀ a, a ≠ uid →
      s.users.names.lookup a = some data.name → a ∉ s.unlogged.filterMap Unlogged.uid? := by
  intro data hdata a ha hname hmem
  obtain ⟨v, hv, hentry⟩ := List.mem_filterMap.mp hmem
  have hall := List.all_eq_true.mp h v hv
  unfold Unlogged.uid? at hentry
  cases hve : v.entry with
  | users other =>
    simp only [hve, Entry.uid?, Option.some.injEq] at hentry
    subst hentry
    simp [hve, hname, hdata, ha] at hall
  | groups gid => simp [hve, Entry.uid?] at hentry

theorem inOrder_groups {s : State} {gid : GroupID} (h : inOrder s (.groups gid) = true) :
    ∀ data, s.db.groups.byId gid = some data → ∀ a, a ≠ gid →
      s.groups.names.lookup a = some data.name → a ∉ s.unlogged.filterMap Unlogged.gid? := by
  intro data hdata a ha hname hmem
  obtain ⟨v, hv, hentry⟩ := List.mem_filterMap.mp hmem
  have hall := List.all_eq_true.mp h v hv
  unfold Unlogged.gid? at hentry
  cases hve : v.entry with
  | users uid => simp [hve, Entry.gid?] at hentry
  | groups other =>
    simp only [hve, Entry.gid?, Option.some.injEq] at hentry
    subst hentry
    simp [hve, hname, hdata, ha] at hall

section Append

variable {s : State} (hinv : Inv s) {u : Unlogged} (hu : u ∈ s.unlogged) {oid : Nat}
  (hoid : ∀ e ∈ s.log, e.oid < oid) (hgap : outsideGap s u = true)

include hinv hu hoid hgap

theorem users_append (hthread : s.thread ≠ .populateUsers) :
    let s' := { s with
      unlogged := s.unlogged.erase u
      log := s.log ++ [(⟨oid, u.entry, u.version⟩ : LogEntry)] }
    UserFollows s'.db.users (s'.pending.filterMap LogEntry.uid?) (s'.unknown.filterMap Unlogged.uid?)
      s'.users := by
  intro s'
  have hfollows := hinv.users hthread
  cases hpc : s.thread with
  | populateUsers => exact absurd hpc hthread
  | populateGroups =>
    simp only [State.pending, State.unknown, hpc, outsideGap, s'] at hfollows hgap ⊢
    refine hfollows.mono ?_
    rw [Bool.or_eq_true, Option.isNone_iff_eq_none] at hgap
    rcases hgap with hnone | hseen
    · exact fresh_erase_none hu Unlogged.uid? hnone
    · exact fresh_erase_seen hu Unlogged.uid? hseen
  | initialise =>
    simp only [State.pending, State.unknown, hpc, outsideGap, s'] at hfollows hgap ⊢
    exact hfollows.mono (fresh_erase_seen hu Unlogged.uid? hgap)
  | tail lastOID =>
    simp only [State.pending, State.unknown, hpc, outsideGap, s'] at hfollows hgap ⊢
    rw [pending_append ⟨oid, u.entry, u.version⟩ (hinv.last_mem hpc) hoid, List.filterMap_append]
    cases hentry : u.entry with
    | users uid =>
      rw [hentry] at hgap
      have hf : u.uid? = some uid := by simp [Unlogged.uid?, hentry, Entry.uid?]
      exact (hfollows.append (inOrder_users hgap)).mono (filterMap_erase hu Unlogged.uid? hf)
    | groups gid =>
      have hf : u.uid? = none := by simp [Unlogged.uid?, hentry, Entry.uid?]
      have hnil : [(⟨oid, .groups gid, u.version⟩ : LogEntry)].filterMap LogEntry.uid? = [] := rfl
      rw [hnil, List.append_nil]
      exact hfollows.mono (filterMap_erase_none hu Unlogged.uid? hf)

theorem groups_append (hthread : s.thread ≠ .populateUsers) (hgroups : s.thread ≠ .populateGroups) :
    let s' := { s with
      unlogged := s.unlogged.erase u
      log := s.log ++ [(⟨oid, u.entry, u.version⟩ : LogEntry)] }
    GroupFollows s'.db.groups (s'.pending.filterMap LogEntry.gid?) (s'.unknown.filterMap Unlogged.gid?)
      s'.groups := by
  intro s'
  have hfollows := hinv.groups hthread hgroups
  cases hpc : s.thread with
  | populateUsers => exact absurd hpc hthread
  | populateGroups => exact absurd hpc hgroups
  | initialise =>
    simp only [State.pending, State.unknown, hpc, outsideGap, s'] at hfollows hgap ⊢
    exact Follows.mono (fresh_erase_seen hu Unlogged.gid? hgap) hfollows
  | tail lastOID =>
    simp only [State.pending, State.unknown, hpc, outsideGap, s'] at hfollows hgap ⊢
    rw [pending_append ⟨oid, u.entry, u.version⟩ (hinv.last_mem hpc) hoid, List.filterMap_append]
    cases hentry : u.entry with
    | users uid =>
      have hf : u.gid? = none := by simp [Unlogged.gid?, hentry, Entry.gid?]
      have hnil : [(⟨oid, .users uid, u.version⟩ : LogEntry)].filterMap LogEntry.gid? = [] := rfl
      rw [hnil, List.append_nil]
      exact Follows.mono (filterMap_erase_none hu Unlogged.gid? hf) hfollows
    | groups gid =>
      rw [hentry] at hgap
      have hf : u.gid? = some gid := by simp [Unlogged.gid?, hentry, Entry.gid?]
      exact Follows.mono (filterMap_erase hu Unlogged.gid? hf)
        (Follows.append hfollows (inOrder_groups hgap))

theorem inv_append :
    Inv { s with
      unlogged := s.unlogged.erase u
      log := s.log ++ [⟨oid, u.entry, u.version⟩] } := by
  refine ⟨?_, ?_, users_append hinv hu hoid hgap, groups_append hinv hu hoid hgap⟩
  · refine List.pairwise_append.mpr ⟨hinv.sorted, by simp, ?_⟩
    intro e he e' he'
    rw [List.mem_singleton] at he'
    rw [he']
    exact hoid e he
  · intro last hlast
    rw [List.map_append, List.mem_append]
    exact .inl (hinv.last last hlast)

end Append

theorem inv_populate {s s' : State} (hinv : Inv s) (h : s.populate true = some s') : Inv s' := by
  unfold State.populate at h
  split at h
  · cases h
    refine ⟨hinv.sorted, (fun _ h => by cases h), ?_, fun _ h => absurd rfl h⟩
    intro _
    simp only [State.pending, State.unknown, fresh_seeUser_uid]
    exact userFollows_populate s.db.users
  · rename_i hthread
    cases h
    have hfollows := hinv.users (by rw [hthread]; simp)
    refine ⟨hinv.sorted, (fun _ h => by cases h), ?_, ?_⟩
    · intro _
      simp only [State.pending, State.unknown, hthread] at hfollows ⊢
      exact hfollows.mono (fresh_seeGroup_uid s.unlogged)
    · intro _ _
      simp only [State.pending, State.unknown, fresh_seeGroup_gid]
      exact groupFollows_populate s.db.groups
  · cases h

theorem inv_initialise {s : State} (hinv : Inv s) (hthread : s.thread = .initialise) :
    Inv { s with thread := .tail (s.log.getLast?.map LogEntry.oid) } := by
  have husers := hinv.users (by rw [hthread]; simp)
  have hgroups := hinv.groups (by rw [hthread]; simp) (by rw [hthread]; simp)
  have hfresh : fresh s.unlogged ⊆ s.unlogged := List.filter_sublist.subset
  simp only [State.pending, State.unknown, hthread] at husers hgroups
  refine ⟨hinv.sorted, ?_, ?_, ?_⟩
  · intro oid h
    simp only [Thread.tail.injEq] at h
    obtain ⟨e, he, rfl⟩ := Option.map_eq_some_iff.mp h
    exact List.mem_map_of_mem (List.mem_of_getLast? he)
  · intro _
    simp only [State.pending, State.unknown, pending_getLast hinv.sorted]
    exact husers.mono (List.filterMap_subset _ hfresh)
  · intro _ _
    simp only [State.pending, State.unknown, pending_getLast hinv.sorted]
    exact Follows.mono (List.filterMap_subset _ hfresh) hgroups

theorem inv_next {s : State} (hinv : Inv s) {lastOID : Option Nat} (hthread : s.thread = .tail lastOID)
    {e : LogEntry} {rest : List LogEntry} (hpending : pending s.log lastOID = e :: rest) :
    Inv (State.replicate { s with thread := .tail (some e.oid) } e.entry) := by
  have hmem : e ∈ s.log := by
    have hhead : e ∈ pending s.log lastOID := by
      rw [hpending]
      exact List.mem_cons_self
    unfold pending at hhead
    split at hhead
    · exact List.mem_of_mem_filter hhead
    · exact hhead
  have hrest := pending_next hinv.sorted hpending
  have husers := hinv.users (by rw [hthread]; simp)
  have hgroups := hinv.groups (by rw [hthread]; simp) (by rw [hthread]; simp)
  simp only [State.pending, State.unknown, hthread, hpending] at husers hgroups
  have hlast : ∀ o, Thread.tail (some e.oid) = .tail (some o) → o ∈ s.log.map LogEntry.oid := by
    rintro o ⟨⟩
    exact List.mem_map_of_mem hmem
  obtain ⟨oid, entry, version⟩ := e
  cases entry with
  | users uid =>
    refine ⟨hinv.sorted, hlast, ?_, ?_⟩
    · intro _
      simp only [State.replicate, State.pending, State.unknown, hrest]
      exact UserFollows.replicate s.db.uids husers
    · intro _ _
      simp only [State.replicate, State.pending, State.unknown, hrest]
      exact hgroups
  | groups gid =>
    refine ⟨hinv.sorted, hlast, ?_, ?_⟩
    · intro _
      simp only [State.replicate, State.pending, State.unknown, hrest]
      exact husers
    · intro _ _
      simp only [State.replicate, State.pending, State.unknown, hrest]
      exact GroupFollows.replicate hgroups

theorem step_inv {s s' : State} {i : Input} (hinv : Inv s) (hup : keepsUp s i = true)
    (h : step s i = some s') : Inv s' := by
  cases i with
  | write w =>
    simp only [step] at h
    split at h
    · rename_i db happly
      cases h
      exact inv_write hinv happly
    · cases h
  | append u oid =>
    simp only [step] at h
    split at h
    · rename_i hu
      cases h
      simp only [keepsUp, Bool.and_eq_true, List.all_eq_true, decide_eq_true_eq] at hup
      exact inv_append hinv (List.contains_iff_mem.mp hu) hup.1 hup.2
    · cases h
  | populate ok =>
    simp only [keepsUp] at hup
    subst hup
    exact inv_populate hinv h
  | initialiseLastOID =>
    simp only [step] at h
    split at h
    · rename_i hthread
      cases h
      exact inv_initialise hinv hthread
    · cases h
  | next ok =>
    simp only [keepsUp] at hup
    subst hup
    simp only [step] at h
    split at h
    · rename_i lastOID hthread
      split at h
      · rename_i e rest hpending
        simp only [if_true, Option.some.injEq] at h
        subst h
        exact inv_next hinv hthread hpending
      · cases h
    · cases h
  | restart =>
    cases h
    exact ⟨hinv.sorted, (fun _ h => by cases h), fun h => absurd rfl h, fun h => absurd rfl h⟩

/-! ## Versions -/

/-- The caches have of the entry's record what the database has. -/
def Shows (users : UserCache) (groups : GroupCache) (db : Database) : Entry → Prop
  | .users uid => users.names.lookup uid = (db.users.byId uid).map User.name ∧
      users.primaryGids.lookup uid = (db.users.byId uid).map User.primaryGid ∧
      users.ipMasks.lookup uid = (db.users.byId uid).map User.ipMasks
  | .groups gid => groups.names.lookup gid = (db.groups.byId gid).map Group.name

/-- The cache of the entry's collection has been populated since the thread started over. -/
def State.populated (s : State) (entry : Entry) : Bool :=
  match s.thread, entry with
  | .populateUsers, _ => false
  | .populateGroups, .groups _ => false
  | _, _ => true

/-- The caches have the record as it was in version `k`, and that is not before the writes they must
know of. -/
structure ShowsSince (s : State) (entry : Entry) (k : Nat) : Prop where
  shows : ∃ db, s.versions[k]? = some db ∧ Shows s.users s.groups db entry
  log : ∀ e ∈ s.log, e.entry = entry → e ∉ s.pending → e.version ≤ k
  seen : ∀ u ∈ s.unlogged, u.entry = entry → u.seen = true → u.version ≤ k

structure Versions (s : State) : Prop where
  db : s.versions.getLast? = some s.db
  unlogged : ∀ u ∈ s.unlogged, u.version < s.versions.length
  log : ∀ e ∈ s.log, e.version < s.versions.length
  shows : ∀ entry, s.populated entry = true → ∃ k, ShowsSince s entry k

theorem getElem?_last {s : State} (h : s.versions.getLast? = some s.db) :
    s.versions[s.versions.length - 1]? = some s.db := by
  rw [← List.getLast?_eq_getElem?]
  exact h

theorem start_versions (db : Database) (log : List (Nat × Entry)) (users : UserCache)
    (groups : GroupCache) : Versions (start db log users groups) where
  db := rfl
  unlogged := by simp [start]
  log := by
    intro e he
    obtain ⟨x, -, rfl⟩ := List.mem_map.mp he
    simp [start]
  shows := fun _ h => by cases h

theorem shows_populate_users (db : Database) (groups : GroupCache) (uid : UserID) :
    Shows (UserCache.populate db.users) groups db (.users uid) := by
  have hfollows := userFollows_populate db.users
  exact ⟨hfollows.names.names uid (by simp) (by simp), hfollows.primaryGids uid (by simp) (by simp),
    hfollows.ipMasks uid (by simp) (by simp)⟩

theorem shows_populate_groups (db : Database) (users : UserCache) (gid : GroupID) :
    Shows users (GroupCache.populate db.groups) db (.groups gid) :=
  Follows.names (groupFollows_populate db.groups) gid (by simp) (by simp)

/-- `Replicate` brings the record of its entry to the present version and leaves the others. -/
theorem shows_replicate (s : State) (entry : Entry) :
    Shows (s.replicate entry).users (s.replicate entry).groups s.db entry ∧
      ∀ other db, other ≠ entry → Shows s.users s.groups db other →
        Shows (s.replicate entry).users (s.replicate entry).groups db other := by
  cases entry with
  | users uid =>
    have hnames : ∀ other, (s.users.replicate s.db.users uid).names.lookup other =
        if other = uid then (s.db.users.byId uid).map User.name else s.users.names.lookup other := by
      intro other
      have h := NameCache.replicate_names s.users.toNameCache s.db.users uid other
      rw [← userReplicate_names] at h
      exact h
    refine ⟨⟨?_, ?_, ?_⟩, ?_⟩
    · exact (hnames uid).trans (if_pos rfl)
    · simp [State.replicate, userReplicate_primaryGids, lookup_replicateColumn]
    · simp [State.replicate, userReplicate_ipMasks s.users s.db.uids, lookup_replicateColumn]
    · intro other db hne hold
      cases other with
      | users v =>
        have hv : v ≠ uid := fun h => hne (by rw [h])
        refine ⟨?_, ?_, ?_⟩
        · have hname := hnames v
          rw [if_neg hv] at hname
          exact hname.trans hold.1
        · simp only [State.replicate, userReplicate_primaryGids, lookup_replicateColumn, if_neg hv]
          exact hold.2.1
        · simp only [State.replicate, userReplicate_ipMasks s.users s.db.uids, lookup_replicateColumn,
            if_neg hv]
          exact hold.2.2
      | groups g => exact hold
  | groups gid =>
    have hnames : ∀ other, (s.groups.replicate s.db.groups gid).names.lookup other =
        if other = gid then (s.db.groups.byId gid).map Group.name else s.groups.names.lookup other := by
      intro other
      have h := NameCache.replicate_names s.groups.toNameCache s.db.groups gid other
      rw [← groupReplicate_names] at h
      exact h
    refine ⟨?_, ?_⟩
    · show (s.groups.replicate s.db.groups gid).names.lookup gid = _
      rw [hnames gid, if_pos rfl]
    · intro other db hne hold
      cases other with
      | users v => exact hold
      | groups g =>
        have hg : g ≠ gid := fun h => hne (by rw [h])
        show (s.groups.replicate s.db.groups gid).names.lookup g = _
        rw [hnames g, if_neg hg]
        exact hold

theorem versions_write {s : State} {w : Write} (db : Database) (hv : Versions s) :
    Versions { s with
      db := db
      versions := s.versions ++ [db]
      unlogged := ⟨w.entry, s.versions.length, false⟩ :: s.unlogged } where
  db := by simp
  unlogged := by
    intro u hu
    rw [List.length_append, List.length_singleton]
    rcases List.mem_cons.mp hu with rfl | hmem
    · exact Nat.lt_succ_self _
    · exact Nat.lt_succ_of_lt (hv.unlogged u hmem)
  log := by
    intro e he
    rw [List.length_append, List.length_singleton]
    exact Nat.lt_succ_of_lt (hv.log e he)
  shows := by
    intro entry hpop
    obtain ⟨k, ⟨d, hd, hshows⟩, hlog, hseen⟩ := hv.shows entry hpop
    refine ⟨k, ⟨d, ?_, hshows⟩, hlog, ?_⟩
    · rw [List.getElem?_append_left (List.getElem?_eq_some_iff.mp hd).1]
      exact hd
    · intro u hu hentry h
      rcases List.mem_cons.mp hu with rfl | hmem
      · cases h
      · exact hseen u hmem hentry h

/-- An entry that is not before the tail must not be news to the cache of its collection. -/
theorem seen_of_outsideGap {s : State} {u : Unlogged} (hgap : outsideGap s u = true)
    (hpop : s.populated u.entry = true) (hpc : ∀ lastOID, s.thread ≠ .tail lastOID) :
    u.seen = true := by
  unfold outsideGap at hgap
  cases hthread : s.thread with
  | populateUsers => simp [State.populated, hthread] at hpop
  | populateGroups =>
    simp only [hthread, Bool.or_eq_true] at hgap
    refine hgap.resolve_left ?_
    cases hentry : u.entry with
    | users uid => simp [Entry.uid?]
    | groups gid => simp [State.populated, hthread, hentry] at hpop
  | initialise =>
    simp only [hthread] at hgap
    exact hgap
  | tail lastOID => exact absurd hthread (hpc lastOID)

theorem versions_append {s : State} (hinv : Inv s) (hv : Versions s) {u : Unlogged}
    (hu : u ∈ s.unlogged) {oid : Nat} (hoid : ∀ e ∈ s.log, e.oid < oid) (hgap : outsideGap s u = true) :
    Versions { s with
      unlogged := s.unlogged.erase u
      log := s.log ++ [⟨oid, u.entry, u.version⟩] } where
  db := hv.db
  unlogged := fun v hmem => hv.unlogged v (List.mem_of_mem_erase hmem)
  log := by
    intro e he
    rcases List.mem_append.mp he with hold | hnew
    · exact hv.log e hold
    · rw [List.mem_singleton.mp hnew]
      exact hv.unlogged u hu
  shows := by
    intro entry hpop
    have hold : s.populated entry = true := hpop
    obtain ⟨k, hshows, hlog, hseen⟩ := hv.shows entry hold
    refine ⟨k, hshows, ?_, fun v hmem => hseen v (List.mem_of_mem_erase hmem)⟩
    intro e he hentry hpending
    by_cases htail : ∃ lastOID, s.thread = .tail lastOID
    · -- a new entry is pending
      obtain ⟨lastOID, hthread⟩ := htail
      simp only [State.pending, hthread, pending_append ⟨oid, u.entry, u.version⟩ (hinv.last_mem hthread) hoid,
        List.mem_append, List.mem_singleton, not_or] at hpending
      rcases List.mem_append.mp he with hmem | hnew
      · refine hlog e hmem hentry ?_
        simp only [State.pending, hthread]
        exact hpending.1
      · exact absurd (List.mem_singleton.mp hnew) hpending.2
    · have hpc : ∀ lastOID, s.thread ≠ .tail lastOID := fun lastOID h => htail ⟨lastOID, h⟩
      rcases List.mem_append.mp he with hmem | hnew
      · refine hlog e hmem hentry ?_
        unfold State.pending
        split
        · rename_i lastOID hthread
          exact absurd hthread (hpc lastOID)
        · simp
      · rw [List.mem_singleton.mp hnew] at hentry ⊢
        have hpopu : s.populated u.entry = true := by
          rw [show u.entry = entry from hentry]
          exact hold
        exact hseen u hu hentry (seen_of_outsideGap hgap hpopu hpc)

/-- The record as it is now. -/
theorem showsSince_now {s : State} (hdb : s.versions.getLast? = some s.db)
    (hunlogged : ∀ u ∈ s.unlogged, u.version < s.versions.length)
    (hlog : ∀ e ∈ s.log, e.version < s.versions.length) {entry : Entry}
    (hshows : Shows s.users s.groups s.db entry) : ShowsSince s entry (s.versions.length - 1) where
  shows := ⟨s.db, getElem?_last hdb, hshows⟩
  log := fun e he _ _ => Nat.le_sub_one_of_lt (hlog e he)
  seen := fun u hu _ _ => Nat.le_sub_one_of_lt (hunlogged u hu)

@[simp] theorem seeUser_version (u : Unlogged) : (seeUser u).version = u.version := by
  unfold seeUser
  split
  · rfl
  · rfl

@[simp] theorem seeGroup_version (u : Unlogged) : (seeGroup u).version = u.version := by
  unfold seeGroup
  split
  · rfl
  · rfl

theorem seeGroup_users {u : Unlogged} {uid : UserID} (h : (seeGroup u).entry = .users uid) :
    seeGroup u = u := by
  unfold seeGroup at h ⊢
  split
  · rfl
  · rename_i hentry
    simp [hentry] at h

theorem Versions.unlogged_map {s : State} (hv : Versions s) {see : Unlogged → Unlogged}
    (hsee : ∀ u, (see u).version = u.version) :
    ∀ u ∈ s.unlogged.map see, u.version < s.versions.length := by
  intro u hu
  obtain ⟨v, hmem, rfl⟩ := List.mem_map.mp hu
  rw [hsee]
  exact hv.unlogged v hmem

theorem versions_populate {s s' : State} (hv : Versions s) (h : s.populate true = some s') :
    Versions s' := by
  unfold State.populate at h
  split at h
  · cases h
    have hunlogged := hv.unlogged_map seeUser_version
    refine ⟨hv.db, hunlogged, hv.log, ?_⟩
    intro entry hpop
    cases entry with
    | users uid =>
      refine ⟨_, showsSince_now ?_ hunlogged ?_ (shows_populate_users s.db s.groups uid)⟩
      · exact hv.db
      · exact hv.log
    | groups gid => simp [State.populated] at hpop
  · rename_i hthread
    cases h
    have hunlogged := hv.unlogged_map seeGroup_version
    refine ⟨hv.db, hunlogged, hv.log, ?_⟩
    intro entry hpop
    cases entry with
    | users uid =>
      obtain ⟨k, hshows, hlog, hseen⟩ := hv.shows (.users uid) (by simp [State.populated, hthread])
      refine ⟨k, hshows, ?_, ?_⟩
      · intro e he hentry _
        refine hlog e he hentry ?_
        simp [State.pending, hthread]
      · intro u hu hentry hmark
        obtain ⟨v, hmem, rfl⟩ := List.mem_map.mp hu
        have hsame := seeGroup_users hentry
        rw [hsame] at hentry hmark ⊢
        exact hseen v hmem hentry hmark
    | groups gid =>
      refine ⟨_, showsSince_now ?_ hunlogged ?_ (shows_populate_groups s.db s.users gid)⟩
      · exact hv.db
      · exact hv.log
  · cases h

theorem versions_initialise {s : State} (hv : Versions s) (hthread : s.thread = .initialise) :
    Versions { s with thread := .tail (s.log.getLast?.map LogEntry.oid) } := by
  refine ⟨hv.db, hv.unlogged, hv.log, ?_⟩
  intro entry _
  obtain ⟨k, hshows, hlog, hseen⟩ := hv.shows entry (by simp [State.populated, hthread])
  refine ⟨k, hshows, ?_, hseen⟩
  intro e he hentry _
  refine hlog e he hentry ?_
  simp [State.pending, hthread]

theorem versions_next {s : State} (hinv : Inv s) (hv : Versions s) {lastOID : Option Nat}
    (hthread : s.thread = .tail lastOID) {e : LogEntry} {rest : List LogEntry}
    (hpending : pending s.log lastOID = e :: rest) :
    Versions (State.replicate { s with thread := .tail (some e.oid) } e.entry) := by
  have hrest := pending_next hinv.sorted hpending
  obtain ⟨hnow, hothers⟩ := shows_replicate { s with thread := .tail (some e.oid) } e.entry
  have hframe : ∀ entry, ∃ users groups,
      State.replicate { s with thread := .tail (some e.oid) } entry =
        { s with users := users, groups := groups, thread := .tail (some e.oid) } := by
    intro entry
    cases entry with
    | users uid => exact ⟨_, _, rfl⟩
    | groups gid => exact ⟨_, _, rfl⟩
  obtain ⟨users, groups, hs⟩ := hframe e.entry
  rw [hs] at hnow hothers ⊢
  refine ⟨hv.db, hv.unlogged, hv.log, ?_⟩
  intro entry _
  by_cases hentry : entry = e.entry
  · rw [hentry]
    refine ⟨_, showsSince_now ?_ ?_ ?_ hnow⟩
    · exact hv.db
    · exact hv.unlogged
    · exact hv.log
  · obtain ⟨k, ⟨d, hd, hshows⟩, hlog, hseen⟩ := hv.shows entry (by simp [State.populated, hthread])
    refine ⟨k, ⟨d, hd, hothers entry d hentry hshows⟩, ?_, hseen⟩
    intro x hx hxentry hnot
    refine hlog x hx hxentry ?_
    simp only [State.pending, hthread, hrest, hpending, List.mem_cons, not_or] at hnot ⊢
    exact ⟨fun h => hentry (by rw [← hxentry, h]), hnot⟩

theorem step_versions {s s' : State} {i : Input} (hinv : Inv s) (hv : Versions s)
    (hup : keepsUp s i = true) (h : step s i = some s') : Versions s' := by
  cases i with
  | write w =>
    simp only [step] at h
    split at h
    · rename_i db happly
      cases h
      exact versions_write db hv
    · cases h
  | append u oid =>
    simp only [step] at h
    split at h
    · rename_i hu
      cases h
      simp only [keepsUp, Bool.and_eq_true, List.all_eq_true, decide_eq_true_eq] at hup
      exact versions_append hinv hv (List.contains_iff_mem.mp hu) hup.1 hup.2
    · cases h
  | populate ok =>
    simp only [keepsUp] at hup
    subst hup
    exact versions_populate hv h
  | initialiseLastOID =>
    simp only [step] at h
    split at h
    · rename_i hthread
      cases h
      exact versions_initialise hv hthread
    · cases h
  | next ok =>
    simp only [keepsUp] at hup
    subst hup
    simp only [step] at h
    split at h
    · rename_i lastOID hthread
      split at h
      · rename_i e rest hpending
        simp only [if_true, Option.some.injEq] at h
        subst h
        exact versions_next hinv hv hthread hpending
      · cases h
    · cases h
  | restart =>
    cases h
    exact ⟨hv.db, hv.unlogged, hv.log, fun _ h => by cases h⟩

/-- The tail has passed on every entry there is. -/
def CaughtUp (s : State) : Prop := s.thread ≠ .populateUsers ∧ s.thread ≠ .populateGroups ∧
  s.thread ≠ .initialise ∧ s.pending = []

/-- Every write to the record is logged. -/
def Logged (s : State) (entry : Entry) : Prop := entry ∉ s.unlogged.map Unlogged.entry

/-- What was logged is in the caches. Of the record of every entry they have a version that is not
before the entry's write; the lookups of a record with no write under way answer as the database. -/
structure Reflected (ipMatch : Str → Str → Bool) (s : State) : Prop where
  writes : ∀ e ∈ s.log, ∃ k db, e.version ≤ k ∧ s.versions[k]? = some db ∧
    Shows s.users s.groups db e.entry
  uidToName : ∀ uid, Logged s (.users uid) →
    s.users.uidToName uid = UserNoCache.uidToName s.db.users uid
  uidToPrimaryGID : ∀ uid, Logged s (.users uid) →
    s.users.uidToPrimaryGID uid = UserNoCache.uidToPrimaryGID s.db.users uid
  identIPAllowedUID : ∀ uid, Logged s (.users uid) → uid ≠ -1 → ∀ identAddress,
    s.users.identIPAllowedUID ipMatch identAddress uid =
      UserNoCache.identIPAllowedUID ipMatch s.db.users identAddress uid
  nameToUID : ∀ uid, Logged s (.users uid) → ∀ data, s.db.users.byId uid = some data →
    s.users.nameToUID data.name = uid
  gidToName : ∀ gid, Logged s (.groups gid) → gid ≠ -1 →
    s.groups.gidToName gid = GroupNoCache.gidToName s.db.groups gid
  nameToGID : ∀ gid, Logged s (.groups gid) → ∀ data, s.db.groups.byId gid = some data →
    s.groups.nameToGID data.name = gid

theorem Logged.uid {s : State} {uid : UserID} (h : Logged s (.users uid)) :
    uid ∉ s.unlogged.filterMap Unlogged.uid? := by
  intro hmem
  obtain ⟨u, hu, hentry⟩ := List.mem_filterMap.mp hmem
  refine h (List.mem_map.mpr ⟨u, hu, ?_⟩)
  unfold Unlogged.uid? Entry.uid? at hentry
  split at hentry
  · rename_i hsame
    cases hentry
    exact hsame
  · cases hentry

theorem Logged.gid {s : State} {gid : GroupID} (h : Logged s (.groups gid)) :
    gid ∉ s.unlogged.filterMap Unlogged.gid? := by
  intro hmem
  obtain ⟨u, hu, hentry⟩ := List.mem_filterMap.mp hmem
  refine h (List.mem_map.mpr ⟨u, hu, ?_⟩)
  unfold Unlogged.gid? Entry.gid? at hentry
  split at hentry
  · cases hentry
  · rename_i hsame
    cases hentry
    exact hsame

end Replicator
end Db
end Ebftpd
