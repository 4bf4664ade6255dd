import Ebftpd.Db.Database
import Ebftpd.Lib.Run

/-!
# Ebftpd.Db.Caches

The caches of users and groups (`src/db/user/usercache.cpp`, `src/db/group/groupcache.cpp`) and the
direct lookups they stand in for (`UserNoCache` and `GroupNoCache`, in the `util.cpp` beside them).
`Replicate` reads the record an entry of the update log names and refreshes or forgets what the
cache has of it; `Populate` fills an empty cache from the collection.

`WildcardMatch(mask, address, true)` is `fnmatch` without regard to case; it is a parameter, since
both sides ask it the same questions.

* `UserFollows`, `GroupFollows`: a cache that has applied its part of the log.
* `step_follows`: writes with their entries and replays in any order keep both.
* `step_sound`: a name the cache still holds for an id is the only way to a wrong answer, since
  `Replicate` adds the new name of a record and leaves the old one.
* `caches_agree`: once every entry has been passed, the lookups agree with the direct ones.
-/

namespace Ebftpd
namespace Db

open Util Lib Lib.Replica Acl

variable (ipMatch : Str → Str → Bool)

/-- `WildcardMatch` of a list of masks. -/
def matchAny (masks : List Str) (identAddress : Str) : Bool := masks.any (ipMatch · identAddress)

/-- `LookupIPMasks`; a uid of -1 means every user. -/
def lookupIPMasks (users : UserTable) (uid : UserID) : List Str :=
  if uid = -1 then users.rows.flatMap User.ipMasks
  else (users.rows.filter fun user => user.id = uid).flatMap User.ipMasks

structure UserCache where
  names : Map UserID Str := ∅
  uids : Map Str UserID := ∅
  primaryGids : Map UserID GroupID := ∅
  ipMasks : Map UserID (List Str) := ∅

namespace UserCache

def uidToName (cache : UserCache) (uid : UserID) : Str :=
  (cache.names.lookup uid).getD "unknown".toList

def nameToUID (cache : UserCache) (name : Str) : UserID := (cache.uids.lookup name).getD (-1)

def uidToPrimaryGID (cache : UserCache) (uid : UserID) : GroupID :=
  (cache.primaryGids.lookup uid).getD (-1)

def identIPAllowed (cache : UserCache) (identAddress : Str) : Bool :=
  cache.ipMasks.entries.any fun kv => matchAny ipMatch kv.2 identAddress

def identIPAllowedUID (cache : UserCache) (identAddress : Str) (uid : UserID) : Bool :=
  match cache.ipMasks.lookup uid with
  | some masks => matchAny ipMatch masks identAddress
  | none => false

def replicate (cache : UserCache) (users : UserTable) (uid : UserID) : UserCache :=
  match users.byId uid with
  | some data =>
    { uids := cache.uids.insert data.name data.id
      names := cache.names.insert data.id data.name
      primaryGids := cache.primaryGids.insert data.id data.primaryGid
      ipMasks := cache.ipMasks.insert data.id (lookupIPMasks users uid) }
  | none =>
    let cache :=
      match cache.names.lookup uid with
      | some name => { cache with uids := cache.uids.erase name, names := cache.names.erase uid }
      | none => cache
    { cache with primaryGids := cache.primaryGids.erase uid, ipMasks := cache.ipMasks.erase uid }

def populate (users : UserTable) : UserCache :=
  users.rows.foldl
    (fun cache user =>
      { uids := cache.uids.insert user.name user.id
        names := cache.names.insert user.id user.name
        primaryGids := cache.primaryGids.insert user.id user.primaryGid
        ipMasks := cache.ipMasks.insert user.id user.ipMasks })
    {}

def toNameCache (cache : UserCache) : NameCache UserID Str := ⟨cache.names, cache.uids⟩

end UserCache

/-- `GroupCache` holds the two maps of names and gids and no more. -/
structure GroupCache where
  names : Map GroupID Str := ∅
  gids : Map Str GroupID := ∅

namespace GroupCache

def gidToName (cache : GroupCache) (gid : GroupID) : Str :=
  if gid = -1 then "NoGroup".toList
  else (cache.names.lookup gid).getD "unknown".toList

def nameToGID (cache : GroupCache) (name : Str) : GroupID := (cache.gids.lookup name).getD (-1)

def replicate (cache : GroupCache) (groups : GroupTable) (gid : GroupID) : GroupCache :=
  match groups.byId gid with
  | some data =>
    { gids := cache.gids.insert data.name data.id, names := cache.names.insert data.id data.name }
  | none =>
    match cache.names.lookup gid with
    | some name => { gids := cache.gids.erase name, names := cache.names.erase gid }
    | none => cache

def populate (groups : GroupTable) : GroupCache :=
  groups.rows.foldl
    (fun cache group =>
      { gids := cache.gids.insert group.name group.id
        names := cache.names.insert group.id group.name })
    {}

def toNameCache (cache : GroupCache) : NameCache GroupID Str := ⟨cache.names, cache.gids⟩

end GroupCache

namespace UserNoCache

def uidToName (users : UserTable) (uid : UserID) : Str :=
  match users.byId uid with
  | some data => data.name
  | none => "unknown".toList

def nameToUID (users : UserTable) (name : Str) : UserID :=
  match users.byName name with
  | some data => data.id
  | none => -1

def uidToPrimaryGID (users : UserTable) (uid : UserID) : GroupID :=
  match users.byId uid with
  | some data => data.primaryGid
  | none => -1

def identIPAllowed (users : UserTable) (identAddress : Str) : Bool :=
  matchAny ipMatch (lookupIPMasks users (-1)) identAddress

def identIPAllowedUID (users : UserTable) (identAddress : Str) (uid : UserID) : Bool :=
  matchAny ipMatch (lookupIPMasks users uid) identAddress

end UserNoCache

namespace GroupNoCache

def gidToName (groups : GroupTable) (gid : GroupID) : Str :=
  match groups.byId gid with
  | some data => data.name
  | none => "unknown".toList

def nameToGID (groups : GroupTable) (name : Str) : GroupID :=
  match groups.byName name with
  | some data => data.id
  | none => -1

end GroupNoCache

/-! ## The replay -/

theorem lookupIPMasks_of_ne {users : UserTable} {uid : UserID} (h : uid ≠ -1) :
    lookupIPMasks users uid = ((users.byId uid).map User.ipMasks).getD [] := by
  rw [lookupIPMasks, if_neg h, Table.filter_id]
  cases users.byId uid with
  | none => rfl
  | some user => simp

theorem userReplicate_names (cache : UserCache) (users : UserTable) (uid : UserID) :
    (cache.replicate users uid).toNameCache = cache.toNameCache.replicate users uid := by
  unfold UserCache.replicate NameCache.replicate
  cases hr : users.byId uid with
  | some data =>
    have hid := Table.byId_id hr
    subst hid
    rfl
  | none =>
    simp only [UserCache.toNameCache, NameCache.forget]
    cases cache.names.lookup uid with
    | none => rfl
    | some name => rfl

theorem userReplicate_primaryGids (cache : UserCache) (users : UserTable) (uid : UserID) :
    (cache.replicate users uid).primaryGids =
      replicateColumn cache.primaryGids users User.primaryGid uid := by
  unfold UserCache.replicate replicateColumn
  cases hr : users.byId uid with
  | some data =>
    have hid := Table.byId_id hr
    subst hid
    rfl
  | none =>
    simp only
    cases cache.names.lookup uid with
    | none => rfl
    | some name => rfl

theorem userReplicate_ipMasks (cache : UserCache) {users : UserTable}
    (huids : ∀ uid ∈ users.rows.map User.id, 0 ≤ uid) (uid : UserID) :
    (cache.replicate users uid).ipMasks =
      replicateColumn cache.ipMasks users User.ipMasks uid := by
  unfold UserCache.replicate replicateColumn
  cases hr : users.byId uid with
  | some data =>
    have hid := Table.byId_id hr
    have hne : uid ≠ -1 := by
      have hpos := huids data.id (List.mem_map_of_mem (Table.byId_mem hr))
      rintro rfl
      rw [hid] at hpos
      exact absurd hpos (by decide)
    simp only [lookupIPMasks_of_ne hne, hr, hid, Option.map_some, Option.getD_some]
  | none =>
    simp only
    cases cache.names.lookup uid with
    | none => rfl
    | some name => rfl

/-- A cache of users that has applied all but the entries of `p` and the writes of `u`. -/
structure UserFollows (users : UserTable) (p u : List UserID) (cache : UserCache) : Prop where
  names : Follows users p u cache.toNameCache
  primaryGids : FollowsColumn users p u cache.primaryGids User.primaryGid
  ipMasks : FollowsColumn users p u cache.ipMasks User.ipMasks

namespace UserFollows

variable {users users' : UserTable} {p u : List UserID} {cache : UserCache} {uid : UserID}

theorem mono {u' : List UserID} (hu : u ⊆ u') (h : UserFollows users p u cache) :
    UserFollows users p u' cache :=
  ⟨h.names.mono hu, h.primaryGids.mono hu, h.ipMasks.mono hu⟩

theorem write (hw : WrittenAt users users' uid) (h : UserFollows users p u cache) :
    UserFollows users' p (uid :: u) cache :=
  ⟨h.names.write hw, h.primaryGids.write hw, h.ipMasks.write hw⟩

theorem append (h : UserFollows users p u cache)
    (hfirst : ∀ r, users.byId uid = some r →
      ∀ a, a ≠ uid → cache.names.lookup a = some r.name → a ∉ u) :
    UserFollows users (p ++ [uid]) (u.erase uid) cache :=
  ⟨h.names.append hfirst, h.primaryGids.append, h.ipMasks.append⟩

theorem replicate (huids : ∀ uid ∈ users.rows.map User.id, 0 ≤ uid)
    (h : UserFollows users (uid :: p) u cache) :
    UserFollows users p u (cache.replicate users uid) where
  names := by
    rw [userReplicate_names]
    exact h.names.replicate
  primaryGids := by
    rw [userReplicate_primaryGids]
    exact h.primaryGids.replicate
  ipMasks := by
    rw [userReplicate_ipMasks cache huids]
    exact h.ipMasks.replicate

end UserFollows

/-- Each map of a populated cache on its own. -/
theorem foldl_populate (rows : List User) (cache : UserCache) :
    rows.foldl
        (fun cache user =>
          ({ uids := cache.uids.insert user.name user.id
             names := cache.names.insert user.id user.name
             primaryGids := cache.primaryGids.insert user.id user.primaryGid
             ipMasks := cache.ipMasks.insert user.id user.ipMasks } : UserCache)) cache =
      { names := rows.foldl (fun m user => m.insert user.id user.name) cache.names
        uids := rows.foldl (fun m user => m.insert user.name user.id) cache.uids
        primaryGids := rows.foldl (fun m user => m.insert user.id user.primaryGid) cache.primaryGids
        ipMasks := rows.foldl (fun m user => m.insert user.id user.ipMasks) cache.ipMasks } := by
  induction rows generalizing cache with
  | nil => rfl
  | cons user rows ih => exact ih _

theorem userPopulate_names (users : UserTable) :
    (UserCache.populate users).toNameCache = NameCache.populate users := by
  rw [UserCache.populate, foldl_populate, NameCache.populate, NameCache.foldl_refresh]
  rfl

theorem userFollows_populate (users : UserTable) :
    UserFollows users [] [] (UserCache.populate users) where
  names := by
    rw [userPopulate_names]
    exact follows_populate users
  primaryGids := by
    rw [UserCache.populate, foldl_populate]
    exact followsColumn_populate users User.primaryGid
  ipMasks := by
    rw [UserCache.populate, foldl_populate]
    exact followsColumn_populate users User.ipMasks

theorem groupReplicate_names (cache : GroupCache) (groups : GroupTable) (gid : GroupID) :
    (cache.replicate groups gid).toNameCache = cache.toNameCache.replicate groups gid := by
  unfold GroupCache.replicate NameCache.replicate
  cases hr : groups.byId gid with
  | some data =>
    have hid := Table.byId_id hr
    subst hid
    rfl
  | none =>
    simp only [GroupCache.toNameCache, NameCache.forget]
    cases cache.names.lookup gid with
    | none => rfl
    | some name => rfl

theorem groupPopulate_names (groups : GroupTable) :
    (GroupCache.populate groups).toNameCache = NameCache.populate groups := by
  unfold GroupCache.populate NameCache.populate
  generalize hcache : ({} : GroupCache) = cache
  have hname : ({} : NameCache GroupID Str) = cache.toNameCache := by
    rw [← hcache]
    rfl
  rw [hname]
  clear hcache hname
  induction groups.rows generalizing cache with
  | nil => rfl
  | cons group rows ih => exact ih _

def GroupFollows (groups : GroupTable) (p u : List GroupID) (cache : GroupCache) : Prop :=
  Follows groups p u cache.toNameCache

namespace GroupFollows

variable {groups : GroupTable} {p u : List GroupID} {cache : GroupCache} {gid : GroupID}

theorem replicate (h : GroupFollows groups (gid :: p) u cache) :
    GroupFollows groups p u (cache.replicate groups gid) := by
  unfold GroupFollows
  rw [groupReplicate_names]
  exact Follows.replicate h

end GroupFollows

theorem groupFollows_populate (groups : GroupTable) :
    GroupFollows groups [] [] (GroupCache.populate groups) := by
  unfold GroupFollows
  rw [groupPopulate_names]
  exact follows_populate groups

/-! ## The lookups -/

section Agree

variable {users : UserTable} {p u : List UserID} {cache : UserCache}
  (h : UserFollows users p u cache)

section OneUser

variable {uid : UserID} (hp : uid ∉ p) (hu : uid ∉ u)

include h hp hu

theorem uidToName_agree : cache.uidToName uid = UserNoCache.uidToName users uid := by
  have hname : cache.names.lookup uid = _ := h.names.names uid hp hu
  rw [UserCache.uidToName, UserNoCache.uidToName, hname]
  cases users.byId uid with
  | none => rfl
  | some data => rfl

theorem uidToPrimaryGID_agree :
    cache.uidToPrimaryGID uid = UserNoCache.uidToPrimaryGID users uid := by
  rw [UserCache.uidToPrimaryGID, UserNoCache.uidToPrimaryGID, h.primaryGids uid hp hu]
  cases users.byId uid with
  | none => rfl
  | some data => rfl

theorem identIPAllowedUID_agree (identAddress : Str) (huid : uid ≠ -1) :
    cache.identIPAllowedUID ipMatch identAddress uid =
      UserNoCache.identIPAllowedUID ipMatch users identAddress uid := by
  rw [UserCache.identIPAllowedUID, UserNoCache.identIPAllowedUID, lookupIPMasks_of_ne huid,
    h.ipMasks uid hp hu]
  cases users.byId uid with
  | none => rfl
  | some data => rfl

theorem nameToUID_of_byId {data : User} (hdata : users.byId uid = some data) :
    cache.nameToUID data.name = uid := by
  have huid : cache.uids.lookup data.name = _ := h.names.ids uid data hp hu hdata
  rw [UserCache.nameToUID, huid]
  rfl

end OneUser

theorem nameToUID_agree (h : UserFollows users [] [] cache) (hsound : Sound users cache.toNameCache)
    (name : Str) : cache.nameToUID name = UserNoCache.nameToUID users name := by
  have huid : cache.uids.lookup name = _ := ids_eq_byName h.names hsound name
  rw [UserCache.nameToUID, UserNoCache.nameToUID, huid]
  cases users.byName name with
  | none => rfl
  | some data => rfl

theorem identIPAllowed_agree (h : UserFollows users [] [] cache) (identAddress : Str) :
    cache.identIPAllowed ipMatch identAddress =
      UserNoCache.identIPAllowed ipMatch users identAddress := by
  have hmasks : ∀ masks, (∃ uid, cache.ipMasks.lookup uid = some masks) ↔
      ∃ user ∈ users.rows, user.ipMasks = masks := by
    intro masks
    constructor
    · rintro ⟨uid, huid⟩
      rw [h.ipMasks uid (by simp) (by simp)] at huid
      obtain ⟨user, huser, hmask⟩ := Option.map_eq_some_iff.mp huid
      exact ⟨user, Table.byId_mem huser, hmask⟩
    · rintro ⟨user, huser, rfl⟩
      have hfound : users.byId user.id = some user := Table.byId_eq_some.mpr ⟨huser, rfl⟩
      exact ⟨user.id, by rw [h.ipMasks user.id (by simp) (by simp), hfound]; rfl⟩
  rw [Bool.eq_iff_iff]
  simp only [UserCache.identIPAllowed, UserNoCache.identIPAllowed, lookupIPMasks, matchAny, if_true,
    List.any_eq_true, List.mem_flatMap]
  constructor
  · rintro ⟨⟨uid, masks⟩, hmem, mask, hmask, hmatch⟩
    obtain ⟨user, huser, rfl⟩ := (hmasks masks).mp ⟨uid, AList.mem_lookup_iff.mpr hmem⟩
    exact ⟨mask, ⟨user, huser, hmask⟩, hmatch⟩
  · rintro ⟨mask, ⟨user, huser, hmask⟩, hmatch⟩
    obtain ⟨uid, huid⟩ := (hmasks user.ipMasks).mpr ⟨user, huser, rfl⟩
    exact ⟨⟨uid, user.ipMasks⟩, AList.mem_lookup_iff.mp huid, mask, hmask, hmatch⟩

end Agree

section OneGroup

variable {groups : GroupTable} {p u : List GroupID} {cache : GroupCache}
  (h : GroupFollows groups p u cache) {gid : GroupID} (hp : gid ∉ p) (hu : gid ∉ u)

include h hp hu

theorem gidToName_agree (hgid : gid ≠ -1) :
    cache.gidToName gid = GroupNoCache.gidToName groups gid := by
  have hname : cache.names.lookup gid = _ := Follows.names h gid hp hu
  rw [GroupCache.gidToName, GroupNoCache.gidToName, if_neg hgid, hname]
  cases groups.byId gid with
  | none => rfl
  | some data => rfl

theorem nameToGID_of_byId {data : Group} (hdata : groups.byId gid = some data) :
    cache.nameToGID data.name = gid := by
  have hgid : cache.gids.lookup data.name = _ := Follows.ids h gid data hp hu hdata
  rw [GroupCache.nameToGID, hgid]
  rfl

end OneGroup

theorem nameToGID_agree {groups : GroupTable} {cache : GroupCache}
    (h : GroupFollows groups [] [] cache) (hsound : Sound groups cache.toNameCache) (name : Str) :
    cache.nameToGID name = GroupNoCache.nameToGID groups name := by
  have hgid : cache.gids.lookup name = _ := ids_eq_byName h hsound name
  rw [GroupCache.nameToGID, GroupNoCache.nameToGID, hgid]
  cases groups.byName name with
  | none => rfl
  | some data => rfl

/-! ## Writes and replays -/

namespace Caches

/-- The database, the entries of the log that were not passed to a cache yet, and the caches. -/
structure State where
  db : Database
  log : List Entry
  users : UserCache
  groups : GroupCache

inductive Input where
  | write (w : Write)
  | replicate

/-- `Replicator::Replicate`: the entry goes to the cache of its collection. -/
def State.replicate (s : State) (entry : Entry) : State :=
  match entry with
  | .users uid => { s with users := s.users.replicate s.db.users uid }
  | .groups gid => { s with groups := s.groups.replicate s.db.groups gid }

def step (s : State) : Input → Option State
  | .write w =>
    match s.db.apply w with
    | some db => some { s with db := db, log := s.log ++ [w.entry] }
    | none => none
  | .replicate =>
    match s.log with
    | entry :: log => some ({ s with log := log }.replicate entry)
    | [] => none

def populated (db : Database) : State where
  db := db
  log := []
  users := UserCache.populate db.users
  groups := GroupCache.populate db.groups

structure Inv (s : State) : Prop where
  users : UserFollows s.db.users (s.log.filterMap Entry.uid?) [] s.users
  groups : GroupFollows s.db.groups (s.log.filterMap Entry.gid?) [] s.groups

theorem populated_inv (db : Database) : Inv (populated db) where
  users := userFollows_populate db.users
  groups := groupFollows_populate db.groups

/-- A write and its entry, for names: nothing is unlogged in between. -/
theorem follows_logged {ρ : Type} {id : ρ → Int} {name : ρ → Str} {t t' : Table id name}
    {p : List Int} {c : NameCache Int Str} {i : Int} (hw : WrittenAt t t' i) (h : Follows t p [] c) :
    Follows t' (p ++ [i]) [] c := by
  have hlogged := (h.write hw).append (i := i) (by
    intro r _ a ha _ hmem
    rw [List.mem_singleton] at hmem
    exact ha hmem)
  rwa [List.erase_cons_head] at hlogged

theorem userFollows_logged {users users' : UserTable} {p : List UserID} {cache : UserCache}
    {uid : UserID} (hw : WrittenAt users users' uid) (h : UserFollows users p [] cache) :
    UserFollows users' (p ++ [uid]) [] cache := by
  have hlogged : UserFollows users' (p ++ [uid]) ([uid].erase uid) cache := by
    refine (h.write hw).append ?_
    intro r _ a ha _ hmem
    rw [List.mem_singleton] at hmem
    exact ha hmem
  rwa [List.erase_cons_head] at hlogged

theorem step_follows {s s' : State} {i : Input} (hinv : Inv s) (h : step s i = some s') : Inv s' := by
  cases i with
  | write w =>
    simp only [step] at h
    split at h
    · rename_i db happly
      cases h
      rcases apply_written happly with ⟨uid, hentry, hw, hgroups⟩ | ⟨gid, hentry, hw, husers⟩
      · refine ⟨?_, ?_⟩
        · simp only [List.filterMap_append, hentry, Entry.uid?, List.filterMap_cons, List.filterMap_nil]
          exact userFollows_logged hw hinv.users
        · simp only [List.filterMap_append, hentry, Entry.gid?, List.filterMap_cons, List.filterMap_nil,
            List.append_nil, hgroups]
          exact hinv.groups
      · refine ⟨?_, ?_⟩
        · simp only [List.filterMap_append, hentry, Entry.uid?, List.filterMap_cons, List.filterMap_nil,
            List.append_nil, husers]
          exact hinv.users
        · simp only [List.filterMap_append, hentry, Entry.gid?, List.filterMap_cons, List.filterMap_nil]
          exact follows_logged hw hinv.groups
    · cases h
  | replicate =>
    simp only [step] at h
    split at h
    · rename_i entry log hlog
      cases h
      obtain ⟨husers, hgroups⟩ := hinv
      rw [hlog] at husers hgroups
      cases entry with
      | users uid => exact ⟨husers.replicate s.db.uids, hgroups⟩
      | groups gid => exact ⟨husers, GroupFollows.replicate hgroups⟩
    · cases h

structure SoundInv (s : State) : Prop where
  users : Sound s.db.users s.users.toNameCache
  groups : Sound s.db.groups s.groups.toNameCache

theorem populated_sound (db : Database) : SoundInv (populated db) where
  users := by
    simp only [populated, userPopulate_names]
    exact sound_populate db.users
  groups := by
    simp only [populated, groupPopulate_names]
    exact sound_populate db.groups

/-- A record's name, unless the cache has another for its id. -/
def sameName (name cached : Option Str) : Bool :=
  match name, cached with
  | some name, some cached => name == cached
  | _, _ => true

/-- The write leaves the record it is about with the name the cache has for the id, if it has one:
it is no rename of a cached record, and no new record under the id of a cached one. -/
def keepsCachedName (s : State) : Input → Bool
  | .write w =>
    match s.db.apply w, w.entry with
    | some db, .users uid => sameName ((db.users.byId uid).map User.name) (s.users.names.lookup uid)
    | some db, .groups gid =>
      sameName ((db.groups.byId gid).map Group.name) (s.groups.names.lookup gid)
    | none, _ => true
  | .replicate => true

theorem sameName_eq {ρ : Type} {name : ρ → Str} {row : Option ρ} {cached : Option Str}
    (h : sameName (row.map name) cached = true) :
    ∀ r, row = some r → ∀ n, cached = some n → name r = n := by
  rintro r rfl n rfl
  simpa [sameName] using h

theorem step_sound {s s' : State} {i : Input} (hsound : SoundInv s) (hkeeps : keepsCachedName s i = true)
    (h : step s i = some s') : SoundInv s' := by
  cases i with
  | write w =>
    simp only [step] at h
    split at h
    · rename_i db happly
      cases h
      simp only [keepsCachedName, happly] at hkeeps
      rcases apply_written happly with ⟨uid, hentry, hw, hgroups⟩ | ⟨gid, hentry, hw, husers⟩
      · rw [hentry] at hkeeps
        refine ⟨hsound.users.write hw (sameName_eq hkeeps), ?_⟩
        simp only [hgroups]
        exact hsound.groups
      · rw [hentry] at hkeeps
        refine ⟨?_, hsound.groups.write hw (sameName_eq hkeeps)⟩
        simp only [husers]
        exact hsound.users
    · cases h
  | replicate =>
    simp only [step] at h
    split at h
    · rename_i entry log hlog
      cases h
      cases entry with
      | users uid =>
        refine ⟨?_, hsound.groups⟩
        simp only [State.replicate, userReplicate_names]
        exact hsound.users.replicate
      | groups gid =>
        refine ⟨hsound.users, ?_⟩
        simp only [State.replicate, groupReplicate_names]
        exact hsound.groups.replicate
    · cases h

/-- The caches answer as the direct lookups do. The two lookups that take -1 for something else than
an id are left out at -1: `LookupIPMasks` reads it as every user, `GIDToName` as no group. -/
structure Agrees (s : State) : Prop where
  nameToUID : ∀ name, s.users.nameToUID name = UserNoCache.nameToUID s.db.users name
  uidToName : ∀ uid, s.users.uidToName uid = UserNoCache.uidToName s.db.users uid
  uidToPrimaryGID : ∀ uid, s.users.uidToPrimaryGID uid = UserNoCache.uidToPrimaryGID s.db.users uid
  identIPAllowed : ∀ identAddress, s.users.identIPAllowed ipMatch identAddress =
    UserNoCache.identIPAllowed ipMatch s.db.users identAddress
  identIPAllowedUID : ∀ identAddress uid, uid ≠ -1 →
    s.users.identIPAllowedUID ipMatch identAddress uid =
      UserNoCache.identIPAllowedUID ipMatch s.db.users identAddress uid
  nameToGID : ∀ name, s.groups.nameToGID name = GroupNoCache.nameToGID s.db.groups name
  gidToName : ∀ gid, gid ≠ -1 → s.groups.gidToName gid = GroupNoCache.gidToName s.db.groups gid

/-- In every run of writes and replays in which no write changes the name of a cached record, the
caches agree with the database whenever every entry has been passed. -/
theorem caches_agree (db : Database) (l : List Input) (s : State)
    (hmeets : Meets step (fun s i => keepsCachedName s i = true) (populated db) l)
    (hrun : run step (populated db) l = some s) (hlog : s.log = []) : Agrees ipMatch s := by
  have hinv : Inv s := run_invariant (fun _ _ _ => step_follows) l (populated_inv db) hrun
  have hsound : SoundInv s :=
    run_invariant_of_meets (fun _ _ _ => step_sound) l (populated_sound db) hmeets hrun
  obtain ⟨husers, hgroups⟩ := hinv
  rw [hlog] at husers hgroups
  exact
    { nameToUID := nameToUID_agree husers hsound.users
      uidToName := fun _ => uidToName_agree husers (by simp) (by simp)
      uidToPrimaryGID := fun _ => uidToPrimaryGID_agree husers (by simp) (by simp)
      identIPAllowed := identIPAllowed_agree ipMatch husers
      identIPAllowedUID := fun identAddress _ huid =>
        identIPAllowedUID_agree ipMatch husers (by simp) (by simp) identAddress huid
      nameToGID := nameToGID_agree hgroups hsound.groups
      gidToName := fun _ hgid => gidToName_agree hgroups (by simp) (by simp) hgid }

/-- One user in one group. -/
def exampleDatabase : Database where
  users :=
    { rows := [{ id := 5, name := "alice".toList, ipMasks := ["a@1.2.3.4".toList], primaryGid := 0 }]
      ids := by decide
      names := by decide }
  groups :=
    { rows := [{ id := 0, name := "staff".toList }]
      ids := by decide
      names := by decide }
  uids := by decide
  gids := by decide

/-- A user is created and renamed before her first entry is passed, another changes his masks and is
purged: the caches agree. -/
theorem caches_agree_created :
    let l : List Input :=
      [.write (.createUser { id := 6, name := "bob".toList }),
        .write (.saveUser 6 (.name "carol".toList)), .replicate,
        .write (.saveUser 5 (.ipMasks ["*@*".toList])), .write (.purgeUser 5), .replicate, .replicate,
        .replicate]
    ∃ s, run step (populated exampleDatabase) l = some s ∧ Agrees (fun _ _ => true) s ∧
      s.users.nameToUID "carol".toList = 6 ∧ s.users.nameToUID "alice".toList = -1 := by
  intro l
  have hrun : (run step (populated exampleDatabase) l).isSome = true := by decide
  obtain ⟨s, hs⟩ := Option.isSome_iff_exists.mp hrun
  have hlog : (run step (populated exampleDatabase) l).map State.log = some [] := by decide
  have hnames : (run step (populated exampleDatabase) l).map (fun s =>
      (s.users.nameToUID "carol".toList, s.users.nameToUID "alice".toList)) = some (6, -1) := by decide
  rw [hs] at hlog hnames
  simp only [Option.map_some, Option.some.injEq, Prod.mk.injEq] at hlog hnames
  exact ⟨s, hs, caches_agree (fun _ _ => true) exampleDatabase l s (by decide) hs hlog, hnames.1,
    hnames.2⟩

/-- A rename: the cache knows the user by both names. -/
theorem caches_disagree_renamed :
    let l : List Input := [.write (.saveUser 5 (.name "bob".toList)), .replicate]
    ∃ s, run step (populated exampleDatabase) l = some s ∧ s.log = [] ∧
      s.users.nameToUID "alice".toList = 5 ∧
      UserNoCache.nameToUID s.db.users "alice".toList = -1 := by
  intro l
  have hrun : (run step (populated exampleDatabase) l).map (fun s =>
      (s.log, s.users.nameToUID "alice".toList, UserNoCache.nameToUID s.db.users "alice".toList)) =
      some ([], 5, -1) := by decide
  obtain ⟨s, hs, hfacts⟩ := Option.map_eq_some_iff.mp hrun
  simp only [Prod.mk.injEq] at hfacts
  exact ⟨s, hs, hfacts.1, hfacts.2.1, hfacts.2.2⟩

end Caches

end Db
end Ebftpd
