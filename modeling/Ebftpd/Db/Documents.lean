import Ebftpd.Acl.Group
import Ebftpd.Db.Serialization
import Ebftpd.Lib.Document

/-!
# Ebftpd.Db.Documents

Users and groups as documents of the database (`src/db/user/user.cpp`, `src/db/group/group.cpp`),
and the fields that the Save functions name. The object ids are the database's: `ObjectIds` is what
is relied on of them. A user is read back with the creation date of the object id, which is not
among the fields that are written.

* `unserializeUser_serializeUser`, `unserializeGroup_serializeGroup`: what is written is read back.
* `userSave_fields`, `groupSave_fields`: what is saved is written, and read.
* `records_roundtrip`: all of it.
-/

namespace Ebftpd
namespace Db

open Util Acl
open Lib.Document
open Serialization

/-- Object ids, their texts of hexadecimal digits and their time, in milliseconds. -/
structure ObjectIds (ω : Type) where
  ofString : Str → Option ω
  toString : ω → Str
  asDateT : ω → Int
  ofString_toString : ∀ o, ofString (toString o) = some o
  asDateT_nonneg : ∀ o, 0 ≤ asDateT o

namespace Documents

variable {ω : Type}

/-- `SerializeContainer`. -/
def serializeContainer {α : Type} (write : α → Value ω) (c : List α) : Value ω := .array (c.map write)

/-- `UnserializeContainer` of a vector. -/
def unserializeVector {α : Type} (as : Value ω → Option α) (v : Value ω) : Option (List α) :=
  v.array?.bind (·.mapM as)

/-- `UnserializeContainer` of a set. -/
def unserializeSet {α : Type} [DecidableEq α] (as : Value ω → Option α) (v : Value ω) : Option (List α) :=
  (unserializeVector as v).map fun l => l.foldl (insertBy id) []

def serializeEntry (write : Int → Value ω) (kv : Str × Int) : Value ω :=
  .object [("section", .string kv.1), ("value", write kv.2)]

def unserializeEntry (as : Value ω → Option Int) (v : Value ω) : Option (Str × Int) := do
  let elemObj ← v.object?
  let key ← Doc.read elemObj "section" Value.string?
  let value ← Doc.read elemObj "value" as
  some (key, value)

/-- `SerializeMap`, from section to value. -/
def serializeMap (write : Int → Value ω) (m : List (Str × Int)) : Value ω :=
  serializeContainer (serializeEntry write) m

def unserializeMap (as : Value ω → Option Int) (v : Value ω) : Option (List (Str × Int)) :=
  (unserializeVector (unserializeEntry as) v).map fun l => l.foldl (insertBy Prod.fst) []

/-- A date that may be missing, for which null is written. -/
def serializeOptional (toDate : Int → Option Int) : Option Int → Option (Value ω)
  | some x => (toDate x).map .date
  | none => some .null

def unserializeOptional (fromDate : Int → Option Int) (v : Value ω) : Option (Option Int) :=
  if v.isNull then some none else (v.date?.bind fromDate).map some

theorem unserializeVector_serializeContainer {α : Type} {as : Value ω → Option α} {write : α → Value ω}
    (h : ∀ x, as (write x) = some x) (c : List α) :
    unserializeVector as (serializeContainer write c) = some c :=
  mapM_map h c

theorem unserializeSet_serializeContainer {α : Type} [DecidableEq α] {as : Value ω → Option α}
    {write : α → Value ω} (h : ∀ x, as (write x) = some x) {c : List α} (hc : c.Nodup) :
    unserializeSet as (serializeContainer write c) = some c := by
  rw [unserializeSet, unserializeVector_serializeContainer h, Option.map_some,
    foldl_insertBy (by rwa [List.map_id])]

theorem unserializeMap_serializeMap {as : Value ω → Option Int} {write : Int → Value ω}
    (h : ∀ x, as (write x) = some x) {m : List (Str × Int)} (hm : (m.map Prod.fst).Nodup) :
    unserializeMap as (serializeMap write m) = some m := by
  have hentry : ∀ kv, unserializeEntry as (serializeEntry write kv) = some kv := by
    intro kv
    simp [unserializeEntry, serializeEntry, Doc.read_cons, h]
  rw [unserializeMap, serializeMap, unserializeVector_serializeContainer hentry, Option.map_some,
    foldl_insertBy hm]

variable (oids : ObjectIds ω) (zone : Zone)

/-- The fields of a user's record, with what its dates are written as. -/
def userFields (user : User) (created : Int) (expires lastLogin : Value ω) : Doc ω := [
  ("uid", .int user.id),
  ("name", .string user.name),
  ("ip masks", serializeContainer .string user.ipMasks),
  ("password", .string user.password),
  ("salt", .string user.salt),
  ("flags", .string user.flags),
  ("primary gid", .int user.primaryGid),
  ("secondary gids", serializeContainer .int user.secondaryGids),
  ("gadmin gids", serializeContainer .int user.gadminGids),
  ("creator", .int user.creator),
  ("created", .date created),
  ("home dir", .string user.homeDir),
  ("startup dir", .string user.startUpDir),
  ("idle time", .int user.idleTime),
  ("expires", expires),
  ("num logins", .int user.numLogins),
  ("comment", .string user.comment),
  ("tagline", .string user.tagline),
  ("max down speed", .long user.maxDownSpeed),
  ("max up speed", .long user.maxUpSpeed),
  ("max sim down", .int user.maxSimDown),
  ("max sim up", .int user.maxSimUp),
  ("logged in", .int user.loggedIn),
  ("last login", lastLogin),
  ("ratio", serializeMap .int user.ratio),
  ("credits", serializeMap .long user.credits),
  ("weekly allotment", serializeMap .long user.weeklyAllotment)]

/-- `Serialize` of a user's record, at the second `now`. -/
def serializeUser (now : Int) (user : User) : Option (Doc ω) := do
  let created ← toDateTOfDate zone now user.created
  let expires ← serializeOptional (toDateTOfDate zone now) user.expires
  let lastLogin ← serializeOptional (toDateT zone now) user.lastLogin
  some (userFields user created expires lastLogin)

/-- `Unserialize` of a user's record. -/
def unserializeUser (obj : Doc ω) : Option User := do
  let id ← obj.read "uid" Value.int?
  let name ← obj.read "name" Value.string?
  let ipMasks ← obj.read "ip masks" (unserializeVector Value.string?)
  let password ← obj.read "password" Value.string?
  let salt ← obj.read "salt" Value.string?
  let flags ← obj.read "flags" Value.string?
  let primaryGid ← obj.read "primary gid" Value.int?
  let secondaryGids ← obj.read "secondary gids" (unserializeVector Value.int?)
  let gadminGids ← obj.read "gadmin gids" (unserializeSet Value.int?)
  let creator ← obj.read "creator" Value.int?
  let oid ← obj.read "_id" Value.oid?
  let created ← toGregDate zone (oids.asDateT oid)
  let homeDir ← obj.read "home dir" Value.string?
  let startUpDir ← obj.read "startup dir" Value.string?
  let idleTime ← obj.read "idle time" Value.int?
  let expires ← obj.read "expires" (unserializeOptional (toGregDate zone))
  let numLogins ← obj.read "num logins" Value.int?
  let comment ← obj.read "comment" Value.string?
  let tagline ← obj.read "tagline" Value.string?
  let maxDownSpeed ← obj.read "max down speed" Value.long?
  let maxUpSpeed ← obj.read "max up speed" Value.long?
  let maxSimDown ← obj.read "max sim down" Value.int?
  let maxSimUp ← obj.read "max sim up" Value.int?
  let loggedIn ← obj.read "logged in" Value.int?
  let lastLogin ← obj.read "last login" (unserializeOptional (toPosixTime zone))
  let ratio ← obj.read "ratio" (unserializeMap Value.int?)
  let credits ← obj.read "credits" (unserializeMap Value.long?)
  let weeklyAllotment ← obj.read "weekly allotment" (unserializeMap Value.long?)
  some {
    id, name, ipMasks, password, salt, flags, primaryGid, secondaryGids, gadminGids, creator, created,
    homeDir, startUpDir, idleTime, expires, numLogins, comment, tagline, maxDownSpeed, maxUpSpeed,
    maxSimDown, maxSimUp, loggedIn, lastLogin, ratio, credits, weeklyAllotment }

/-- The containers without order of a record hold no key twice. -/
structure Proper (user : User) : Prop where
  gadminGids : user.gadminGids.Nodup
  ratio : (user.ratio.map Prod.fst).Nodup
  credits : (user.credits.map Prod.fst).Nodup
  weeklyAllotment : (user.weeklyAllotment.map Prod.fst).Nodup

/-- The dates and times of a record survive their conversion at the second `now`. -/
structure Surviving (now : Int) (user : User) : Prop where
  created : (toDateTOfDate zone now user.created).isSome = true
  expires : ∀ d, user.expires = some d → (toDateTOfDate zone now d).bind (toGregDate zone) = some d
  lastLogin : ∀ t, user.lastLogin = some t → (toDateT zone now t).bind (toPosixTime zone) = some t

variable {oids zone}

theorem unserializeOptional_serializeOptional {toDate fromDate : Int → Option Int} {e : Option Int}
    (h : ∀ x, e = some x → (toDate x).bind fromDate = some x) :
    ∃ v : Value ω, serializeOptional toDate e = some v ∧ unserializeOptional fromDate v = some e := by
  cases e with
  | none => exact ⟨.null, rfl, rfl⟩
  | some x =>
    obtain ⟨ms, hms, hx⟩ := Option.bind_eq_some_iff.mp (h x rfl)
    exact ⟨.date ms, by rw [serializeOptional, hms, Option.map_some],
      by simp [unserializeOptional, Value.isNull, hx]⟩

theorem toGregDate_asDateT (o : ω) : ∃ created, toGregDate zone (oids.asDateT o) = some created := by
  have h : ¬ oids.asDateT o / 1000 < 0 := by
    have := oids.asDateT_nonneg o
    omega
  exact ⟨_, by rw [toGregDate, toPosixTime, utcToLocal, if_neg h, Option.map_some]⟩

theorem unserializeUser_serializeUser {now : Int} {user : User} (hp : Proper user)
    (hs : Surviving zone now user) (o : ω) :
    ∃ doc created, serializeUser zone now user = some doc ∧
      unserializeUser oids zone (("_id", .oid o) :: doc) = some { user with created := created } := by
  obtain ⟨stored, hstored⟩ := Option.isSome_iff_exists.mp hs.created
  obtain ⟨created, hcreated⟩ : ∃ created, toGregDate zone (oids.asDateT o) = some created :=
    toGregDate_asDateT o
  obtain ⟨expires, hexpires, hexpires'⟩ := unserializeOptional_serializeOptional (ω := ω) hs.expires
  obtain ⟨lastLogin, hlast, hlast'⟩ := unserializeOptional_serializeOptional (ω := ω) hs.lastLogin
  have hmasks := unserializeVector_serializeContainer (Value.string?_string (ω := ω)) user.ipMasks
  have hsecondary := unserializeVector_serializeContainer (Value.int?_int (ω := ω)) user.secondaryGids
  have hgadmin := unserializeSet_serializeContainer (Value.int?_int (ω := ω)) hp.gadminGids
  have hratio := unserializeMap_serializeMap (Value.int?_int (ω := ω)) hp.ratio
  have hcredits := unserializeMap_serializeMap (Value.long?_long (ω := ω)) hp.credits
  have hallotment := unserializeMap_serializeMap (Value.long?_long (ω := ω)) hp.weeklyAllotment
  refine ⟨userFields user stored expires lastLogin, created, ?_, ?_⟩
  · simp only [serializeUser, hstored, hexpires, hlast, Option.bind_eq_bind, Option.bind_some]
  · simp [userFields, unserializeUser, Doc.read_cons, hcreated, hexpires', hlast', hmasks, hsecondary,
      hgadmin, hratio, hcredits, hallotment]

/-! ## Groups -/

def serializeGroup (group : Group) : Doc ω := [
  ("name", .string group.name),
  ("gid", .int group.id),
  ("description", .string group.description),
  ("slots", .int group.slots),
  ("leech slots", .int group.leechSlots),
  ("allotment slots", .int group.allotmentSlots),
  ("max allotment size", .long group.maxAllotmentSize),
  ("max logins", .int group.maxLogins),
  ("comment", .string group.comment)]

def unserializeGroup (obj : Doc ω) : Option Group := do
  let id ← obj.read "gid" Value.int?
  let name ← obj.read "name" Value.string?
  let description ← obj.read "description" Value.string?
  let comment ← obj.read "comment" Value.string?
  let slots ← obj.read "slots" Value.int?
  let leechSlots ← obj.read "leech slots" Value.int?
  let allotmentSlots ← obj.read "allotment slots" Value.int?
  let maxAllotmentSize ← obj.read "max allotment size" Value.long?
  let maxLogins ← obj.read "max logins" Value.int?
  some {
    id, name, description, comment, slots, leechSlots, allotmentSlots, maxAllotmentSize, maxLogins }

theorem unserializeGroup_serializeGroup (group : Group) (o : ω) :
    unserializeGroup (("_id", .oid o) :: serializeGroup group) = some group := by
  simp [unserializeGroup, serializeGroup, Doc.read_cons]

/-! ## The Save functions -/

inductive UserSave where
  | Name | IPMasks | Password | Flags | GIDs | GadminGIDs | WeeklyAllotment | HomeDir | StartUpDir
  | IdleTime | Expires | NumLogins | Comment | Tagline | MaxDownSpeed | MaxUpSpeed | MaxSimDown
  | MaxSimUp | LoggedIn | Ratio

/-- The fields that a Save function of a user names. -/
def UserSave.fields : UserSave → List String
  | .Name => ["name"]
  | .IPMasks => ["ip masks"]
  | .Password => ["password", "salt"]
  | .Flags => ["flags"]
  | .GIDs => ["primary gid", "secondary gids", "gadmin gids"]
  | .GadminGIDs => ["gadmin gids"]
  | .WeeklyAllotment => ["weekly allotment"]
  | .HomeDir => ["home dir"]
  | .StartUpDir => ["startup dir"]
  | .IdleTime => ["idle time"]
  | .Expires => ["expires"]
  | .NumLogins => ["num logins"]
  | .Comment => ["comment"]
  | .Tagline => ["tagline"]
  | .MaxDownSpeed => ["max down speed"]
  | .MaxUpSpeed => ["max up speed"]
  | .MaxSimDown => ["max sim down"]
  | .MaxSimUp => ["max sim up"]
  | .LoggedIn => ["logged in", "last login"]
  | .Ratio => ["ratio"]

inductive GroupSave where
  | Name | Description | Comment | Slots | LeechSlots | AllotmentSlots | MaxAllotmentSize | MaxLogins

/-- The fields that a Save function of a group names. -/
def GroupSave.fields : GroupSave → List String
  | .Name => ["name"]
  | .Description => ["description"]
  | .Comment => ["comment"]
  | .Slots => ["slots"]
  | .LeechSlots => ["leech slots"]
  | .AllotmentSlots => ["allotment slots"]
  | .MaxAllotmentSize => ["max allotment size"]
  | .MaxLogins => ["max logins"]

/-- A user is not read from a document without one of the fields that are saved. -/
theorem unserializeUser_without (save : UserSave) {field : String} (hfield : field ∈ save.fields)
    (doc : Doc ω) : unserializeUser oids zone (doc.without field) = none := by
  rw [Option.eq_none_iff_forall_ne_some]
  intro user h
  unfold unserializeUser at h
  -- the fields read before the creation date, and those after
  iterate 11 obtain ⟨_, _, h⟩ := Doc.of_bind_read h
  obtain ⟨_, -, h⟩ := Option.bind_eq_some_iff.mp h
  iterate 16 obtain ⟨_, _, h⟩ := Doc.of_bind_read h
  cases save <;> simp only [UserSave.fields, List.mem_cons, List.not_mem_nil, or_false] at hfield <;>
    rcases hfield with rfl | rfl | rfl <;> contradiction

theorem unserializeGroup_without (save : GroupSave) {field : String} (hfield : field ∈ save.fields)
    (doc : Doc ω) : unserializeGroup (doc.without field) = none := by
  rw [Option.eq_none_iff_forall_ne_some]
  intro group h
  unfold unserializeGroup at h
  iterate 9 obtain ⟨_, _, h⟩ := Doc.of_bind_read h
  cases save <;> simp only [GroupSave.fields, List.mem_cons, List.not_mem_nil, or_false] at hfield <;>
    subst hfield <;> contradiction

theorem mem_userFields {user : User} {created : Int} {expires lastLogin : Value ω} (save : UserSave)
    {field : String} (hfield : field ∈ save.fields) :
    field ∈ (userFields user created expires lastLogin).map Prod.fst := by
  cases save <;> simp only [UserSave.fields, List.mem_cons, List.not_mem_nil, or_false] at hfield <;>
    rcases hfield with rfl | rfl | rfl <;> simp [userFields]

theorem mem_serializeUser {now : Int} {user : User} {doc : Doc ω}
    (h : serializeUser zone now user = some doc) (save : UserSave) {field : String}
    (hfield : field ∈ save.fields) : field ∈ doc.map Prod.fst := by
  obtain ⟨created, -, h⟩ := Option.bind_eq_some_iff.mp h
  obtain ⟨expires, -, h⟩ := Option.bind_eq_some_iff.mp h
  obtain ⟨lastLogin, -, h⟩ := Option.bind_eq_some_iff.mp h
  cases h
  exact mem_userFields save hfield

theorem mem_serializeGroup (group : Group) (save : GroupSave) {field : String}
    (hfield : field ∈ save.fields) : field ∈ (serializeGroup (ω := ω) group).map Prod.fst := by
  cases save <;> simp only [GroupSave.fields, List.mem_cons, List.not_mem_nil, or_false] at hfield <;>
    subst hfield <;> simp [serializeGroup]

/-- What is written has no object id, without which it is not read back. -/
theorem unserializeUser_written {now : Int} {user : User} {doc : Doc ω}
    (h : serializeUser zone now user = some doc) : unserializeUser oids zone doc = none := by
  obtain ⟨created, -, h⟩ := Option.bind_eq_some_iff.mp h
  obtain ⟨expires, -, h⟩ := Option.bind_eq_some_iff.mp h
  obtain ⟨lastLogin, -, h⟩ := Option.bind_eq_some_iff.mp h
  cases h
  rw [Option.eq_none_iff_forall_ne_some]
  intro user' h
  unfold unserializeUser at h
  iterate 10 obtain ⟨_, -, h⟩ := Option.bind_eq_some_iff.mp h
  obtain ⟨_, hid, -⟩ := Option.bind_eq_some_iff.mp h
  simp [userFields, Doc.read_cons] at hid

/-- A record is read back from what was written for it and the object id that the database adds, a
user's with the creation date of the object id; and what the Save functions name is written and
read: without it there is nothing to read back. -/
theorem records_roundtrip (oids : ObjectIds ω) (zone : Zone) :
    (∀ (now : Int) (user : User) (o : ω), Proper user → Surviving zone now user →
      ∃ doc created, serializeUser zone now user = some doc ∧
        unserializeUser oids zone (("_id", .oid o) :: doc) = some { user with created := created }) ∧
    (∀ (group : Group) (o : ω),
      unserializeGroup (("_id", .oid o) :: serializeGroup group) = some group) ∧
    (∀ (save : UserSave), ∀ field ∈ save.fields,
      (∀ now user doc, serializeUser (ω := ω) zone now user = some doc → field ∈ doc.map Prod.fst) ∧
        ∀ doc : Doc ω, unserializeUser oids zone (doc.without field) = none) ∧
    ∀ (save : GroupSave), ∀ field ∈ save.fields,
      (∀ group, field ∈ (serializeGroup (ω := ω) group).map Prod.fst) ∧
        ∀ doc : Doc ω, unserializeGroup (doc.without field) = none := by
  refine ⟨fun now user o hp hs => unserializeUser_serializeUser hp hs o, fun group o => ?_,
    fun save field hfield => ⟨fun now user doc h => mem_serializeUser h save hfield,
      unserializeUser_without save hfield⟩,
    fun save field hfield => ⟨fun group => mem_serializeGroup group save hfield,
      unserializeGroup_without save hfield⟩⟩
  exact unserializeGroup_serializeGroup group o

def isHexId (s : Str) : Bool := s.length == 24 && s.all fun c => "0123456789abcdef".toList.contains c

/-- Seconds since 1970 of the first eight digits. -/
def hexSeconds (s : Str) : Nat := (s.take 8).foldl (fun n c => 16 * n + (Passwd.hexValue c).getD 0) 0

/-- Object ids by their texts of 24 digits, of which the first eight are the second. -/
def hexIds : ObjectIds { s : Str // isHexId s = true } where
  ofString s := if h : isHexId s = true then some ⟨s, h⟩ else none
  toString o := o.1
  asDateT o := hexSeconds o.1 * 1000
  ofString_toString o := by rw [dif_pos o.2]
  asDateT_nonneg o := by omega

def exampleId : { s : Str // isHexId s = true } := ⟨"51d4b7800000000000000001".toList, by decide⟩

/-- A user of the fourth of July of 2013, with an expiry and a last login of that month. -/
def exampleUser : User where
  id := 7
  name := "alice".toList
  ipMasks := ["*@10.0.0.1".toList]
  gadminGids := [2, 5]
  secondaryGids := [5]
  primaryGid := 2
  created := 15890
  expires := some 15895
  lastLogin := some 1372665600000000
  ratio := [([], 3), ("mp3".toList, 0)]
  credits := [([], 1000)]

theorem exampleUser_surviving : Surviving centralEurope 1372896000 exampleUser where
  created := by decide
  expires := by
    rintro d ⟨⟩
    decide
  lastLogin := by
    rintro t ⟨⟩
    decide

theorem records_roundtrip_alice :
    ∃ doc created, serializeUser centralEurope 1372896000 exampleUser = some doc ∧
      unserializeUser hexIds centralEurope (("_id", .oid exampleId) :: doc) =
        some { exampleUser with created := created } :=
  (records_roundtrip hexIds centralEurope).1 1372896000 exampleUser exampleId
    ⟨by decide, by decide, by decide, by decide⟩ exampleUser_surviving

/-- The same document without the object id is not read back. -/
theorem alice_without_id :
    ∃ doc, serializeUser centralEurope 1372896000 exampleUser = some doc ∧
      unserializeUser hexIds centralEurope doc = none := by
  obtain ⟨doc, -, hdoc, -⟩ : ∃ doc created, serializeUser centralEurope 1372896000 exampleUser = some doc ∧
      unserializeUser hexIds centralEurope (("_id", .oid exampleId) :: doc) =
        some { exampleUser with created := created } :=
    unserializeUser_serializeUser ⟨by decide, by decide, by decide, by decide⟩ exampleUser_surviving exampleId
  exact ⟨doc, hdoc, unserializeUser_written hdoc⟩

end Documents
end Db
end Ebftpd
