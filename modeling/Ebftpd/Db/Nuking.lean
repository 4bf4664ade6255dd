import Ebftpd.Db.Documents

/-!
# Ebftpd.Db.Nuking

Nukes as documents of the database (`src/db/nuking/nuking.cpp`). The modification time is in
seconds; it is multiplied by 1000 for `ToDateT`, whose overload for a `time_t` does so again, and
read back by the database's conversion of milliseconds to seconds.

* `nuke_roundtrip_iff`: which nukes are read back as they were written.
-/

namespace Ebftpd
namespace Db
namespace Nuking

open Util Acl
open Lib.Document
open Serialization Documents

structure Nukee where
  uid : UserID
  kBytes : Int
  files : Int
  credits : Int

structure Nuke where
  id : Str
  path : Str
  sec : Str
  reason : Str
  nukerUID : UserID
  multiplier : Int
  isPercent : Bool
  modTime : Int
  /-- The time of the object id, which is not written. -/
  dateTime : Int
  nukees : List Nukee

variable {ω : Type}

def serializeNukee (nukee : Nukee) : Value ω := .object [
  ("uid", .int nukee.uid),
  ("kbytes", .long nukee.kBytes),
  ("files", .int nukee.files),
  ("credits", .long nukee.credits)]

def unserializeNukee (v : Value ω) : Option Nukee := do
  let obj ← v.object?
  let uid ← Doc.read obj "uid" Value.int?
  let kBytes ← Doc.read obj "kbytes" Value.long?
  let files ← Doc.read obj "files" Value.int?
  let credits ← Doc.read obj "credits" Value.long?
  some { uid, kBytes, files, credits }

variable (oids : ObjectIds ω) (zone : Zone) (toTimeT : Int → Option Int)

def nukeFields (oid : ω) (modTime : Int) (nuke : Nuke) : Doc ω := [
  ("_id", .oid oid),
  ("path", .string nuke.path),
  ("section", .string nuke.sec),
  ("reason", .string nuke.reason),
  ("nukerUID", .int nuke.nukerUID),
  ("multiplier", .int nuke.multiplier),
  ("percent", .bool nuke.isPercent),
  ("modtime", .date modTime),
  ("nukees", serializeContainer serializeNukee nuke.nukees)]

/-- `Serialize` of a nuke. -/
def serializeNuke (nuke : Nuke) : Option (Doc ω) := do
  let oid ← oids.ofString nuke.id
  let millis ← timesThousand nuke.modTime
  let modTime ← toDateTOfTimeT millis
  some (nukeFields oid modTime nuke)

/-- `Unserialize` of a nuke; `toTimeT` is that of `mongo::Date_t`. -/
def unserializeNuke (obj : Doc ω) : Option Nuke := do
  let nukees ← obj.read "nukees" (unserializeVector unserializeNukee)
  let oid ← obj.read "_id" Value.oid?
  let path ← obj.read "path" Value.string?
  let sec ← obj.read "section" Value.string?
  let reason ← obj.read "reason" Value.string?
  let nukerUID ← obj.read "nukerUID" Value.int?
  let multiplier ← obj.read "multiplier" Value.int?
  let isPercent ← obj.read "percent" Value.bool?
  let modTime ← (obj.read "modtime" Value.date?).bind toTimeT
  let dateTime ← toPosixTime zone (oids.asDateT oid)
  some {
    id := oids.toString oid, path, sec, reason, nukerUID, multiplier, isPercent, modTime, dateTime,
    nukees }

variable {oids zone toTimeT}

theorem unserializeNukee_serializeNukee (nukee : Nukee) :
    unserializeNukee (serializeNukee (ω := ω) nukee) = some nukee := by
  simp [unserializeNukee, serializeNukee, Doc.read_cons]

theorem toPosixTime_asDateT (oid : ω) :
    ∃ dateTime, toPosixTime zone (oids.asDateT oid) = some dateTime := by
  obtain ⟨created, h⟩ : ∃ created, toGregDate zone (oids.asDateT oid) = some created :=
    toGregDate_asDateT oid
  obtain ⟨dateTime, h, -⟩ := Option.map_eq_some_iff.mp h
  exact ⟨dateTime, h⟩

/-- What is read back of the fields, given what the modification time is read as. -/
theorem unserializeNuke_nukeFields (oid : ω) (modTime : Int) {nuke : Nuke}
    (hid : nuke.id = oids.toString oid) :
    ∃ dateTime, unserializeNuke oids zone toTimeT (nukeFields oid modTime nuke) =
      (toTimeT modTime).map fun t => { nuke with modTime := t, dateTime := dateTime } := by
  obtain ⟨dateTime, hdateTime⟩ : ∃ dateTime, toPosixTime zone (oids.asDateT oid) = some dateTime :=
    toPosixTime_asDateT oid
  have hnukees := unserializeVector_serializeContainer (unserializeNukee_serializeNukee (ω := ω)) nuke.nukees
  refine ⟨dateTime, ?_⟩
  cases h : toTimeT modTime with
  | none => simp [unserializeNuke, nukeFields, Doc.read_cons, hnukees, h]
  | some t => simp [unserializeNuke, nukeFields, Doc.read_cons, hnukees, h, hdateTime, hid]

/-- What `mongo::Date_t` makes of milliseconds that are whole seconds. -/
structure Seconds (toTimeT : Int → Option Int) : Prop where
  whole : ∀ s t, toTimeT (s * 1000) = some t → t = s
  positive : ∀ s, 0 ≤ s → toTimeT (s * 1000) = some s

/-- Beside its modification time, every nuke that is read back is as it was written. -/
theorem unserializeNuke_serializeNuke (hsec : Seconds toTimeT) {nuke : Nuke} {oid : ω}
    (hid : nuke.id = oids.toString oid) {nuke' : Nuke}
    (h : (serializeNuke oids nuke).bind (unserializeNuke oids zone toTimeT) = some nuke') :
    { nuke with modTime := nuke.modTime * 1000, dateTime := nuke'.dateTime } = nuke' := by
  obtain ⟨doc, hdoc, hread⟩ := Option.bind_eq_some_iff.mp h
  simp only [serializeNuke, hid, oids.ofString_toString, Option.bind_eq_bind, Option.bind_some,
    Option.bind_eq_some_iff, Option.some.injEq] at hdoc
  obtain ⟨millis, hmillis, modTime, hmodTime, rfl⟩ := hdoc
  have hstored : modTime = nuke.modTime * 1000 * 1000 := by
    rw [toDateTOfTimeT] at hmodTime
    rw [timesThousand_eq hmodTime, timesThousand_eq hmillis]
  obtain ⟨dateTime, hnuke⟩ : ∃ dateTime, unserializeNuke oids zone toTimeT (nukeFields oid modTime nuke) =
      (toTimeT modTime).map fun t => { nuke with modTime := t, dateTime := dateTime } :=
    unserializeNuke_nukeFields oid modTime hid
  rw [hnuke, hstored] at hread
  obtain ⟨t, ht, rfl⟩ := Option.map_eq_some_iff.mp hread
  rw [hsec.whole _ _ ht]

/-- A nuke is read back as it was written, but for a modification time a thousand times as large;
so it is the same if and only if that is zero. -/
theorem nuke_roundtrip_iff (oids : ObjectIds ω) (zone : Zone) (toTimeT : Int → Option Int)
    (hsec : Seconds toTimeT) (nuke : Nuke) {oid : ω} (hid : nuke.id = oids.toString oid) :
    (∀ nuke', (serializeNuke oids nuke).bind (unserializeNuke oids zone toTimeT) = some nuke' →
      { nuke with modTime := nuke.modTime * 1000, dateTime := nuke'.dateTime } = nuke') ∧
    ((∃ nuke', (serializeNuke oids nuke).bind (unserializeNuke oids zone toTimeT) = some nuke' ∧
      { nuke' with dateTime := nuke.dateTime } = nuke) ↔ nuke.modTime = 0) := by
  refine ⟨fun nuke' => unserializeNuke_serializeNuke hsec hid, ?_⟩
  constructor
  · rintro ⟨nuke', h, hsame⟩
    have hread := congrArg Nuke.modTime (unserializeNuke_serializeNuke hsec hid h)
    have hmod := congrArg Nuke.modTime hsame
    simp only at hread hmod
    omega
  · intro hzero
    have hdoc : serializeNuke oids nuke = some (nukeFields oid 0 nuke) := by
      simp [serializeNuke, hid, oids.ofString_toString, hzero, toDateTOfTimeT, timesThousand]
    have hzero' : toTimeT 0 = some 0 := hsec.positive 0 (Int.le_refl 0)
    obtain ⟨dateTime, hnuke⟩ : ∃ dateTime, unserializeNuke oids zone toTimeT (nukeFields oid 0 nuke) =
        (toTimeT 0).map fun t => { nuke with modTime := t, dateTime := dateTime } :=
      unserializeNuke_nukeFields oid 0 hid
    refine ⟨{ nuke with modTime := 0, dateTime := dateTime }, ?_, by rw [← hzero]⟩
    rw [hdoc, Option.bind_some, hnuke, hzero', Option.map_some]

/-- The conversion of milliseconds that are not negative. -/
def exampleTimeT (millis : Int) : Option Int := if millis < 0 then none else some (millis / 1000)

theorem exampleTimeT_seconds : Seconds exampleTimeT where
  whole s t h := by
    unfold exampleTimeT at h
    split at h
    · cases h
    · simp only [Option.some.injEq] at h
      omega
  positive s hs := by
    rw [exampleTimeT, if_neg (by omega), Int.mul_ediv_cancel _ (by decide)]

def exampleNuke (modTime : Int) : Nuke where
  id := hexIds.toString exampleId
  path := "/mp3/some.release".toList
  sec := "mp3".toList
  reason := "dupe".toList
  nukerUID := 3
  multiplier := 2
  isPercent := false
  modTime := modTime
  dateTime := 0
  nukees := [⟨7, 2048, 3, 6144⟩]

theorem nuke_roundtrip_zero :
    ∃ nuke', (serializeNuke hexIds (exampleNuke 0)).bind
        (unserializeNuke hexIds centralEurope exampleTimeT) = some nuke' ∧
      { nuke' with dateTime := (exampleNuke 0).dateTime } = exampleNuke 0 :=
  (nuke_roundtrip_iff hexIds centralEurope exampleTimeT exampleTimeT_seconds (exampleNuke 0) rfl).2.mpr rfl

/-- A directory of the first of July of 2013 is read back as one of the year 45468. -/
theorem nuke_thousandfold :
    ((serializeNuke hexIds (exampleNuke 1372658400)).bind
      (unserializeNuke hexIds centralEurope exampleTimeT)).map Nuke.modTime = some 1372658400000 := by
  decide

end Nuking
end Db
end Ebftpd
