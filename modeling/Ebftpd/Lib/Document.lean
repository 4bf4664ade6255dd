import Mathlib.Data.List.Basic
import Mathlib.Tactic.Common

/-!
# Ebftpd.Lib.Document

Documents of named fields with values of several types, and access that fails where the field is
missing or its value is of another type. `ω` is the type of object ids.

A writer and a reader of one type of values fit together where `read (write x) = some x`; this
lifts to arrays (`mapM_map`) and, where no key occurs twice, to containers without order that are
filled from an array (`foldl_insertBy`).
-/

namespace Ebftpd
namespace Lib
namespace Document

universe u v

inductive Value (ω : Type u) where
  | null
  | bool (b : Bool)
  | int (n : Int)
  | long (n : Int)
  | string (s : List Char)
  | date (ms : Int)
  | oid (o : ω)
  | array (vs : List (Value ω))
  | object (fields : List (String × Value ω))

abbrev Doc (ω : Type u) := List (String × Value ω)

variable {ω : Type u}

namespace Value

def bool? : Value ω → Option Bool
  | .bool b => some b
  | _ => none

def int? : Value ω → Option Int
  | .int n => some n
  | _ => none

def long? : Value ω → Option Int
  | .long n => some n
  | _ => none

def string? : Value ω → Option (List Char)
  | .string s => some s
  | _ => none

def date? : Value ω → Option Int
  | .date ms => some ms
  | _ => none

def oid? : Value ω → Option ω
  | .oid o => some o
  | _ => none

def array? : Value ω → Option (List (Value ω))
  | .array vs => some vs
  | _ => none

def object? : Value ω → Option (Doc ω)
  | .object fields => some fields
  | _ => none

def isNull : Value ω → Bool
  | .null => true
  | _ => false

@[simp] theorem bool?_bool (b : Bool) : (bool b : Value ω).bool? = some b := rfl
@[simp] theorem int?_int (n : Int) : (int n : Value ω).int? = some n := rfl
@[simp] theorem long?_long (n : Int) : (long n : Value ω).long? = some n := rfl
@[simp] theorem string?_string (s : List Char) : (string s : Value ω).string? = some s := rfl
@[simp] theorem date?_date (ms : Int) : (date ms : Value ω).date? = some ms := rfl
@[simp] theorem oid?_oid (o : ω) : (oid o).oid? = some o := rfl
@[simp] theorem array?_array (vs : List (Value ω)) : (array vs).array? = some vs := rfl
@[simp] theorem object?_object (d : Doc ω) : (object d).object? = some d := rfl

end Value

namespace Doc

/-- A field as a reader of some type wants it. -/
def read {α : Type v} (d : Doc ω) (field : String) (as : Value ω → Option α) : Option α :=
  (d.lookup field).bind as

def without (d : Doc ω) (field : String) : Doc ω := d.filter (·.1 != field)

variable {α : Type v} {d : Doc ω} {field : String} {as : Value ω → Option α}

@[simp] theorem read_nil : read ([] : Doc ω) field as = none := rfl

theorem read_cons (key : String) (value : Value ω) :
    read ((key, value) :: d) field as = if field = key then as value else read d field as := by
  unfold read
  rw [List.lookup_cons]
  split <;> simp_all

theorem lookup_without : (d.without field).lookup field = none := by
  refine List.lookup_eq_none_iff.mpr fun p hp => ?_
  have := (List.mem_filter.mp hp).2
  simp only [bne_iff_ne] at this
  simpa using fun h => this h.symm

/-- A reader that goes on behind a field has found it. -/
theorem of_bind_read {β : Type v} {key : String} {f : α → Option β} {b : β}
    (h : (((d.without field).read key as) >>= f) = some b) : field ≠ key ∧ ∃ a, f a = some b := by
  obtain ⟨a, ha, hf⟩ := Option.bind_eq_some_iff.mp h
  refine ⟨?_, a, hf⟩
  rintro rfl
  rw [read, lookup_without, Option.bind_none] at ha
  cases ha

end Doc

variable {α : Type v}

theorem mapM_map {read : Value ω → Option α} {write : α → Value ω} (h : ∀ x, read (write x) = some x)
    (l : List α) : (l.map write).mapM read = some l := by
  induction l with
  | nil => rfl
  | cons x l ih => simp [List.mapM_cons, h, ih]

/-- `insert` of a container without order: an element whose key is there already is left out. -/
def insertBy {κ : Type v} [DecidableEq κ] (key : α → κ) (l : List α) (x : α) : List α :=
  if key x ∈ l.map key then l else l ++ [x]

theorem foldl_insertBy {κ : Type v} [DecidableEq κ] {key : α → κ} {l : List α}
    (h : (l.map key).Nodup) : l.foldl (insertBy key) [] = l := by
  have hacc : ∀ (l acc : List α), ((acc ++ l).map key).Nodup → l.foldl (insertBy key) acc = acc ++ l := by
    intro l
    induction l with
    | nil => simp
    | cons x l ih =>
      intro acc hnodup
      have hnew : key x ∉ acc.map key := by
        intro hmem
        rw [List.map_append, List.map_cons] at hnodup
        exact (List.nodup_append.mp hnodup).2.2 _ hmem _ List.mem_cons_self rfl
      rw [List.foldl_cons, insertBy, if_neg hnew, ih, List.append_assoc]
      · rfl
      · simpa using hnodup
  exact hacc l [] h

end Document
end Lib
end Ebftpd
