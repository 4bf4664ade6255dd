import Mathlib.Data.List.Nodup
import Mathlib.Tactic.Common

/-!
# Ebftpd.Lib.Table

A collection with two unique indexes: no two rows have the same id and no two have the same name.
`Table` carries both, so that a lookup by either key finds the row that has it.

* `insert`: refused when the id or the name is taken.
* `update`: changes the row of an id; refused when another row has the new name.
* `remove`: the row of an id is gone.
* `byName_eq_some`: a lookup by name is a lookup by id; what an operation does is said by `byId`.
-/

namespace Ebftpd
namespace Lib

universe u v w

structure Table {ρ : Type u} {ι : Type v} {ν : Type w} (id : ρ → ι) (name : ρ → ν) where
  rows : List ρ
  ids : (rows.map id).Nodup
  names : (rows.map name).Nodup

namespace Table

variable {ρ : Type u} {ι : Type v} {ν : Type w} {id : ρ → ι} {name : ρ → ν}

def byId [DecidableEq ι] (t : Table id name) (i : ι) : Option ρ := t.rows.find? fun r => id r = i

def byName [DecidableEq ν] (t : Table id name) (n : ν) : Option ρ :=
  t.rows.find? fun r => name r = n

section Lookup

variable [DecidableEq ι]

theorem byId_id {t : Table id name} {i : ι} {r : ρ} (h : t.byId i = some r) : id r = i := by
  simpa using List.find?_some h

theorem byId_mem {t : Table id name} {i : ι} {r : ρ} (h : t.byId i = some r) : r ∈ t.rows :=
  List.mem_of_find?_eq_some h

/-- With distinct keys, the first row with a key is the only one. -/
theorem find?_key_eq_some {κ : Type v} [DecidableEq κ] {key : ρ → κ} {rows : List ρ}
    (h : (rows.map key).Nodup) {k : κ} {r : ρ} :
    rows.find? (fun r => key r = k) = some r ↔ r ∈ rows ∧ key r = k := by
  constructor
  · intro hf
    exact ⟨List.mem_of_find?_eq_some hf, by simpa using List.find?_some hf⟩
  · rintro ⟨hmem, rfl⟩
    cases hf : rows.find? (fun x => key x = key r) with
    | none =>
      have := List.find?_eq_none.mp hf r hmem
      simp at this
    | some x =>
      have hkey : key x = key r := by simpa using List.find?_some hf
      rw [List.inj_on_of_nodup_map h (List.mem_of_find?_eq_some hf) hmem hkey]

theorem byId_eq_some {t : Table id name} {i : ι} {r : ρ} :
    t.byId i = some r ↔ r ∈ t.rows ∧ id r = i :=
  find?_key_eq_some t.ids

theorem byName_eq_some [DecidableEq ν] {t : Table id name} {n : ν} {r : ρ} :
    t.byName n = some r ↔ t.byId (id r) = some r ∧ name r = n := by
  rw [byId_eq_some]
  simp only [and_true]
  exact find?_key_eq_some t.names

theorem byId_eq_none {t : Table id name} {i : ι} : t.byId i = none ↔ i ∉ t.rows.map id := by
  simp only [byId, List.find?_eq_none, decide_eq_true_eq, List.mem_map, not_exists, not_and]

/-- The rows with an id are the one a lookup finds. -/
theorem filter_id (t : Table id name) (i : ι) :
    t.rows.filter (fun r => id r = i) = (t.byId i).toList := by
  have hids := t.ids
  unfold byId
  generalize t.rows = rows at hids
  induction rows with
  | nil => rfl
  | cons r rows ih =>
    rw [List.map_cons, List.nodup_cons] at hids
    by_cases hr : id r = i
    · have hrest : rows.filter (fun x => id x = i) = [] := by
        rw [List.filter_eq_nil_iff]
        intro x hx hxi
        exact hids.1 (List.mem_map.mpr ⟨x, hx, by simpa [hr] using hxi⟩)
      rw [List.filter_cons_of_pos (by simpa using hr), List.find?_cons_of_pos (by simpa using hr),
        hrest]
      rfl
    · rw [List.filter_cons_of_neg (by simpa using hr), List.find?_cons_of_neg (by simpa using hr)]
      exact ih hids.2

/-- Two rows with one name are one row. -/
theorem byId_name_inj {t : Table id name} {i j : ι} {r s : ρ} (hr : t.byId i = some r)
    (hs : t.byId j = some s) (h : name r = name s) : i = j := by
  have := List.inj_on_of_nodup_map t.names (byId_mem hr) (byId_mem hs) h
  subst this
  exact (byId_id hr).symm.trans (byId_id hs)

/-! ## Remove -/

def remove (t : Table id name) (i : ι) : Table id name where
  rows := t.rows.filter fun r => id r ≠ i
  ids := t.ids.sublist (List.Sublist.map _ List.filter_sublist)
  names := t.names.sublist (List.Sublist.map _ List.filter_sublist)

theorem byId_remove (t : Table id name) (i j : ι) :
    (t.remove i).byId j = if j = i then none else t.byId j := by
  simp only [byId, remove, List.find?_filter]
  by_cases hj : j = i
  · subst hj
    rw [if_pos rfl, List.find?_eq_none]
    intro r _
    simp
  · rw [if_neg hj]
    congr 1
    funext r
    by_cases hr : id r = j
    · simp [hr, hj]
    · simp [hr]

/-- The row of `i` replaced by `f` of it, with its id kept. -/
def changed (id : ρ → ι) (i : ι) (f : ρ → ρ) (r : ρ) : ρ := if id r = i ∧ id (f r) = i then f r else r

theorem changed_id (i : ι) (f : ρ → ρ) (r : ρ) : id (changed id i f r) = id r := by
  unfold changed
  split
  · rename_i h
    exact h.2.trans h.1.symm
  · rfl

end Lookup

/-! ## Insert -/

theorem nodup_map_concat {κ : Type v} {key : ρ → κ} {rows : List ρ} (h : (rows.map key).Nodup) {r : ρ}
    (hr : key r ∉ rows.map key) : ((rows ++ [r]).map key).Nodup := by
  rw [List.map_append]
  refine List.nodup_append.mpr ⟨h, by simp, ?_⟩
  rintro a ha b hb rfl
  rw [List.map_singleton, List.mem_singleton] at hb
  exact hr (hb ▸ ha)

variable [DecidableEq ι] [DecidableEq ν]

def insert (t : Table id name) (r : ρ) : Option (Table id name) :=
  if h : id r ∉ t.rows.map id ∧ name r ∉ t.rows.map name then
    some
      { rows := t.rows ++ [r]
        ids := nodup_map_concat t.ids h.1
        names := nodup_map_concat t.names h.2 }
  else none

theorem insert_eq_some {t t' : Table id name} {r : ρ} (h : t.insert r = some t') :
    id r ∉ t.rows.map id ∧ name r ∉ t.rows.map name ∧ t'.rows = t.rows ++ [r] := by
  unfold insert at h
  split at h
  · rename_i hnew
    cases h
    exact ⟨hnew.1, hnew.2, rfl⟩
  · cases h

theorem insert_eq_none {t : Table id name} {r : ρ} (h : t.insert r = none) :
    id r ∈ t.rows.map id ∨ name r ∈ t.rows.map name := by
  unfold insert at h
  split at h
  · cases h
  · rename_i hold
    rw [not_and_or, not_not, not_not] at hold
    exact hold

theorem byId_insert {t t' : Table id name} {r : ρ} (h : t.insert r = some t') (i : ι) :
    t'.byId i = if i = id r then some r else t.byId i := by
  obtain ⟨hid, -, hrows⟩ := insert_eq_some h
  unfold byId
  rw [hrows, List.find?_append, List.find?_singleton]
  by_cases hi : i = id r
  · subst hi
    have : t.rows.find? (fun x => id x = id r) = none := byId_eq_none.mpr hid
    simp [this]
  · simp [hi, Ne.symm hi]

/-! ## Update -/

def update (t : Table id name) (i : ι) (f : ρ → ρ) : Option (Table id name) :=
  if h : ((t.rows.map (changed id i f)).map name).Nodup then
    some
      { rows := t.rows.map (changed id i f)
        ids := by
          have hid : id ∘ changed id i f = id := funext (changed_id i f)
          rw [List.map_map, hid]
          exact t.ids
        names := h }
  else none

theorem update_ids {t t' : Table id name} {i : ι} {f : ρ → ρ} (h : t.update i f = some t') :
    t'.rows.map id = t.rows.map id := by
  unfold update at h
  split at h
  · cases h
    have hid : id ∘ changed id i f = id := funext (changed_id i f)
    rw [List.map_map, hid]
  · cases h

theorem byId_update {t t' : Table id name} {i : ι} {f : ρ → ρ} (h : t.update i f = some t') (j : ι) :
    t'.byId j = (t.byId j).map (changed id i f) := by
  unfold update at h
  split at h
  · cases h
    simp only [byId, List.find?_map]
    congr 2
    funext r
    simp [changed_id]
  · cases h

/-- An update that keeps the names is not refused. -/
theorem update_of_name (t : Table id name) (i : ι) {f : ρ → ρ} (h : ∀ r, name (f r) = name r) :
    ∃ t', t.update i f = some t' ∧ t'.rows = t.rows.map (changed id i f) := by
  have hname : name ∘ changed id i f = name := by
    funext r
    simp only [Function.comp_apply, changed]
    split
    · exact h r
    · rfl
  have hnodup : ((t.rows.map (changed id i f)).map name).Nodup := by
    rw [List.map_map, hname]
    exact t.names
  unfold update
  rw [dif_pos hnodup]
  exact ⟨_, rfl, rfl⟩

/-- Where an update keeps the id it is given, the row of another id stays. -/
theorem byId_update_ne {t t' : Table id name} {i j : ι} {f : ρ → ρ} (h : t.update i f = some t')
    (hj : j ≠ i) : t'.byId j = t.byId j := by
  rw [byId_update h]
  cases hr : t.byId j with
  | none => rfl
  | some r =>
    have := byId_id hr
    simp [changed, this, hj]

end Table
end Lib
end Ebftpd
