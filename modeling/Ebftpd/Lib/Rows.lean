import Ebftpd.Lib.Table

/-!
# Ebftpd.Lib.Rows

Where the rows of a table come from. An operation leaves a row as it was, or it is the row the
operation was given, so what is to hold of all rows is shown of that one row.

* `mem_insert`, `mem_update`, `mem_remove`: the rows after an operation.
* `insert_forall`, `update_forall`, `remove_forall`: what holds of all rows goes on to.
* `update_const`: an update is the replacement of one row.
-/

namespace Ebftpd
namespace Lib
namespace Table

universe u v w

variable {ρ : Type u} {ι : Type v} {ν : Type w} {id : ρ → ι} {name : ρ → ν}

section Remove

variable [DecidableEq ι]

theorem mem_remove {t : Table id name} {i : ι} {r : ρ} :
    r ∈ (t.remove i).rows ↔ r ∈ t.rows ∧ id r ≠ i := by
  simp [remove]

theorem remove_forall {P : ρ → Prop} {t : Table id name} (h : ∀ r ∈ t.rows, P r) (i : ι) :
    ∀ r ∈ (t.remove i).rows, P r :=
  fun r hr => h r (mem_remove.mp hr).1

theorem byId_of_mem {t : Table id name} {r : ρ} (hr : r ∈ t.rows) : t.byId (id r) = some r :=
  byId_eq_some.mpr ⟨hr, rfl⟩

end Remove

section Names

variable [DecidableEq ν]

theorem byName_mem {t : Table id name} {n : ν} {r : ρ} (h : t.byName n = some r) :
    r ∈ t.rows ∧ name r = n :=
  ⟨List.mem_of_find?_eq_some h, by simpa using List.find?_some h⟩

theorem byName_of_mem {t : Table id name} {r : ρ} (hr : r ∈ t.rows) : t.byName (name r) = some r :=
  (find?_key_eq_some t.names).mpr ⟨hr, rfl⟩

end Names

variable [DecidableEq ι] [DecidableEq ν]

theorem mem_insert {t t' : Table id name} {r r' : ρ} (h : t.insert r = some t') :
    r' ∈ t'.rows ↔ r' ∈ t.rows ∨ r' = r := by
  rw [(insert_eq_some h).2.2, List.mem_append, List.mem_singleton]

theorem insert_forall {P : ρ → Prop} {t t' : Table id name} {r : ρ} (h : t.insert r = some t')
    (hall : ∀ r ∈ t.rows, P r) (hr : P r) : ∀ r ∈ t'.rows, P r := by
  intro r' hr'
  rcases (mem_insert h).mp hr' with hold | rfl
  · exact hall r' hold
  · exact hr

/-- An update changes the row with the id, and it is the one that a lookup finds. -/
theorem update_const {t : Table id name} {i : ι} {f : ρ → ρ} {r : ρ} (h : t.byId i = some r) :
    t.update i f = t.update i fun _ => f r := by
  have hrows : t.rows.map (changed id i f) = t.rows.map (changed id i fun _ => f r) := by
    refine List.map_congr_left fun r' hr' => ?_
    by_cases hid : id r' = i
    · have hsame : r' = r := Option.some.inj ((byId_eq_some.mpr ⟨hr', hid⟩).symm.trans h)
      rw [hsame]
      rfl
    · have hnot : ¬ (id r' = i ∧ id (f r) = i) := fun hand => hid hand.1
      rw [changed, changed, if_neg fun hand => hid hand.1, if_neg hnot]
  unfold update
  simp only [hrows]

/-- An update of an id that no row has. -/
theorem update_of_byId_none {t : Table id name} {i : ι} {f : ρ → ρ} (h : t.byId i = none) :
    t.update i f = some t := by
  have hrows : t.rows.map (changed id i f) = t.rows := by
    have hsame : ∀ r ∈ t.rows, changed id i f r = r := by
      intro r hr
      have hid : id r ≠ i := fun hid => byId_eq_none.mp h (hid ▸ List.mem_map_of_mem hr)
      rw [changed, if_neg fun hand => hid hand.1]
    rw [List.map_congr_left hsame, List.map_id']
  unfold update
  simp only [hrows, t.names, dite_true]

theorem mem_update {t t' : Table id name} {i : ι} {r' : ρ} {f : ρ → ρ} (h : t.update i f = some t')
    (hr' : r' ∈ t'.rows) : r' ∈ t.rows ∨ ∃ r ∈ t.rows, id r = i ∧ r' = f r := by
  unfold update at h
  split at h
  · cases h
    obtain ⟨r, hr, rfl⟩ := List.mem_map.mp hr'
    unfold changed
    split
    · rename_i hid
      exact .inr ⟨r, hr, hid.1, rfl⟩
    · exact .inl hr
  · cases h

theorem update_forall {P : ρ → Prop} {t t' : Table id name} {i : ι} {f : ρ → ρ}
    (h : t.update i f = some t') (hall : ∀ r ∈ t.rows, P r)
    (hf : ∀ r ∈ t.rows, id r = i → P r → P (f r)) : ∀ r ∈ t'.rows, P r := by
  intro r' hr'
  rcases mem_update h hr' with hold | ⟨r, hr, hid, rfl⟩
  · exact hall r' hold
  · exact hf r hr hid (hall r hr)

theorem byId_update_self {t t' : Table id name} {i : ι} {r r' : ρ}
    (h : t.update i (fun _ => r') = some t') (hr : t.byId i = some r) (hid : id r' = i) :
    t'.byId i = some r' := by
  rw [byId_update h, hr, Option.map_some, changed, if_pos ⟨byId_id hr, hid⟩]

/-- The replacement of a row that has the new name already is not refused. -/
theorem update_const_of_name {t : Table id name} {i : ι} {r r' : ρ} (hr : t.byId i = some r)
    (hname : name r' = name r) : ∃ t', t.update i (fun _ => r') = some t' := by
  have hnames : ((t.rows.map (changed id i fun _ => r')).map name) = t.rows.map name := by
    rw [List.map_map]
    refine List.map_congr_left fun x hx => ?_
    simp only [Function.comp_apply, changed]
    split
    · rename_i hid
      have hsame : x = r := Option.some.inj ((byId_eq_some.mpr ⟨hx, hid.1⟩).symm.trans hr)
      rw [hname, hsame]
    · rfl
  unfold update
  rw [dif_pos (by rw [hnames]; exact t.names)]
  exact ⟨_, rfl⟩

end Table
end Lib
end Ebftpd
