import Ebftpd.Lib.Table
import Mathlib.Data.List.AList

/-!
# Ebftpd.Lib.Replica

A cache of a table, kept by replaying a log that says which rows have changed but not how. It holds
the names by id, the ids by name, and any number of columns by id. An entry is applied by reading
the row as it is by then: a row that is there refreshes what the cache has for its id, one that is
not makes the cache forget it.

Entries are applied in the order of the log and any time after the write. `Follows t p u c` is the
relation between a table and its cache, where `p` are the ids whose entries are in the log and not
yet applied, in their order, and `u` the ids of writes that are not logged yet.

* `Follows.write`, `Follows.append`, `Follows.replicate`, `follows_populate`: what writers, the log
  and the replica do keeps it. A name that passes from one row to another is the delicate case: the
  entry of the row that gave it up must come first (`Before`).
* `Sound`: the ids by name hold nothing else. It is kept only by writes that leave the name of a
  cached row alone.
* `ids_eq_byName`: with nothing left to apply, a lookup by name in a sound cache is one in the table.
-/

namespace Ebftpd
namespace Lib
namespace Replica

universe u v w x

abbrev Map (κ : Type v) (β : Type w) := AList fun _ : κ => β

section Maps

variable {κ : Type v} {β : Type w} {ρ : Type u} [DecidableEq κ]

/-- The map of a column of distinct keys. -/
theorem lookup_foldl_insert (key : ρ → κ) (val : ρ → β) {rows : List ρ} (h : (rows.map key).Nodup)
    (m : Map κ β) (k : κ) :
    (rows.foldl (fun m r => m.insert (key r) (val r)) m).lookup k =
      ((rows.find? fun r => key r = k).map val).or (m.lookup k) := by
  induction rows generalizing m with
  | nil => simp
  | cons r rows ih =>
    rw [List.map_cons, List.nodup_cons] at h
    rw [List.foldl_cons, ih h.2]
    by_cases hk : key r = k
    · subst hk
      have hnone : rows.find? (fun x => key x = key r) = none := by
        rw [List.find?_eq_none]
        intro x hx hkey
        exact h.1 (List.mem_map.mpr ⟨x, hx, by simpa using hkey⟩)
      simp [hnone, AList.lookup_insert]
    · rw [AList.lookup_insert_ne (Ne.symm hk), List.find?_cons_of_neg (by simpa using hk)]

end Maps

variable {ρ : Type u} {ι : Type v} {ν : Type w} {id : ρ → ι} {name : ρ → ν}

structure NameCache (ι : Type v) (ν : Type w) where
  names : Map ι ν := ∅
  ids : Map ν ι := ∅

/-- `i` is applied before the entry of `j`, or neither is logged yet. -/
def Before (p u : List ι) (i j : ι) : Prop :=
  (∃ p₁ p₂, p = p₁ ++ i :: p₂ ∧ j ∈ p₂ ++ u) ∨ (i ∈ u ∧ j ∈ u)

namespace Before

variable {p u u' : List ι} {i j k : ι}

theorem mono (hu : u ⊆ u') (h : Before p u i j) : Before p u' i j := by
  rcases h with ⟨p₁, p₂, hp, hj⟩ | ⟨hi, hj⟩
  · refine .inl ⟨p₁, p₂, hp, ?_⟩
    rw [List.mem_append] at hj ⊢
    exact hj.imp_right fun h => hu h
  · exact .inr ⟨hu hi, hu hj⟩

theorem of_mem (hi : i ∈ p ∨ i ∈ u) (hj : j ∈ u) : Before p u i j := by
  rcases hi with hi | hi
  · obtain ⟨p₁, p₂, hp⟩ := List.append_of_mem hi
    exact .inl ⟨p₁, p₂, hp, List.mem_append_right _ hj⟩
  · exact .inr ⟨hi, hj⟩

/-- The head of the log is applied, and it is another id. -/
theorem tail (h : Before (k :: p) u i j) (hk : i ≠ k) : Before p u i j := by
  rcases h with ⟨p₁, p₂, hp, hj⟩ | h
  · cases p₁ with
    | nil =>
      rw [List.nil_append, List.cons.injEq] at hp
      exact absurd hp.1.symm hk
    | cons x p₁ =>
      rw [List.cons_append, List.cons.injEq] at hp
      exact .inl ⟨p₁, p₂, hp.2, hj⟩
  · exact .inr h

/-- When the entry of `i` itself is applied, the one of `j` is still to come. -/
theorem pending (h : Before (i :: p) u i j) : j ∈ p ∨ j ∈ u := by
  rcases h with ⟨p₁, p₂, hp, hj⟩ | ⟨-, hj⟩
  · have hsub : p₂ ⊆ p := by
      cases p₁ with
      | nil =>
        rw [List.nil_append, List.cons.injEq] at hp
        rw [hp.2]
        exact List.Subset.refl p₂
      | cons x p₁ =>
        rw [List.cons_append, List.cons.injEq] at hp
        rw [hp.2]
        exact fun y hy => List.mem_append_right _ (List.mem_cons_of_mem _ hy)
    rw [List.mem_append] at hj
    exact hj.imp_left fun h => hsub h
  · exact .inr hj

theorem append [DecidableEq ι] (hk : k = j → i ∉ u) (h : Before p u i j) :
    Before (p ++ [k]) (u.erase k) i j := by
  have hmem : ∀ {x : ι}, x ∈ u → x ≠ k → x ∈ u.erase k :=
    fun hx hxk => (List.mem_erase_of_ne hxk).mpr hx
  rcases h with ⟨p₁, p₂, hp, hj⟩ | ⟨hi, hj⟩
  · refine .inl ⟨p₁, p₂ ++ [k], by rw [hp, List.append_assoc, List.cons_append], ?_⟩
    rw [List.mem_append] at hj
    rw [List.append_assoc, List.mem_append, List.mem_append, List.mem_singleton]
    by_cases hjk : j = k
    · exact .inr (.inl hjk)
    · exact hj.imp_right fun h => .inr (hmem h hjk)
  · have hjk : j ≠ k := fun h => hk h.symm hi
    by_cases hik : i = k
    · subst hik
      exact .inl ⟨p, [], rfl, by simpa using hmem hj hjk⟩
    · exact .inr ⟨hmem hi hik, hmem hj hjk⟩

end Before

/-! ## Columns -/

variable [DecidableEq ι]

/-- A column of the table by id, under the same replay. -/
def replicateColumn {β : Type x} (m : Map ι β) (t : Table id name) (g : ρ → β) (i : ι) : Map ι β :=
  match t.byId i with
  | some r => m.insert i (g r)
  | none => m.erase i

theorem lookup_replicateColumn {β : Type x} (m : Map ι β) (t : Table id name) (g : ρ → β) (i j : ι) :
    (replicateColumn m t g i).lookup j = if j = i then (t.byId i).map g else m.lookup j := by
  unfold replicateColumn
  by_cases hji : j = i
  · subst hji
    cases t.byId j with
    | none => simp
    | some r => simp [AList.lookup_insert]
  · cases t.byId i with
    | none => simp [AList.lookup_erase_ne hji, hji]
    | some r => simp [AList.lookup_insert_ne hji, hji]

def FollowsColumn {β : Type x} (t : Table id name) (p u : List ι) (m : Map ι β) (g : ρ → β) : Prop :=
  ∀ i, i ∉ p → i ∉ u → m.lookup i = (t.byId i).map g

/-- A write to the row of `i` and to no other. -/
def WrittenAt (t t' : Table id name) (i : ι) : Prop := ∀ j, j ≠ i → t'.byId j = t.byId j

namespace FollowsColumn

variable {β : Type x} {t t' : Table id name} {p u : List ι} {m : Map ι β} {g : ρ → β} {i : ι}

theorem mono {u' : List ι} (hu : u ⊆ u') (h : FollowsColumn t p u m g) : FollowsColumn t p u' m g :=
  fun j hp hj => h j hp fun hmem => hj (hu hmem)

theorem write (hw : WrittenAt t t' i) (h : FollowsColumn t p u m g) :
    FollowsColumn t' p (i :: u) m g := by
  intro j hp hj
  rw [List.mem_cons, not_or] at hj
  rw [hw j hj.1]
  exact h j hp hj.2

theorem append (h : FollowsColumn t p u m g) : FollowsColumn t (p ++ [i]) (u.erase i) m g := by
  intro j hp hj
  rw [List.mem_append, List.mem_singleton, not_or] at hp
  refine h j hp.1 fun hmem => hj ?_
  exact (List.mem_erase_of_ne hp.2).mpr hmem

theorem replicate (h : FollowsColumn t (i :: p) u m g) :
    FollowsColumn t p u (replicateColumn m t g i) g := by
  intro j hp hj
  rw [lookup_replicateColumn]
  split
  · rename_i hji
    rw [hji]
  · rename_i hji
    exact h j (by simp [hji, hp]) hj

end FollowsColumn

theorem followsColumn_populate {β : Type x} (t : Table id name) (g : ρ → β) :
    FollowsColumn t [] [] (t.rows.foldl (fun m r => m.insert (id r) (g r)) ∅) g := by
  intro i _ _
  rw [lookup_foldl_insert id g t.ids]
  simp [Table.byId]

/-! ## Names and ids -/

variable [DecidableEq ν]

namespace NameCache

def refresh (c : NameCache ι ν) (i : ι) (n : ν) : NameCache ι ν where
  names := c.names.insert i n
  ids := c.ids.insert n i

def forget (c : NameCache ι ν) (i : ι) : NameCache ι ν :=
  match c.names.lookup i with
  | some n => { names := c.names.erase i, ids := c.ids.erase n }
  | none => c

def replicate (c : NameCache ι ν) (t : Table id name) (i : ι) : NameCache ι ν :=
  match t.byId i with
  | some r => c.refresh i (name r)
  | none => c.forget i

def populate (t : Table id name) : NameCache ι ν :=
  t.rows.foldl (fun c r => c.refresh (id r) (name r)) {}

theorem foldl_refresh (rows : List ρ) (c : NameCache ι ν) :
    rows.foldl (fun c r => c.refresh (id r) (name r)) c =
      { names := rows.foldl (fun m r => m.insert (id r) (name r)) c.names
        ids := rows.foldl (fun m r => m.insert (name r) (id r)) c.ids } := by
  induction rows generalizing c with
  | nil => rfl
  | cons r rows ih => exact ih (c.refresh (id r) (name r))

theorem replicate_names (c : NameCache ι ν) (t : Table id name) (i j : ι) :
    (c.replicate t i).names.lookup j = if j = i then (t.byId i).map name else c.names.lookup j := by
  rw [← lookup_replicateColumn]
  unfold replicate replicateColumn
  cases t.byId i with
  | some r => rfl
  | none =>
    simp only [forget]
    cases hname : c.names.lookup i with
    | some n => rfl
    | none =>
      by_cases hji : j = i
      · rw [hji, AList.lookup_erase, hname]
      · rw [AList.lookup_erase_ne hji]

theorem populate_names (t : Table id name) (i : ι) :
    (populate t).names.lookup i = (t.byId i).map name := by
  rw [populate, foldl_refresh, lookup_foldl_insert id name t.ids]
  simp [Table.byId]

theorem populate_ids (t : Table id name) (n : ν) :
    (populate t).ids.lookup n = (t.byName n).map id := by
  rw [populate, foldl_refresh, lookup_foldl_insert name id t.names]
  simp [Table.byName]

end NameCache

structure Follows (t : Table id name) (p u : List ι) (c : NameCache ι ν) : Prop where
  names : FollowsColumn t p u c.names name
  ids : ∀ i r, i ∉ p → i ∉ u → t.byId i = some r → c.ids.lookup (name r) = some i
  order : ∀ i j r, t.byId j = some r → c.names.lookup i = some (name r) → i ≠ j → Before p u i j

namespace Follows

variable {t t' : Table id name} {p u : List ι} {c : NameCache ι ν} {i : ι}

theorem mono {u' : List ι} (hu : u ⊆ u') (h : Follows t p u c) : Follows t p u' c where
  names := h.names.mono hu
  ids := fun j r hp hj => h.ids j r hp fun hmem => hj (hu hmem)
  order := fun a b r hb ha hab => (h.order a b r hb ha hab).mono hu

/-- A row written over or added or removed. Where it takes a name the cache has for another row,
that row has given the name up, so its own entry is on the way. -/
theorem write (hw : WrittenAt t t' i) (h : Follows t p u c) : Follows t' p (i :: u) c where
  names := h.names.write hw
  ids := by
    intro j r hp hj hr
    rw [List.mem_cons, not_or] at hj
    rw [hw j hj.1] at hr
    exact h.ids j r hp hj.2 hr
  order := by
    intro a b r hb ha hab
    by_cases hbi : b = i
    · subst hbi
      have hgave : a ∈ p ∨ a ∈ b :: u := by
        by_contra hno
        rw [not_or, List.mem_cons, not_or] at hno
        have hname := h.names a hno.1 hno.2.2
        rw [ha, ← hw a hno.2.1] at hname
        obtain ⟨r', hr', hsame⟩ := Option.map_eq_some_iff.mp hname.symm
        exact hab (Table.byId_name_inj hr' hb hsame)
      exact Before.of_mem hgave (by simp)
    · rw [hw b hbi] at hb
      exact (h.order a b r hb ha hab).mono (List.subset_cons_self i u)

/-- An entry is logged. The rows the cache knows by the name of the row must have been logged. -/
theorem append (h : Follows t p u c)
    (hfirst : ∀ r, t.byId i = some r → ∀ a, a ≠ i → c.names.lookup a = some (name r) → a ∉ u) :
    Follows t (p ++ [i]) (u.erase i) c where
  names := h.names.append
  ids := by
    intro j r hp hj hr
    rw [List.mem_append, List.mem_singleton, not_or] at hp
    refine h.ids j r hp.1 (fun hmem => hj ?_) hr
    exact (List.mem_erase_of_ne hp.2).mpr hmem
  order := by
    intro a b r hb ha hab
    refine (h.order a b r hb ha hab).append ?_
    rintro rfl
    exact hfirst r hb a hab ha

theorem replicate (h : Follows t (i :: p) u c) : Follows t p u (c.replicate t i) := by
  have hcolumn := h.names.replicate
  unfold NameCache.replicate
  cases hr : t.byId i with
  | some r =>
    simp only [replicateColumn, hr] at hcolumn
    refine ⟨hcolumn, ?_, ?_⟩
    · intro j r' hp hj hr'
      by_cases hji : j = i
      · subst hji
        rw [hr] at hr'
        cases hr'
        exact AList.lookup_insert _
      · have hne : name r' ≠ name r := fun hsame => hji (Table.byId_name_inj hr' hr hsame)
        simp only [NameCache.refresh]
        rw [AList.lookup_insert_ne hne]
        exact h.ids j r' (by simp [hji, hp]) hj hr'
    · intro a b r' hb ha hab
      simp only [NameCache.refresh] at ha
      by_cases hai : a = i
      · subst hai
        rw [AList.lookup_insert, Option.some.injEq] at ha
        exact absurd (Table.byId_name_inj hr hb ha) hab
      · rw [AList.lookup_insert_ne hai] at ha
        exact (h.order a b r' hb ha hab).tail hai
  | none =>
    simp only [replicateColumn, hr] at hcolumn
    unfold NameCache.forget
    cases hn : c.names.lookup i with
    | none =>
      refine ⟨?_, ?_, ?_⟩
      · intro j hp hj
        rw [← hcolumn j hp hj]
        by_cases hji : j = i
        · rw [hji, hn, AList.lookup_erase]
        · rw [AList.lookup_erase_ne hji]
      · intro j r' hp hj hr'
        have hji : j ≠ i := by
          rintro rfl
          rw [hr] at hr'
          cases hr'
        exact h.ids j r' (by simp [hji, hp]) hj hr'
      · intro a b r' hb ha hab
        have hai : a ≠ i := by
          rintro rfl
          rw [hn] at ha
          cases ha
        exact (h.order a b r' hb ha hab).tail hai
    | some n =>
      refine ⟨hcolumn, ?_, ?_⟩
      · intro j r' hp hj hr'
        have hji : j ≠ i := by
          rintro rfl
          rw [hr] at hr'
          cases hr'
        -- a row that has the name by now has its entry still to come
        have hne : name r' ≠ n := by
          rintro rfl
          rcases (h.order i j r' hr' hn (Ne.symm hji)).pending with hmem | hmem
          · exact hp hmem
          · exact hj hmem
        simp only
        rw [AList.lookup_erase_ne hne]
        exact h.ids j r' (by simp [hji, hp]) hj hr'
      · intro a b r' hb ha hab
        have hai : a ≠ i := by
          rintro rfl
          rw [AList.lookup_erase] at ha
          cases ha
        rw [AList.lookup_erase_ne hai] at ha
        exact (h.order a b r' hb ha hab).tail hai

end Follows

theorem follows_populate (t : Table id name) : Follows t [] [] (NameCache.populate t) where
  names := fun i _ _ => NameCache.populate_names t i
  ids := by
    intro i r _ _ hr
    have hname : t.byName (name r) = some r :=
      Table.byName_eq_some.mpr ⟨by rw [Table.byId_id hr]; exact hr, rfl⟩
    rw [NameCache.populate_ids, hname]
    simp [Table.byId_id hr]
  order := by
    intro i j r hj hi hne
    rw [NameCache.populate_names] at hi
    obtain ⟨r', hr', hsame⟩ := Option.map_eq_some_iff.mp hi
    exact absurd (Table.byId_name_inj hr' hj hsame) hne

/-! ## Nothing else under a name -/

structure Sound (t : Table id name) (c : NameCache ι ν) : Prop where
  back : ∀ n i, c.ids.lookup n = some i → c.names.lookup i = some n
  kept : ∀ i n r, c.names.lookup i = some n → t.byId i = some r → name r = n

namespace Sound

variable {t t' : Table id name} {c : NameCache ι ν} {i : ι}

theorem write (hw : WrittenAt t t' i)
    (hname : ∀ r, t'.byId i = some r → ∀ n, c.names.lookup i = some n → name r = n)
    (h : Sound t c) : Sound t' c where
  back := h.back
  kept := by
    intro j n r hn hr
    by_cases hji : j = i
    · subst hji
      exact hname r hr n hn
    · rw [hw j hji] at hr
      exact h.kept j n r hn hr

theorem replicate (h : Sound t c) : Sound t (c.replicate t i) := by
  unfold NameCache.replicate
  cases hr : t.byId i with
  | some r =>
    refine ⟨?_, ?_⟩
    · intro m k hk
      simp only [NameCache.refresh] at hk ⊢
      by_cases hm : m = name r
      · subst hm
        rw [AList.lookup_insert, Option.some.injEq] at hk
        rw [← hk]
        exact AList.lookup_insert _
      · rw [AList.lookup_insert_ne hm] at hk
        have hki : k ≠ i := by
          rintro rfl
          exact hm (h.kept k m r (h.back m k hk) hr).symm
        rw [AList.lookup_insert_ne hki]
        exact h.back m k hk
    · intro j n r' hn hr'
      simp only [NameCache.refresh] at hn
      by_cases hji : j = i
      · subst hji
        rw [hr] at hr'
        cases hr'
        rw [AList.lookup_insert, Option.some.injEq] at hn
        exact hn
      · rw [AList.lookup_insert_ne hji] at hn
        exact h.kept j n r' hn hr'
  | none =>
    unfold NameCache.forget
    cases hn : c.names.lookup i with
    | none => exact h
    | some n =>
      refine ⟨?_, ?_⟩
      · intro m k hk
        have hm : m ≠ n := by
          rintro rfl
          rw [AList.lookup_erase] at hk
          cases hk
        rw [AList.lookup_erase_ne hm] at hk
        have hki : k ≠ i := by
          rintro rfl
          rw [h.back m k hk, Option.some.injEq] at hn
          exact hm hn
        simp only
        rw [AList.lookup_erase_ne hki]
        exact h.back m k hk
      · intro j m r' hm hr'
        have hji : j ≠ i := by
          rintro rfl
          rw [hr] at hr'
          cases hr'
        rw [AList.lookup_erase_ne hji] at hm
        exact h.kept j m r' hm hr'

end Sound

theorem sound_populate (t : Table id name) : Sound t (NameCache.populate t) where
  back := by
    intro n i hi
    rw [NameCache.populate_ids] at hi
    obtain ⟨r, hr, rfl⟩ := Option.map_eq_some_iff.mp hi
    obtain ⟨hid, rfl⟩ := Table.byName_eq_some.mp hr
    rw [NameCache.populate_names, hid]
    rfl
  kept := by
    intro i n r hn hr
    rw [NameCache.populate_names, hr] at hn
    simpa using hn

theorem ids_eq_byName {t : Table id name} {c : NameCache ι ν} (hf : Follows t [] [] c)
    (hs : Sound t c) (n : ν) : c.ids.lookup n = (t.byName n).map id := by
  apply Option.ext
  intro i
  rw [Option.map_eq_some_iff]
  constructor
  · intro hi
    have hname := hs.back n i hi
    rw [hf.names i (by simp) (by simp)] at hname
    obtain ⟨r, hr, rfl⟩ := Option.map_eq_some_iff.mp hname
    have hid := Table.byId_id hr
    exact ⟨r, Table.byName_eq_some.mpr ⟨by rw [hid]; exact hr, rfl⟩, hid⟩
  · rintro ⟨r, hr, rfl⟩
    obtain ⟨hid, rfl⟩ := Table.byName_eq_some.mp hr
    exact hf.ids (id r) r (by simp) (by simp) hid

end Replica
end Lib
end Ebftpd
