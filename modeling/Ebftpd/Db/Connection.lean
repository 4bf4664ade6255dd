import Ebftpd.Lib.Parties
import Ebftpd.Lib.Run
import Ebftpd.Lib.Table
import Ebftpd.Util.String

/-!
# Ebftpd.Db.Connection

`Connection::InsertAutoIncrement` (`src/db/connection.cpp`), which users and groups are created by.
A call loops over three steps of the database: it reads the largest id plus one, inserts the object
under that id, and on a duplicate key looks the id up. A document with the id sends it round again;
none means that the name is the duplicate, and the call returns -1.

A `Collection` carries the unique indexes on the id and the name. Any number of calls run at once;
the input of a step is the call that moves.

* `step_inv`: the ids given out since the start are the ones right above the largest, without a gap.
* `step_measure`: each step of a call brings it nearer its return, and no other call sets it back.
* `insertAutoIncrement_correct`: what all calls together did, over every interleaving.
-/

namespace Ebftpd
namespace Db
namespace AutoIncrement

open Util Lib Lib.Parties

def intMin : Int := -2 ^ 31

def intMax : Int := 2 ^ 31 - 1

/-- `static_cast<int>` of the number one above an `int`. -/
def wrap32 (z : Int) : Int := (z + 2 ^ 31) % 2 ^ 32 - 2 ^ 31

structure Doc (δ : Type) where
  id : Int
  name : Str
  fields : δ
  deriving DecidableEq

variable {δ : Type}

/-- The id of a document is an `int`. -/
structure Collection (δ : Type) extends Table (Doc.id (δ := δ)) Doc.name where
  isInt : ∀ d ∈ rows, intMin ≤ d.id ∧ d.id ≤ intMax

/-- One above the largest id. -/
def nextId (rows : List (Doc δ)) : Int :=
  match (rows.map Doc.id).max? with
  | some m => m + 1
  | none => 0

def nextAutoIncrement (rows : List (Doc δ)) : Int := wrap32 (nextId rows)

/-- The object a call is to insert. -/
structure Obj (δ : Type) where
  name : Str
  fields : δ

inductive Pc where
  | next
  | insert (id : Int)
  | lookup (id : Int)
  | done (result : Int)
  deriving DecidableEq

structure Call (δ : Type) where
  obj : Obj δ
  pc : Pc

def Call.returned (c : Call δ) : Option Int :=
  match c.pc with
  | .done result => some result
  | _ => none

/-- The document of a call that returned an id. -/
def Call.document (c : Call δ) : Option (Doc δ) :=
  match c.pc with
  | .done result => if result = -1 then none else some ⟨result, c.obj.name, c.obj.fields⟩
  | _ => none

structure State (δ : Type) where
  table : Table (Doc.id (δ := δ)) Doc.name
  calls : List (Call δ)

def State.documents (s : State δ) : List (Doc δ) := s.calls.filterMap Call.document

/-- One step of one call. -/
def callStep (table : Table (Doc.id (δ := δ)) Doc.name) (c : Call δ) :
    Option (Table (Doc.id (δ := δ)) Doc.name × Pc) :=
  match c.pc with
  | .next =>
    let id := nextAutoIncrement table.rows
    some (table, if id < 0 then .done (-1) else .insert id)
  | .insert id =>
    match table.insert ⟨id, c.obj.name, c.obj.fields⟩ with
    | some table' => some (table', .done id)
    | none => some (table, .lookup id)
  | .lookup id => some (table, if (table.byId id).isSome then .next else .done (-1))
  | .done _ => none

def step (s : State δ) (i : Nat) : Option (State δ) :=
  match s.calls[i]? with
  | none => none
  | some c =>
    match callStep s.table c with
    | none => none
    | some (table, pc) => some ⟨table, s.calls.set i { c with pc := pc }⟩

def start (col : Collection δ) (objs : List (Obj δ)) : State δ where
  table := col.toTable
  calls := objs.map fun obj => ⟨obj, .next⟩

/-- The next id is not a non-negative `int`: `NextAutoIncrement` has none to give. -/
def Exhausted (rows : List (Doc δ)) : Prop := nextId rows < 0 ∨ intMax < nextId rows

/-! ## The next id -/

theorem lt_nextId {rows : List (Doc δ)} {id : Int} (h : id ∈ rows.map Doc.id) : id < nextId rows := by
  unfold nextId
  cases hmax : (rows.map Doc.id).max? with
  | none =>
    rw [List.max?_eq_none_iff] at hmax
    rw [hmax] at h
    cases h
  | some m =>
    have := (List.max?_eq_some_iff.mp hmax).2 id h
    simp only
    omega

theorem nextId_eq {rows : List (Doc δ)} {m : Int} (hmem : m - 1 ∈ rows.map Doc.id)
    (hlt : ∀ id ∈ rows.map Doc.id, id < m) : nextId rows = m := by
  have hmax : (rows.map Doc.id).max? = some (m - 1) := by
    rw [List.max?_eq_some_iff]
    refine ⟨hmem, ?_⟩
    intro id hid
    have := hlt id hid
    omega
  simp only [nextId, hmax]
  omega

theorem nextId_perm {rows rows' : List (Doc δ)} (h : rows.Perm rows') : nextId rows = nextId rows' := by
  have hmem : ∀ id, id ∈ rows.map Doc.id ↔ id ∈ rows'.map Doc.id := fun id => (h.map Doc.id).mem_iff
  have hmax : (rows.map Doc.id).max? = (rows'.map Doc.id).max? := by
    apply Option.ext
    intro m
    simp only [List.max?_eq_some_iff, hmem]
  rw [nextId, nextId, hmax]

/-- As long as the next id is at most one above an `int`, the conversion gives it or a negative
number. -/
theorem wrap32_next {z : Int} (h : intMin ≤ z ∧ z ≤ intMax + 1) :
    (wrap32 z < 0 ∧ (z < 0 ∨ intMax < z)) ∨ (0 ≤ z ∧ z ≤ intMax ∧ wrap32 z = z) := by
  simp only [wrap32, intMin, intMax] at *
  omega

theorem Collection.nextId_bounds (col : Collection δ) :
    intMin ≤ nextId col.rows ∧ nextId col.rows ≤ intMax + 1 := by
  unfold nextId
  split
  · rename_i m hmax
    obtain ⟨d, hd, hm⟩ := List.mem_map.mp (List.max?_eq_some_iff.mp hmax).1
    have := col.isInt d hd
    omega
  · simp only [intMin, intMax]
    omega

/-! ## What one step can do -/

/-- Every step of a call, with what it saw. -/
inductive Moves (table : Table (Doc.id (δ := δ)) Doc.name) (c : Call δ) :
    Table (Doc.id (δ := δ)) Doc.name → Pc → Prop
  | noId (hpc : c.pc = .next) (h : nextAutoIncrement table.rows < 0) : Moves table c table (.done (-1))
  | nextId (hpc : c.pc = .next) (h : 0 ≤ nextAutoIncrement table.rows) :
    Moves table c table (.insert (nextAutoIncrement table.rows))
  | inserted (id : Int) {table' : Table (Doc.id (δ := δ)) Doc.name} (hpc : c.pc = .insert id)
    (h : table.insert ⟨id, c.obj.name, c.obj.fields⟩ = some table') : Moves table c table' (.done id)
  | duplicate (id : Int) (hpc : c.pc = .insert id)
    (h : id ∈ table.rows.map Doc.id ∨ c.obj.name ∈ table.rows.map Doc.name) :
    Moves table c table (.lookup id)
  | again (id : Int) (hpc : c.pc = .lookup id) (h : id ∈ table.rows.map Doc.id) :
    Moves table c table .next
  | nameTaken (id : Int) (hpc : c.pc = .lookup id) (h : id ∉ table.rows.map Doc.id) :
    Moves table c table (.done (-1))

theorem callStep_moves {table table' : Table (Doc.id (δ := δ)) Doc.name} {c : Call δ} {pc : Pc}
    (h : callStep table c = some (table', pc)) : Moves table c table' pc := by
  unfold callStep at h
  split at h
  · rename_i hpc
    simp only [Option.some.injEq, Prod.mk.injEq] at h
    obtain ⟨rfl, rfl⟩ := h
    split
    · exact .noId hpc ‹_›
    · exact .nextId hpc (by omega)
  · rename_i id hpc
    split at h
    · rename_i hins
      cases h
      exact .inserted id hpc hins
    · rename_i hins
      cases h
      exact .duplicate id hpc (Table.insert_eq_none hins)
  · rename_i id hpc
    simp only [Option.some.injEq, Prod.mk.injEq] at h
    obtain ⟨rfl, rfl⟩ := h
    split
    · rename_i hfound
      refine .again id hpc ?_
      by_contra hno
      rw [Table.byId_eq_none.mpr hno] at hfound
      cases hfound
    · rename_i hnone
      rw [Bool.not_eq_true, Option.isSome_eq_false_iff, Option.isNone_iff_eq_none] at hnone
      exact .nameTaken id hpc (Table.byId_eq_none.mp hnone)
  · cases h

theorem step_moves {s s' : State δ} {i : Nat} (h : step s i = some s') :
    ∃ c pc, s.calls[i]? = some c ∧ Moves s.table c s'.table pc ∧
      s'.calls = s.calls.set i { c with pc := pc } := by
  unfold step at h
  split at h
  · cases h
  · rename_i c hc
    split at h
    · cases h
    · rename_i table pc hstep
      cases h
      exact ⟨c, pc, hc, callStep_moves hstep, rfl⟩

/-- A step that returns no id. -/
theorem documents_set {s s' : State δ} {i : Nat} {c : Call δ} {pc : Pc} (hc : s.calls[i]? = some c)
    (hcalls : s'.calls = s.calls.set i { c with pc := pc })
    (hdoc : ({ c with pc := pc } : Call δ).document = c.document) : s'.documents = s.documents := by
  unfold State.documents
  rw [hcalls]
  exact filterMap_set_eq Call.document hc hdoc

/-- A step that returns the id it has inserted. -/
theorem documents_done {s s' : State δ} {i : Nat} {c : Call δ} {id : Int} (hc : s.calls[i]? = some c)
    (hcalls : s'.calls = s.calls.set i { c with pc := .done id }) (hpc : c.pc = .insert id)
    (hne : id ≠ -1) : s'.documents.Perm (s.documents ++ [⟨id, c.obj.name, c.obj.fields⟩]) := by
  unfold State.documents
  rw [hcalls]
  apply filterMap_set_perm Call.document hc
  · simp [Call.document, hpc]
  · simp [Call.document, hne]

/-! ## The invariant -/

/-- One above the largest id, in terms of the ids given out so far. -/
def top (col : Collection δ) (s : State δ) : Int := nextId col.rows + s.documents.length

/-- What is known of a call: the id it holds was the next one when it read it, and a call that
returned -1 found its name taken or no id left. -/
def CallInv (base top : Int) (names : List Str) (c : Call δ) : Prop :=
  match c.pc with
  | .next => True
  | .insert id => base ≤ id ∧ id ≤ top ∧ 0 ≤ id ∧ id ≤ intMax
  | .lookup id => base ≤ id ∧ id ≤ top ∧ 0 ≤ id ∧ (id < top ∨ c.obj.name ∈ names)
  | .done result => result = -1 → c.obj.name ∈ names ∨ top < 0 ∨ intMax < top

structure Inv (col : Collection δ) (objs : List (Obj δ)) (s : State δ) : Prop where
  objs_eq : s.calls.map Call.obj = objs
  rows : s.table.rows.Perm (col.rows ++ s.documents)
  ids : ∀ id, id ∈ s.documents.map Doc.id ↔ nextId col.rows ≤ id ∧ id < top col s
  top_le : top col s ≤ intMax + 1
  calls : ∀ c ∈ s.calls, CallInv (nextId col.rows) (top col s) (s.table.rows.map Doc.name) c

theorem start_inv (col : Collection δ) (objs : List (Obj δ)) : Inv col objs (start col objs) := by
  have hdocs : (start col objs).documents = [] := by
    simp [State.documents, start, List.filterMap_map, Function.comp_def, Call.document]
  refine ⟨?_, ?_, ?_, ?_, ?_⟩
  · simp [start, Function.comp_def]
  · rw [hdocs, List.append_nil]
    exact List.Perm.refl _
  · intro id
    simp only [top, hdocs, List.map_nil, List.not_mem_nil, List.length_nil, false_iff]
    omega
  · have := col.nextId_bounds
    simp only [top, hdocs, List.length_nil]
    omega
  · intro c hc
    obtain ⟨obj, -, rfl⟩ := List.mem_map.mp hc
    trivial

/-- Another call has moved: the collection has grown, if it changed. -/
theorem CallInv.mono {base top top' : Int} {names names' : List Str} {c : Call δ}
    (h : CallInv base top names c) (hnames : names ⊆ names')
    (htop : top' = top ∨ (0 ≤ top ∧ top ≤ top')) : CallInv base top' names' c := by
  unfold CallInv at *
  split
  · trivial
  · rename_i id hpc
    simp only [hpc] at h
    omega
  · rename_i id hpc
    simp only [hpc] at h
    refine ⟨h.1, by omega, h.2.2.1, ?_⟩
    rcases h.2.2.2 with hlt | hname
    · exact .inl (by omega)
    · exact .inr (hnames hname)
  · rename_i result hpc
    simp only [hpc] at h
    intro hr
    rcases h hr with hname | hex
    · exact .inl (hnames hname)
    · exact .inr (by omega)

namespace Inv

variable {col : Collection δ} {objs : List (Obj δ)} {s : State δ} (hinv : Inv col objs s)

include hinv

theorem mem_ids {id : Int} : id ∈ s.table.rows.map Doc.id ↔
    id ∈ col.rows.map Doc.id ∨ (nextId col.rows ≤ id ∧ id < top col s) := by
  rw [(hinv.rows.map Doc.id).mem_iff, List.map_append, List.mem_append, hinv.ids]

theorem nextId_eq_top : nextId s.table.rows = top col s := by
  rw [nextId_perm hinv.rows]
  by_cases hk : s.documents = []
  · simp [hk, top]
  · have hpos : 0 < s.documents.length := List.length_pos_iff.mpr hk
    apply nextId_eq
    · rw [List.map_append, List.mem_append, hinv.ids]
      unfold top
      omega
    · intro id hid
      rw [List.map_append, List.mem_append, hinv.ids] at hid
      rcases hid with h | h
      · have := lt_nextId h
        unfold top
        omega
      · exact h.2

/-- What `NextAutoIncrement` gives: nothing, or the next id. -/
theorem nextAutoIncrement_cases :
    (nextAutoIncrement s.table.rows < 0 ∧ (top col s < 0 ∨ intMax < top col s)) ∨
      (0 ≤ top col s ∧ top col s ≤ intMax ∧ nextAutoIncrement s.table.rows = top col s) := by
  unfold nextAutoIncrement
  rw [hinv.nextId_eq_top]
  apply wrap32_next
  have := col.nextId_bounds
  have := hinv.top_le
  unfold top at *
  omega

theorem call {i : Nat} {c : Call δ} (hc : s.calls[i]? = some c) :
    CallInv (nextId col.rows) (top col s) (s.table.rows.map Doc.name) c :=
  hinv.calls c (List.mem_of_getElem? hc)

/-- A step that adds no document. -/
theorem keep {i : Nat} {c : Call δ} {pc : Pc} {s' : State δ} (hc : s.calls[i]? = some c)
    (htable : s'.table = s.table) (hcalls : s'.calls = s.calls.set i { c with pc := pc })
    (hdoc : ({ c with pc := pc } : Call δ).document = c.document)
    (hcall : CallInv (nextId col.rows) (top col s) (s.table.rows.map Doc.name) { c with pc := pc }) :
    Inv col objs s' ∧ top col s' = top col s := by
  have hdocs := documents_set hc hcalls hdoc
  have htop : top col s' = top col s := by rw [top, top, hdocs]
  refine ⟨⟨?_, ?_, ?_, ?_, ?_⟩, htop⟩
  · rw [hcalls, map_set_eq Call.obj hc (by rfl)]
    exact hinv.objs_eq
  · rw [htable, hdocs]
    exact hinv.rows
  · intro id
    rw [hdocs, htop]
    exact hinv.ids id
  · rw [htop]
    exact hinv.top_le
  · rw [hcalls, htable, htop]
    exact forall_set hinv.calls hcall

/-- The step that adds a document: its id is the next one. -/
theorem add {i : Nat} {c : Call δ} {id : Int} {s' : State δ} (hc : s.calls[i]? = some c)
    (hpc : c.pc = .insert id)
    (hins : s.table.insert ⟨id, c.obj.name, c.obj.fields⟩ = some s'.table)
    (hcalls : s'.calls = s.calls.set i { c with pc := .done id }) :
    Inv col objs s' ∧ id = top col s ∧ top col s' = top col s + 1 := by
  have hcall := hinv.call hc
  simp only [CallInv, hpc] at hcall
  obtain ⟨hnew, -, hrows⟩ := Table.insert_eq_some hins
  rw [hinv.mem_ids, not_or] at hnew
  have hid : id = top col s := by
    have := hnew.2
    simp only at this
    omega
  have hne : id ≠ -1 := by omega
  have hdocs := documents_done hc hcalls hpc hne
  have htop : top col s' = top col s + 1 := by
    have := hdocs.length_eq
    rw [List.length_append, List.length_singleton] at this
    unfold top
    omega
  refine ⟨⟨?_, ?_, ?_, ?_, ?_⟩, hid, htop⟩
  · rw [hcalls, map_set_eq Call.obj hc (by rfl)]
    exact hinv.objs_eq
  · rw [hrows]
    refine (hinv.rows.append_right _).trans ?_
    rw [List.append_assoc]
    exact hdocs.symm.append_left col.rows
  · intro j
    rw [(hdocs.map Doc.id).mem_iff, List.map_append, List.mem_append, hinv.ids, htop]
    simp only [List.map_singleton, List.mem_singleton]
    unfold top at *
    omega
  · omega
  · rw [hcalls]
    apply forall_set
    · intro d hd
      apply (hinv.calls d hd).mono
      · rw [hrows, List.map_append]
        exact List.subset_append_left _ _
      · exact .inr ⟨by omega, by omega⟩
    · simp only [CallInv]
      intro h
      exact absurd h hne

end Inv

/-- A step keeps the invariant, and the next id never falls. -/
theorem step_inv {col : Collection δ} {objs : List (Obj δ)} {s s' : State δ} {i : Nat}
    (hinv : Inv col objs s) (h : step s i = some s') : Inv col objs s' ∧ top col s ≤ top col s' := by
  obtain ⟨c, pc, hc, hmoves, hcalls⟩ := step_moves h
  have hcall := hinv.call hc
  generalize htable : s'.table = table' at hmoves
  cases hmoves with
  | noId hpc hneg =>
    have hex : top col s < 0 ∨ intMax < top col s := by
      rcases hinv.nextAutoIncrement_cases with h | h
      · exact h.2
      · omega
    obtain ⟨hinv', htop⟩ := hinv.keep hc htable hcalls (by simp [Call.document, hpc])
      (by simp only [CallInv]; exact fun _ => .inr hex)
    exact ⟨hinv', by omega⟩
  | nextId hpc hpos =>
    have hread : nextAutoIncrement s.table.rows = top col s ∧ top col s ≤ intMax := by
      rcases hinv.nextAutoIncrement_cases with h | h
      · omega
      · exact ⟨h.2.2, h.2.1⟩
    obtain ⟨hinv', htop⟩ := hinv.keep hc htable hcalls (by simp [Call.document, hpc])
      (by simp only [CallInv, hread.1, top]; unfold top at hread; omega)
    exact ⟨hinv', by omega⟩
  | inserted id hpc hins =>
    obtain ⟨hinv', -, htop⟩ := hinv.add hc hpc (htable ▸ hins) hcalls
    exact ⟨hinv', by omega⟩
  | duplicate id hpc hdup =>
    simp only [CallInv, hpc] at hcall
    have hwhy : id < top col s ∨ c.obj.name ∈ s.table.rows.map Doc.name := by
      rcases hdup with hid | hname
      · rw [hinv.mem_ids] at hid
        rcases hid with hold | hnew
        · have := lt_nextId hold
          omega
        · exact .inl hnew.2
      · exact .inr hname
    obtain ⟨hinv', htop⟩ := hinv.keep hc htable hcalls (by simp [Call.document, hpc])
      (by simp only [CallInv]; exact ⟨hcall.1, hcall.2.1, hcall.2.2.1, hwhy⟩)
    exact ⟨hinv', by omega⟩
  | again id hpc _ =>
    obtain ⟨hinv', htop⟩ := hinv.keep hc htable hcalls (by simp [Call.document, hpc]) trivial
    exact ⟨hinv', by omega⟩
  | nameTaken id hpc hno =>
    simp only [CallInv, hpc] at hcall
    -- no removals, so an id that was the duplicate is still there
    have htaken : c.obj.name ∈ s.table.rows.map Doc.name := by
      rcases hcall.2.2.2 with hlt | hname
      · exact absurd (hinv.mem_ids.mpr (.inr ⟨hcall.1, hlt⟩)) hno
      · exact hname
    obtain ⟨hinv', htop⟩ := hinv.keep hc htable hcalls (by simp [Call.document, hpc])
      (by simp only [CallInv]; exact fun _ => .inl htaken)
    exact ⟨hinv', by omega⟩

/-! ## Every call returns -/

/-- The steps call `i` can still take, of `n` calls. -/
def measure (col : Collection δ) (n i : Nat) (s : State δ) : Int :=
  match s.calls[i]? with
  | none => 0
  | some c =>
    match c.pc with
    | .next => 3 * (nextId col.rows + n - top col s)
    | .insert id => 3 * (nextId col.rows + n - id) - 1
    | .lookup id => 3 * (nextId col.rows + n - id) - 2
    | .done _ => 0

/-- A call that has added nothing yet leaves room for its own document. -/
theorem documents_lt {s : State δ} {i : Nat} {c : Call δ} (hc : s.calls[i]? = some c)
    (hdoc : c.document = none) : s.documents.length < s.calls.length := by
  have hperm := filterMap_set_perm Call.document (b := { c with pc := .done 0 })
    (d := ⟨0, c.obj.name, c.obj.fields⟩) hc hdoc (by simp [Call.document])
  have hle := List.length_filterMap_le Call.document (s.calls.set i { c with pc := .done 0 })
  rw [hperm.length_eq, List.length_append, List.length_singleton, List.length_set] at hle
  exact hle

theorem Inv.top_lt {col : Collection δ} {objs : List (Obj δ)} {s : State δ} (hinv : Inv col objs s)
    {i : Nat} {c : Call δ} (hc : s.calls[i]? = some c) (hdoc : c.document = none) :
    top col s < nextId col.rows + objs.length := by
  have hlen := congrArg List.length hinv.objs_eq
  rw [List.length_map] at hlen
  have := documents_lt hc hdoc
  unfold top
  omega

theorem measure_nonneg {col : Collection δ} {objs : List (Obj δ)} {s : State δ}
    (hinv : Inv col objs s) (i : Nat) : 0 ≤ measure col objs.length i s := by
  unfold measure
  split
  · exact Int.le_refl 0
  · rename_i c hc
    have hcall := hinv.call hc
    have hlt := fun hdoc => hinv.top_lt hc hdoc
    split
    · rename_i hpc
      have := hlt (by simp [Call.document, hpc])
      omega
    · rename_i id hpc
      have := hlt (by simp [Call.document, hpc])
      simp only [CallInv, hpc] at hcall
      omega
    · rename_i id hpc
      have := hlt (by simp [Call.document, hpc])
      simp only [CallInv, hpc] at hcall
      omega
    · exact Int.le_refl 0

/-- The step of another call. -/
theorem measure_other {col : Collection δ} {n i j : Nat} {s s' : State δ} {c : Call δ}
    (hcalls : s'.calls = s.calls.set j c) (hj : j ≠ i) (htop : top col s ≤ top col s') :
    measure col n i s' ≤ measure col n i s := by
  unfold measure
  rw [hcalls, List.getElem?_set_ne hj]
  split
  · exact Int.le_refl 0
  · split
    · omega
    · exact Int.le_refl _
    · exact Int.le_refl _
    · exact Int.le_refl 0

theorem step_measure {col : Collection δ} {objs : List (Obj δ)} {s s' : State δ} {i j : Nat}
    (hinv : Inv col objs s) (h : step s j = some s') :
    measure col objs.length i s' + (if j = i then 1 else 0) ≤ measure col objs.length i s := by
  obtain ⟨c, pc, hc, hmoves, hcalls⟩ := step_moves h
  obtain ⟨hinv', htop⟩ := step_inv hinv h
  by_cases hj : j = i
  · subst hj
    have hlen : j < s.calls.length := (List.getElem?_eq_some_iff.mp hc).1
    have hc' : s'.calls[j]? = some { c with pc := pc } := by
      rw [hcalls, List.getElem?_set_self hlen]
    have hcall := hinv.call hc
    have hroom : c.document = none → top col s < nextId col.rows + objs.length := hinv.top_lt hc
    simp only [measure, hc, hc', if_true]
    generalize s'.table = table' at hmoves
    cases hmoves with
    | noId hpc _ =>
      have := hroom (by simp [Call.document, hpc])
      simp only [hpc]
      omega
    | nextId hpc hpos =>
      have hread : nextAutoIncrement s.table.rows = top col s := by
        rcases hinv.nextAutoIncrement_cases with h | h
        · omega
        · exact h.2.2
      simp only [hpc, hread]
      omega
    | inserted id hpc _ =>
      have := hroom (by simp [Call.document, hpc])
      simp only [CallInv, hpc] at hcall ⊢
      omega
    | duplicate id hpc _ =>
      simp only [hpc]
      omega
    | again id hpc hmem =>
      -- the id has been given out since it was read
      simp only [CallInv, hpc] at hcall ⊢
      rw [hinv.mem_ids] at hmem
      rcases hmem with hold | hnew
      · have := lt_nextId hold
        omega
      · omega
    | nameTaken id hpc _ =>
      have := hroom (by simp [Call.document, hpc])
      simp only [CallInv, hpc] at hcall ⊢
      omega
  · simp only [hj, if_false, Int.add_zero]
    exact measure_other hcalls hj htop

theorem measure_start (col : Collection δ) (objs : List (Obj δ)) (i : Nat) :
    measure col objs.length i (start col objs) ≤ 3 * objs.length := by
  unfold measure
  split
  · omega
  · rename_i c hc
    obtain ⟨obj, -, rfl⟩ := List.mem_map.mp (List.mem_of_getElem? hc)
    simp only
    unfold top
    omega

/-! ## All calls together -/

/-- Ids are left for `n` more documents. -/
def HasRoom (rows : List (Doc δ)) (n : Nat) : Prop :=
  0 ≤ nextId rows ∧ nextId rows + n ≤ intMax + 1

/-- What calls for `objs` did to the collection `col`, after the steps `l`. -/
structure Correct (col : Collection δ) (objs : List (Obj δ)) (l : List Nat) (s : State δ) : Prop where
  /-- The calls are still those for `objs`, in their order. -/
  objs_eq : s.calls.map Call.obj = objs
  /-- Exactly one document was added for each call that returned an id. -/
  documents : s.table.rows.Perm (col.rows ++ s.documents)
  /-- The ids returned are distinct, also from those there before. -/
  ids : ((col.rows ++ s.documents).map Doc.id).Nodup
  /-- A call returned -1 only for a name that is taken, or when there was no id to give. -/
  refused : ∀ c ∈ s.calls, c.returned = some (-1) →
    c.obj.name ∈ s.table.rows.map Doc.name ∨ Exhausted s.table.rows
  /-- A call for a new name that no other call uses does not return -1 while ids are left. -/
  accepted : ∀ (i : Nat) (c : Call δ), s.calls[i]? = some c → c.obj.name ∉ col.rows.map Doc.name →
    (∀ (j : Nat) (c' : Call δ), j ≠ i → s.calls[j]? = some c' → c'.obj.name ≠ c.obj.name) →
    HasRoom col.rows objs.length → c.returned ≠ some (-1)
  /-- A call that has not returned can take a step. -/
  progress : ∀ (i : Nat) (c : Call δ), s.calls[i]? = some c → c.returned = none → ∃ s', step s i = some s'
  /-- No call takes more than three steps for each of the calls. -/
  bounded : ∀ i, l.count i ≤ 3 * objs.length

theorem Inv.exhausted {col : Collection δ} {objs : List (Obj δ)} {s : State δ} (hinv : Inv col objs s)
    {c : Call δ} (hc : c ∈ s.calls) (hr : c.returned = some (-1)) :
    c.obj.name ∈ s.table.rows.map Doc.name ∨ Exhausted s.table.rows := by
  have hpc : c.pc = .done (-1) := by
    unfold Call.returned at hr
    split at hr
    · rename_i r hpc
      cases hr
      exact hpc
    · cases hr
  have hcall := hinv.calls c hc
  simp only [CallInv, hpc, forall_const] at hcall
  rw [Exhausted, hinv.nextId_eq_top]
  exact hcall

theorem Call.document_of_returned {c : Call δ} (h : c.returned = some (-1)) : c.document = none := by
  unfold Call.returned at h
  split at h
  · rename_i r hpc
    cases h
    simp [Call.document, hpc]
  · cases h

theorem Call.document_name {c : Call δ} {d : Doc δ} (h : c.document = some d) : d.name = c.obj.name := by
  unfold Call.document at h
  split at h
  · split at h
    · cases h
    · cases h
      rfl
  · cases h

theorem Inv.accepted {col : Collection δ} {objs : List (Obj δ)} {s : State δ} (hinv : Inv col objs s)
    {i : Nat} {c : Call δ} (hc : s.calls[i]? = some c) (hnew : c.obj.name ∉ col.rows.map Doc.name)
    (hother : ∀ (j : Nat) (c' : Call δ), j ≠ i → s.calls[j]? = some c' → c'.obj.name ≠ c.obj.name)
    (hroom : HasRoom col.rows objs.length) : c.returned ≠ some (-1) := by
  intro hr
  have hdoc := Call.document_of_returned hr
  rcases hinv.exhausted (List.mem_of_getElem? hc) hr with hname | hex
  · rw [(hinv.rows.map Doc.name).mem_iff, List.map_append, List.mem_append] at hname
    rcases hname with hold | hadded
    · exact hnew hold
    · -- the document with the name belongs to a call for the name, which is this one
      obtain ⟨d, hd, hdname⟩ := List.mem_map.mp hadded
      obtain ⟨c', hc', hdoc'⟩ := List.mem_filterMap.mp hd
      obtain ⟨j, hj⟩ := List.mem_iff_getElem?.mp hc'
      have hsame : c'.obj.name = c.obj.name := (Call.document_name hdoc').symm.trans hdname
      by_cases hji : j = i
      · subst hji
        rw [hc] at hj
        cases hj
        rw [hdoc] at hdoc'
        cases hdoc'
      · exact hother j c' hji hj hsame
  · rw [Exhausted, hinv.nextId_eq_top] at hex
    have := hinv.top_lt hc hdoc
    unfold HasRoom at hroom
    unfold top at *
    omega

theorem progress_of_returned {s : State δ} {i : Nat} {c : Call δ} (hc : s.calls[i]? = some c)
    (hr : c.returned = none) : ∃ s', step s i = some s' := by
  simp only [step, hc, callStep]
  cases hpc : c.pc with
  | next => exact ⟨_, rfl⟩
  | insert id =>
    simp only
    cases s.table.insert ⟨id, c.obj.name, c.obj.fields⟩ with
    | none => exact ⟨_, rfl⟩
    | some t => exact ⟨_, rfl⟩
  | lookup id => exact ⟨_, rfl⟩
  | done r => simp [Call.returned, hpc] at hr

/-- Over every interleaving of any number of calls, from any collection. -/
theorem insertAutoIncrement_correct (col : Collection δ) (objs : List (Obj δ)) (l : List Nat)
    (s : State δ) (h : run step (start col objs) l = some s) : Correct col objs l s := by
  have hinv : Inv col objs s :=
    run_invariant (fun _ _ _ hs hstep => (step_inv hs hstep).1) l (start_inv col objs) h
  refine
    { objs_eq := hinv.objs_eq
      documents := hinv.rows
      ids := (hinv.rows.map Doc.id).nodup_iff.mp s.table.ids
      refused := fun c hc hr => hinv.exhausted hc hr
      accepted := fun i c hc hnew hother hroom => hinv.accepted hc hnew hother hroom
      progress := fun i c hc hr => progress_of_returned hc hr
      bounded := ?_ }
  intro i
  have hcount := run_count_le (P := Inv col objs) (Φ := measure col objs.length i) (i := i)
    (fun _ _ _ hs hstep => ⟨(step_inv hs hstep).1, step_measure hs hstep⟩) l (start_inv col objs) h
  have := measure_start col objs i
  have := measure_nonneg hinv i
  omega

/-- Two calls for one new name and one for another: all read id 2, and the ids 2 and 3 are given. -/
theorem insertAutoIncrement_contended :
    let col : Collection Unit :=
      { rows := [⟨0, "ebftpd".toList, ()⟩, ⟨1, "default".toList, ()⟩]
        ids := by decide
        names := by decide
        isInt := by decide }
    let objs : List (Obj Unit) := [⟨"a".toList, ()⟩, ⟨"a".toList, ()⟩, ⟨"b".toList, ()⟩]
    let l := [0, 1, 2, 1, 0, 2, 2, 0, 2, 2, 0, 0, 0]
    ∃ s, run step (start col objs) l = some s ∧ Correct col objs l s ∧
      s.calls.map Call.returned = [some (-1), some 2, some 3] := by
  intro col objs l
  have hrun : (run step (start col objs) l).isSome = true := by decide
  obtain ⟨s, hs⟩ := Option.isSome_iff_exists.mp hrun
  refine ⟨s, hs, insertAutoIncrement_correct col objs l s hs, ?_⟩
  have : (run step (start col objs) l).map (fun s => s.calls.map Call.returned) =
      some [some (-1), some 2, some 3] := by decide
  rw [hs] at this
  simpa using this

/-- A collection whose ids are negative has no next id: a call for a new name returns -1. -/
theorem insertAutoIncrement_negative_ids :
    let col : Collection Unit :=
      { rows := [⟨-5, "old".toList, ()⟩]
        ids := by decide
        names := by decide
        isInt := by decide }
    let objs : List (Obj Unit) := [⟨"new".toList, ()⟩]
    "new".toList ∉ col.rows.map Doc.name ∧
      (run step (start col objs) [0]).map (fun s => (s.table.rows, s.calls.map Call.returned)) =
        some ([⟨-5, "old".toList, ()⟩], [some (-1)]) := by
  decide

end AutoIncrement
end Db
end Ebftpd
