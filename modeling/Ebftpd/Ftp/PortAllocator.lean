import Ebftpd.Cfg.Setting
import Ebftpd.Lib.Run
import Mathlib.Data.List.Rotate

/-!
# Ebftpd.Ftp.PortAllocator

The port allocators (`src/ftp/portallocator.hpp`): `NextPort` walks through the configured ranges
with an iterator and the number of the next port. `SetPorts` puts the iterator back to the first of
the new ranges; the number of the next port it leaves as it was.

* `nextPort_total`: the search of `NextPort` ends after at most two turns.
* `cyclic_of_inRange`: the ports returned since a reload go through all ranges in turn, where no
  call finds a next port below the range its iterator points to.
* `reload_below`: a reload to higher ports after which a port of the old range is returned.
-/

namespace Ebftpd
namespace Ftp

open Cfg Lib

def anyPort : Nat := 0

/-- `PortAllocatorImpl`; `it` is the index of the range that the iterator points to. -/
structure PortAllocatorImpl where
  ranges : List PortRange
  it : Nat
  nextPort : Nat
  it_lt : ranges ≠ [] → it < ranges.length

namespace PortAllocatorImpl

def init : PortAllocatorImpl := ⟨[], 0, 0, fun h => absurd rfl h⟩

def setPorts (ports : List PortRange) (alloc : PortAllocatorImpl) : PortAllocatorImpl where
  ranges := ports
  it := 0
  nextPort := alloc.nextPort
  it_lt := List.length_pos_of_ne_nil

/-- `++it`, from the end back to the first range. -/
def advance {ranges : List PortRange} (it : Fin ranges.length) : Fin ranges.length :=
  if h : it.val + 1 < ranges.length then ⟨it.val + 1, h⟩ else ⟨0, by omega⟩

/-- The loop of `NextPort`, cut off after `fuel` turns. -/
def search {ranges : List PortRange} : Nat → Fin ranges.length → Nat → Option (Nat × Fin ranges.length)
  | 0, _, _ => none
  | fuel + 1, it, nextPort =>
    if nextPort ≤ (ranges.get it).toPort then some (nextPort, it)
    else search fuel (advance it) (ranges.get (advance it)).fromPort

/-- `NextPort`: the port, and the allocator behind it. -/
def next (fuel : Nat) (alloc : PortAllocatorImpl) : Option (Nat × PortAllocatorImpl) :=
  if h : alloc.ranges = [] then some (anyPort, alloc)
  else
    let it : Fin alloc.ranges.length := ⟨alloc.it, alloc.it_lt h⟩
    if alloc.nextPort = 0 then
      some ((alloc.ranges.get it).fromPort, { alloc with nextPort := (alloc.ranges.get it).fromPort + 1 })
    else
      (search fuel it alloc.nextPort).map fun (port, it) =>
        (port, { alloc with it := it, nextPort := port + 1, it_lt := fun _ => it.isLt })

end PortAllocatorImpl

/-! ## The ports in order -/

def portsOf (range : PortRange) : List Nat :=
  List.range' range.fromPort (range.toPort + 1 - range.fromPort)

/-- All ports of all ranges, in order. -/
def allPorts (ranges : List PortRange) : List Nat := ranges.flatMap portsOf

/-- `n` ports one after another from the `k`-th on, starting over behind the last. -/
def cycleFrom (ports : List Nat) (k n : Nat) : List Nat :=
  (List.range n).map fun i => ports.getD ((k + i) % ports.length) anyPort

theorem mem_allPorts {ranges : List PortRange} {port : Nat} :
    port ∈ allPorts ranges ↔ ∃ range ∈ ranges, range.fromPort ≤ port ∧ port ≤ range.toPort := by
  simp only [allPorts, List.mem_flatMap]
  refine exists_congr fun range => and_congr_right fun _ => ?_
  have := range.fromPort_le
  rw [portsOf, List.mem_range'_1]
  omega

@[simp] theorem length_cycleFrom (ports : List Nat) (k n : Nat) : (cycleFrom ports k n).length = n := by
  simp [cycleFrom]

theorem cycleFrom_succ (ports : List Nat) (k n : Nat) :
    cycleFrom ports k (n + 1) = cycleFrom ports k n ++ [ports.getD ((k + n) % ports.length) anyPort] := by
  simp [cycleFrom, List.range_succ]

/-- One cycle takes every port of the list once. -/
theorem cycleFrom_length (ports : List Nat) (k : Nat) :
    cycleFrom ports k ports.length = ports.rotate k := by
  refine List.ext_getElem (by simp) fun i h1 h2 => ?_
  have hi : i < ports.length := by simpa using h1
  have hmod : (k + i) % ports.length < ports.length := Nat.mod_lt _ (by omega)
  rw [List.getElem_rotate]
  simp only [cycleFrom, List.getElem_map, List.getElem_range, List.getD_eq_getElem?_getD,
    List.getElem?_eq_getElem hmod, Option.getD_some, Nat.add_comm i k]

/-- How many ports lie in the ranges before `it`. -/
def offset (ranges : List PortRange) (it : Nat) : Nat := (allPorts (ranges.take it)).length

/-- The place of `port` among all ports, where it is a port of the range at `it`. -/
def place {ranges : List PortRange} (it : Fin ranges.length) (port : Nat) : Nat :=
  offset ranges it + (port - (ranges.get it).fromPort)

theorem allPorts_split {ranges : List PortRange} (it : Fin ranges.length) :
    allPorts ranges = allPorts (ranges.take it) ++ portsOf (ranges.get it) ++
      allPorts (ranges.drop (it + 1)) := by
  conv_lhs => rw [← List.take_append_drop it ranges, List.drop_eq_getElem_cons it.isLt]
  simp only [allPorts, List.flatMap_append, List.flatMap_cons, List.append_assoc, List.get_eq_getElem]

theorem offset_succ {ranges : List PortRange} (it : Fin ranges.length) :
    offset ranges (it + 1) = offset ranges it + ((ranges.get it).toPort + 1 - (ranges.get it).fromPort) := by
  have htake : ranges.take (it + 1) = ranges.take it ++ [ranges.get it] :=
    (List.take_append_getElem it.isLt).symm
  simp only [offset, htake, allPorts, List.flatMap_append, List.flatMap_singleton, List.length_append,
    portsOf, List.length_range']

theorem offset_length (ranges : List PortRange) : offset ranges ranges.length = (allPorts ranges).length := by
  simp [offset]

theorem place_lt {ranges : List PortRange} {it : Fin ranges.length} {port : Nat}
    (hfrom : (ranges.get it).fromPort ≤ port) (hto : port ≤ (ranges.get it).toPort) :
    place it port < (allPorts ranges).length := by
  have hlen := congrArg List.length (allPorts_split it)
  simp only [List.length_append, portsOf, List.length_range'] at hlen
  simp only [place, offset]
  omega

theorem allPorts_place {ranges : List PortRange} {it : Fin ranges.length} {port : Nat}
    (hfrom : (ranges.get it).fromPort ≤ port) (hto : port ≤ (ranges.get it).toPort) :
    (allPorts ranges).getD (place it port % (allPorts ranges).length) anyPort = port := by
  have hplace := place_lt hfrom hto
  have hoffset : (allPorts (ranges.take it)).length ≤ place it port := Nat.le_add_right _ _
  have hsize : place it port - (allPorts (ranges.take it)).length < (portsOf (ranges.get it)).length := by
    simp only [place, offset, portsOf, List.length_range']
    omega
  have hget : (allPorts ranges)[place it port]? = some port := by
    rw [allPorts_split it, List.append_assoc, List.getElem?_append_right hoffset,
      List.getElem?_append_left hsize, List.getElem?_eq_getElem hsize]
    simp only [portsOf, List.getElem_range', place, offset, Option.some.injEq]
    omega
  rw [Nat.mod_eq_of_lt hplace, List.getD_eq_getElem?_getD, hget, Option.getD_some]

/-! ## One call -/

namespace PortAllocatorImpl

/-- The allocator with its iterator at `it`. -/
def pointing {ranges : List PortRange} (it : Fin ranges.length) (nextPort : Nat) : PortAllocatorImpl :=
  ⟨ranges, it, nextPort, fun _ => it.isLt⟩

theorem search_eq {ranges : List PortRange} (fuel : Nat) (it : Fin ranges.length) (nextPort : Nat) :
    search (fuel + 2) it nextPort = some (
      if nextPort ≤ (ranges.get it).toPort then (nextPort, it)
      else ((ranges.get (advance it)).fromPort, advance it)) := by
  simp only [search]
  split
  · rfl
  · rw [if_pos (ranges.get (advance it)).fromPort_le]

/-- The search ends, and a longer one would return the same. -/
theorem next_total (alloc : PortAllocatorImpl) : ∃ r, ∀ fuel, 2 ≤ fuel → alloc.next fuel = some r := by
  refine ⟨(alloc.next 2).getD (anyPort, alloc), fun fuel hfuel => ?_⟩
  obtain ⟨fuel, rfl⟩ := Nat.exists_eq_add_of_le' hfuel
  unfold next
  split
  · rfl
  · simp only [search_eq]
    split
    · rfl
    · rfl

/-- What `NextPort` does where there are ranges. -/
theorem next_inv {alloc alloc' : PortAllocatorImpl} {port : Nat} (h : alloc.next 2 = some (port, alloc')) :
    (alloc.ranges = [] ∧ port = anyPort ∧ alloc' = alloc) ∨
      ∃ it it' : Fin alloc.ranges.length, it.val = alloc.it ∧ alloc' = pointing it' (port + 1) ∧
        ((alloc.nextPort = 0 ∧ it' = it ∧ port = (alloc.ranges.get it).fromPort) ∨
          (alloc.nextPort ≠ 0 ∧ alloc.nextPort ≤ (alloc.ranges.get it).toPort ∧ it' = it ∧
            port = alloc.nextPort) ∨
          (alloc.nextPort ≠ 0 ∧ (alloc.ranges.get it).toPort < alloc.nextPort ∧ it' = advance it ∧
            port = (alloc.ranges.get it').fromPort)) := by
  unfold next at h
  split at h
  · rename_i hempty
    cases h
    exact .inl ⟨hempty, rfl, rfl⟩
  · rename_i hne
    refine .inr ⟨⟨alloc.it, alloc.it_lt hne⟩, ?_⟩
    simp only at h
    split at h
    · rename_i hzero
      cases h
      exact ⟨_, rfl, rfl, .inl ⟨hzero, rfl, rfl⟩⟩
    · rename_i hzero
      rw [search_eq, Option.map_some] at h
      split at h
      · rename_i hle
        cases h
        exact ⟨_, rfl, rfl, .inr (.inl ⟨hzero, hle, rfl, rfl⟩)⟩
      · rename_i hlt
        cases h
        exact ⟨_, rfl, rfl, .inr (.inr ⟨hzero, by omega, rfl, rfl⟩)⟩

end PortAllocatorImpl

open PortAllocatorImpl

/-- Behind the last port of a range the next place is that of the first port of the following one. -/
theorem place_advance {ranges : List PortRange} (it : Fin ranges.length) :
    place (advance it) (ranges.get (advance it)).fromPort % (allPorts ranges).length =
      place it ((ranges.get it).toPort + 1) % (allPorts ranges).length := by
  have hplace : place it ((ranges.get it).toPort + 1) = offset ranges (it + 1) := by
    rw [offset_succ, place]
  rw [hplace, place, Nat.sub_self, Nat.add_zero]
  by_cases hlast : it.val + 1 < ranges.length
  · rw [advance, dif_pos hlast]
  · have hend : it.val + 1 = ranges.length := by omega
    rw [advance, dif_neg hlast, hend, offset_length, Nat.mod_self]
    rfl

theorem place_succ {ranges : List PortRange} {it : Fin ranges.length} {port : Nat}
    (hfrom : (ranges.get it).fromPort ≤ port) : place it (port + 1) = place it port + 1 := by
  simp only [place]
  omega

/-! ## Runs -/

inductive Call where
  | setPorts (ports : List PortRange)
  | nextPort

/-- An allocator, and what `NextPort` has returned since the last `SetPorts`. -/
structure Allocation where
  alloc : PortAllocatorImpl
  issued : List Nat

namespace Allocation

def init : Allocation := ⟨PortAllocatorImpl.init, []⟩

def step (s : Allocation) : Call → Option Allocation
  | .setPorts ports => some ⟨s.alloc.setPorts ports, []⟩
  | .nextPort => (s.alloc.next 2).map fun (port, alloc) => ⟨alloc, s.issued ++ [port]⟩

end Allocation

def Call.rangesAfter (ranges : List PortRange) : Call → List PortRange
  | .setPorts ports => ports
  | .nextPort => ranges

/-- The ranges of the last `SetPorts`. -/
def latestPorts (calls : List Call) : List PortRange := calls.foldl Call.rangesAfter []

/-- `port` may be returned while `ranges` are configured. -/
def Configured (ranges : List PortRange) (port : Nat) : Prop :=
  (ranges = [] ∧ port = anyPort) ∨ ∃ range ∈ ranges, range.fromPort ≤ port ∧ port ≤ range.toPort

/-- A call of `NextPort` does not find a next port below the range that the iterator points to. -/
def InRange (s : Allocation) : Call → Prop
  | .setPorts _ => True
  | .nextPort =>
    ∀ range ∈ s.alloc.ranges[s.alloc.it]?, s.alloc.nextPort = 0 ∨ range.fromPort ≤ s.alloc.nextPort

instance (s : Allocation) (call : Call) : Decidable (InRange s call) :=
  match call with
  | .setPorts _ => .isTrue trivial
  | .nextPort => inferInstanceAs (Decidable (∀ range ∈ s.alloc.ranges[s.alloc.it]?, _))

/-- The allocator stands at the `j`-th port, counted on through all cycles. -/
def StandsAt (alloc : PortAllocatorImpl) (j : Nat) : Prop :=
  ∃ it : Fin alloc.ranges.length, it.val = alloc.it ∧ (alloc.ranges.get it).fromPort ≤ alloc.nextPort ∧
    alloc.nextPort ≤ (alloc.ranges.get it).toPort + 1 ∧
    place it alloc.nextPort % (allPorts alloc.ranges).length = j % (allPorts alloc.ranges).length

/-- What has been returned since the reload is a piece of the cycle, and the allocator stands behind
it. -/
def Cycling (s : Allocation) : Prop :=
  ∃ k, s.issued = cycleFrom (allPorts s.alloc.ranges) k s.issued.length ∧
    (s.alloc.ranges = [] ∨ s.issued = [] ∨ StandsAt s.alloc (k + s.issued.length))

theorem cycling_nil (alloc : PortAllocatorImpl) : Cycling ⟨alloc, []⟩ := ⟨0, rfl, .inr (.inl rfl)⟩

/-- The port at the `j`-th place has been returned. -/
theorem cycling_concat {ranges : List PortRange} {it : Fin ranges.length} {issued : List Nat} {port k : Nat}
    (hissued : issued = cycleFrom (allPorts ranges) k issued.length)
    (hfrom : (ranges.get it).fromPort ≤ port) (hto : port ≤ (ranges.get it).toPort)
    (hplace : place it port % (allPorts ranges).length = (k + issued.length) % (allPorts ranges).length) :
    Cycling ⟨pointing it (port + 1), issued ++ [port]⟩ := by
  have hport : (allPorts ranges).getD ((k + issued.length) % (allPorts ranges).length) anyPort = port := by
    rw [← hplace, allPorts_place hfrom hto]
  refine ⟨k, ?_, .inr (.inr ⟨it, rfl, Nat.le_succ_of_le hfrom, Nat.succ_le_succ hto, ?_⟩)⟩
  · show issued ++ [port] = cycleFrom (allPorts ranges) k (issued ++ [port]).length
    rw [List.length_append, List.length_singleton, cycleFrom_succ, hport, ← hissued]
  · show place it (port + 1) % (allPorts ranges).length =
      (k + (issued ++ [port]).length) % (allPorts ranges).length
    rw [place_succ hfrom, List.length_append, List.length_singleton, ← Nat.add_assoc]
    exact Nat.add_mod_eq_add_mod_right 1 hplace

theorem step_cycling (s : Allocation) (call : Call) (s' : Allocation) (hs : Cycling s)
    (hrange : InRange s call) (h : s.step call = some s') : Cycling s' := by
  cases call with
  | setPorts ports =>
    cases h
    exact cycling_nil _
  | nextPort =>
    obtain ⟨⟨port, alloc'⟩, hnext, rfl⟩ := Option.map_eq_some_iff.mp h
    obtain ⟨k, hissued, hat⟩ := hs
    rcases next_inv hnext with ⟨hempty, rfl, rfl⟩ | ⟨it, it', hit, rfl, hcases⟩
    · refine ⟨k, ?_, .inl hempty⟩
      show s.issued ++ [anyPort] = cycleFrom (allPorts s.alloc.ranges) k (s.issued ++ [anyPort]).length
      rw [List.length_append, List.length_singleton, cycleFrom_succ, ← hissued, hempty]
      rfl
    · have hne : s.alloc.ranges ≠ [] := fun hempty => by
        have := it.isLt
        simp [hempty] at this
      have hfound : s.alloc.nextPort = 0 ∨ (s.alloc.ranges.get it).fromPort ≤ s.alloc.nextPort := by
        refine hrange _ ?_
        rw [← hit]
        exact List.getElem?_eq_getElem it.isLt
      have hbounds : (s.alloc.ranges.get it').fromPort ≤ port ∧ port ≤ (s.alloc.ranges.get it').toPort := by
        rcases hcases with ⟨-, rfl, rfl⟩ | ⟨hzero, hle, rfl, rfl⟩ | ⟨-, -, -, rfl⟩
        · exact ⟨Nat.le_refl _, (s.alloc.ranges.get it').fromPort_le⟩
        · exact ⟨hfound.resolve_left hzero, hle⟩
        · exact ⟨Nat.le_refl _, (s.alloc.ranges.get it').fromPort_le⟩
      rcases hat with hempty | hnil | ⟨it₀, hit₀, hfrom, hto, hplace⟩
      · exact absurd hempty hne
      · refine cycling_concat (k := place it' port) ?_ hbounds.1 hbounds.2 ?_
        · rw [hnil]
          rfl
        · rw [hnil, List.length_nil, Nat.add_zero]
      · obtain rfl : it₀ = it := Fin.ext (hit₀.trans hit.symm)
        refine cycling_concat hissued hbounds.1 hbounds.2 ?_
        rw [← hplace]
        rcases hcases with ⟨hzero, -, -⟩ | ⟨-, -, rfl, rfl⟩ | ⟨-, hlt, rfl, rfl⟩
        · have := (s.alloc.ranges.get it₀).fromPort_ge
          omega
        · rfl
        · rw [place_advance, Nat.le_antisymm hto hlt]

theorem Cycling.configured {s : Allocation} (hs : Cycling s) : ∀ port ∈ s.issued, Configured s.alloc.ranges port := by
  obtain ⟨k, hissued, -⟩ := hs
  intro port hport
  rw [hissued, cycleFrom, List.mem_map] at hport
  obtain ⟨i, -, rfl⟩ := hport
  by_cases hempty : s.alloc.ranges = []
  · refine .inl ⟨hempty, ?_⟩
    rw [hempty]
    rfl
  · refine .inr (mem_allPorts.mp ?_)
    have hpos : 0 < (allPorts s.alloc.ranges).length := by
      obtain ⟨range, ranges, hcons⟩ := List.exists_cons_of_ne_nil hempty
      have := range.fromPort_le
      simp only [hcons, allPorts, List.flatMap_cons, List.length_append, portsOf, List.length_range']
      omega
    rw [List.getD_eq_getElem?_getD, List.getElem?_eq_getElem (Nat.mod_lt _ hpos), Option.getD_some]
    exact List.getElem_mem _

theorem step_total (s : Allocation) (call : Call) : ∃ s', s.step call = some s' := by
  cases call with
  | setPorts ports => exact ⟨_, rfl⟩
  | nextPort =>
    obtain ⟨⟨port, alloc⟩, hr⟩ := next_total s.alloc
    exact ⟨_, by rw [Allocation.step, hr 2 (Nat.le_refl 2), Option.map_some]⟩

theorem run_total (calls : List Call) : ∀ s : Allocation, ∃ s', run Allocation.step s calls = some s' := by
  induction calls with
  | nil => exact fun s => ⟨s, rfl⟩
  | cons call calls ih =>
    intro s
    obtain ⟨s1, h1⟩ := step_total s call
    obtain ⟨s', h'⟩ := ih s1
    exact ⟨s', by simp only [run, h1, h']⟩

theorem step_ranges {s s' : Allocation} {call : Call} (h : s.step call = some s') :
    s'.alloc.ranges = call.rangesAfter s.alloc.ranges := by
  cases call with
  | setPorts ports =>
    cases h
    rfl
  | nextPort =>
    obtain ⟨⟨port, alloc'⟩, hnext, rfl⟩ := Option.map_eq_some_iff.mp h
    rcases next_inv hnext with ⟨-, -, rfl⟩ | ⟨it, it', -, rfl, -⟩
    · rfl
    · rfl

theorem run_latestPorts {calls : List Call} {s : Allocation}
    (h : run Allocation.step Allocation.init calls = some s) : s.alloc.ranges = latestPorts calls := by
  suffices hgen : ∀ (calls : List Call) (s₀ : Allocation), run Allocation.step s₀ calls = some s →
      s.alloc.ranges = calls.foldl Call.rangesAfter s₀.alloc.ranges from hgen calls _ h
  intro calls
  induction calls with
  | nil =>
    intro s₀ h
    cases h
    rfl
  | cons call calls ih =>
    intro s₀ h
    obtain ⟨s1, h1, h2⟩ := run_cons_inv h
    rw [ih s1 h2, step_ranges h1, List.foldl_cons]

/-- A run whose calls of `NextPort` find no port below the current range ends, and what it has
returned since the last reload goes through all configured ports in turn. -/
theorem cyclic_of_inRange (calls : List Call) (hrange : Meets Allocation.step InRange Allocation.init calls) :
    ∃ s, run Allocation.step Allocation.init calls = some s ∧
      (∃ r, ∀ fuel, 2 ≤ fuel → s.alloc.next fuel = some r) ∧
      (∀ port ∈ s.issued, Configured (latestPorts calls) port) ∧
      ∃ k, s.issued = cycleFrom (allPorts (latestPorts calls)) k s.issued.length := by
  obtain ⟨s, hrun⟩ := run_total calls Allocation.init
  have hcycling := run_invariant_of_meets step_cycling calls (cycling_nil _) hrange hrun
  have hranges := run_latestPorts hrun
  refine ⟨s, hrun, next_total _, ?_, ?_⟩
  · rw [← hranges]
    exact hcycling.configured
  · obtain ⟨k, hissued, -⟩ := hcycling
    exact ⟨k, hranges ▸ hissued⟩

section Examples

private def oldRange : PortRange := ⟨2000, 2001, by omega, by omega, by omega⟩

private def newRange : PortRange := ⟨3000, 3001, by omega, by omega, by omega⟩

/-- A reload from `3000-3001` to `2000-2001`. -/
theorem cyclic_reload_above :
    ∃ s, run Allocation.step Allocation.init
        [.setPorts [newRange], .nextPort, .setPorts [oldRange], .nextPort, .nextPort] = some s ∧
      (∃ r, ∀ fuel, 2 ≤ fuel → s.alloc.next fuel = some r) ∧
      (∀ port ∈ s.issued, Configured [oldRange] port) ∧
      ∃ k, s.issued = cycleFrom (allPorts [oldRange]) k s.issued.length :=
  cyclic_of_inRange [.setPorts [newRange], .nextPort, .setPorts [oldRange], .nextPort, .nextPort] (by decide)

/-- A reload from `2000-2001` to `3000-3001` after one call: the next one returns 2001. -/
theorem reload_below :
    ∃ s, run Allocation.step Allocation.init [.setPorts [oldRange], .nextPort, .setPorts [newRange], .nextPort] =
        some s ∧ s.issued = [2001] ∧ ¬ ∀ port ∈ s.issued, Configured s.alloc.ranges port := by
  refine ⟨_, rfl, rfl, ?_⟩
  intro h
  rcases h 2001 (List.mem_singleton.mpr rfl) with ⟨hempty, -⟩ | ⟨range, hrange, hfrom, -⟩
  · cases hempty
  · obtain rfl : range = newRange := List.mem_singleton.mp hrange
    exact absurd hfrom (by decide)

end Examples

end Ftp
end Ebftpd
