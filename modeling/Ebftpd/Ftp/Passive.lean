import Ebftpd.Ftp.Data
import Ebftpd.Ftp.PortAllocator
import Ebftpd.Lib.Round
import Ebftpd.Util.Net.IPAddress

/-!
# Ebftpd.Ftp.Passive

Where a data connection listens or comes from (`InitPassive` and `InitActive` of `src/ftp/data.cpp`): the
addresses of `pasv_addr` and `active_addr` (`src/ftp/addrallocator.hpp`) and the ports are tried one after
another, from where the allocators stand, until one will do or the first comes again. Nobody else draws
from the allocators meanwhile.

* `selectPort_ends_iff`: when the search for a port ends, whatever the ports answer.
* `initPassive_selects`: what is selected, and that it refines `Data.initPassive`.
-/

namespace Ebftpd
namespace Ftp

open Cfg Util Util.Net Lib Lib.Round PortAllocatorImpl

/-- `AddrAllocatorImpl`; `it` is the index of the next address. An address is a word of a line. -/
structure AddrAllocatorImpl where
  addresses : List Str
  it : Nat
  it_le : it ≤ addresses.length
  words : ∀ addr ∈ addresses, addr ≠ []

namespace AddrAllocatorImpl

def nextAddr (alloc : AddrAllocatorImpl) : Str × AddrAllocatorImpl :=
  if hempty : alloc.addresses = [] then ([], alloc)
  else if hend : alloc.it = alloc.addresses.length then
    (alloc.addresses.getD 0 [], { alloc with it := 1, it_le := List.length_pos_of_ne_nil hempty })
  else
    (alloc.addresses.getD alloc.it [],
      { alloc with it := alloc.it + 1, it_le := Nat.lt_of_le_of_ne alloc.it_le hend })

/-- The loop over the addresses; there is none to select where none is configured. -/
def select (fuel : Nat) (suits : Str → Option IPAddress) (alloc : AddrAllocatorImpl) :
    Option (Except NetError (Option IPAddress) × AddrAllocatorImpl) :=
  if alloc.addresses.isEmpty then some (.ok none, alloc)
  else
    (search nextAddr suits fuel alloc).map fun
      | (some ip, alloc) => (.ok (some ip), alloc)
      | (none, alloc) => (.error (.network "Unable to find a valid local address."), alloc)

end AddrAllocatorImpl

/-- `NextPort`. -/
def nextPort (alloc : PortAllocatorImpl) : Nat × PortAllocatorImpl := (alloc.next 2).getD (anyPort, alloc)

/-- What a port answers to the loop. -/
def portJudge (attempt : Nat → Data.Attempt) (port : Nat) : Option (Except NetError Nat) :=
  match attempt port with
  | .okay => some (.ok port)
  | .inUse => none
  | .failed e => some (.error e)

/-- The loop over the ports. -/
def selectPort (fuel : Nat) (attempt : Nat → Data.Attempt) (alloc : PortAllocatorImpl) :
    Option (Except NetError Nat × PortAllocatorImpl) :=
  (search nextPort (portJudge attempt) fuel alloc).map fun
    | (some result, alloc) => (result, alloc)
    | (none, alloc) => (.error (.network "All ports exhausted."), alloc)

/-! ## The draws of the port allocator -/

section Ports

variable {alloc alloc' : PortAllocatorImpl} {attempt : Nat → Data.Attempt} {j port : Nat}

theorem nextPort_inv (hne : alloc.ranges ≠ []) (h : nextPort alloc = (port, alloc')) :
    ∃ it it' : Fin alloc.ranges.length, it.val = alloc.it ∧ alloc' = pointing it' (port + 1) ∧
      ((alloc.nextPort = 0 ∧ it' = it ∧ port = (alloc.ranges.get it).fromPort) ∨
        (alloc.nextPort ≠ 0 ∧ alloc.nextPort ≤ (alloc.ranges.get it).toPort ∧ it' = it ∧ port = alloc.nextPort) ∨
        (alloc.nextPort ≠ 0 ∧ (alloc.ranges.get it).toPort < alloc.nextPort ∧ it' = advance it ∧
          port = (alloc.ranges.get it').fromPort)) := by
  obtain ⟨r, htotal⟩ := next_total alloc
  have hnext := htotal 2 (Nat.le_refl 2)
  have hr : r = (port, alloc') := by
    rw [← h, nextPort, hnext]
    rfl
  rw [hr] at hnext
  obtain ⟨hempty, -⟩ | hcases := next_inv hnext
  · exact absurd hempty hne
  · exact hcases

/-- An allocator behind a port of the cycle draws the next one. -/
theorem nextPort_stands (hne : alloc.ranges ≠ []) (hat : StandsAt alloc j) (h : nextPort alloc = (port, alloc')) :
    port = (allPorts alloc.ranges).getD (j % (allPorts alloc.ranges).length) anyPort ∧
      alloc'.ranges = alloc.ranges ∧ StandsAt alloc' (j + 1) := by
  obtain ⟨it₀, hit₀, hfrom, hto, hplace⟩ := hat
  obtain ⟨it, it', hit, rfl, hcases⟩ := nextPort_inv hne h
  obtain rfl : it₀ = it := Fin.ext (hit₀.trans hit.symm)
  have hbounds : (alloc.ranges.get it').fromPort ≤ port ∧ port ≤ (alloc.ranges.get it').toPort ∧
      place it' port % (allPorts alloc.ranges).length = j % (allPorts alloc.ranges).length := by
    rcases hcases with ⟨hzero, -, -⟩ | ⟨-, hle, rfl, rfl⟩ | ⟨-, hlt, rfl, rfl⟩
    · have := (alloc.ranges.get it₀).fromPort_ge
      omega
    · exact ⟨hfrom, hle, hplace⟩
    · refine ⟨Nat.le_refl _, (alloc.ranges.get (advance it₀)).fromPort_le, ?_⟩
      rw [place_advance, ← Nat.le_antisymm hto hlt]
      exact hplace
  obtain ⟨hge, hle, hsame⟩ := hbounds
  refine ⟨?_, rfl, it', rfl, Nat.le_succ_of_le hge, Nat.succ_le_succ hle, ?_⟩
  · rw [← hsame, allPorts_place hge hle]
  · show place it' (port + 1) % (allPorts alloc.ranges).length = (j + 1) % (allPorts alloc.ranges).length
    rw [place_succ hge]
    exact Nat.add_mod_eq_add_mod_right 1 hsame

theorem draws_stands (hne : alloc.ranges ≠ []) (hat : StandsAt alloc j) (m : Nat) :
    draws nextPort m alloc = cycle (allPorts alloc.ranges) anyPort j m := by
  induction m generalizing alloc j with
  | zero => rfl
  | succ m ih =>
    cases hnext : nextPort alloc with
    | mk port alloc' =>
      obtain ⟨hport, hranges, hstands⟩ := nextPort_stands hne hat hnext
      have hrest := ih (hranges ▸ hne) hstands
      rw [hranges] at hrest
      simp only [draws, hnext, cycle_succ, hrest, hport]

/-- The next port is not below the range that the iterator points to. -/
def Ready (alloc : PortAllocatorImpl) : Prop := InRange ⟨alloc, []⟩ .nextPort

instance (alloc : PortAllocatorImpl) : Decidable (Ready alloc) := inferInstanceAs (Decidable (InRange _ _))

theorem ready_get (hready : Ready alloc) (it : Fin alloc.ranges.length) (hit : it.val = alloc.it) :
    alloc.nextPort = 0 ∨ (alloc.ranges.get it).fromPort ≤ alloc.nextPort := by
  refine hready _ ?_
  show alloc.ranges[alloc.it]? = some _
  rw [← hit]
  exact List.getElem?_eq_getElem it.isLt

/-- Where the iterator points behind a call, the port is not above the range. -/
theorem nextPort_pointing (hne : alloc.ranges ≠ []) (h : nextPort alloc = (port, alloc')) :
    ∃ it : Fin alloc.ranges.length, alloc' = pointing it (port + 1) ∧ port ≤ (alloc.ranges.get it).toPort ∧
      (Ready alloc → (alloc.ranges.get it).fromPort ≤ port) := by
  obtain ⟨it, it', hit, halloc', hcases⟩ := nextPort_inv hne h
  refine ⟨it', halloc', ?_⟩
  rcases hcases with ⟨-, rfl, hport⟩ | ⟨hzero, hle, rfl, hport⟩ | ⟨-, -, -, hport⟩
  · rw [hport]
    exact ⟨(alloc.ranges.get it').fromPort_le, fun _ => Nat.le_refl _⟩
  · rw [hport]
    exact ⟨hle, fun hready => (ready_get hready it' hit).resolve_left hzero⟩
  · rw [hport]
    exact ⟨(alloc.ranges.get it').fromPort_le, fun _ => Nat.le_refl _⟩

/-- The place of the port that was drawn last. -/
def lastPlace (alloc : PortAllocatorImpl) (port : Nat) : Nat :=
  if h : alloc.ranges = [] then 0
  else place ⟨alloc.it, alloc.it_lt h⟩ port

/-- The ports in the order in which they are tried. -/
def turn (alloc : PortAllocatorImpl) : List Nat :=
  if alloc.ranges = [] then [anyPort]
  else round ((allPorts alloc.ranges).rotate (lastPlace (nextPort alloc).2 (nextPort alloc).1))

theorem lastPlace_pointing {ranges : List PortRange} (it : Fin ranges.length) (port : Nat) :
    lastPlace (pointing it (port + 1)) port = place it port := by
  have hne : ranges ≠ [] := List.ne_nil_of_length_pos it.pos
  exact dif_neg hne

/-- An allocator that is ready draws from the cycle. -/
theorem draws_ready (hne : alloc.ranges ≠ []) (hready : Ready alloc) (m : Nat) :
    draws nextPort m alloc =
      cycle (allPorts alloc.ranges) anyPort (lastPlace (nextPort alloc).2 (nextPort alloc).1) m := by
  cases hnext : nextPort alloc with
  | mk port alloc' =>
    obtain ⟨it, rfl, hle, hge⟩ := nextPort_pointing hne hnext
    have hfrom := hge hready
    have hat : StandsAt (pointing it (port + 1)) (place it port + 1) :=
      ⟨it, rfl, Nat.le_succ_of_le hfrom, Nat.succ_le_succ hle, congrArg (· % _) (place_succ hfrom)⟩
    rw [lastPlace_pointing]
    have hranges : (pointing it (port + 1)).ranges ≠ [] := hne
    cases m with
    | zero => rfl
    | succ m =>
      have hrest : draws nextPort m (pointing it (port + 1)) =
          cycle (allPorts alloc.ranges) anyPort (place it port + 1) m := draws_stands hranges hat m
      simp only [draws, hnext, cycle_succ, allPorts_place hfrom hle, hrest]

theorem allPorts_ne_nil (hne : alloc.ranges ≠ []) : allPorts alloc.ranges ≠ [] := by
  obtain ⟨range, ranges, hcons⟩ := List.exists_cons_of_ne_nil hne
  have hfrom : range.fromPort ∈ allPorts alloc.ranges :=
    mem_allPorts.mpr ⟨range, hcons ▸ List.mem_cons_self, Nat.le_refl _, range.fromPort_le⟩
  exact List.ne_nil_of_mem hfrom

theorem nextPort_nil (hnil : alloc.ranges = []) : nextPort alloc = (anyPort, alloc) := by
  rw [nextPort, PortAllocatorImpl.next, dif_pos hnil]
  rfl

/-- Without ranges any port is drawn, over and over. -/
theorem draws_nil (hnil : alloc.ranges = []) (m : Nat) : draws nextPort m alloc = cycle [anyPort] anyPort j m := by
  induction m generalizing j with
  | zero => rfl
  | succ m ih =>
    rw [cycle_succ, List.length_singleton, Nat.mod_one, List.getD_cons_zero, ← ih]
    simp only [draws, nextPort_nil hnil]

/-- What the loop over the ports finds. -/
theorem selectPort_ready (attempt : Nat → Data.Attempt) (hready : Ready alloc) {fuel : Nat} (hfuel : (allPorts alloc.ranges).length < fuel) :
    ∃ alloc', selectPort fuel attempt alloc = some
      (((turn alloc).findSome? (portJudge attempt)).getD (.error (.network "All ports exhausted.")), alloc') := by
  have hsearch : ∃ alloc', search nextPort (portJudge attempt) fuel alloc =
      some ((turn alloc).findSome? (portJudge attempt), alloc') := by
    by_cases hnil : alloc.ranges = []
    · have hpos : 1 ≤ fuel := Nat.zero_lt_of_lt hfuel
      rw [turn, if_pos hnil]
      exact search_cycle _ (List.cons_ne_nil _ _) (draws_nil (j := 0) hnil) hpos
    · rw [turn, if_neg hnil]
      exact search_cycle _ (allPorts_ne_nil hnil) (draws_ready hnil hready) (Nat.le_of_lt hfuel)
  obtain ⟨alloc', hfound⟩ := hsearch
  refine ⟨alloc', ?_⟩
  rw [selectPort, hfound, Option.map_some]
  cases (turn alloc).findSome? (portJudge attempt) with
  | some result => rfl
  | none => rfl

/-! ## Whether the loop over the ports ends -/

theorem pointing_ranges_ne {ranges : List PortRange} (it : Fin ranges.length) (port : Nat) :
    (pointing it port).ranges ≠ [] := List.ne_nil_of_length_pos it.pos

theorem nextPort_below {ranges : List PortRange} (it : Fin ranges.length) {port : Nat} (hzero : port ≠ 0)
    (hle : port ≤ (ranges.get it).toPort) : nextPort (pointing it port) = (port, pointing it (port + 1)) := by
  cases hnext : nextPort (pointing it port) with
  | mk found alloc' =>
    obtain ⟨it₀, it', hit, rfl, hcases⟩ := nextPort_inv (pointing_ranges_ne it port) hnext
    have hsame : it₀ = it := Fin.ext hit
    rcases hcases with ⟨hnone, -⟩ | ⟨-, -, rfl, rfl⟩ | ⟨-, hlt, -, -⟩
    · exact absurd hnone hzero
    · rw [hsame]
      rfl
    · rw [hsame] at hlt
      exact absurd hle (Nat.not_le_of_lt hlt)

/-- Below its range the allocator counts up to it. -/
theorem draws_climb {ranges : List PortRange} (it : Fin ranges.length) {n : Nat} :
    ∀ {port : Nat}, port ≠ 0 → port + n = (ranges.get it).fromPort → ∃ j, ∀ m,
      draws nextPort (n + m) (pointing it port) = List.range' port n ++ cycle (allPorts ranges) anyPort j m := by
  have hrange := (ranges.get it).fromPort_le
  induction n with
  | zero =>
    intro port hzero hport
    have hto : port ≤ (ranges.get it).toPort + 1 := by omega
    have hat : StandsAt (pointing it port) (place it port) := ⟨it, rfl, Nat.le_of_eq hport.symm, hto, rfl⟩
    refine ⟨place it port, fun m => ?_⟩
    rw [Nat.zero_add]
    exact draws_stands (pointing_ranges_ne it port) hat m
  | succ n ih =>
    intro port hzero hport
    obtain ⟨j, hrest⟩ := ih (Nat.succ_ne_zero port) (by omega)
    have hnext := nextPort_below it hzero (by omega)
    refine ⟨j, fun m => ?_⟩
    rw [Nat.succ_add, draws, hnext, hrest, List.range'_succ, List.cons_append]

/-- Behind the first port the allocator counts up to its range, if it has to, and goes round from there. -/
theorem draws_first (hne : alloc.ranges ≠ []) (h : nextPort alloc = (port, alloc')) :
    ∃ n j, ∀ m, draws nextPort (n + m) alloc' =
      List.range' (port + 1) n ++ cycle (allPorts alloc.ranges) anyPort j m := by
  obtain ⟨it, rfl, hle, -⟩ := nextPort_pointing hne h
  by_cases hfrom : (alloc.ranges.get it).fromPort ≤ port + 1
  · have hat : StandsAt (pointing it (port + 1)) (place it (port + 1)) :=
      ⟨it, rfl, hfrom, Nat.succ_le_succ hle, rfl⟩
    refine ⟨0, place it (port + 1), fun m => ?_⟩
    rw [Nat.zero_add]
    exact draws_stands (pointing_ranges_ne it _) hat m
  · obtain ⟨n, hn⟩ := Nat.exists_eq_add_of_le (Nat.le_of_not_le hfrom)
    obtain ⟨j, hclimb⟩ := draws_climb it (Nat.succ_ne_zero port) hn.symm
    exact ⟨n, j, hclimb⟩

/-- The first port comes again exactly where it is one of the ranges. -/
theorem first_again_iff (hne : alloc.ranges ≠ []) :
    (∃ fuel, (nextPort alloc).1 ∈ draws nextPort fuel (nextPort alloc).2) ↔
      (nextPort alloc).1 ∈ allPorts alloc.ranges := by
  cases hnext : nextPort alloc with
  | mk port alloc' =>
    obtain ⟨n, j, hdraws⟩ := draws_first hne hnext
    constructor
    · rintro ⟨fuel, hfuel⟩
      have hlong := mem_draws_of_le (Nat.le_add_left fuel n) hfuel
      rw [hdraws] at hlong
      obtain hclimb | hcycle := List.mem_append.mp hlong
      · exact absurd (List.mem_range'_1.mp hclimb).1 (Nat.not_succ_le_self port)
      · exact mem_of_mem_cycle (allPorts_ne_nil hne) hcycle
    · intro hmem
      refine ⟨n + (allPorts alloc.ranges).length, ?_⟩
      rw [hdraws, cycle_length]
      exact List.mem_append_right _ (List.mem_rotate.mpr hmem)

theorem selectPort_isSome_iff {fuel : Nat} : (∃ r, selectPort fuel attempt alloc = some r) ↔
    ∃ r, search nextPort (portJudge attempt) fuel alloc = some r := by
  rw [selectPort]
  cases search nextPort (portJudge attempt) fuel alloc with
  | none => simp
  | some r => simp

/-- The loop over the ports ends, whatever they answer, if and only if the first of them lies in the ranges.
After a reload it need not. -/
theorem selectPort_ends_iff (alloc : PortAllocatorImpl) :
    (∀ attempt, ∃ fuel r, selectPort fuel attempt alloc = some r) ↔
      alloc.ranges = [] ∨ (nextPort alloc).1 ∈ allPorts alloc.ranges := by
  simp only [selectPort_isSome_iff]
  by_cases hnil : alloc.ranges = []
  · refine iff_of_true (fun attempt => ?_) (.inl hnil)
    have hagain : (nextPort alloc).1 ∈ draws nextPort 1 (nextPort alloc).2 := by
      rw [nextPort_nil hnil, draws, nextPort_nil hnil]
      exact List.mem_cons_self
    obtain ⟨alloc', hsearch⟩ := search_eq (portJudge attempt) hagain
    exact ⟨1, _, hsearch⟩
  · rw [or_iff_right hnil, ← first_again_iff hnil]
    constructor
    · intro hends
      obtain ⟨fuel, r, hsearch⟩ := hends fun _ => .inUse
      exact ⟨fuel, search_again hsearch⟩
    · rintro ⟨fuel, hagain⟩ attempt
      obtain ⟨alloc', hsearch⟩ := search_eq (portJudge attempt) hagain
      exact ⟨fuel, _, hsearch⟩

end Ports

/-! ## The search for an address -/

/-- `operator==`, which `Object.equals_eq` is about. -/
def sameAddress (ip addr : IPAddress) : Bool :=
  decide ((Address.ofOctets ip.family ip.data).plain = (Address.ofOctets addr.family addr.data).plain)

/-- `FindPartnerIP`, over the addresses of each interface; `ip` is kept where there is no partner. -/
def findPartnerIP (interfaces : List (List IPAddress)) (ip : IPAddress) : IPAddress :=
  match interfaces.find? (·.any (sameAddress · ip)) with
  | some addresses => (addresses.find? (·.family = .IPv4)).getD ip
  | none => ip

/-- What the two setups differ in. -/
structure Wanted where
  -- whether the configured addresses are asked for
  asks : Bool
  suits : IPAddress → Bool
  -- the address that is used, from the one selected
  use : Option IPAddress → Except NetError IPAddress
  -- `Listen` or `Connect`
  attempt : IPAddress → Nat → Data.Attempt

structure Allocators where
  addrs : AddrAllocatorImpl
  ports : PortAllocatorImpl

namespace Wanted

/-- The `try` block of the loop over the addresses. -/
def judge (inet : Inet) (wanted : Wanted) (addr : Str) : Option IPAddress :=
  match IPAddress.fromString inet addr with
  | some ip => if wanted.suits ip then some ip.copy else none
  | none => none

/-- The two loops, one behind the other. -/
def setUp (fuel : Nat) (inet : Inet) (wanted : Wanted) (alloc : Allocators) :
    Option (Except NetError (IPAddress × Nat) × Allocators) :=
  let selected :=
    if wanted.asks then alloc.addrs.select fuel (wanted.judge inet) else some (.ok none, alloc.addrs)
  selected.bind fun (ip, addrs) =>
    match ip.bind wanted.use with
    | .error e => some (.error e, { alloc with addrs := addrs })
    | .ok ip =>
      (selectPort fuel (wanted.attempt ip) alloc.ports).map fun (port, ports) => (port.map (ip, ·), ⟨addrs, ports⟩)

/-- The address that is used, as a search in the configured list from where the allocator stands. -/
def address (inet : Inet) (wanted : Wanted) (addrs : AddrAllocatorImpl) : Except NetError IPAddress :=
  if wanted.asks ∧ addrs.addresses ≠ [] then
    match (round (addrs.addresses.rotate addrs.it)).findSome? (wanted.judge inet) with
    | some ip => wanted.use (some ip)
    | none => .error (.network "Unable to find a valid local address.")
  else wanted.use none

/-- The answers that the loop over the ports gets. -/
def attempts (inet : Inet) (wanted : Wanted) (alloc : Allocators) : List Data.Attempt :=
  match wanted.address inet alloc.addrs with
  | .error _ => []
  | .ok ip => (turn alloc.ports).map (wanted.attempt ip)

/-- The address and the port. -/
def found (inet : Inet) (wanted : Wanted) (alloc : Allocators) : Except NetError (IPAddress × Nat) :=
  (wanted.address inet alloc.addrs).bind fun ip =>
    (((turn alloc.ports).findSome? (portJudge (wanted.attempt ip))).getD
      (.error (.network "All ports exhausted."))).map (ip, ·)

end Wanted

section Addresses

variable {addrs addrs' : AddrAllocatorImpl} {addr : Str} {j : Nat}

theorem nextAddr_inv (hne : addrs.addresses ≠ []) (h : addrs.nextAddr = (addr, addrs')) :
    addr = addrs.addresses.getD (addrs.it % addrs.addresses.length) [] ∧ addrs'.addresses = addrs.addresses ∧
      addrs'.it % addrs.addresses.length = (addrs.it + 1) % addrs.addresses.length := by
  rw [AddrAllocatorImpl.nextAddr, dif_neg hne] at h
  by_cases hend : addrs.it = addrs.addresses.length
  · rw [dif_pos hend] at h
    cases h
    exact ⟨by rw [hend, Nat.mod_self], rfl, by rw [hend, Nat.add_mod_left]⟩
  · rw [dif_neg hend] at h
    cases h
    have hlt : addrs.it < addrs.addresses.length := Nat.lt_of_le_of_ne addrs.it_le hend
    exact ⟨by rw [Nat.mod_eq_of_lt hlt], rfl, rfl⟩

theorem draws_addrs (m : Nat) : ∀ {addrs : AddrAllocatorImpl} {j : Nat}, addrs.addresses ≠ [] →
    addrs.it % addrs.addresses.length = j % addrs.addresses.length →
    draws AddrAllocatorImpl.nextAddr m addrs = cycle addrs.addresses [] j m := by
  induction m with
  | zero =>
    intros
    rfl
  | succ m ih =>
    intro addrs j hne hj
    cases hnext : addrs.nextAddr with
    | mk addr addrs' =>
      obtain ⟨haddr, hsame, hit⟩ := nextAddr_inv hne hnext
      have hstep : addrs'.it % addrs'.addresses.length = (j + 1) % addrs'.addresses.length := by
        rw [hsame, hit]
        exact Nat.add_mod_eq_add_mod_right 1 hj
      have hrest := ih (hsame ▸ hne) hstep
      rw [hsame] at hrest
      simp only [draws, hnext, cycle_succ, hrest, haddr, hj]

theorem select_nil (hnil : addrs.addresses = []) (fuel : Nat) (suits : Str → Option IPAddress) :
    addrs.select fuel suits = some (.ok none, addrs) := by
  rw [AddrAllocatorImpl.select, hnil, List.isEmpty_nil, if_pos rfl]

theorem select_cons (hne : addrs.addresses ≠ []) (suits : Str → Option IPAddress) {fuel : Nat}
    (hfuel : addrs.addresses.length ≤ fuel) : ∃ addrs', addrs.select fuel suits = some
      (match (round (addrs.addresses.rotate addrs.it)).findSome? suits with
        | some ip => .ok (some ip)
        | none => .error (.network "Unable to find a valid local address."), addrs') := by
  have hdraws : ∀ m, draws AddrAllocatorImpl.nextAddr m addrs = cycle addrs.addresses [] addrs.it m :=
    fun m => draws_addrs m hne rfl
  obtain ⟨addrs', hsearch⟩ := search_cycle suits hne hdraws hfuel
  refine ⟨addrs', ?_⟩
  rw [AddrAllocatorImpl.select, if_neg (by simpa using hne), hsearch, Option.map_some]
  cases (round (addrs.addresses.rotate addrs.it)).findSome? suits with
  | some ip => rfl
  | none => rfl

end Addresses

section SetUp

variable {alloc : Allocators} {fuel : Nat} (inet : Inet) (wanted : Wanted)

/-- The two loops end, and find what the searches find. -/
theorem setUp_found (hready : Ready alloc.ports) (haddrs : alloc.addrs.addresses.length ≤ fuel)
    (hports : (allPorts alloc.ports.ranges).length < fuel) :
    ∃ alloc', wanted.setUp fuel inet alloc = some (wanted.found inet alloc, alloc') := by
  have haddress : ∃ ip addrs', (if wanted.asks then alloc.addrs.select fuel (wanted.judge inet)
      else some (.ok none, alloc.addrs)) = some (ip, addrs') ∧
        ip.bind wanted.use = wanted.address inet alloc.addrs := by
    cases hasks : wanted.asks with
    | false =>
      refine ⟨.ok none, alloc.addrs, by rw [if_neg Bool.false_ne_true], ?_⟩
      rw [Wanted.address, hasks, if_neg (fun h => Bool.false_ne_true h.1)]
      rfl
    | true =>
      rw [if_pos rfl]
      by_cases hnil : alloc.addrs.addresses = []
      · refine ⟨.ok none, alloc.addrs, select_nil hnil _ _, ?_⟩
        rw [Wanted.address, if_neg (fun h => h.2 hnil)]
        rfl
      · obtain ⟨addrs', hselect⟩ := select_cons hnil (wanted.judge inet) haddrs
        refine ⟨_, addrs', hselect, ?_⟩
        rw [Wanted.address, if_pos ⟨hasks, hnil⟩]
        cases (round (alloc.addrs.addresses.rotate alloc.addrs.it)).findSome? (wanted.judge inet) with
        | some ip => rfl
        | none => rfl
  obtain ⟨ip, addrs', hselect, haddress⟩ := haddress
  simp only [Wanted.setUp, hselect, Option.bind_some, haddress, Wanted.found]
  cases wanted.address inet alloc.addrs with
  | error e => exact ⟨_, rfl⟩
  | ok ip =>
    obtain ⟨ports', hport⟩ := selectPort_ready (wanted.attempt ip) hready hports
    refine ⟨⟨addrs', ports'⟩, ?_⟩
    simp only [hport, Option.map_some]
    rfl

theorem tryPorts_map (attempt : Nat → Data.Attempt) (ports : List Nat) :
    Data.tryPorts (ports.map attempt) = ((ports.findSome? (portJudge attempt)).getD
      (.error (.network "All ports exhausted."))).map fun _ => () := by
  induction ports with
  | nil => rfl
  | cons port ports ih =>
    rw [List.map_cons, List.findSome?_cons, portJudge]
    cases attempt port with
    | okay => rfl
    | inUse => exact ih
    | failed e => rfl

/-- The searches are the steps that the connection is prepared by. -/
theorem setUp_calls (natAddr : Except NetError Unit) :
    Data.SetupCalls.setUp ⟨(wanted.address inet alloc.addrs).map fun _ => (), wanted.attempts inet alloc, natAddr⟩ =
      (wanted.found inet alloc).map fun _ => () := by
  unfold Data.SetupCalls.setUp Wanted.attempts Wanted.found
  cases wanted.address inet alloc.addrs with
  | error e => rfl
  | ok ip =>
    have htry := tryPorts_map (wanted.attempt ip) (turn alloc.ports)
    simp only [Except.map, htry, Except.bind]
    cases ((turn alloc.ports).findSome? (portJudge (wanted.attempt ip))).getD
      (.error (.network "All ports exhausted.")) with
    | error e => rfl
    | ok port => rfl

end SetUp

/-! ## InitPassive and InitActive -/

/-- `InvalidIPAddressError`. -/
def invalidIPAddress : NetError := .network "Invalid IP address or family"

structure PassiveCalls where
  -- `client.Control().LocalEndpoint().IP()`
  controlIP : IPAddress
  -- `Interfaces()`
  interfaces : Except NetError (List (List IPAddress))
  listen : IPAddress → Nat → Data.Attempt
  -- `nat_addr`
  natAddr : Str

def PassiveCalls.wanted (calls : PassiveCalls) (pasvType : PassiveType) (epsvMode : EPSVMode) : Wanted where
  asks := pasvType ≠ .EPSV ∨ epsvMode = .Extended
  suits ip := pasvType = .PASV ∧ ip.family = .IPv4 ∨ ip.family = calls.controlIP.family
  use ip :=
    let ip := ip.getD calls.controlIP.copy
    if pasvType = .PASV ∧ ip.family = .IPv6 then calls.interfaces.map (findPartnerIP · ip) else .ok ip
  attempt := calls.listen

/-- The address that the client is told. -/
def PassiveCalls.toldIP (inet : Inet) (calls : PassiveCalls) (ip : IPAddress) : Except NetError IPAddress :=
  if calls.natAddr.isEmpty then .ok ip
  else
    match IPAddress.fromString inet calls.natAddr with
    | some ip => .ok ip.copy
    | none => .error invalidIPAddress

/-- `InitPassive`, with the endpoint that the client is told; for port 0 the kernel chooses one. -/
def initPassive (fuel : Nat) (inet : Inet) (calls : PassiveCalls) (pasvType : PassiveType) (data : Data)
    (alloc : Allocators) : Option (Except NetError (IPAddress × Nat) × Data × Allocators) :=
  let data := { data with connected := false, listening := false }
  ((calls.wanted pasvType data.epsvMode).setUp fuel inet alloc).map fun
    | (.error e, alloc) => (.error e, data, alloc)
    | (.ok (ip, port), alloc) =>
      ((calls.toldIP inet ip).map (·, port), { data with listening := true, pasvType := pasvType }, alloc)

structure ActiveCalls where
  -- `ep.Family()`
  family : IPFamily
  connect : IPAddress → Nat → Data.Attempt

/-- `IPAddress(IPFamily)`. -/
def anyIP (inet : Inet) (family : IPFamily) : Except NetError IPAddress :=
  match IPAddress.fromString inet (if family = .IPv4 then "0.0.0.0".toList else "::".toList) with
  | some ip => .ok ip.copy
  | none => .error invalidIPAddress

def ActiveCalls.wanted (inet : Inet) (calls : ActiveCalls) : Wanted where
  asks := true
  suits ip := ip.family = calls.family
  use
    | some ip => .ok ip
    | none => anyIP inet calls.family
  attempt := calls.connect

/-- `InitActive`. -/
def initActive (fuel : Nat) (inet : Inet) (calls : ActiveCalls) (data : Data) (alloc : Allocators) :
    Option (Except NetError Unit × Data × Allocators) :=
  let data := { data with pasvType := .None, connected := false, listening := false }
  ((calls.wanted inet).setUp fuel inet alloc).map fun
    | (.error e, alloc) => (.error e, data, alloc)
    | (.ok _, alloc) => (.ok (), { data with connected := true }, alloc)

section Setups

variable {alloc : Allocators} {fuel : Nat} {inet : Inet} {data : Data}

/-- What the client is told. -/
def PassiveCalls.told (inet : Inet) (calls : PassiveCalls) (pasvType : PassiveType) (data : Data)
    (alloc : Allocators) : Except NetError (IPAddress × Nat) :=
  ((calls.wanted pasvType data.epsvMode).found inet alloc).bind fun (ip, port) =>
    (calls.toldIP inet ip).map (·, port)

/-- The steps of the setup, with the searches in the configured lists for the loops. -/
def PassiveCalls.steps (inet : Inet) (calls : PassiveCalls) (pasvType : PassiveType) (data : Data)
    (alloc : Allocators) : Data.SetupCalls where
  address := ((calls.wanted pasvType data.epsvMode).address inet alloc.addrs).map fun _ => ()
  attempts := (calls.wanted pasvType data.epsvMode).attempts inet alloc
  natAddr := (calls.toldIP inet calls.controlIP).map fun _ => ()

def ActiveCalls.steps (inet : Inet) (calls : ActiveCalls) (alloc : Allocators) : Data.SetupCalls where
  address := ((calls.wanted inet).address inet alloc.addrs).map fun _ => ()
  attempts := (calls.wanted inet).attempts inet alloc
  natAddr := .ok ()

/-- The ports that may be tried. -/
def candidates (alloc : PortAllocatorImpl) : List Nat :=
  if alloc.ranges = [] then [anyPort] else allPorts alloc.ranges

theorem toldIP_unit (calls : PassiveCalls) (ip ip' : IPAddress) (port : Nat) :
    ((calls.toldIP inet ip).map (·, port)).map (fun _ => ()) = (calls.toldIP inet ip').map fun _ => () := by
  unfold PassiveCalls.toldIP
  split
  · rfl
  · cases IPAddress.fromString inet calls.natAddr with
    | some nat => rfl
    | none => rfl

/-- No port that is configured once is overlooked. -/
theorem turn_none_iff {ports : PortAllocatorImpl} (hnodup : (allPorts ports.ranges).Nodup)
    (attempt : Nat → Data.Attempt) :
    (turn ports).findSome? (portJudge attempt) = none ↔ ∀ port ∈ candidates ports, attempt port = .inUse := by
  have hjudge : ∀ port, portJudge attempt port = none ↔ attempt port = .inUse := by
    intro port
    unfold portJudge
    cases attempt port with
    | okay => simp
    | inUse => simp
    | failed e => simp
  unfold turn candidates
  by_cases hnil : ports.ranges = []
  · rw [if_pos hnil, if_pos hnil]
    simp [hjudge]
  · rw [if_neg hnil, if_neg hnil, findSome?_round hnodup]
    simp only [hjudge]

theorem told_eq (calls : PassiveCalls) (pasvType : PassiveType) :
    (calls.told inet pasvType data alloc).map (fun _ => ()) =
      (data.initPassive (calls.steps inet pasvType data alloc) pasvType).1 := by
  have hsteps : (calls.steps inet pasvType data alloc).setUp =
      ((calls.wanted pasvType data.epsvMode).found inet alloc).map fun _ => () := setUp_calls inet _ _
  rw [Data.initPassive, hsteps, PassiveCalls.told]
  cases (calls.wanted pasvType data.epsvMode).found inet alloc with
  | error e => rfl
  | ok found => exact toldIP_unit calls found.1 calls.controlIP found.2

theorem initPassive_eq (calls : PassiveCalls) (pasvType : PassiveType) (hready : Ready alloc.ports)
    (haddrs : alloc.addrs.addresses.length ≤ fuel) (hports : (allPorts alloc.ports.ranges).length < fuel) :
    ∃ alloc', initPassive fuel inet calls pasvType data alloc = some (calls.told inet pasvType data alloc,
      (data.initPassive (calls.steps inet pasvType data alloc) pasvType).2, alloc') := by
  obtain ⟨alloc', hsetUp⟩ := setUp_found inet (calls.wanted pasvType data.epsvMode) hready haddrs hports
  have hsteps : (calls.steps inet pasvType data alloc).setUp =
      ((calls.wanted pasvType data.epsvMode).found inet alloc).map fun _ => () := setUp_calls inet _ _
  refine ⟨alloc', ?_⟩
  rw [initPassive, Data.initPassive, hsteps, PassiveCalls.told]
  simp only [hsetUp, Option.map_some]
  cases (calls.wanted pasvType data.epsvMode).found inet alloc with
  | error e => rfl
  | ok found => rfl

/-- With time enough `InitPassive` ends. What it does is `Data.initPassive`, with searches in the configured
lists for its loops, and no port that is configured once is overlooked. -/
theorem initPassive_selects (calls : PassiveCalls) (pasvType : PassiveType) (hready : Ready alloc.ports)
    (haddrs : alloc.addrs.addresses.length ≤ fuel) (hports : (allPorts alloc.ports.ranges).length < fuel) :
    (∃ alloc', initPassive fuel inet calls pasvType data alloc = some (calls.told inet pasvType data alloc,
      (data.initPassive (calls.steps inet pasvType data alloc) pasvType).2, alloc')) ∧
    (calls.told inet pasvType data alloc).map (fun _ => ()) =
      (data.initPassive (calls.steps inet pasvType data alloc) pasvType).1 ∧
    ((allPorts alloc.ports.ranges).Nodup → ∀ ip,
      (turn alloc.ports).findSome? (portJudge (calls.listen ip)) = none ↔
        ∀ port ∈ candidates alloc.ports, calls.listen ip port = .inUse) :=
  ⟨initPassive_eq calls pasvType hready haddrs hports, told_eq calls pasvType,
    fun hnodup ip => turn_none_iff hnodup (calls.listen ip)⟩

theorem initActive_eq (calls : ActiveCalls) (hready : Ready alloc.ports)
    (haddrs : alloc.addrs.addresses.length ≤ fuel) (hports : (allPorts alloc.ports.ranges).length < fuel) :
    ∃ alloc', initActive fuel inet calls data alloc =
      some ((data.initActive (calls.steps inet alloc)).1, (data.initActive (calls.steps inet alloc)).2, alloc') := by
  obtain ⟨alloc', hsetUp⟩ := setUp_found inet (calls.wanted inet) hready haddrs hports
  have hsteps : (calls.steps inet alloc).setUp = ((calls.wanted inet).found inet alloc).map fun _ => () :=
    setUp_calls inet _ _
  refine ⟨alloc', ?_⟩
  rw [initActive, Data.initActive, hsteps]
  simp only [hsetUp, Option.map_some]
  cases (calls.wanted inet).found inet alloc with
  | error e => rfl
  | ok found => rfl

section Example

/-- `inet_pton` of `10.0.0.7`. -/
private def inetOne : Inet where
  pton family text :=
    if h : family = .IPv4 ∧ text = "10.0.0.7".toList then some ⟨[10, 0, 0, 7], by rw [h.1]; rfl⟩ else none
  ntop _ _ := "10.0.0.7".toList

private def controlIP : IPAddress := .ofData .IPv4 ⟨[10, 0, 0, 1], rfl⟩

private def passivePorts : PortRange := ⟨5000, 5001, by omega, by omega, by omega⟩

private def passiveAlloc : Allocators where
  addrs := ⟨["localhost".toList, "10.0.0.7".toList], 0, Nat.zero_le _, by decide⟩
  ports := PortAllocatorImpl.init.setPorts [passivePorts]

/-- `localhost` is no address, and port 5000 is in use. -/
theorem initPassive_second :
    let calls : PassiveCalls := ⟨controlIP, .ok [], fun _ port => if port = 5000 then .inUse else .okay, []⟩
    ∃ alloc', initPassive 3 inetOne calls .PASV (.init .Normal) passiveAlloc =
      some (.ok (.ofData .IPv4 ⟨[10, 0, 0, 7], rfl⟩, 5001),
        { Data.init .Normal with listening := true, pasvType := .PASV }, alloc') :=
  (initPassive_selects ⟨controlIP, .ok [], fun _ port => if port = 5000 then .inUse else .okay, []⟩ .PASV
    (by decide) (by decide) (by decide)).1

end Example

end Setups

end Ftp
end Ebftpd
