import Mathlib.Algebra.Order.BigOperators.Group.List
import Mathlib.Algebra.Order.Group.Int
import Mathlib.Algebra.Order.Group.Unbundled.Basic
import Mathlib.Algebra.Order.Monoid.Prod
import Mathlib.Algebra.Order.Monoid.Unbundled.Pow
import Ebftpd.Lib.Parties
import Ebftpd.Lib.Run
import Ebftpd.Util.String

/-!
# Ebftpd.Ftp.SpeedCounter

The speeds of all transfers under a limit (`src/ftp/speedcounter.cpp`, `src/ftp/speedcontrol.hpp`). Each
path with a limit has an entry: how many contributions it holds and the sum of their times and
bytes. A transfer replaces its contribution with every `Apply` and takes it away when it is
destroyed; what it contributed is what it remembers in `lastSpeedInfo`. `Update` and `Clear` hold
the mutex, so each is one step, and the steps of the transfers interleave in any order.

`lastSpeedInfo` is written behind the sleep that `Update` asks for. A transfer that is interrupted in
this sleep takes away what it contributed before, or nothing at all.

How long a sleep is comes from the outside (`SpeedLimitSleep`); times are in microseconds.

* `updateLoop_ok`, `clearLoop_ok`: what the two methods do to the entries.
* `step_effect`: what a step can do; `step_exact`: the entries hold what the transfers contribute.
* `speeds_exact`: the same over every interleaving.
-/

namespace Ebftpd
namespace Ftp

open Util Lib Lib.Parties

structure SpeedInfo where
  xfertime : Int
  bytes : Int
  deriving DecidableEq

namespace SpeedCounter

inductive Fault where
  -- an assertion of `operator-=`
  | assertion
  | zeroDivision

/-- `operator+=`. -/
def add (info rhs : SpeedInfo) : SpeedInfo := ⟨info.xfertime + rhs.xfertime, info.bytes + rhs.bytes⟩

/-- `operator-=`. -/
def sub (info rhs : SpeedInfo) : Except Fault SpeedInfo :=
  let info : SpeedInfo := ⟨info.xfertime - rhs.xfertime, info.bytes - rhs.bytes⟩
  if info.xfertime ≥ 0 ∧ info.bytes ≥ 0 then .ok info else .error .assertion

structure SpeedLimit where
  path : Str
  -- of the direction that is counted
  limit : Int

/-- `speeds`: the number of contributions to a path and their sum. -/
abbrev Speeds := Str → Option (Int × SpeedInfo)

variable (speedLimitSleep : Int → Int → Int → Int)

/-- One turn of the loop of `Update`, up to the entry. -/
def updateEntry (last : Option SpeedInfo) (current : SpeedInfo) :
    Option (Int × SpeedInfo) → Except Fault (Int × SpeedInfo)
  | none => .ok (1, current)
  | some (first, second) =>
    match last with
    | some last =>
      match sub second last with
      | .ok second => .ok (first, add second current)
      | .error e => .error e
    | none => .ok (first + 1, add second current)

def updateLoop (last : Option SpeedInfo) (current : SpeedInfo) :
    Speeds → List SpeedLimit → Int → Except Fault (Int × Speeds)
  | speeds, [], sleep => .ok (sleep, speeds)
  | speeds, limit :: limits, sleep =>
    match updateEntry last current (speeds limit.path) with
    | .error e => .error e
    | .ok (first, second) =>
      -- `second.xfertime / first`
      if first = 0 then .error .zeroDivision
      else
        updateLoop last current (Function.update speeds limit.path (some (first, second))) limits
          (max sleep (speedLimitSleep (second.xfertime.tdiv first) second.bytes (limit.limit * 1024)))

def update (last : Option SpeedInfo) (current : SpeedInfo) (limits : List SpeedLimit) (speeds : Speeds) :
    Except Fault (Int × Speeds) :=
  updateLoop speedLimitSleep last current speeds limits 0

/-- One turn of the loop of `Clear`. -/
def clearEntry (last : SpeedInfo) : Option (Int × SpeedInfo) → Except Fault (Option (Int × SpeedInfo))
  | none => .ok none
  | some (first, second) =>
    if first - 1 ≤ 0 then .ok none
    else
      match sub second last with
      | .ok second => .ok (some (first - 1, second))
      | .error e => .error e

def clearLoop (last : SpeedInfo) : Speeds → List SpeedLimit → Except Fault Speeds
  | speeds, [] => .ok speeds
  | speeds, limit :: limits =>
    match clearEntry last (speeds limit.path) with
    | .ok entry => clearLoop last (Function.update speeds limit.path entry) limits
    | .error e => .error e

def clear (last : Option SpeedInfo) (limits : List SpeedLimit) (speeds : Speeds) : Except Fault Speeds :=
  match last with
  | some last => clearLoop last speeds limits
  | none => .ok speeds

/-! ## The transfers -/

/-- Where a transfer stands between two steps. -/
inductive Stage where
  | running
  -- in the sleep of `Apply`, behind `Update`
  | sleeping (current : SpeedInfo)
  -- an exception has left the sleep
  | interrupted (current : SpeedInfo)
  -- an exception has left `Apply` in front of `Update`
  | tooSlow
  | destroyed
  deriving DecidableEq

/-- A `SpeedControl`. -/
structure Transfer where
  globalLimits : List SpeedLimit
  lastSpeedInfo : Option SpeedInfo
  stage : Stage

structure Server where
  speeds : Speeds
  transfers : List Transfer
  fault : Option Fault

def Server.init : Server := ⟨fun _ => none, [], none⟩

def Server.set (s : Server) (i : Nat) (t : Transfer) : Server := { s with transfers := s.transfers.set i t }

inductive Move where
  | begin (globalLimits : List SpeedLimit)
  -- `Apply` up to its sleep, with `state.Duration()` and `state.Bytes()`
  | apply (i : Nat) (xfertime : Int) (bytes : Nat)
  -- `CheckMinimum` throws
  | tooSlow (i : Nat)
  | wake (i : Nat)
  | interrupt (i : Nat)
  | destroy (i : Nat)

/-- `Apply` up to its sleep. -/
def applyUpdate (s : Server) (i : Nat) (t : Transfer) (current : SpeedInfo) : Server :=
  match update speedLimitSleep t.lastSpeedInfo current t.globalLimits s.speeds with
  | .ok (_, speeds) => { s.set i { t with stage := .sleeping current } with speeds := speeds }
  | .error e => { s with fault := some e }

/-- `~SpeedControl`. -/
def destroy (s : Server) (i : Nat) (t : Transfer) : Server :=
  match clear t.lastSpeedInfo t.globalLimits s.speeds with
  | .ok speeds => { s.set i { t with stage := .destroyed } with speeds := speeds }
  | .error e => { s with fault := some e }

def step (s : Server) (m : Move) : Option Server :=
  match s.fault, m with
  | some _, _ => none
  | none, .begin globalLimits => some { s with transfers := s.transfers ++ [⟨globalLimits, none, .running⟩] }
  | none, .apply i xfertime bytes =>
    match s.transfers[i]? with
    | some t =>
      if t.stage = .running then some (applyUpdate speedLimitSleep s i t ⟨xfertime, bytes⟩) else none
    | none => none
  | none, .tooSlow i =>
    match s.transfers[i]? with
    | some t => if t.stage = .running then some (s.set i { t with stage := .tooSlow }) else none
    | none => none
  | none, .wake i =>
    match s.transfers[i]? with
    | some t =>
      match t.stage with
      | .sleeping current => some (s.set i { t with lastSpeedInfo := some current, stage := .running })
      | _ => none
    | none => none
  | none, .interrupt i =>
    match s.transfers[i]? with
    | some t =>
      match t.stage with
      | .sleeping current => some (s.set i { t with stage := .interrupted current })
      | _ => none
    | none => none
  | none, .destroy i =>
    match s.transfers[i]? with
    | some t =>
      match t.stage with
      | .sleeping _ | .destroyed => none
      | .running | .interrupted _ | .tooSlow => some (destroy s i t)
    | none => none

/-! ## What the transfers contribute -/

/-- What a transfer has contributed to the entries of its limits. -/
def Transfer.contribution (t : Transfer) : Option SpeedInfo :=
  match t.stage with
  | .running | .tooSlow => t.lastSpeedInfo
  | .sleeping current | .interrupted current => some current
  | .destroyed => none

/-- A number of contributions, their times and their bytes. -/
abbrev Share := Int × Int × Int

def share : Option SpeedInfo → Share
  | some info => (1, info.xfertime, info.bytes)
  | none => 0

/-- What an entry holds. -/
def held : Option (Int × SpeedInfo) → Share
  | some (first, second) => (first, second.xfertime, second.bytes)
  | none => 0

/-- How often a path occurs in a list of limits. -/
def occurrences (limits : List SpeedLimit) (path : Str) : Nat := (limits.map (·.path)).count path

/-- What a transfer contributes to a path. -/
def Transfer.shareOf (t : Transfer) (path : Str) : Share :=
  occurrences t.globalLimits path • share t.contribution

/-- The live contributions to a path: their number and their sum. -/
def Server.live (s : Server) (path : Str) : Share := (s.transfers.map (·.shareOf path)).sum

theorem occurrences_cons_self (limit : SpeedLimit) (limits : List SpeedLimit) :
    occurrences (limit :: limits) limit.path = occurrences limits limit.path + 1 := by
  unfold occurrences
  rw [List.map_cons, List.count_cons_self]

theorem occurrences_cons_of_ne {limit : SpeedLimit} {path : Str} (h : path ≠ limit.path)
    (limits : List SpeedLimit) : occurrences (limit :: limits) path = occurrences limits path := by
  unfold occurrences
  rw [List.map_cons, List.count_cons_of_ne (Ne.symm h)]

/-! ## The two methods -/

/-- No entry is left without a contribution. -/
def Positive (entry : Option (Int × SpeedInfo)) : Prop :=
  ∀ first second, entry = some (first, second) → 0 < first

theorem Positive.eq_none {entry : Option (Int × SpeedInfo)} (h : Positive entry)
    (hzero : (held entry).1 = 0) : entry = none := by
  cases entry with
  | none => rfl
  | some e =>
    have hpos := h e.1 e.2 rfl
    have : e.1 = 0 := hzero
    omega

section Entries

variable {last current : SpeedInfo} {entry : Option (Int × SpeedInfo)}

theorem sub_ok {info rhs : SpeedInfo} {first : Int}
    (h : share (some rhs) ≤ (first, info.xfertime, info.bytes)) :
    sub info rhs = .ok ⟨info.xfertime - rhs.xfertime, info.bytes - rhs.bytes⟩ := by
  obtain ⟨-, hx, hb⟩ : (1 : Int) ≤ first ∧ rhs.xfertime ≤ info.xfertime ∧ rhs.bytes ≤ info.bytes := h
  exact if_pos ⟨Int.sub_nonneg.mpr hx, Int.sub_nonneg.mpr hb⟩

/-- The entry has the old contribution replaced by the new one. -/
theorem updateEntry_ok {last : Option SpeedInfo} (hlast : share last ≤ held entry) (hpos : Positive entry) :
    ∃ first second, updateEntry last current entry = .ok (first, second) ∧ 0 < first ∧
      held (some (first, second)) = held entry - share last + share (some current) := by
  cases entry with
  | none =>
    cases last with
    | none => exact ⟨1, current, rfl, by decide, by simp [held, share]⟩
    | some l =>
      have : (1 : Int) ≤ 0 := hlast.1
      omega
  | some e =>
    obtain ⟨first, second⟩ := e
    have hfirst : 0 < first := hpos first second rfl
    cases last with
    | none =>
      refine ⟨first + 1, add second current, rfl, by omega, ?_⟩
      simp [held, share, add]
    | some l =>
      refine ⟨first, add ⟨second.xfertime - l.xfertime, second.bytes - l.bytes⟩ current, ?_, hfirst, ?_⟩
      · rw [updateEntry]
        simp only [sub_ok hlast]
      · simp [held, share, add]

theorem updateLoop_ok (speedLimitSleep : Int → Int → Int → Int) {last : Option SpeedInfo}
    (hlast : 0 ≤ share last) (hcurrent : 0 ≤ share (some current)) (limits : List SpeedLimit) :
    ∀ (speeds : Speeds) (sleep : Int),
      (∀ path, occurrences limits path • share last ≤ held (speeds path)) →
      (∀ path, Positive (speeds path)) →
      ∃ sleep' speeds', updateLoop speedLimitSleep last current speeds limits sleep = .ok (sleep', speeds') ∧
        (∀ path, Positive (speeds' path)) ∧
        ∀ path, held (speeds' path) =
          held (speeds path) + occurrences limits path • (share (some current) - share last) := by
  induction limits with
  | nil =>
    intro speeds sleep _ hpos
    exact ⟨sleep, speeds, rfl, hpos, fun path => by simp [occurrences]⟩
  | cons limit limits ih =>
    intro speeds sleep hfloor hpos
    have hhere : share last + occurrences limits limit.path • share last ≤ held (speeds limit.path) := by
      have := hfloor limit.path
      rwa [occurrences_cons_self, succ_nsmul'] at this
    have hrest : 0 ≤ occurrences limits limit.path • share last := nsmul_nonneg hlast _
    obtain ⟨first, second, hentry, hfirst, hheld⟩ :
        ∃ first second, updateEntry last current (speeds limit.path) = .ok (first, second) ∧ 0 < first ∧
          held (some (first, second)) = held (speeds limit.path) - share last + share (some current) :=
      updateEntry_ok (le_trans (le_add_of_nonneg_right hrest) hhere) (hpos limit.path)
    -- the limits that are left find what they hold, also where they have the same path
    have hfloor' : ∀ path, occurrences limits path • share last ≤
        held (Function.update speeds limit.path (some (first, second)) path) := by
      refine (Function.forall_update_iff speeds
        fun path entry => occurrences limits path • share last ≤ held entry).mpr ⟨?_, fun path hpath => ?_⟩
      · rw [hheld]
        exact le_trans (le_sub_iff_add_le'.mpr hhere) (le_add_of_nonneg_right hcurrent)
      · have := hfloor path
        rwa [occurrences_cons_of_ne hpath] at this
    have hpos' : ∀ path, Positive (Function.update speeds limit.path (some (first, second)) path) := by
      refine (Function.forall_update_iff speeds fun _ entry => Positive entry).mpr
        ⟨fun f s hsome => ?_, fun path _ => hpos path⟩
      cases hsome
      exact hfirst
    obtain ⟨sleep', speeds', hloop, hpositive, hheld'⟩ := ih _
      (max sleep (speedLimitSleep (second.xfertime.tdiv first) second.bytes (limit.limit * 1024)))
      hfloor' hpos'
    refine ⟨sleep', speeds', ?_, hpositive, fun path => ?_⟩
    · rw [updateLoop, hentry]
      simp only [if_neg (by omega : ¬first = 0)]
      exact hloop
    · rw [hheld']
      by_cases hpath : path = limit.path
      · rw [hpath, Function.update_self, hheld, occurrences_cons_self, succ_nsmul]
        abel
      · rw [Function.update_of_ne hpath, occurrences_cons_of_ne hpath]

/-- In the middle of `Clear`: the limits that are left hold the last contribution and `rest`. Where
nobody else contributes, more may be left than the last contribution, which the last turn drops. -/
structure Clearing (rest : Str → Share) (last : SpeedInfo) (limits : List SpeedLimit) (speeds : Speeds) :
    Prop where
  positive : ∀ path, Positive (speeds path)
  count : ∀ path, (held (speeds path)).1 = (rest path).1 + occurrences limits path
  floor : ∀ path, occurrences limits path • share (some last) ≤ held (speeds path)
  others : ∀ path, (rest path).1 ≠ 0 →
    held (speeds path) = rest path + occurrences limits path • share (some last)

theorem clearEntry_ok {r : Int} {k : Nat} (hr : 0 ≤ r) (hlast : 0 ≤ share (some last))
    (hcount : (held entry).1 = r + (k + 1)) (hfloor : (k + 1) • share (some last) ≤ held entry) :
    ∃ entry', clearEntry last entry = .ok entry' ∧ Positive entry' ∧
      ((r = 0 ∧ k = 0 ∧ entry' = none) ∨ held entry' = held entry - share (some last)) := by
  cases entry with
  | none =>
    have : (0 : Int) = r + (k + 1) := hcount
    omega
  | some e =>
    obtain ⟨first, second⟩ := e
    have hfirst : first = r + (k + 1) := hcount
    by_cases hgone : first - 1 ≤ 0
    · refine ⟨none, ?_, (fun _ _ h => by cases h), .inl ⟨by omega, by omega, rfl⟩⟩
      simp [clearEntry, hgone]
    · have hle : share (some last) ≤ (first, second.xfertime, second.bytes) := by
        rw [succ_nsmul'] at hfloor
        exact le_trans (le_add_of_nonneg_right (nsmul_nonneg hlast k)) hfloor
      refine ⟨some (first - 1, ⟨second.xfertime - last.xfertime, second.bytes - last.bytes⟩), ?_, ?_, .inr ?_⟩
      · rw [clearEntry, if_neg hgone, sub_ok hle]
      · intro f s hsome
        cases hsome
        omega
      · simp [held, share]

theorem clearLoop_ok {rest : Str → Share} (hrest : ∀ path, 0 ≤ (rest path).1)
    (hzero : ∀ path, (rest path).1 = 0 → rest path = 0) (hlast : 0 ≤ share (some last))
    (limits : List SpeedLimit) :
    ∀ speeds : Speeds, Clearing rest last limits speeds →
      ∃ speeds', clearLoop last speeds limits = .ok speeds' ∧ (∀ path, Positive (speeds' path)) ∧
        ∀ path, held (speeds' path) = rest path := by
  induction limits with
  | nil =>
    intro speeds h
    refine ⟨speeds, rfl, h.positive, fun path => ?_⟩
    by_cases hnone : (rest path).1 = 0
    · have hcount := h.count path
      rw [hnone] at hcount
      rw [(h.positive path).eq_none (by simpa [occurrences] using hcount), hzero path hnone]
      rfl
    · rw [h.others path hnone]
      simp [occurrences]
  | cons limit limits ih =>
    intro speeds h
    have hcount := h.count limit.path
    have hfloor := h.floor limit.path
    rw [occurrences_cons_self] at hcount hfloor
    push_cast at hcount
    obtain ⟨entry', hentry, hpositive, hheld⟩ := clearEntry_ok (hrest limit.path) hlast hcount hfloor
    have hclearing : Clearing rest last limits (Function.update speeds limit.path entry') := by
      refine ⟨?_, ?_, ?_, ?_⟩
      · exact (Function.forall_update_iff speeds fun _ entry => Positive entry).mpr
          ⟨hpositive, fun path _ => h.positive path⟩
      · refine (Function.forall_update_iff speeds
          fun path entry => (held entry).1 = (rest path).1 + occurrences limits path).mpr
          ⟨?_, fun path hpath => ?_⟩
        · rcases hheld with ⟨hr, hk, rfl⟩ | hheld
          · rw [hr, hk]
            rfl
          · rw [hheld, Prod.fst_sub, hcount]
            simp only [share]
            omega
        · have := h.count path
          rwa [occurrences_cons_of_ne hpath] at this
      · refine (Function.forall_update_iff speeds
          fun path entry => occurrences limits path • share (some last) ≤ held entry).mpr
          ⟨?_, fun path hpath => ?_⟩
        · rcases hheld with ⟨-, hk, rfl⟩ | hheld
          · rw [hk, zero_nsmul]
            rfl
          · rw [hheld]
            rw [succ_nsmul'] at hfloor
            exact le_sub_iff_add_le'.mpr hfloor
        · have := h.floor path
          rwa [occurrences_cons_of_ne hpath] at this
      · refine (Function.forall_update_iff speeds
          fun path entry => (rest path).1 ≠ 0 →
            held entry = rest path + occurrences limits path • share (some last)).mpr
          ⟨fun hne => ?_, fun path hpath hne => ?_⟩
        · have hothers := h.others limit.path hne
          rcases hheld with ⟨hr, -, -⟩ | hheld
          · exact absurd hr hne
          · rw [hheld, hothers, occurrences_cons_self, succ_nsmul]
            abel
        · have hothers := h.others path hne
          rwa [occurrences_cons_of_ne hpath] at hothers
    obtain ⟨speeds', hloop, hpos', hheld'⟩ := ih _ hclearing
    refine ⟨speeds', ?_, hpos', hheld'⟩
    rw [clearLoop, hentry]
    exact hloop

end Entries

/-! ## The live contributions -/

/-- What a transfer contributed, and what it remembers of it, is not negative. -/
def Transfer.Nonneg (t : Transfer) : Prop := 0 ≤ share t.lastSpeedInfo ∧ 0 ≤ share t.contribution

section Live

variable {s : Server} {t : Transfer} {i : Nat}

theorem shareOf_nonneg (ht : t.Nonneg) (path : Str) : 0 ≤ t.shareOf path := nsmul_nonneg ht.2 _

/-- A share without a contribution is nothing. -/
theorem shareOf_eq_zero {path : Str} (h : (t.shareOf path).1 = 0) : t.shareOf path = 0 := by
  unfold Transfer.shareOf at h ⊢
  cases hcontribution : t.contribution with
  | none => simp [share]
  | some info =>
    have hcount : occurrences t.globalLimits path = 0 := by
      rw [hcontribution, Prod.smul_fst] at h
      simpa [share] using h
    rw [hcount, zero_nsmul]

theorem live_set (ht : s.transfers[i]? = some t) (t' : Transfer) (path : Str) :
    (s.set i t').live path = s.live path - t.shareOf path + t'.shareOf path :=
  sum_map_set (fun u : Transfer => u.shareOf path) ht

theorem live_nonneg (hs : ∀ t ∈ s.transfers, t.Nonneg) (path : Str) : 0 ≤ s.live path := by
  refine List.sum_nonneg fun x hx => ?_
  obtain ⟨t, ht, rfl⟩ := List.mem_map.mp hx
  exact shareOf_nonneg (hs t ht) path

theorem shareOf_le_live (hs : ∀ t ∈ s.transfers, t.Nonneg) (ht : t ∈ s.transfers) (path : Str) :
    t.shareOf path ≤ s.live path := by
  refine List.single_le_sum ?_ _ (List.mem_map_of_mem ht)
  intro x hx
  obtain ⟨u, hu, rfl⟩ := List.mem_map.mp hx
  exact shareOf_nonneg (hs u hu) path

theorem live_eq_zero {path : Str} (h : ∀ t ∈ s.transfers, t.shareOf path = 0) : s.live path = 0 := by
  refine List.sum_eq_zero fun x hx => ?_
  obtain ⟨t, ht, rfl⟩ := List.mem_map.mp hx
  exact h t ht

/-- Where nobody contributes, there is no time and there are no bytes. -/
theorem live_eq_zero_of_count (hs : ∀ t ∈ s.transfers, t.Nonneg) {path : Str} (h : (s.live path).1 = 0) :
    s.live path = 0 := by
  refine live_eq_zero fun t ht => shareOf_eq_zero ?_
  have hle := (shareOf_le_live hs ht path).1
  have hnonneg := (shareOf_nonneg (hs t ht) path).1
  rw [h] at hle
  exact le_antisymm hle hnonneg

end Live

/-! ## One step -/

/-- Every step, with the transfer that takes it. -/
inductive Effect (speedLimitSleep : Int → Int → Int → Int) (s s' : Server) : Move → Prop
  | begun (globalLimits : List SpeedLimit)
    (hs' : s' = { s with transfers := s.transfers ++ [⟨globalLimits, none, .running⟩] }) :
    Effect speedLimitSleep s s' (.begin globalLimits)
  | applied (i : Nat) (t : Transfer) (xfertime : Int) (bytes : Nat) (ht : s.transfers[i]? = some t)
    (hstage : t.stage = .running) (hs' : s' = applyUpdate speedLimitSleep s i t ⟨xfertime, bytes⟩) :
    Effect speedLimitSleep s s' (.apply i xfertime bytes)
  | tooSlow (i : Nat) (t : Transfer) (ht : s.transfers[i]? = some t) (hstage : t.stage = .running)
    (hs' : s' = s.set i { t with stage := .tooSlow }) : Effect speedLimitSleep s s' (.tooSlow i)
  | woken (i : Nat) (t : Transfer) (current : SpeedInfo) (ht : s.transfers[i]? = some t)
    (hstage : t.stage = .sleeping current)
    (hs' : s' = s.set i { t with lastSpeedInfo := some current, stage := .running }) :
    Effect speedLimitSleep s s' (.wake i)
  | interrupted (i : Nat) (t : Transfer) (current : SpeedInfo) (ht : s.transfers[i]? = some t)
    (hstage : t.stage = .sleeping current) (hs' : s' = s.set i { t with stage := .interrupted current }) :
    Effect speedLimitSleep s s' (.interrupt i)
  | destroyed (i : Nat) (t : Transfer) (ht : s.transfers[i]? = some t)
    (hstage : t.stage = .running ∨ t.stage = .tooSlow ∨ ∃ current, t.stage = .interrupted current)
    (hs' : s' = destroy s i t) : Effect speedLimitSleep s s' (.destroy i)

theorem step_effect {speedLimitSleep : Int → Int → Int → Int} {s s' : Server} {m : Move}
    (h : step speedLimitSleep s m = some s') : Effect speedLimitSleep s s' m := by
  unfold step at h
  split at h
  · cases h
  · cases h
    exact .begun _ (by simp [*])
  · split at h
    · split at h
      · cases h
        exact .applied _ _ _ _ ‹_› ‹_› rfl
      · cases h
    · cases h
  · split at h
    · split at h
      · cases h
        exact .tooSlow _ _ ‹_› ‹_› rfl
      · cases h
    · cases h
  · split at h
    · split at h
      · cases h
        exact .woken _ _ _ ‹_› ‹_› rfl
      · cases h
    · cases h
  · split at h
    · split at h
      · cases h
        exact .interrupted _ _ _ ‹_› ‹_› rfl
      · cases h
    · cases h
  · split at h
    · split at h
      · cases h
      · cases h
      · cases h
        exact .destroyed _ _ ‹_› (.inl ‹_›) rfl
      · cases h
        exact .destroyed _ _ ‹_› (.inr (.inr ⟨_, ‹_›⟩)) rfl
      · cases h
        exact .destroyed _ _ ‹_› (.inr (.inl ‹_›)) rfl
    · cases h

/-! ## Over a run -/

/-- The entries hold the live contributions, and no assertion has failed. -/
structure Exact (s : Server) : Prop where
  fault : s.fault = none
  held : ∀ path, held (s.speeds path) = s.live path
  positive : ∀ path, Positive (s.speeds path)
  nonneg : ∀ t ∈ s.transfers, t.Nonneg

theorem exact_init : Exact .init :=
  ⟨rfl, fun _ => rfl, fun _ _ _ h => (by cases h), fun _ h => (by cases h)⟩

/-- No other transfer contributes to a path of this one. -/
def alone (s : Server) (i : Nat) (t : Transfer) : Bool :=
  (s.transfers.eraseIdx i).all fun u =>
    u.contribution.isNone || t.globalLimits.all fun limit => occurrences u.globalLimits limit.path == 0

/-- What a transfer takes away that was interrupted in its sleep is what it contributed, or it remembers
no more than that and nobody else contributes to its paths. -/
def settled (s : Server) (i : Nat) (t : Transfer) (current : SpeedInfo) : Bool :=
  t.globalLimits.isEmpty ||
    match t.lastSpeedInfo with
    | some last =>
      last == current ||
        (decide (last.xfertime ≤ current.xfertime) && decide (last.bytes ≤ current.bytes) && alone s i t)
    | none => false

def settles (s : Server) (i : Nat) : Bool :=
  match s.transfers[i]? with
  | some t =>
    match t.stage with
    | .interrupted current => settled s i t current
    | _ => true
  | none => true

/-- The clock is not behind the start of a transfer that updates, and a transfer that is destroyed
behind an interrupted sleep takes away what it contributed. -/
def Settled (s : Server) : Move → Prop
  | .apply _ xfertime _ => 0 ≤ xfertime
  | .destroy i => settles s i = true
  | _ => True

instance (s : Server) : ∀ m : Move, Decidable (Settled s m)
  | .begin _ => .isTrue trivial
  | .apply _ xfertime _ => inferInstanceAs (Decidable (0 ≤ xfertime))
  | .tooSlow _ => .isTrue trivial
  | .wake _ => .isTrue trivial
  | .interrupt _ => .isTrue trivial
  | .destroy i => inferInstanceAs (Decidable (settles s i = true))

/-- Nobody contributes to the paths of a transfer but itself. -/
theorem alone_live {s : Server} {t : Transfer} {i : Nat} (ht : s.transfers[i]? = some t)
    (halone : alone s i t = true) {path : Str}
    (hpath : occurrences t.globalLimits path ≠ 0) :
    (s.set i { t with stage := .destroyed }).live path = 0 := by
  have hothers := List.all_eq_true.mp halone
  refine live_eq_zero fun u hu => ?_
  obtain ⟨j, hj⟩ := List.mem_iff_getElem?.mp hu
  have hu' : (s.transfers.set i { t with stage := .destroyed })[j]? = some u := hj
  by_cases hij : i = j
  · subst hij
    rw [List.getElem?_set_self (List.getElem?_eq_some_iff.mp ht).1] at hu'
    cases hu'
    exact nsmul_zero _
  · rw [List.getElem?_set_ne hij] at hu'
    have hother := hothers u (List.mem_eraseIdx_iff_getElem?.mpr ⟨j, Ne.symm hij, hu'⟩)
    rw [Bool.or_eq_true] at hother
    rcases hother with hnone | hapart
    · rw [Transfer.shareOf, Option.isNone_iff_eq_none.mp hnone]
      exact nsmul_zero _
    · -- a path of the transfer is the path of one of its limits
      obtain ⟨limit, hlimit, rfl⟩ :=
        List.mem_map.mp (List.count_pos_iff.mp (Nat.pos_of_ne_zero hpath))
      have hzero := beq_iff_eq.mp (List.all_eq_true.mp hapart limit hlimit)
      rw [Transfer.shareOf, hzero, zero_nsmul]

section Steps

variable {speedLimitSleep : Int → Int → Int → Int} {s s' : Server} {t : Transfer} {i : Nat}
  (hs : Exact s) (ht : s.transfers[i]? = some t)

include hs ht

/-- A step that leaves the shares of a transfer as they were. -/
theorem exact_set {t' : Transfer} (hshare : ∀ path, t'.shareOf path = t.shareOf path) (ht' : t'.Nonneg) :
    Exact (s.set i t') := by
  refine ⟨hs.fault, fun path => ?_, hs.positive, forall_set hs.nonneg ht'⟩
  rw [live_set ht, hshare, sub_add_cancel]
  exact hs.held path

/-- A step that leaves the contribution of a transfer as it was. -/
theorem exact_stage {t' : Transfer} (hlimits : t'.globalLimits = t.globalLimits)
    (hcontribution : t'.contribution = t.contribution) (hlast : 0 ≤ share t'.lastSpeedInfo) :
    Exact (s.set i t') := by
  refine exact_set hs ht (fun path => ?_) ⟨hlast, ?_⟩
  · rw [Transfer.shareOf, Transfer.shareOf, hlimits, hcontribution]
  · rw [hcontribution]
    exact (hs.nonneg t (List.mem_of_getElem? ht)).2

theorem applyUpdate_exact {current : SpeedInfo} (hstage : t.stage = .running)
    (hcurrent : 0 ≤ share (some current)) : Exact (applyUpdate speedLimitSleep s i t current) := by
  have hmem := List.mem_of_getElem? ht
  have hnonneg := hs.nonneg t hmem
  have hshare : ∀ path, t.shareOf path = occurrences t.globalLimits path • share t.lastSpeedInfo := by
    intro path
    simp [Transfer.shareOf, Transfer.contribution, hstage]
  have hfloor : ∀ path, occurrences t.globalLimits path • share t.lastSpeedInfo ≤ held (s.speeds path) := by
    intro path
    rw [← hshare, hs.held]
    exact shareOf_le_live hs.nonneg hmem path
  obtain ⟨sleep, speeds, hupdate, hpositive, hheld⟩ :=
    updateLoop_ok speedLimitSleep hnonneg.1 hcurrent t.globalLimits s.speeds 0 hfloor hs.positive
  unfold applyUpdate update
  rw [hupdate]
  refine ⟨hs.fault, fun path => ?_, hpositive, forall_set hs.nonneg ⟨hnonneg.1, hcurrent⟩⟩
  have hlive := live_set ht { t with stage := .sleeping current } path
  have hnew : Transfer.shareOf { t with stage := .sleeping current } path =
      occurrences t.globalLimits path • share (some current) := rfl
  rw [hshare, hnew] at hlive
  show held (speeds path) = (s.set i { t with stage := .sleeping current }).live path
  rw [hheld, hs.held, hlive, nsmul_sub]
  abel

/-- A transfer is destroyed that has nothing in the entries. -/
theorem destroy_none (hlast : t.lastSpeedInfo = none) (hnone : ∀ path, t.shareOf path = 0) :
    Exact (destroy s i t) := by
  have hdestroyed : destroy s i t = s.set i { t with stage := .destroyed } := by
    unfold destroy
    rw [hlast]
    rfl
  rw [hdestroyed]
  refine exact_set hs ht (fun path => ?_) ⟨(hs.nonneg t (List.mem_of_getElem? ht)).1, le_refl _⟩
  rw [hnone]
  exact nsmul_zero _

/-- A transfer is destroyed that remembers what it contributed, or less where it is the last one. -/
theorem destroy_some {last current : SpeedInfo} (hlast : t.lastSpeedInfo = some last)
    (hcontribution : t.contribution = some current)
    (hsettled : ∀ path, occurrences t.globalLimits path = 0 ∨ last = current ∨
      share (some last) ≤ share (some current) ∧
        (s.set i { t with stage := .destroyed }).live path = 0) : Exact (destroy s i t) := by
  have hmem := List.mem_of_getElem? ht
  have hlast0 : 0 ≤ share (some last) := hlast ▸ (hs.nonneg t hmem).1
  have hshare : ∀ path, t.shareOf path = occurrences t.globalLimits path • share (some current) := by
    intro path
    rw [Transfer.shareOf, hcontribution]
  have hlive : ∀ path, s.live path =
      (s.set i { t with stage := .destroyed }).live path + t.shareOf path := by
    intro path
    have hgone : Transfer.shareOf { t with stage := .destroyed } path = 0 := nsmul_zero _
    rw [live_set ht, hgone]
    abel
  have hnonneg : ∀ u ∈ (s.set i { t with stage := .destroyed }).transfers, u.Nonneg :=
    forall_set hs.nonneg ⟨(hs.nonneg t hmem).1, le_refl _⟩
  have hclearing : Clearing (s.set i { t with stage := .destroyed }).live last t.globalLimits s.speeds := by
    refine ⟨hs.positive, fun path => ?_, fun path => ?_, fun path hne => ?_⟩
    · rw [hs.held, hlive, hshare, Prod.fst_add, Prod.smul_fst]
      simp [share]
    · rw [hs.held]
      refine le_trans ?_ (shareOf_le_live hs.nonneg hmem path)
      rw [hshare]
      rcases hsettled path with hnone | rfl | ⟨hle, -⟩
      · rw [hnone, zero_nsmul, zero_nsmul]
      · exact le_refl _
      · exact nsmul_le_nsmul_right hle _
    · rw [hs.held, hlive, hshare]
      rcases hsettled path with hnone | rfl | ⟨-, hzero⟩
      · rw [hnone, zero_nsmul, zero_nsmul]
      · rfl
      · rw [hzero] at hne
        exact absurd rfl hne
  obtain ⟨speeds, hclear, hpositive, hheld⟩ := clearLoop_ok (fun path => (live_nonneg hnonneg path).1)
    (fun path => live_eq_zero_of_count hnonneg) hlast0 t.globalLimits s.speeds hclearing
  have hcall : clear t.lastSpeedInfo t.globalLimits s.speeds = .ok speeds := by
    rw [hlast]
    exact hclear
  unfold destroy
  rw [hcall]
  exact ⟨hs.fault, hheld, hpositive, hnonneg⟩

/-- A transfer is destroyed that was not interrupted in a sleep. -/
theorem destroy_kept (hstage : t.stage = .running ∨ t.stage = .tooSlow) : Exact (destroy s i t) := by
  have hcontribution : t.contribution = t.lastSpeedInfo := by
    unfold Transfer.contribution
    rcases hstage with hstage | hstage <;> rw [hstage]
  cases hlast : t.lastSpeedInfo with
  | none =>
    refine destroy_none hs ht hlast fun path => ?_
    rw [Transfer.shareOf, hcontribution, hlast]
    exact nsmul_zero _
  | some last =>
    exact destroy_some hs ht hlast (hcontribution.trans hlast) fun path => .inr (.inl rfl)

/-- A transfer is destroyed that was interrupted in a sleep. -/
theorem destroy_interrupted {current : SpeedInfo} (hstage : t.stage = .interrupted current)
    (hsettled : settled s i t current = true) : Exact (destroy s i t) := by
  have hcontribution : t.contribution = some current := by
    unfold Transfer.contribution
    rw [hstage]
  unfold settled at hsettled
  cases hempty : t.globalLimits.isEmpty with
  | true =>
    have hnowhere : ∀ path, occurrences t.globalLimits path = 0 := by
      intro path
      rw [List.isEmpty_iff.mp hempty]
      rfl
    cases hlast : t.lastSpeedInfo with
    | none =>
      refine destroy_none hs ht hlast fun path => ?_
      rw [Transfer.shareOf, hnowhere, zero_nsmul]
    | some last => exact destroy_some hs ht hlast hcontribution fun path => .inl (hnowhere path)
  | false =>
    rw [hempty, Bool.false_or] at hsettled
    cases hlast : t.lastSpeedInfo with
    | none =>
      rw [hlast] at hsettled
      cases hsettled
    | some last =>
      rw [hlast] at hsettled
      simp only [Bool.or_eq_true, beq_iff_eq, Bool.and_eq_true, decide_eq_true_eq] at hsettled
      refine destroy_some hs ht hlast hcontribution fun path => ?_
      rcases hsettled with rfl | ⟨⟨hx, hb⟩, halone⟩
      · exact .inr (.inl rfl)
      · by_cases hpath : occurrences t.globalLimits path = 0
        · exact .inl hpath
        · exact .inr (.inr ⟨⟨le_refl (1 : Int), hx, hb⟩, alone_live ht halone hpath⟩)

end Steps

theorem step_exact {speedLimitSleep : Int → Int → Int → Int} (s : Server) (m : Move) (s' : Server)
    (hs : Exact s) (hm : Settled s m) (h : step speedLimitSleep s m = some s') : Exact s' := by
  cases step_effect h with
  | begun globalLimits hs' =>
    rw [hs']
    refine ⟨hs.fault, fun path => ?_, hs.positive, fun t ht => ?_⟩
    · show held (s.speeds path) = _
      rw [hs.held, Server.live, Server.live, List.map_append, List.sum_append]
      simp [Transfer.shareOf, Transfer.contribution, share]
    · rcases List.mem_append.mp ht with ht | ht
      · exact hs.nonneg t ht
      · rw [List.mem_singleton.mp ht]
        exact ⟨le_refl _, le_refl _⟩
  | applied i t xfertime bytes ht hstage hs' =>
    rw [hs']
    exact applyUpdate_exact hs ht hstage ⟨(by decide : (0 : Int) ≤ 1), hm, Int.natCast_nonneg bytes⟩
  | tooSlow i t ht hstage hs' =>
    rw [hs']
    exact exact_stage hs ht rfl (by simp [Transfer.contribution, hstage])
      (hs.nonneg t (List.mem_of_getElem? ht)).1
  | woken i t current ht hstage hs' =>
    have hcontribution : t.contribution = some current := by
      simp [Transfer.contribution, hstage]
    have hnonneg := (hs.nonneg t (List.mem_of_getElem? ht)).2
    rw [hcontribution] at hnonneg
    rw [hs']
    -- what it remembers now is what it contributed
    exact exact_stage hs ht rfl hcontribution.symm hnonneg
  | interrupted i t current ht hstage hs' =>
    rw [hs']
    exact exact_stage hs ht rfl (by simp [Transfer.contribution, hstage])
      (hs.nonneg t (List.mem_of_getElem? ht)).1
  | destroyed i t ht hstage hs' =>
    rw [hs']
    rcases hstage with hstage | hstage | ⟨current, hstage⟩
    · exact destroy_kept hs ht (.inl hstage)
    · exact destroy_kept hs ht (.inr hstage)
    · refine destroy_interrupted hs ht hstage ?_
      have hsettles : settles s i = true := hm
      simpa only [settles, ht, hstage] using hsettles

/-- Over every interleaving of the transfers in which what is destroyed is settled: no assertion fails and
no count is zero that is divided by, each entry holds the number and the sum of the live contributions
to its path, and it is gone when the last transfer that contributes to it is destroyed. -/
theorem speeds_exact (speedLimitSleep : Int → Int → Int → Int) (moves : List Move) {s : Server}
    (hrun : run (step speedLimitSleep) .init moves = some s)
    (hsettled : Meets (step speedLimitSleep) Settled .init moves) :
    s.fault = none ∧
      (∀ path first second, s.speeds path = some (first, second) →
        0 < first ∧ s.live path = (first, second.xfertime, second.bytes)) ∧
      (∀ path, s.speeds path = none ↔ s.live path = 0) ∧
      ∀ path, (∀ t ∈ s.transfers, t.stage = .destroyed ∨ path ∉ t.globalLimits.map (·.path)) →
        s.speeds path = none := by
  have hexact : Exact s := run_invariant_of_meets step_exact moves exact_init hsettled hrun
  have hgone : ∀ path, s.speeds path = none ↔ s.live path = 0 := by
    intro path
    rw [← hexact.held]
    refine ⟨fun hnone => by rw [hnone]; rfl, fun hzero => ?_⟩
    exact (hexact.positive path).eq_none (by rw [hzero]; rfl)
  refine ⟨hexact.fault, fun path first second hentry => ⟨hexact.positive path first second hentry, ?_⟩,
    hgone, fun path hdestroyed => ?_⟩
  · rw [← hexact.held, hentry]
    rfl
  · refine (hgone path).mpr (live_eq_zero fun t ht => ?_)
    rcases hdestroyed t ht with hstage | hpath
    · rw [Transfer.shareOf, Transfer.contribution, hstage]
      exact nsmul_zero _
    · rw [Transfer.shareOf, occurrences, List.count_eq_zero.mpr hpath, zero_nsmul]

def exampleLimit : SpeedLimit := ⟨"/".toList, 10⟩

/-- Two transfers, one with the path twice, of which one is too slow and the other is interrupted where
nothing has moved since its last sleep. -/
def exampleMoves : List Move :=
  [.begin [exampleLimit, exampleLimit], .begin [exampleLimit], .apply 0 5 100, .apply 1 7 30, .wake 0,
    .wake 1, .apply 1 9 60, .wake 1, .tooSlow 1, .destroy 1, .apply 0 5 100, .interrupt 0, .destroy 0]

theorem speeds_exact_two :
    ∃ s, run (step fun _ _ _ => 0) .init exampleMoves = some s ∧
      Meets (step fun _ _ _ => 0) Settled .init exampleMoves ∧ s.fault = none ∧
      s.speeds "/".toList = none := by
  obtain ⟨s, hrun, hend⟩ : ∃ s, run (step fun _ _ _ => 0) .init exampleMoves = some s ∧
      ∀ t ∈ s.transfers, t.stage = .destroyed := run_ends (by decide)
  have hsettled : Meets (step fun _ _ _ => 0) Settled .init exampleMoves := by decide
  have hexact := speeds_exact _ exampleMoves hrun hsettled
  exact ⟨s, hrun, hsettled, hexact.1, hexact.2.2.2 _ fun t ht => .inl (hend t ht)⟩

/-- A transfer that is interrupted in its first sleep is destroyed without what it contributed: every
transfer is gone and the entry is left. -/
theorem interrupted_sleep_leaves_entry :
    ∃ s, run (step fun _ _ _ => 0) .init [.begin [exampleLimit], .apply 0 5 100, .interrupt 0, .destroy 0] =
        some s ∧
      (∀ t ∈ s.transfers, t.stage = .destroyed) ∧ s.live "/".toList = 0 ∧
      s.speeds "/".toList = some (1, ⟨5, 100⟩) :=
  ⟨_, rfl, by decide, by decide, by decide⟩

end SpeedCounter
end Ftp
end Ebftpd
