import Ebftpd.Db.Credits
import Ebftpd.Stats.Util

/-!
# Ebftpd.Cmd.Retr

`RETR` (`src/cmd/rfc/retr.cpp`) as far as it moves credits. The whole file is charged up front, at
`size / 1024 * ratio`. From the moment the data connection is open a scope guard settles the charge
at every exit: what was not sent is given back, what the file has grown by is taken on top.

`RetrCalls` holds what the calls of one `RETR` return, in their order; `retr` is `Execute` on them.
A transfer is the buffers it sent and the way it ended. `State().Update` counts a buffer before it
is written, so a write that fails leaves a buffer counted that was sent in part or not at all.

* `settled_value`: the credits taken, over every exit behind the charge.
* `retr_exact_iff`: exactly when they are the kilobytes sent times the ratio, up to one kilobyte.
-/

namespace Ebftpd
namespace Cmd

open Util Lib Lib.Cells Acl Acl.Path Db

inductive WriteError where
  | aborted
  | network
  | control
  | interrupted
  deriving DecidableEq

/-- How the transfer loop ends. The last buffer of `len` bytes, of which `sent` went out. -/
inductive LoopEnd where
  | eof
  | readError
  | writeError (len sent : Nat) (e : WriteError)
  | tooSlow (len sent : Nat)

/-- `State().Bytes()`, and the bytes that went out. -/
structure Progress where
  bytes : Nat := 0
  sent : Nat := 0

/-- A buffer of `len` bytes: counted, then written as `sent` bytes. -/
def Progress.buffer (p : Progress) (len sent : Nat) : Progress :=
  { bytes := p.bytes + len, sent := p.sent + sent }

/-- The transfer loop over the buffers that were sent whole; in ASCII mode more bytes go out than
were read. -/
def transferLoop : Progress → List (Nat × Nat) → LoopEnd → Progress
  | p, (len, sent) :: buffers, e => transferLoop (p.buffer len sent) buffers e
  | p, [], .eof => p
  | p, [], .readError => p
  | p, [], .writeError len sent _ => p.buffer len sent
  | p, [], .tooSlow len sent => p.buffer len sent

/-- What the calls of one `RETR` return. -/
structure RetrCalls where
  ascii : Bool
  offset : Nat
  -- `Counter::Download().Start`
  counted : Bool
  opened : Bool
  size : Nat
  asciiAllowed : Bool
  -- the kilobytes downloaded this week
  downloaded : Int
  -- the 150 reply is written
  replied : Bool
  -- `data.Open`
  connected : Bool
  protectionOkay : Bool
  buffers : List (Nat × Nat)
  loopEnd : LoopEnd

inductive RetrEnd where
  | asciiResume | counterFail | noFile | badOffset | asciiRefused | noAllotment | noCredits
  | replyFailed | noConnection | tlsRefused
  | readError | writeError (e : WriteError) | tooSlow | finished
  deriving DecidableEq

/-- `CheckWeeklyAllotment`; `none` is `boost::indeterminate`. -/
def checkWeeklyAllotment (user : User) (sec : Str) (downloaded : Int) (size : Nat) : Option Bool :=
  if user.sectionWeeklyAllotment sec ≤ 0 then none
  else some (decide (downloaded + size / 1024 < user.sectionWeeklyAllotment sec))

/-- The section a download from `sec` is charged to. -/
def creditSection (sec : Option Cfg.Section) : Str :=
  match sec with
  | some s => if s.separateCredits then s.name else []
  | none => []

/-- What `dataGuard` does to the credits: the file had `size` bytes, `bytes` were counted. -/
def dataGuard (credits : Credits) (sec : Str) (ratio : Int) (size bytes : Nat) : Credits :=
  if size > bytes then incrCredits credits sec (wrap64 (((size - bytes : Nat) : Int) / 1024 * ratio))
  else if bytes > size then
    (decrCredits true credits sec (wrap64 (((bytes - size : Nat) : Int) * ratio)) true).2
  else credits

/-- What the transfer did by the time `dataGuard` runs. -/
def RetrCalls.progress (calls : RetrCalls) : Progress :=
  if calls.protectionOkay then transferLoop {} calls.buffers calls.loopEnd else {}

def RetrCalls.ending (calls : RetrCalls) : RetrEnd :=
  if !calls.protectionOkay then .tlsRefused
  else
    match calls.loopEnd with
    | .eof => .finished
    | .readError => .readError
    | .writeError _ _ e => .writeError e
    | .tooSlow _ _ => .tooSlow

/-- How a `RETR` ended, the user's credits then, and the bytes that went out. -/
structure RetrResult where
  ending : RetrEnd
  credits : Credits
  sent : Nat
  deriving DecidableEq

/-- `Execute` behind the charge: two exits before the guard is set, all others through it. -/
def settle (calls : RetrCalls) (credits : Credits) (sec : Str) (ratio : Int) : RetrResult :=
  if !calls.replied then ⟨.replyFailed, credits, 0⟩
  else if !calls.connected then ⟨.noConnection, credits, 0⟩
  else
    ⟨calls.ending, dataGuard credits sec ratio calls.size calls.progress.bytes, calls.progress.sent⟩

/-- `Execute` behind the charge of a user with a weekly allotment: nothing is settled. -/
def settleAllotment (calls : RetrCalls) (credits : Credits) : RetrResult :=
  if !calls.replied then ⟨.replyFailed, credits, 0⟩
  else if !calls.connected then ⟨.noConnection, credits, 0⟩
  else ⟨calls.ending, credits, calls.progress.sent⟩

def charge (size : Nat) (ratio : Int) : Int := wrap64 ((size : Int) / 1024 * ratio)

/-- `Execute` up to the charge: why it ended before, or the section, the ratio and the credits left
by the charge; `none` where a weekly allotment stands in for credits. -/
def takeCharge (env : Env) (sys : Sys) (path : Str) (calls : RetrCalls) (credits : Credits) :
    Except RetrEnd (Option (Str × Int × Credits)) :=
  if calls.offset > 0 && calls.ascii then .error .asciiResume
  else if !calls.counted then .error .counterFail
  else if !calls.opened then .error .noFile
  else if calls.offset > calls.size then .error .badOffset
  else if calls.ascii && !calls.asciiAllowed then .error .asciiRefused
  else
    let sec := env.cfg.sectionMatch path false
    let name := match sec with
      | some s => s.name
      | none => []
    match checkWeeklyAllotment env.user name calls.downloaded calls.size with
    | some false => .error .noAllotment
    | some true => .ok none
    | none =>
      let ratio := Stats.downloadRatio env sys path sec
      match decrCredits true credits (creditSection sec) (charge calls.size ratio) false with
      | (false, _) => .error .noCredits
      | (true, charged) => .ok (some (creditSection sec, ratio, charged))

/-- `RETRCommand::Execute`. -/
def retr (env : Env) (sys : Sys) (path : Str) (calls : RetrCalls) (credits : Credits) : RetrResult :=
  match takeCharge env sys path calls credits with
  | .error ending => ⟨ending, credits, 0⟩
  | .ok none => settleAllotment calls credits
  | .ok (some (sec, ratio, charged)) => settle calls charged sec ratio

/-- `taken` credits for `sent` bytes at `ratio`, up to one kilobyte times the ratio. -/
def ExactCharge (taken : Int) (sent : Nat) (ratio : Int) : Prop :=
  -(1024 * ratio) ≤ 1024 * taken - sent * ratio ∧ 1024 * taken - sent * ratio ≤ 1024 * ratio

/-- The kilobytes charged in the end, the section having an element or not. -/
def kBytesCharged (calls : RetrCalls) (hasSection : Bool) : Int :=
  if !calls.replied || !calls.connected then (calls.size : Int) / 1024
  else if calls.progress.bytes ≤ calls.size then
    (calls.size : Int) / 1024 - ((calls.size - calls.progress.bytes : Nat) : Int) / 1024
  else if hasSection then (calls.size : Int) / 1024 + (calls.progress.bytes - calls.size : Nat)
  else 0

/-- When the charge comes out exact, for a ratio other than zero. Before the guard is set only a
file that is hardly charged at all is. With the guard, what was counted and not sent, or sent and
not counted, must stay within the rounding; and a file that has grown is charged a kilobyte for
every byte, or nothing where the user has no element for the section. -/
def SettlesExactly (calls : RetrCalls) (hasSection : Bool) : Prop :=
  if !calls.replied || !calls.connected then calls.size < 2048
  else
    let bytes : Int := calls.progress.bytes
    let unsent : Int := bytes - calls.progress.sent
    let size : Int := calls.size
    if bytes ≤ size then
      -1024 ≤ unsent + (size - bytes) % 1024 - size % 1024 ∧
        unsent + (size - bytes) % 1024 - size % 1024 ≤ 1024
    else if hasSection then
      -1024 ≤ unsent + 1023 * (bytes - size) - size % 1024 ∧
        unsent + 1023 * (bytes - size) - size % 1024 ≤ 1024
    else calls.progress.sent ≤ 1024

/-- The products `Execute` computes are `long long`s; beyond them C++ defines no result. -/
structure Fits (calls : RetrCalls) (ratio : Int) : Prop where
  charge : (calls.size : Int) / 1024 * ratio ≤ llongMax
  overrun : ((calls.progress.bytes - calls.size : Nat) : Int) * ratio ≤ llongMax

/-! ## What is taken in the end -/

theorem mul_ratio_fits {k ratio : Int} (hk : 0 ≤ k) (hr : 0 ≤ ratio) (h : k * ratio ≤ llongMax) :
    wrap64 (k * ratio) = k * ratio := by
  apply wrap64_of_bounds
  have : 0 ≤ k * ratio := Int.mul_nonneg hk hr
  simp only [llongMin] at *
  omega

section Settle

variable {credits charged : Credits} (hcredits : Distinct credits) {sec : Str} {ratio : Int}
  (hr : 0 < ratio) {calls : RetrCalls} (hfits : Fits calls ratio)

include hcredits hr hfits

/-- The charge, when it was not refused: taken off the section, which has an element unless the
charge was nothing. -/
theorem charged_value (h : decrCredits true credits sec (charge calls.size ratio) false = (true, charged)) :
    Distinct charged ∧ keys charged = keys credits ∧
      value charged sec = value credits sec - (calls.size : Int) / 1024 * ratio ∧
      (sec ∉ keys credits → (calls.size : Int) / 1024 = 0) := by
  have hnn : (0 : Int) ≤ (calls.size : Int) / 1024 := by omega
  have hcharge : charge calls.size ratio = (calls.size : Int) / 1024 * ratio :=
    mul_ratio_fits hnn (by omega) hfits.charge
  unfold decrCredits at h
  split at h
  · rename_i h0
    rw [hcharge] at h0
    have hk : (calls.size : Int) / 1024 = 0 := by
      rcases Int.mul_eq_zero.mp h0 with hk | hk
      · exact hk
      · omega
    cases h
    exact ⟨hcredits, rfl, by rw [hk]; omega, fun _ => hk⟩
  · simp only [Bool.not_true, Bool.false_eq_true, if_false] at h
    split at h
    · rename_i hcmd
      cases h
      have hbounds : llongMin < charge calls.size ratio ∧ charge calls.size ratio ≤ llongMax := by
        rw [hcharge]
        have : 0 ≤ (calls.size : Int) / 1024 * ratio := Int.mul_nonneg hnn (by omega)
        have := hfits.charge
        simp only [llongMin] at *
        omega
      have hkeys := addFirst_keys hcmd
      have hmem := ((decrCommand_isSome_iff hcredits sec false).mp ⟨_, hcmd⟩).1
      have hval := decrCommand_value hcredits sec hbounds false hcmd sec
      simp only [if_true, hcharge] at hval
      exact ⟨by rw [Distinct, hkeys]; exact hcredits, hkeys, hval, fun hno => absurd hmem hno⟩
    · cases h

/-- The credits taken are the kilobytes charged times the ratio, at every exit behind the charge. -/
theorem settled_value
    (h : decrCredits true credits sec (charge calls.size ratio) false = (true, charged)) :
    value credits sec - value (settle calls charged sec ratio).credits sec =
      kBytesCharged calls (decide (sec ∈ keys credits)) * ratio := by
  obtain ⟨hdist, hkeys, hval, habsent⟩ := charged_value hcredits hr hfits h
  unfold settle kBytesCharged
  by_cases hrep : calls.replied = true
  · by_cases hcon : calls.connected = true
    · simp only [hrep, hcon, Bool.not_true, Bool.false_eq_true, if_false, Bool.or_self, dataGuard]
      rcases lt_trichotomy calls.progress.bytes calls.size with hlt | heq | hgt
      · -- sent short: the rest is given back
        rw [if_pos hlt, if_pos (by omega : calls.progress.bytes ≤ calls.size)]
        have hback := mul_ratio_fits (k := ((calls.size - calls.progress.bytes : Nat) : Int) / 1024)
          (by omega) (by omega : 0 ≤ ratio) (by
            refine le_trans (Int.mul_le_mul_of_nonneg_right ?_ (by omega)) hfits.charge
            omega)
        rw [hback, incrCredits_value]
        simp only [if_true, hval, Int.sub_mul]
        omega
      · rw [if_neg (by omega), if_neg (by omega), if_pos (by omega : calls.progress.bytes ≤ calls.size)]
        simp only [hval, heq, Nat.sub_self, Nat.cast_zero, Int.zero_ediv, Int.sub_zero]
        omega
      · -- the file has grown
        rw [if_neg (by omega), if_pos hgt, if_neg (by omega : ¬calls.progress.bytes ≤ calls.size)]
        have hover := mul_ratio_fits (k := ((calls.progress.bytes - calls.size : Nat) : Int)) (by omega)
          (by omega : 0 ≤ ratio) hfits.overrun
        have hpos : 0 < ((calls.progress.bytes - calls.size : Nat) : Int) * ratio :=
          Int.mul_pos (by omega) hr
        rw [hover]
        have hbounds : llongMin < ((calls.progress.bytes - calls.size : Nat) : Int) * ratio ∧
            ((calls.progress.bytes - calls.size : Nat) : Int) * ratio ≤ llongMax := by
          have := hfits.overrun
          simp only [llongMin]
          omega
        have hiff := @decrCommand_isSome_iff _ hdist sec
          (((calls.progress.bytes - calls.size : Nat) : Int) * ratio) true
        simp only [decrCredits, if_neg (ne_of_gt hpos), Bool.not_true, Bool.false_eq_true, if_false]
        by_cases hmem : sec ∈ keys credits
        · obtain ⟨c, hc⟩ := hiff.mpr ⟨by rw [hkeys]; exact hmem, .inl rfl⟩
          rw [hc]
          simp only [decrCommand_value hdist sec hbounds true hc, hmem, decide_true, if_true, hval,
            Int.add_mul]
          omega
        · have hnone : decrCommand charged sec
              (((calls.progress.bytes - calls.size : Nat) : Int) * ratio) true = none := by
            rw [Option.eq_none_iff_forall_ne_some]
            intro c hc
            exact hmem (hkeys ▸ (hiff.mp ⟨c, hc⟩).1)
          rw [hnone]
          simp only [hmem, decide_false, Bool.false_eq_true, if_false, hval, habsent hmem, Int.zero_mul]
          omega
    · simp only [hrep, hcon, Bool.not_true, Bool.not_false, Bool.false_eq_true, if_false, if_true,
        Bool.false_or, hval]
      omega
  · simp only [hrep, Bool.not_false, if_true, Bool.true_or, hval]
    omega

end Settle

theorem charge_zero (size : Nat) : charge size 0 = 0 := by
  rw [charge, Int.mul_zero]
  decide

theorem settled_free {credits charged : Credits} (hcredits : Distinct credits) {sec : Str}
    {calls : RetrCalls}
    (h : decrCredits true credits sec (charge calls.size 0) false = (true, charged)) :
    value (settle calls charged sec 0).credits sec = value credits sec := by
  have hcharged : charged = credits := by
    simp only [charge_zero, decrCredits, if_true, Prod.mk.injEq, true_and] at h
    exact h.symm
  subst hcharged
  have hw : wrap64 0 = 0 := by decide
  unfold settle
  split
  · rfl
  · split
    · rfl
    · simp only [dataGuard, Int.mul_zero, hw]
      split
      · rw [incrCredits_value]
        simp
      · split
        · rfl
        · rfl

theorem takeCharge_charged {env : Env} {sys : Sys} {path : Str} {calls : RetrCalls}
    {credits charged : Credits} {sec : Str} {ratio : Int}
    (h : takeCharge env sys path calls credits = .ok (some (sec, ratio, charged))) :
    0 ≤ ratio ∧ decrCredits true credits sec (charge calls.size ratio) false = (true, charged) := by
  simp only [takeCharge] at h
  repeat' split at h
  all_goals cases h
  rename_i hdecr
  exact ⟨Stats.downloadRatio_nonneg _ _ _ _, hdecr⟩

/-! ## What is left alone -/

theorem dataGuard_distinct {credits : Credits} (hcredits : Distinct credits) (sec : Str) (ratio : Int)
    (size bytes : Nat) : Distinct (dataGuard credits sec ratio size bytes) := by
  unfold dataGuard
  split
  · exact incrCredits_distinct hcredits _ _
  · split
    · exact decrCredits_distinct hcredits _ _ _ _
    · exact hcredits

theorem dataGuard_other {credits : Credits} (hcredits : Distinct credits) {sec : Str} (ratio : Int)
    (size bytes : Nat) {j : Str} (hj : j ≠ sec) :
    value (dataGuard credits sec ratio size bytes) j = value credits j := by
  unfold dataGuard
  split
  · rw [incrCredits_value, if_neg hj, add_zero]
  · split
    · exact decrCredits_other hcredits _ _ _ _ hj
    · rfl

theorem settle_distinct {credits : Credits} (hcredits : Distinct credits) (calls : RetrCalls)
    (sec : Str) (ratio : Int) : Distinct (settle calls credits sec ratio).credits := by
  unfold settle
  split
  · exact hcredits
  · split
    · exact hcredits
    · exact dataGuard_distinct hcredits _ _ _ _

theorem settle_other {credits : Credits} (hcredits : Distinct credits) (calls : RetrCalls) {sec : Str}
    (ratio : Int) {j : Str} (hj : j ≠ sec) :
    value (settle calls credits sec ratio).credits j = value credits j := by
  unfold settle
  split
  · rfl
  · split
    · rfl
    · exact dataGuard_other hcredits _ _ _ hj

theorem settleAllotment_credits (calls : RetrCalls) (credits : Credits) :
    (settleAllotment calls credits).credits = credits := by
  unfold settleAllotment
  split
  · rfl
  · split
    · rfl
    · rfl

/-- A download keeps the credits of a user in sections of their own. -/
theorem retr_distinct (env : Env) (sys : Sys) (path : Str) (calls : RetrCalls) {credits : Credits}
    (hcredits : Distinct credits) : Distinct (retr env sys path calls credits).credits := by
  unfold retr
  split
  · exact hcredits
  · rw [settleAllotment_credits]
    exact hcredits
  · rename_i sec ratio charged hcharge
    have hdecr := (takeCharge_charged hcharge).2
    have hcharged := decrCredits_distinct hcredits true sec (charge calls.size ratio) false
    rw [hdecr] at hcharged
    exact settle_distinct hcharged _ _ _

/-! ## What a download takes -/

theorem takeCharge_ratio {env : Env} {sys : Sys} {path : Str} {calls : RetrCalls}
    {credits charged : Credits} {sec : Str} {ratio : Int}
    (h : takeCharge env sys path calls credits = .ok (some (sec, ratio, charged))) :
    ratio = Stats.downloadRatio env sys path (env.cfg.sectionMatch path false) := by
  simp only [takeCharge] at h
  repeat' split at h
  all_goals cases h
  rfl

/-- The credits a download takes in a section. -/
def downloadCharge (env : Env) (sys : Sys) (path : Str) (calls : RetrCalls) (credits : Credits)
    (j : Str) : Int :=
  match takeCharge env sys path calls credits with
  | .ok (some (sec, ratio, _)) =>
    if j = sec then kBytesCharged calls ((keys credits).contains sec) * ratio else 0
  | .ok none => 0
  | .error _ => 0

theorem retr_value {env : Env} {sys : Sys} {path : Str} {calls : RetrCalls} {credits : Credits}
    (hcredits : Distinct credits)
    (hfits : Fits calls (Stats.downloadRatio env sys path (env.cfg.sectionMatch path false))) (j : Str) :
    value (retr env sys path calls credits).credits j =
      value credits j - downloadCharge env sys path calls credits j := by
  unfold retr downloadCharge
  split
  · rename_i hcharge
    simp [hcharge]
  · rename_i hcharge
    simp [hcharge, settleAllotment_credits]
  · rename_i sec ratio charged hcharge
    obtain ⟨hnn, hdecr⟩ := takeCharge_charged hcharge
    rw [← takeCharge_ratio hcharge] at hfits
    simp only [hcharge]
    by_cases hj : j = sec
    · subst hj
      rw [if_pos rfl]
      rcases Int.le_iff_lt_or_eq.mp hnn with hr | hr
      · have := settled_value hcredits hr hfits hdecr
        rw [List.contains_eq_mem]
        omega
      · subst hr
        rw [settled_free hcredits hdecr, Int.mul_zero, Int.sub_zero]
    · have hcharged := decrCredits_distinct hcredits true sec (charge calls.size ratio) false
      have hother := decrCredits_other hcredits true sec (charge calls.size ratio) false hj
      rw [hdecr] at hcharged hother
      rw [if_neg hj, Int.sub_zero, settle_other hcharged calls ratio hj]
      exact hother

theorem exactCharge_iff {k ratio : Int} {sent : Nat} (hr : 0 < ratio) :
    ExactCharge (k * ratio) sent ratio ↔ -1024 ≤ 1024 * k - sent ∧ 1024 * k - sent ≤ 1024 := by
  have hprod : 1024 * (k * ratio) - sent * ratio = (1024 * k - sent) * ratio := by
    rw [Int.sub_mul, Int.mul_assoc]
  have hneg : -(1024 * ratio) = (-1024) * ratio := by rw [Int.neg_mul]
  rw [ExactCharge, hprod, hneg]
  constructor
  · rintro ⟨h1, h2⟩
    exact ⟨Int.le_of_mul_le_mul_right h1 hr, Int.le_of_mul_le_mul_right h2 hr⟩
  · rintro ⟨h1, h2⟩
    exact ⟨Int.mul_le_mul_of_nonneg_right h1 (by omega), Int.mul_le_mul_of_nonneg_right h2 (by omega)⟩

/-- Behind the charge, over every exit: the credits taken are the kilobytes sent times the ratio, up
to one kilobyte, exactly when the ratio is zero or the exit settles exactly. -/
theorem retr_exact_iff {env : Env} {sys : Sys} {path : Str} {calls : RetrCalls}
    {credits charged : Credits} {sec : Str} {ratio : Int} (hcredits : Distinct credits)
    (hcharge : takeCharge env sys path calls credits = .ok (some (sec, ratio, charged)))
    (hfits : Fits calls ratio) :
    ExactCharge (value credits sec - value (retr env sys path calls credits).credits sec)
        (retr env sys path calls credits).sent ratio ↔
      (ratio = 0 ∨ SettlesExactly calls (decide (sec ∈ keys credits))) := by
  obtain ⟨hnn, hdecr⟩ := takeCharge_charged hcharge
  simp only [retr, hcharge]
  rcases Int.le_iff_lt_or_eq.mp hnn with hr | hr
  · rw [settled_value hcredits hr hfits hdecr, exactCharge_iff hr]
    have hne : ratio ≠ 0 := by omega
    simp only [hne, false_or]
    unfold settle kBytesCharged SettlesExactly
    by_cases hrep : calls.replied = true
    · by_cases hcon : calls.connected = true
      · simp only [hrep, hcon, Bool.not_true, Bool.false_eq_true, if_false, Bool.or_self]
        by_cases hle : calls.progress.bytes ≤ calls.size
        · rw [if_pos hle, if_pos (by omega : (calls.progress.bytes : Int) ≤ calls.size)]
          omega
        · rw [if_neg hle, if_neg (by omega : ¬(calls.progress.bytes : Int) ≤ calls.size)]
          by_cases hmem : sec ∈ keys credits
          · simp only [hmem, decide_true, if_true]
            omega
          · simp only [hmem, decide_false, Bool.false_eq_true, if_false]
            omega
      · simp only [hrep, hcon, Bool.not_true, Bool.not_false, Bool.false_eq_true, if_false, if_true,
          Bool.false_or]
        omega
    · simp only [hrep, Bool.not_false, if_true, Bool.true_or]
      omega
  · subst hr
    rw [settled_free hcredits hdecr]
    simp [ExactCharge]

/-- A user without rights or sections: every download is charged at ratio 1. -/
def exampleDownloader : Env where
  cfg :=
    { sitepath := "/site".toList
      tlsControl := ACL.fromString "!*".toList
      maxOnline := ⟨10, 0⟩
      wildcardMatch := fun _ _ => false }
  user := { id := 1, name := "alice".toList }
  gidToName := fun _ => []

def exampleDisk : Sys where
  realpath := some
  status _ := .error .ENOENT
  readdir _ := .ok []
  ownerUID _ := 0

/-- A binary download of a file of `size` bytes that passes every check. -/
def exampleCalls (size : Nat) (connected : Bool) (buffers : List (Nat × Nat)) (loopEnd : LoopEnd) :
    RetrCalls where
  ascii := false
  offset := 0
  counted := true
  opened := true
  size := size
  asciiAllowed := true
  downloaded := 0
  replied := true
  connected := connected
  protectionOkay := true
  buffers := buffers
  loopEnd := loopEnd

/-- 5000 of 10000 bytes sent before the disk fails: 9 kilobytes charged, 4 given back. -/
theorem retr_disk_error :
    let calls := exampleCalls 10000 true [(4096, 4096), (904, 904)] .readError
    let r := retr exampleDownloader exampleDisk "/f".toList calls [([], 100)]
    r = ⟨.readError, [([], 95)], 5000⟩ ∧ ExactCharge (100 - 95) 5000 1 := by
  intro calls r
  have hcharge : takeCharge exampleDownloader exampleDisk "/f".toList calls [([], 100)] =
      .ok (some ([], 1, [([], 91)])) := by decide
  have hfits : Fits calls 1 := ⟨by decide, by decide⟩
  have hcredits : Distinct ([([], 100)] : Credits) := by simp [Distinct, keys]
  have hr : r = ⟨.readError, [([], 95)], 5000⟩ := by decide
  have h := (retr_exact_iff hcredits hcharge hfits).mpr (.inr (by
    show -1024 ≤ (5000 - 5000 : Int) + (10000 - 5000) % 1024 - 10000 % 1024 ∧
      (5000 - 5000 : Int) + (10000 - 5000) % 1024 - 10000 % 1024 ≤ 1024
    decide))
  refine ⟨hr, ?_⟩
  change ExactCharge (100 - value r.credits []) r.sent 1 at h
  rw [hr] at h
  exact h

/-- A refused data connection takes the whole charge for nothing; a file that grew by 100 bytes is
charged 100 kilobytes for them. -/
theorem retr_overcharged :
    let refused := retr exampleDownloader exampleDisk "/f".toList
      (exampleCalls 1048576 false [] .eof) [([], 5000)]
    let grown := retr exampleDownloader exampleDisk "/f".toList
      (exampleCalls 1000 true [(1100, 1100)] .eof) [([], 5000)]
    refused = ⟨.noConnection, [([], 3976)], 0⟩ ∧ ¬ ExactCharge (5000 - 3976) 0 1 ∧
      grown = ⟨.finished, [([], 4900)], 1100⟩ ∧ ¬ ExactCharge (5000 - 4900) 1100 1 := by
  refine ⟨by decide, ?_, by decide, ?_⟩
  · rintro ⟨-, h⟩
    omega
  · rintro ⟨-, h⟩
    omega

end Cmd
end Ebftpd
