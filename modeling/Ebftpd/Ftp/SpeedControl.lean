import Ebftpd.Acl.Path
import Ebftpd.Cfg.Setting
import Ebftpd.Ftp.Data

/-!
# Ebftpd.Ftp.SpeedControl

What the lines `maximum_speed`, `minimum_speed` and `allow_fxp` of the configuration do to a transfer:
the functions of `acl::speed` and `AllowFxp` (`src/acl/misc.cpp`), the speed controls that take their
answers (`src/ftp/speedcontrol.hpp`, `src/ftp/counter.cpp`), and `Data::Open` (`src/ftp/data.cpp`).

A pointer to a limit is the limit with its place in the configuration. As in `Acl.Path`, the ACLs are
asked as they stand.

* `outcome_eq`: everything that is applied to a transfer is read from the column of the other
  direction.
* `outcomeBy_eq_iff`: when two columns, or two configurations, have the same outcome.
* `columns_iff`: when a transfer gets what its own column says, and when the other column can be
  changed without changing the outcome.
-/

namespace Ebftpd
namespace Ftp

/-- What a speed control is built from. The limits are given by their places, with the speed that the
counter of the direction takes from each. -/
structure SpeedControl where
  minimumSpeed : Int
  maximumSpeed : Int
  globalLimits : List (Nat × Int)

namespace SpeedControl

open Util Acl Acl.Path Cfg

/-- `static_cast<int>` of a `long long`. -/
def toInt (z : Int) : Int := (z + 2 ^ 31) % 2 ^ 32 - 2 ^ 31

variable (env : Env)

/-- The ACL and the path mask of a limit. -/
def applies (path : Str) (limit : SpeedLimit) : Bool :=
  (limit.acl.evaluate env.info).1 && env.cfg.wildcardMatch limit.path path

/-! ## `acl::speed` and `AllowFxp` -/

/-- `UploadMaximum` and `DownloadMaximum`, with the accessor they ask. -/
def maximumOf (speed : SpeedLimit → Int) (limits : List SpeedLimit) (path : Str) : List (SpeedLimit × Nat) :=
  if env.user.hasFlag .Exempt then []
  else limits.zipIdx.filter fun p => decide (speed p.1 > 0) && applies env path p.1

def uploadMaximum (limits : List SpeedLimit) (path : Str) : List (SpeedLimit × Nat) :=
  maximumOf env SpeedLimit.uploadsOf limits path

def downloadMaximum (limits : List SpeedLimit) (path : Str) : List (SpeedLimit × Nat) :=
  maximumOf env SpeedLimit.downloadsOf limits path

/-- `UploadMinimum` and `DownloadMinimum`, with the accessor they ask. -/
def minimumOf (speed : SpeedLimit → Int) (limits : List SpeedLimit) (path : Str) : Int :=
  match limits.find? (applies env path) with
  | some limit => toInt (speed limit)
  | none => 0

def uploadMinimum (limits : List SpeedLimit) (path : Str) : Int :=
  minimumOf env SpeedLimit.uploadsOf limits path

def downloadMinimum (limits : List SpeedLimit) (path : Str) : Int :=
  minimumOf env SpeedLimit.downloadsOf limits path

/-- `AllowFxp`: the answer, and what it sets `logging` to, if anything. -/
def allowFxp (afs : List AllowFxp) (isAllowed : AllowFxp → Bool) : Bool × Option Bool :=
  match afs.find? fun af => (af.acl.evaluate env.info).1 with
  | some af => (isAllowed af, some af.logging)
  | none => (false, none)

def allowFxpSend (afs : List AllowFxp) : Bool × Option Bool := allowFxp env afs AllowFxp.uploads

def allowFxpReceive (afs : List AllowFxp) : Bool × Option Bool := allowFxp env afs AllowFxp.downloads

/-- The lines of the three settings. -/
structure Settings where
  maximumSpeed : List SpeedLimit := []
  minimumSpeed : List SpeedLimit := []
  allowFxp : List AllowFxp := [defaultAllowFxp]

variable (settings : Settings) (path : Str)

/-- `UploadSpeedControl`. -/
def upload : SpeedControl where
  minimumSpeed := uploadMinimum env settings.minimumSpeed path
  maximumSpeed := toInt env.user.maxUpSpeed
  globalLimits := (uploadMaximum env settings.maximumSpeed path).map fun p => (p.2, p.1.uploadsOf)

/-- `DownloadSpeedControl`. -/
def download : SpeedControl where
  minimumSpeed := downloadMinimum env settings.minimumSpeed path
  maximumSpeed := toInt env.user.maxDownSpeed
  globalLimits := (downloadMaximum env settings.maximumSpeed path).map fun p => (p.2, p.1.downloadsOf)

/-- The permission `Data::Open` asks for. -/
def openAllows (transferType : TransferType) : Bool :=
  if transferType = .Upload then (allowFxpReceive env settings.allowFxp).1
  else (allowFxpSend env settings.allowFxp).1

/-- A server-to-server transfer is opened like any other, or refused. -/
theorem openSocket_fxp {transferType : TransferType} (htype : transferType ≠ .List) (calls : Data.OpenCalls)
    (data : Data) :
    data.openSocket transferType { calls with isFXP := true, allowFxp := openAllows env settings transferType } =
      if openAllows env settings transferType then
        data.openSocket transferType { calls with isFXP := false }
      else (.failed (.network (Data.fxpMessage transferType)), { data with connected := false }) := by
  cases openAllows env settings transferType with
  | false => simp [Data.openSocket, htype]
  | true => simp [Data.openSocket]

/-! ## The columns -/

inductive Direction where
  | upload | download

namespace Direction

def other : Direction → Direction
  | .upload => .download
  | .download => .upload

def transferType : Direction → TransferType
  | .upload => .Upload
  | .download => .Download

/-- The column of the documentation: `<up>` or `<down>`. -/
def column : Direction → SpeedLimit → Int
  | .upload => SpeedLimit.uploads
  | .download => SpeedLimit.downloads

def fxpColumn : Direction → AllowFxp → Bool
  | .upload => AllowFxp.uploads
  | .download => AllowFxp.downloads

end Direction

/-- What the settings do to a transfer: the lines that limit it with their speeds, its minimum, and
whether it may be a server-to-server transfer. -/
structure Outcome where
  limits : List (Nat × Int)
  minimum : Int
  fxp : Bool
  deriving DecidableEq

def outcome : Direction → Outcome
  | .upload => ⟨(upload env settings path).globalLimits, (upload env settings path).minimumSpeed,
      openAllows env settings .Upload⟩
  | .download => ⟨(download env settings path).globalLimits, (download env settings path).minimumSpeed,
      openAllows env settings .Download⟩

/-- The limits that the lines set in a column, by their places from `n` on. -/
def limitsFrom (dir : Direction) : Nat → List SpeedLimit → List (Nat × Int)
  | _, [] => []
  | n, limit :: limits =>
    if dir.column limit > 0 ∧ applies env path limit = true then
      (n, dir.column limit) :: limitsFrom dir (n + 1) limits
    else limitsFrom dir (n + 1) limits

/-- What the settings say in the columns of a direction. -/
def outcomeBy (dir : Direction) : Outcome where
  limits := if env.user.hasFlag .Exempt then [] else limitsFrom env path dir 0 settings.maximumSpeed
  minimum := ((settings.minimumSpeed.find? (applies env path)).map (toInt <| dir.column ·)).getD 0
  fxp := ((settings.allowFxp.find? fun af => (af.acl.evaluate env.info).1).map dir.fxpColumn).getD false

theorem limitsFrom_eq (dir : Direction) (limits : List SpeedLimit) :
    ∀ n, limitsFrom env path dir n limits =
      ((limits.zipIdx n).filter fun p => decide (dir.column p.1 > 0) && applies env path p.1).map
        fun p => (p.2, dir.column p.1) := by
  induction limits with
  | nil => exact fun _ => rfl
  | cons limit limits ih =>
    intro n
    rw [limitsFrom, ih, List.zipIdx_cons]
    by_cases happlies : dir.column limit > 0 ∧ applies env path limit = true
    · rw [if_pos happlies, List.filter_cons_of_pos (by simpa using happlies)]
      rfl
    · rw [if_neg happlies, List.filter_cons_of_neg (by simpa using happlies)]

theorem maximumOf_eq (dir : Direction) (limits : List SpeedLimit) :
    (maximumOf env dir.column limits path).map (fun p => (p.2, dir.column p.1)) =
      if env.user.hasFlag .Exempt then [] else limitsFrom env path dir 0 limits := by
  unfold maximumOf
  split
  · rfl
  · rw [limitsFrom_eq]

theorem minimumOf_eq (dir : Direction) (limits : List SpeedLimit) :
    minimumOf env dir.column limits path =
      ((limits.find? (applies env path)).map (toInt <| dir.column ·)).getD 0 := by
  unfold minimumOf
  cases limits.find? (applies env path) <;> rfl

theorem allowFxp_eq (dir : Direction) (afs : List AllowFxp) :
    (allowFxp env afs dir.fxpColumn).1 =
      ((afs.find? fun af => (af.acl.evaluate env.info).1).map dir.fxpColumn).getD false := by
  unfold allowFxp
  cases afs.find? fun af => (af.acl.evaluate env.info).1 <;> rfl

/-- Whatever is applied to a transfer, the column of the other direction says. -/
theorem outcome_eq (dir : Direction) : outcome env settings path dir = outcomeBy env settings path dir.other := by
  have hmaximum := maximumOf_eq env path dir.other settings.maximumSpeed
  have hminimum := minimumOf_eq env path dir.other settings.minimumSpeed
  have hfxp := allowFxp_eq env dir.other settings.allowFxp
  cases dir with
  | upload => rw [outcome, outcomeBy, ← hmaximum, ← hminimum, ← hfxp]; rfl
  | download => rw [outcome, outcomeBy, ← hmaximum, ← hminimum, ← hfxp]; rfl

/-! ## Two columns, or two configurations -/

/-- Lines for the same paths and users. -/
structure Aligned (s s' : Settings) : Prop where
  maximum : List.Forall₂ (fun l l' => l.path = l'.path ∧ l.acl = l'.acl) s.maximumSpeed s'.maximumSpeed
  minimum : List.Forall₂ (fun l l' => l.path = l'.path ∧ l.acl = l'.acl) s.minimumSpeed s'.minimumSpeed
  fxp : List.Forall₂ (fun af af' => af.acl = af'.acl) s.allowFxp s'.allowFxp

/-- Configurations that differ in the column of the other direction at most. -/
structure SameBut (dir : Direction) (s s' : Settings) : Prop where
  maximum : List.Forall₂ (fun l l' => (l.path = l'.path ∧ l.acl = l'.acl) ∧ dir.column l = dir.column l')
    s.maximumSpeed s'.maximumSpeed
  minimum : List.Forall₂ (fun l l' => (l.path = l'.path ∧ l.acl = l'.acl) ∧ dir.column l = dir.column l')
    s.minimumSpeed s'.minimumSpeed
  fxp : List.Forall₂ (fun af af' => af.acl = af'.acl ∧ af.logging = af'.logging ∧
    dir.fxpColumn af = dir.fxpColumn af') s.allowFxp s'.allowFxp

theorem Aligned.refl (s : Settings) : Aligned s s where
  maximum := List.forall₂_same.mpr fun _ _ => ⟨rfl, rfl⟩
  minimum := List.forall₂_same.mpr fun _ _ => ⟨rfl, rfl⟩
  fxp := List.forall₂_same.mpr fun _ _ => rfl

theorem SameBut.aligned {dir : Direction} {s s' : Settings} (h : SameBut dir s s') : Aligned s s' where
  maximum := h.maximum.imp fun _ _ h => h.1
  minimum := h.minimum.imp fun _ _ h => h.1
  fxp := h.fxp.imp fun _ _ h => h.1

/-- The column `c` of `s` and the column `c'` of `s'` say the same to a transfer: in the lines that
limit it or would, in the first line that sets its minimum, in the first line about its FXP. -/
structure Agree (c c' : Direction) (s s' : Settings) : Prop where
  maximum : env.user.hasFlag .Exempt = false → ∀ p ∈ s.maximumSpeed.zip s'.maximumSpeed,
    applies env path p.1 = true →
      c.column p.1 = c'.column p.2 ∨ (c.column p.1 ≤ 0 ∧ c'.column p.2 ≤ 0)
  minimum : ∀ p ∈ (s.minimumSpeed.zip s'.minimumSpeed).find? (fun p => applies env path p.1),
    toInt (c.column p.1) = toInt (c'.column p.2)
  fxp : ∀ p ∈ (s.allowFxp.zip s'.allowFxp).find? (fun p => (p.1.acl.evaluate env.info).1),
    c.fxpColumn p.1 = c'.fxpColumn p.2

theorem applies_congr {l l' : SpeedLimit} (h : l.path = l'.path ∧ l.acl = l'.acl) :
    applies env path l = applies env path l' := by
  rw [applies, applies, h.1, h.2]

theorem le_of_mem_limitsFrom (dir : Direction) (limits : List SpeedLimit) :
    ∀ {n : Nat} {p : Nat × Int}, p ∈ limitsFrom env path dir n limits → n ≤ p.1 := by
  induction limits with
  | nil => exact fun h => by cases h
  | cons limit limits ih =>
    intro n p h
    rw [limitsFrom] at h
    split at h
    · rcases List.mem_cons.mp h with rfl | h
      · exact Nat.le_refl _
      · exact Nat.le_of_succ_le (ih h)
    · exact Nat.le_of_succ_le (ih h)

/-- A line that limits in one list only makes the lists differ at its place. -/
theorem cons_ne_limitsFrom (dir : Direction) (limits : List SpeedLimit) (n : Nat) (speed : Int)
    (rest : List (Nat × Int)) : (n, speed) :: rest ≠ limitsFrom env path dir (n + 1) limits := by
  intro h
  have hle := le_of_mem_limitsFrom env path dir limits (h ▸ List.mem_cons_self : (n, speed) ∈ _)
  simp only at hle
  omega

theorem limitsFrom_eq_iff {c c' : Direction} {ls ls' : List SpeedLimit}
    (h : List.Forall₂ (fun l l' => l.path = l'.path ∧ l.acl = l'.acl) ls ls') :
    ∀ n, limitsFrom env path c n ls = limitsFrom env path c' n ls' ↔
      ∀ p ∈ ls.zip ls', applies env path p.1 = true →
        c.column p.1 = c'.column p.2 ∨ (c.column p.1 ≤ 0 ∧ c'.column p.2 ≤ 0) := by
  induction h with
  | nil => exact fun n => iff_of_true rfl fun p hp => by cases hp
  | @cons l l' ls ls' hl _ ih =>
    intro n
    rw [List.zip_cons_cons, List.forall_mem_cons, ← ih (n + 1), limitsFrom, limitsFrom,
      ← applies_congr env path hl]
    by_cases happlies : applies env path l = true
    · simp only [happlies, and_true, true_implies]
      by_cases hc : c.column l > 0
      · by_cases hc' : c'.column l' > 0
        · rw [if_pos hc, if_pos hc', List.cons.injEq, Prod.mk.injEq]
          refine and_congr_left fun _ => ⟨fun h => .inl h.2, fun h => ⟨rfl, h.resolve_right ?_⟩⟩
          omega
        · rw [if_pos hc, if_neg hc']
          refine iff_of_false (cons_ne_limitsFrom env path c' ls' n _ _) fun h => ?_
          omega
      · by_cases hc' : c'.column l' > 0
        · rw [if_neg hc, if_pos hc']
          refine iff_of_false (fun h => cons_ne_limitsFrom env path c ls n _ _ h.symm) fun h => ?_
          omega
        · rw [if_neg hc, if_neg hc']
          exact (and_iff_right (.inr ⟨by omega, by omega⟩)).symm
    · have hnot : ∀ z : Int, ¬ (z > 0 ∧ applies env path l = true) := fun z h => happlies h.2
      rw [if_neg (hnot _), if_neg (hnot _)]
      exact (and_iff_right fun h => absurd h happlies).symm

/-- The first line that decides is at the same place in both. -/
theorem find?_zip {α : Type} {t : α → Bool} {xs ys : List α} (h : List.Forall₂ (fun x y => t x = t y) xs ys) :
    xs.find? t = ((xs.zip ys).find? fun p => t p.1).map Prod.fst ∧
      ys.find? t = ((xs.zip ys).find? fun p => t p.1).map Prod.snd := by
  induction h with
  | nil => exact ⟨rfl, rfl⟩
  | @cons x y xs ys hxy _ ih =>
    rw [List.zip_cons_cons, List.find?_cons, List.find?_cons, List.find?_cons, ← hxy]
    cases t x with
    | true => exact ⟨rfl, rfl⟩
    | false => exact ih

theorem first_eq_iff {α β : Type} {t : α → Bool} {f g : α → β} {xs ys : List α} {d : β}
    (h : List.Forall₂ (fun x y => t x = t y) xs ys) :
    ((xs.find? t).map f).getD d = ((ys.find? t).map g).getD d ↔
      ∀ p ∈ (xs.zip ys).find? (fun p => t p.1), f p.1 = g p.2 := by
  obtain ⟨hxs, hys⟩ := find?_zip h
  rw [hxs, hys]
  cases (xs.zip ys).find? fun p => t p.1 with
  | none => exact iff_of_true rfl fun p hp => by cases hp
  | some p =>
    refine ⟨fun heq q hq => ?_, fun hall => hall p rfl⟩
    cases hq
    exact heq

theorem outcomeBy_eq_iff {c c' : Direction} {s s' : Settings} (h : Aligned s s') :
    outcomeBy env s path c = outcomeBy env s' path c' ↔ Agree env path c c' s s' := by
  have hmaximum : limitsFrom env path c 0 s.maximumSpeed = limitsFrom env path c' 0 s'.maximumSpeed ↔ _ :=
    limitsFrom_eq_iff env path h.maximum 0
  have hminimum := first_eq_iff (f := (toInt <| c.column ·)) (g := (toInt <| c'.column ·)) (d := (0 : Int))
    (h.minimum.imp fun _ _ => applies_congr env path)
  have hfxp := first_eq_iff (f := c.fxpColumn) (g := c'.fxpColumn) (d := false)
    (t := fun af => (af.acl.evaluate env.info).1) (h.fxp.imp fun _ _ h => by rw [h])
  rw [outcomeBy, outcomeBy, Outcome.mk.injEq, hminimum, hfxp]
  constructor
  · rintro ⟨hlimits, hmin, hallow⟩
    refine ⟨fun hexempt => ?_, hmin, hallow⟩
    rw [if_neg (by simp [hexempt]), if_neg (by simp [hexempt])] at hlimits
    exact hmaximum.mp hlimits
  · rintro ⟨hlimits, hmin, hallow⟩
    refine ⟨?_, hmin, hallow⟩
    cases hexempt : env.user.hasFlag .Exempt with
    | true => rfl
    | false => exact hmaximum.mpr (hlimits hexempt)

/-- A transfer gets what its own column says exactly if the other one says the same, and the other
column can be changed exactly as long as it says to the transfer what it said. -/
theorem columns_iff (dir : Direction) :
    (outcome env settings path dir = outcomeBy env settings path dir ↔
      Agree env path dir.other dir settings settings) ∧
    ∀ settings', SameBut dir settings settings' →
      (outcome env settings path dir = outcome env settings' path dir ↔
        Agree env path dir.other dir.other settings settings') := by
  constructor
  · rw [outcome_eq]
    exact outcomeBy_eq_iff env path (Aligned.refl settings)
  · intro settings' hsame
    rw [outcome_eq, outcome_eq]
    exact outcomeBy_eq_iff env path hsame.aligned

section Examples

private def columnsEnv : Env where
  cfg := {
    sitepath := "/site".toList
    tlsControl := Acl.ACL.fromString "*".toList
    maxOnline := ⟨50, 5⟩
    wildcardMatch := fun mask text => mask == "*".toList || mask == text }
  user := { id := 7, name := "alice".toList }
  gidToName := fun _ => "staff".toList

private def columnsSettings : Settings where
  maximumSpeed := [⟨"*".toList, 10, 20, Acl.ACL.fromString "*".toList⟩]
  allowFxp := [⟨true, false, false, Acl.ACL.fromString "*".toList⟩]

/-- `maximum_speed * 10 20 *` and `allow_fxp yes no no *`: an upload is throttled at 10, and may come
from another server. -/
theorem upload_down_column :
    outcome columnsEnv columnsSettings "/a".toList .upload = ⟨[(0, 10)], 0, true⟩ ∧
      outcomeBy columnsEnv columnsSettings "/a".toList .upload = ⟨[(0, 20)], 0, false⟩ := by
  decide

end Examples

end SpeedControl
end Ftp
end Ebftpd
