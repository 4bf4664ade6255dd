import Ebftpd.Cmd.Channel

/-!
# Ebftpd.Cmd.Restart

The restart offset over the commands of a session. `REST` sets it, a data connection that is closed
behind a transfer or a listing sets it back to 0, and nothing else touches it: an upload or a
download that is refused before its data connection is open leaves it to the next one.

* `execute_offset`: what one command does to the offset.
* `restart_offset`: the offset a transfer takes is the one set last.
-/

namespace Ebftpd
namespace Cmd
namespace Channel

open Util Lib Acl Acl.Path Db Fs Ftp

/-- The data connection of a command that comes as far as opening it. -/
def opened (type : TransferType) (channel : Data.OpenCalls) (s : Session) : Bool :=
  decide ((s.data.openFor type channel).1 = .okay)

def storOpens (m : Moment) (path : Str) (channel : Data.OpenCalls) (calls : StorCalls) (s : Session) :
    Bool :=
  (openUpload m.env m.sys path calls s.site.files).isOk && calls.replied && opened .Upload channel s

def retrOpens (m : Moment) (path : Str) (channel : Data.OpenCalls) (calls : RetrCalls) (s : Session) :
    Bool :=
  (takeCharge m.env m.sys path calls (s.site.credits m.env.user.id)).isOk && calls.replied &&
    opened .Download channel s

/-- A transfer or a listing that opens its data connection. -/
def opens (s : Session) : Command → Bool
  | .list calls => calls.replied && opened .List calls.channel s
  | .stor m path channel calls => storOpens m path channel (storCallsAt s calls) s
  | .stou m workDirectory names channel calls =>
    match uniqueFile m.env m.sys s.site.files workDirectory names with
    | .ok (some path) => storOpens m path channel (storCallsAt s calls) s
    | _ => false
  | .retr m path channel calls => retrOpens m path channel (retrCallsAt s calls) s
  | _ => false

/-- What a command sets the restart offset to, if it does. -/
def offsetSet (s : Session) (c : Command) : Option Int :=
  match c with
  | .rest arg => some ((restOffset arg).getD 0)
  | c => if opens s c then some 0 else none

section Offset

variable {s : Session}

theorem openFor_offset {type : TransferType} {channel : Data.OpenCalls} {opening : Data.Opened}
    {data : Data} (h : s.data.openFor type channel = (opening, data)) :
    data.restartOffset = s.data.restartOffset := by
  have := (Data.openFor_same type channel s.data).restartOffset
  rwa [h] at this

theorem listCommand_offset {calls : ListCalls} (h : (listCommand calls s).status = .running) :
    (listCommand calls s).data.restartOffset =
      if calls.replied && opened .List calls.channel s then 0 else s.data.restartOffset := by
  unfold listCommand at h ⊢
  cases hreplied : calls.replied with
  | false => simp [hreplied] at h
  | true =>
    simp only [hreplied, Bool.not_true, Bool.false_eq_true, if_false, Bool.true_and, opened] at h ⊢
    split at h
    · cases h
    · rename_i hopen
      simp [hopen, openFor_offset hopen]
    · rename_i hopen
      simp only [hopen, decide_true, if_true]
      split at h
      · rw [if_pos ‹_›]
        rfl
      · rw [if_neg ‹_›]
        split at h
        · simp [Data.close]
        · simp [Data.close]
        · cases h

theorem storCommand_offset {m : Moment} {path : Str} {channel : Data.OpenCalls} {calls : StorCalls}
    (h : (storCommand m path channel calls s).status = .running) :
    (storCommand m path channel calls s).data.restartOffset =
      if storOpens m path channel calls s then 0 else s.data.restartOffset := by
  unfold storCommand at h ⊢
  unfold storOpens opened
  cases hupload : openUpload m.env m.sys path calls s.site.files with
  | error e => simp [Except.isOk, Except.toBool]
  | ok files =>
    simp only [hupload] at h ⊢
    cases hreplied : calls.replied with
    | false => simp [hreplied] at h
    | true =>
      simp only [hreplied, Bool.not_true, Bool.false_eq_true, if_false] at h ⊢
      split at h
      · cases h
      · rename_i hopen
        simp [hopen, openFor_offset hopen]
      · rename_i hopen
        simp [hopen, transferred, Data.close, Except.isOk, Except.toBool]

theorem retrCommand_offset {m : Moment} {path : Str} {channel : Data.OpenCalls} {calls : RetrCalls}
    (h : (retrCommand m path channel calls s).status = .running) :
    (retrCommand m path channel calls s).data.restartOffset =
      if retrOpens m path channel calls s then 0 else s.data.restartOffset := by
  unfold retrCommand at h ⊢
  unfold retrOpens opened
  simp only at h ⊢
  cases hcharge : takeCharge m.env m.sys path calls (s.site.credits m.env.user.id) with
  | error e => simp [Except.isOk, Except.toBool]
  | ok charge =>
    simp only [hcharge] at h ⊢
    split at h
    · cases h
    · rename_i hreplied
      rw [if_neg hreplied]
      simp only [Bool.not_eq_true', Bool.not_eq_false] at hreplied
      split at h
      · cases h
      · rename_i hopen
        simp [hopen, openFor_offset hopen]
      · rename_i hopen
        simp [hopen, hreplied, transferred, Data.close, Except.isOk, Except.toBool]

theorem stouCommand_offset {m : Moment} {workDirectory : Str} {names : List Str}
    {channel : Data.OpenCalls} {calls : StorCalls}
    (h : (stouCommand m workDirectory names channel (storCallsAt s calls) s).status = .running) :
    (stouCommand m workDirectory names channel (storCallsAt s calls) s).data.restartOffset =
      if opens s (.stou m workDirectory names channel calls) then 0 else s.data.restartOffset := by
  unfold stouCommand at h ⊢
  split at h
  · cases h
  · rename_i hunique
    simp [opens, hunique]
  · rename_i path hunique
    have hopens : opens s (.stou m workDirectory names channel calls) =
        storOpens m path channel (storCallsAt s calls) s := by simp only [opens, hunique]
    rw [hopens]
    exact storCommand_offset h

theorem activeCommand_offset (calls : Option Data.SetupCalls) :
    (activeCommand calls s).data.restartOffset = s.data.restartOffset := by
  cases calls with
  | none => rfl
  | some calls => exact Data.initActive_offset calls s.data

/-- What one command does to the restart offset of a session that goes on. -/
theorem execute_offset {c : Command} (h : (execute s c).status = .running) :
    (execute s c).data.restartOffset = (offsetSet s c).getD s.data.restartOffset := by
  have hget : ∀ b : Bool, (if b then some (0 : Int) else none).getD s.data.restartOffset =
      if b then 0 else s.data.restartOffset := by
    intro b
    cases b <;> rfl
  cases c with
  | pasv calls => exact Data.initPassive_offset calls .PASV s.data
  | epsv calls => exact Data.initPassive_offset calls .EPSV s.data
  | lpsv calls => exact Data.initPassive_offset calls .LPSV s.data
  | cpsv calls => exact Data.initPassive_offset calls .CPSV s.data
  | port calls => exact activeCommand_offset calls
  | eprt calls => exact activeCommand_offset calls
  | lprt calls => exact activeCommand_offset calls
  | epsvMode mode => rfl
  | type ascii => rfl
  | prot protection => rfl
  | rest arg => rfl
  | list calls => exact (listCommand_offset h).trans (hget _).symm
  | stor m path channel calls => exact (storCommand_offset h).trans (hget _).symm
  | stou m workDirectory names channel calls => exact (stouCommand_offset h).trans (hget _).symm
  | retr m path channel calls => exact (retrCommand_offset h).trans (hget _).symm
  | rnfr m path => exact congrArg Data.restartOffset (rnfrCommand_data m path s)
  | rnto m newPath calls => exact congrArg Data.restartOffset (rntoCommand_data m newPath calls s)
  | elsewhere site => rfl

theorem restOffset_nonneg (arg : Str) : 0 ≤ (restOffset arg).getD 0 := by
  unfold restOffset
  split
  · split
    · exact le_refl 0
    · simp only [Option.getD_some]
      omega
  · exact le_refl 0

/-- Digits that make up an `int` are taken as they are. -/
theorem restOffset_digits {arg : Str} (hne : arg ≠ []) (hdigits : arg.all Char.isDigit = true)
    (hvalue : (digitsValue arg : Int) < 2 ^ 31) : restOffset arg = some (digitsValue arg : Int) := by
  rw [restOffset, strToInt_digits hne hdigits hvalue]
  simp only
  rw [if_neg (by omega)]

end Offset

/-- The restart offset of a session that goes on: what the commands so far set last. -/
theorem offset_latest {epsvMode : EPSVMode} {site : Site} {commands : List Command} {s : Session}
    (hrun : run step (.start epsvMode site) commands = some s) (hrunning : s.status = .running) :
    s.data.restartOffset = latest step offsetSet 0 (.start epsvMode site) commands := by
  refine run_latest (Φ := fun s => s.data.restartOffset) (R := fun s => s.status = .running)
    (fun s c s' h => (step_running h).1) (fun s c s' h hs' => ?_) commands hrun hrunning
  obtain ⟨-, rfl⟩ := step_running h
  exact execute_offset hs'

theorem offsetSet_nonneg (s : Session) (c : Command) (v : Int) (h : offsetSet s c = some v) : 0 ≤ v := by
  unfold offsetSet at h
  split at h
  · exact Option.some.inj h ▸ restOffset_nonneg _
  · split at h
    · exact (Option.some.inj h).le
    · cases h

/-- The offset an upload or a download takes is what was set last, by a `REST` or, to 0, by a transfer
or a listing that opened its data connection. `REST` sets digits that make up an `int` as they are. -/
theorem restart_offset {epsvMode : EPSVMode} {site : Site} {commands : List Command} {s : Session}
    (hrun : run step (.start epsvMode site) commands = some s) (hrunning : s.status = .running) :
    ∃ offset : Nat, latest step offsetSet 0 (.start epsvMode site) commands = offset ∧
      (∀ m path channel calls, execute s (.stor m path channel calls) =
        storCommand m path channel { calls with ascii := s.data.ascii, offset := offset } s) ∧
      (∀ m workDirectory names channel calls, execute s (.stou m workDirectory names channel calls) =
        stouCommand m workDirectory names channel
          { calls with ascii := s.data.ascii, offset := offset } s) ∧
      (∀ m path channel calls, execute s (.retr m path channel calls) =
        retrCommand m path channel { calls with ascii := s.data.ascii, offset := offset } s) ∧
      ∀ arg : Str, arg ≠ [] → arg.all Char.isDigit = true → (digitsValue arg : Int) < 2 ^ 31 →
        offsetSet s (.rest arg) = some (digitsValue arg : Int) := by
  have hoffset := offset_latest hrun hrunning
  have hnonneg : 0 ≤ latest step offsetSet 0 (.start epsvMode site) commands :=
    latest_invariant offsetSet_nonneg commands (le_refl 0)
  rw [← hoffset] at hnonneg ⊢
  refine ⟨s.data.restartOffset.toNat, (Int.toNat_of_nonneg hnonneg).symm, fun _ _ _ _ => rfl,
    fun _ _ _ _ _ => rfl, fun _ _ _ _ => rfl, fun arg hne hdigits hvalue => ?_⟩
  rw [offsetSet, restOffset_digits hne hdigits hvalue, Option.getD_some]

theorem restart_offset_802816 :
    ∃ s, run step (.start .Extended bareSite) [.rest "802816".toList] = some s ∧
      ∀ m path channel calls, execute s (.stor m path channel calls) =
        storCommand m path channel { calls with ascii := false, offset := 802816 } s := by
  refine ⟨_, rfl, ?_⟩
  obtain ⟨offset, hlatest, hstor, -⟩ :=
    @restart_offset .Extended bareSite [.rest "802816".toList] _ rfl rfl
  have hvalue : offset = 802816 := by
    have : (802816 : Int) = offset := hlatest
    omega
  rw [hvalue] at hstor
  exact hstor

/-- The offset of a `REST` is still there behind an upload that was refused, and gone behind a
listing; one that takes more than an `int` is not accepted. -/
theorem restart_offset_kept_and_lost :
    (∃ s, run step (.start .Extended bareSite) [.rest "5".toList,
          .stor ⟨exampleDownloader, exampleDisk⟩ "/f".toList acceptCalls
            { exampleStor 0 [] with filtered := false }] = some s ∧
        s.status = .running ∧ s.data.restartOffset = 5) ∧
      (∃ s, run step (.start .Extended bareSite) [.pasv (setUpCalls [.okay]), .rest "5".toList,
          .list plainList] = some s ∧ s.status = .running ∧ s.data.restartOffset = 0) ∧
      restOffset "4294967296".toList = none :=
  ⟨⟨_, rfl, rfl, rfl⟩, ⟨_, rfl, rfl, rfl⟩, by decide⟩

end Channel
end Cmd
end Ebftpd
