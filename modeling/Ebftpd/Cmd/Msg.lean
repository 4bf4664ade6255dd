import Ebftpd.Db.Mail
import Ebftpd.Lib.Run

/-!
# Ebftpd.Cmd.Msg

SITE MSG (`src/cmd/site/msg.cpp`) and the purge at log-off (`src/ftp/clientimpl.cpp`), as inputs to
the collection of messages; SEND is an input for each recipient. READ moves a message to the trash when all of it was displayed; `shown`
messages are, before the connection breaks. Between the commands the database may move documents.

* `kept`: a message leaves only when it is purged by its index or out of the trash.
* `trashed_shown`: an unread message becomes trash only by being displayed.
* `savedAll_iff`: after which SAVE nothing is left in the trash.
* `mail_kept_iff`: the runs that keep to all of this.
-/

namespace Ebftpd
namespace Cmd
namespace Msg

open Util Acl Lib
open Lib.Collection
open Db.Mail

inductive Input where
  | send (oid : Nat) (sender : Str) (recipient : UserID) (body : Str) (now : Int)
  | read (uid : UserID) (index : Option Int) (shown : Nat)
  | save (uid : UserID) (index : Option Int)
  | purge (uid : UserID) (index : Option Int)
  | logOff (uid : UserID)
  | move (messages : List Message)

/-- The messages that READ is to display: the one with the index, from 1 on, or all unread ones. -/
def chosen (mail : Mails) (uid : UserID) : Option Int → List Message
  | some index => if index < 1 then [] else ((get mail uid)[(index - 1).toNat]?).toList
  | none => (get mail uid).filter (·.status == .Unread)

/-- The loop of READ over the messages that were displayed. -/
def readLoop (mail : Mails) : List Message → Mails
  | [] => mail
  | m :: messages => readLoop (if m.status = .Unread then trash mail m else mail) messages

/-- The messages that READ displays. -/
def displayed (mail : Mails) (uid : UserID) (index : Option Int) (shown : Nat) : List Message :=
  (chosen mail uid index).take shown

def step (mail : Mails) : Input → Option Mails
  | .send oid sender recipient body now =>
    if h : oid ∉ mail.oids then some (Db.Mail.send mail ⟨oid, sender, recipient, body, now, .Unread⟩ h)
    else none
  | .read uid index shown => some (readLoop mail (displayed mail uid index shown))
  | .save uid none => some (saveTrash mail uid).1
  | .save uid (some index) => some (Db.Mail.save mail uid (index - 1)).1
  | .purge uid none => some (purgeTrash mail uid).1
  | .purge uid (some index) => some (Db.Mail.purge mail uid (index - 1)).1
  | .logOff uid => some (logOffPurgeTrash mail uid)
  | .move messages =>
    if h : messages.Perm mail.messages then
      some ⟨messages, (h.map Message.oid).nodup_iff.mpr mail.unique⟩
    else none

/-- Only what was purged by its index, or out of the trash, is gone after the input. -/
def Kept (mail : Mails) (i : Input) : Prop :=
  ∀ mail', step mail i = some mail' → ∀ m ∈ mail.messages, m.oid ∉ mail'.oids →
    (∃ n, i = .purge m.recipient (some n) ∧ 1 ≤ n ∧ (get mail m.recipient)[(n - 1).toNat]? = some m) ∨
      (i = .purge m.recipient none ∨ i = .logOff m.recipient) ∧ m.status = .Trash

/-- What was unread and is trash after the input was displayed by it. -/
def TrashedShown (mail : Mails) (i : Input) : Prop :=
  ∀ mail', step mail i = some mail' → ∀ m ∈ mail.messages, m.status = .Unread →
    ∀ m' ∈ mail'.messages, m'.oid = m.oid → m'.status = .Trash →
      ∃ index shown, i = .read m.recipient index shown ∧ m ∈ displayed mail m.recipient index shown

/-- After a SAVE without index nothing is in the trash. -/
def SavedAll (mail : Mails) (i : Input) : Prop :=
  ∀ uid, i = .save uid none → ∀ mail', step mail i = some mail' →
    ∀ m ∈ mail'.messages, isTrashOf uid m = false

variable {mail mail' : Mails} {m m' : Message} {uid : UserID}

theorem readLoop_oids (messages : List Message) : (readLoop mail messages).oids = mail.oids := by
  induction messages generalizing mail with
  | nil => rfl
  | cons x messages ih =>
    rw [readLoop, ih]
    split
    · exact update_oids
    · rfl

/-- What the loop of READ changes, it has displayed. -/
theorem mem_readLoop {messages : List Message} (h : m ∈ (readLoop mail messages).messages) :
    m ∈ mail.messages ∨ ∃ x ∈ messages, m.oid = x.oid := by
  induction messages generalizing mail with
  | nil => exact .inl h
  | cons x messages ih =>
    rcases ih h with hmail | ⟨y, hy, hoid⟩
    · split at hmail
      · rcases mem_update hmail with hm | ⟨m', -, hm', rfl⟩
        · exact .inl hm
        · exact .inr ⟨x, List.mem_cons_self, by simpa [hasOID] using hm'⟩
      · exact .inl hmail
    · exact .inr ⟨y, List.mem_cons_of_mem _ hy, hoid⟩

theorem mem_chosen {index : Option Int} (h : m ∈ chosen mail uid index) : m ∈ get mail uid := by
  cases index with
  | none => exact (List.mem_filter.mp h).1
  | some index =>
    simp only [chosen] at h
    split at h
    · simp at h
    · exact List.mem_of_getElem? (Option.mem_toList.mp h)

theorem mem_displayed {index : Option Int} {shown : Nat} (h : m ∈ displayed mail uid index shown) :
    m ∈ mail.messages ∧ m.recipient = uid :=
  mem_get.mp (mem_chosen (List.mem_of_mem_take h))

theorem save_oids (index : Int) : (Db.Mail.save mail uid index).1.oids = mail.oids := by
  unfold Db.Mail.save
  split
  · rfl
  · exact update_oids

/-- What a removal takes from the collection matches. -/
theorem matches_of_removed {p : Message → Bool} (hm : m ∈ mail.messages)
    (hgone : m.oid ∉ (remove mail p).oids) : p m = true := by
  by_contra hp
  exact hgone (List.mem_map_of_mem (mem_remove.mpr ⟨hm, by simpa using hp⟩))

theorem purged_by_index {index : Int} (hm : m ∈ mail.messages)
    (hgone : m.oid ∉ (Db.Mail.purge mail uid index).1.oids) :
    0 ≤ index ∧ (get mail uid)[index.toNat]? = some m := by
  unfold Db.Mail.purge at hgone
  split at hgone
  · exact absurd (List.mem_map_of_mem hm) hgone
  · rename_i oid hoid
    unfold indexToOID at hoid
    split at hoid
    · cases hoid
    · obtain ⟨x, hx, rfl⟩ := Option.map_eq_some_iff.mp hoid
      have hsame : m.oid = x.oid := by simpa [hasOID] using matches_of_removed hm hgone
      have hx' := (mem_get.mp (List.mem_of_getElem? hx)).1
      rw [eq_of_oid hm hx' hsame]
      exact ⟨by omega, hx⟩

theorem trash_of_removed (hm : m ∈ mail.messages) (hgone : m.oid ∉ (purgeTrash mail uid).1.oids) :
    m.recipient = uid ∧ m.status = .Trash := by
  simpa [isTrashOf] using matches_of_removed hm hgone

/-- SAVE leaves the messages as they are, or saved. -/
theorem mem_saved {index : Option Int} (hstep : step mail (.save uid index) = some mail')
    (h : m ∈ mail'.messages) : m ∈ mail.messages ∨ m.status = .Saved := by
  cases index with
  | none =>
    cases hstep
    exact (mem_update h).imp_right fun ⟨_, _, _, hm⟩ => hm ▸ rfl
  | some index =>
    cases hstep
    unfold Db.Mail.save at h
    split at h
    · exact .inl h
    · exact (mem_update h).imp_right fun ⟨_, _, _, hm⟩ => hm ▸ rfl

/-- PURGE leaves nothing that was not there. -/
theorem mem_purged {index : Option Int} (hstep : step mail (.purge uid index) = some mail')
    (h : m ∈ mail'.messages) : m ∈ mail.messages := by
  cases index with
  | none =>
    cases hstep
    exact (mem_remove.mp h).1
  | some index =>
    cases hstep
    unfold Db.Mail.purge at h
    split at h
    · exact h
    · exact (mem_remove.mp h).1

theorem kept (mail : Mails) (i : Input) : Kept mail i := by
  intro mail' hstep m hm hgone
  have hstays : mail.oids ⊆ mail'.oids → False := fun h => hgone (h (List.mem_map_of_mem hm))
  cases i with
  | send oid sender recipient body now =>
    simp only [step] at hstep
    split at hstep
    · cases hstep
      refine (hstays ?_).elim
      simp [Db.Mail.send, Mails.oids]
    · cases hstep
  | read uid index shown =>
    cases hstep
    exact (hstays (readLoop_oids _ ▸ List.Subset.refl _)).elim
  | save uid index =>
    cases index with
    | none =>
      cases hstep
      exact (hstays (update_oids ▸ List.Subset.refl _)).elim
    | some index =>
      cases hstep
      exact (hstays (save_oids _ ▸ List.Subset.refl _)).elim
  | purge uid index =>
    cases index with
    | none =>
      cases hstep
      obtain ⟨rfl, htrash⟩ := trash_of_removed hm hgone
      exact .inr ⟨.inl rfl, htrash⟩
    | some n =>
      cases hstep
      obtain ⟨hn, hget⟩ := purged_by_index hm hgone
      obtain ⟨-, rfl⟩ := mem_get.mp (List.mem_of_getElem? hget)
      exact .inl ⟨n, rfl, by omega, hget⟩
  | logOff uid =>
    cases hstep
    obtain ⟨rfl, htrash⟩ := trash_of_removed hm hgone
    exact .inr ⟨.inr rfl, htrash⟩
  | move messages =>
    simp only [step] at hstep
    split at hstep
    · rename_i hperm
      cases hstep
      exact (hstays (hperm.map Message.oid).symm.subset).elim
    · cases hstep

theorem trashed_shown (mail : Mails) (i : Input) : TrashedShown mail i := by
  intro mail' hstep m hm hunread m' hm' hoid htrash
  -- a message that was there is the one that was unread
  have hold : m' ∈ mail.messages → False := by
    intro h
    rw [eq_of_oid h hm hoid, hunread] at htrash
    cases htrash
  cases i with
  | send oid sender recipient body now =>
    simp only [step] at hstep
    split at hstep
    · rename_i hnew
      cases hstep
      rcases List.mem_append.mp hm' with h | h
      · exact (hold h).elim
      · obtain rfl := List.mem_singleton.mp h
        refine (hnew ?_).elim
        rw [show oid = m.oid from hoid]
        exact List.mem_map_of_mem hm
    · cases hstep
  | read uid index shown =>
    cases hstep
    rcases mem_readLoop hm' with h | ⟨x, hx, hxoid⟩
    · exact (hold h).elim
    · obtain ⟨hxm, rfl⟩ := mem_displayed hx
      rw [eq_of_oid hm hxm (hoid.symm.trans hxoid)]
      exact ⟨index, shown, rfl, hx⟩
  | save uid index =>
    rcases mem_saved hstep hm' with h | h
    · exact (hold h).elim
    · rw [h] at htrash
      cases htrash
  | purge uid index => exact (hold (mem_purged hstep hm')).elim
  | logOff uid =>
    cases hstep
    exact (hold (mem_remove.mp hm').1).elim
  | move messages =>
    simp only [step] at hstep
    split at hstep
    · rename_i hperm
      cases hstep
      exact (hold (hperm.mem_iff.mp hm')).elim
    · cases hstep

/-- The messages that SAVE without index leaves in the trash: all but the first. -/
theorem trash_saveTrash :
    (saveTrash mail uid).1.messages.countP (isTrashOf uid) =
      mail.messages.countP (isTrashOf uid) - 1 :=
  countP_updateFirst fun m => by simp [isTrashOf, withStatus]

/-- Where a SAVE without index is to save no more than one message. -/
def AtMostOneTrash (mail : Mails) : Input → Prop
  | .save uid none => mail.messages.countP (isTrashOf uid) ≤ 1
  | _ => True

instance (mail : Mails) : DecidablePred (AtMostOneTrash mail)
  | .save uid none => inferInstanceAs (Decidable (mail.messages.countP (isTrashOf uid) ≤ 1))
  | .save _ (some _) | .send .. | .read .. | .purge .. | .logOff .. | .move .. => .isTrue trivial

/-- A SAVE without index saves all there is to save where that is one message at most. -/
theorem saveTrash_all_iff :
    (∀ m ∈ (saveTrash mail uid).1.messages, isTrashOf uid m = false) ↔
      mail.messages.countP (isTrashOf uid) ≤ 1 := by
  have hnone : (∀ m ∈ (saveTrash mail uid).1.messages, isTrashOf uid m = false) ↔
      (saveTrash mail uid).1.messages.countP (isTrashOf uid) = 0 := by
    simp [List.countP_eq_zero]
  rw [hnone, trash_saveTrash]
  omega

theorem savedAll_iff (mail : Mails) (i : Input) : SavedAll mail i ↔ AtMostOneTrash mail i := by
  constructor
  · intro h
    cases i with
    | save uid index =>
      cases index with
      | none => exact saveTrash_all_iff.mp (h uid rfl _ rfl)
      | some index => trivial
    | send oid sender recipient body now => trivial
    | read uid index shown => trivial
    | purge uid index => trivial
    | logOff uid => trivial
    | move messages => trivial
  · rintro h uid rfl mail' hstep
    cases hstep
    exact saveTrash_all_iff.mpr h

/-- No message is lost, none is trash unseen, and what was to be saved is. -/
def Safe (mail : Mails) (i : Input) : Prop := Kept mail i ∧ TrashedShown mail i ∧ SavedAll mail i

/-- A run on the mail loses nothing exactly where no SAVE without index is given while more than one
message of the user is in the trash. -/
theorem mail_kept_iff (mail : Mails) (l : List Input) :
    Meets step Safe mail l ↔ Meets step AtMostOneTrash mail l :=
  ⟨Meets.mono fun mail i h => (savedAll_iff mail i).mp h.2.2,
    Meets.mono fun mail i h => ⟨kept mail i, trashed_shown mail i, (savedAll_iff mail i).mpr h⟩⟩

def empty : Mails := ⟨[], List.nodup_nil⟩

/-- Two messages are read and saved; at log-off the second is gone. -/
def lostInput : List Input :=
  [.send 1 "bob".toList 7 "one".toList 100, .send 2 "bob".toList 7 "two".toList 200,
    .read 7 none 2, .save 7 none, .logOff 7]

theorem second_message_lost :
    ¬ Meets step Safe empty lostInput ∧
      ∃ mail, run step empty lostInput = some mail ∧
        mail.messages = [⟨1, "bob".toList, 7, "one".toList, 100, .Saved⟩] := by
  refine ⟨?_, run_ends (by decide)⟩
  intro hsafe
  have hone : Meets step AtMostOneTrash empty lostInput :=
    hsafe.mono fun mail i h => (savedAll_iff mail i).mp h.2.2
  revert hone
  decide

end Msg
end Cmd
end Ebftpd
