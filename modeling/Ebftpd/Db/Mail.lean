import Ebftpd.Acl.User
import Ebftpd.Lib.Collection

/-!
# Ebftpd.Db.Mail

The collection `mail` (`src/db/mail/mail.cpp`). The mailbox of a user are the messages to him in the
natural order of the collection. Object ids are unique; `Mails` carries this.

* `mem_update`, `mem_remove`: what an update or a removal by an object id does to the messages.
-/

namespace Ebftpd
namespace Db
namespace Mail

open Util Acl
open Lib.Collection

inductive Status where
  | Unread
  | Trash
  | Saved
  deriving DecidableEq

structure Message where
  oid : Nat
  sender : Str
  recipient : UserID
  body : Str
  timeSent : Int
  status : Status
  deriving DecidableEq

structure Mails where
  messages : List Message
  unique : (messages.map Message.oid).Nodup

def Mails.oids (mail : Mails) : List Nat := mail.messages.map Message.oid

/-- `Get`. -/
def get (mail : Mails) (recipient : UserID) : List Message :=
  mail.messages.filter (·.recipient == recipient)

def withStatus (status : Status) (m : Message) : Message := { m with status := status }

@[simp] theorem withStatus_oid (status : Status) (m : Message) : (withStatus status m).oid = m.oid := rfl

/-- `Connection::Update` of the status, which changes the first message that matches. -/
def update (mail : Mails) (p : Message → Bool) (status : Status) : Mails where
  messages := updateFirst p (withStatus status) mail.messages
  unique := by
    rw [key_updateFirst (withStatus_oid status)]
    exact mail.unique

/-- `Connection::Remove`. -/
def remove (mail : Mails) (p : Message → Bool) : Mails where
  messages := mail.messages.filter fun m => !p m
  unique := mail.unique.sublist (List.filter_sublist.map _)

/-- `Send`, under an object id that is new. -/
def send (mail : Mails) (m : Message) (h : m.oid ∉ mail.oids) : Mails where
  messages := mail.messages ++ [m]
  unique := by
    rw [List.map_append, List.map_singleton, List.nodup_append]
    refine ⟨mail.unique, List.nodup_singleton _, ?_⟩
    rintro a ha b hb rfl
    exact h (List.mem_singleton.mp hb ▸ ha)

/-- `IndexToOID`; the database refuses to skip a negative number of messages. -/
def indexToOID (mail : Mails) (recipient : UserID) (index : Int) : Option Nat :=
  if index < 0 then none else ((get mail recipient)[index.toNat]?).map Message.oid

def hasOID (oid : Nat) (m : Message) : Bool := m.oid == oid

def isTrashOf (recipient : UserID) (m : Message) : Bool := m.recipient == recipient && m.status == .Trash

/-- `Save`, and whether there was such a message. -/
def save (mail : Mails) (recipient : UserID) (index : Int) : Mails × Bool :=
  match indexToOID mail recipient index with
  | none => (mail, false)
  | some oid => (update mail (hasOID oid) .Saved, mail.messages.any (hasOID oid))

/-- `SaveTrash`, and how many messages were changed. -/
def saveTrash (mail : Mails) (recipient : UserID) : Mails × Nat :=
  (update mail (isTrashOf recipient) .Saved, if mail.messages.any (isTrashOf recipient) then 1 else 0)

/-- `Purge`, and whether there was such a message. -/
def purge (mail : Mails) (recipient : UserID) (index : Int) : Mails × Bool :=
  match indexToOID mail recipient index with
  | none => (mail, false)
  | some oid => (remove mail (hasOID oid), mail.messages.any (hasOID oid))

/-- `PurgeTrash`, and how many messages were removed. -/
def purgeTrash (mail : Mails) (recipient : UserID) : Mails × Nat :=
  (remove mail (isTrashOf recipient), mail.messages.countP (isTrashOf recipient))

def logOffPurgeTrash (mail : Mails) (recipient : UserID) : Mails := (purgeTrash mail recipient).1

/-- `Trash`. -/
def trash (mail : Mails) (m : Message) : Mails := update mail (hasOID m.oid) .Trash

variable {mail : Mails} {p : Message → Bool} {status : Status} {m m' : Message}

@[simp] theorem update_oids : (update mail p status).oids = mail.oids :=
  key_updateFirst (withStatus_oid status)

/-- Two messages with one object id are one. -/
theorem eq_of_oid (h : m ∈ mail.messages) (h' : m' ∈ mail.messages) (heq : m.oid = m'.oid) : m = m' :=
  List.inj_on_of_nodup_map mail.unique h h' heq

theorem mem_remove : m ∈ (remove mail p).messages ↔ m ∈ mail.messages ∧ p m = false := by
  simp [remove]

theorem mem_update (h : m ∈ (update mail p status).messages) :
    m ∈ mail.messages ∨ ∃ m' ∈ mail.messages, p m' = true ∧ m = withStatus status m' :=
  mem_updateFirst h

theorem mem_get {uid : UserID} : m ∈ get mail uid ↔ m ∈ mail.messages ∧ m.recipient = uid := by
  simp [get]

end Mail
end Db
end Ebftpd
