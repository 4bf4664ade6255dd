import Ebftpd.Acl.User
import Ebftpd.Lib.Cells
import Mathlib.Algebra.Group.Int.Defs

/-!
# Ebftpd.Db.Stats

The transfer statistics in the database (`src/db/stats/stats.cpp`). The collection `transfers` has
one document for each user, day, direction and section, and `Update` adds to it or inserts it. A
user's statistics of all time in a section are the sums over its documents.

`XfertimeCorrection`, which estimates the transfer time of what is taken back from the averages of
the day, comes from the outside.

* `uploaded_update`: what one update does to the statistics of all time.
* `uploaded_uploadDecr`, `uploaded_uploadIncr`: a correction moves uploads from its section to the one
  without a name, or back.
-/

namespace Ebftpd
namespace Db
namespace Stats

open Util Lib Lib.Cells Acl

inductive Direction where
  | Upload
  | Download
  deriving DecidableEq

structure Date where
  day : Int
  week : Int
  month : Int
  year : Int
  deriving DecidableEq

structure TransferKey where
  uid : UserID
  date : Date
  direction : Direction
  sec : Str
  deriving DecidableEq

structure Amounts where
  files : Int
  kBytes : Int
  xfertime : Int
  deriving DecidableEq

instance : Add Amounts where
  add a b := ⟨a.files + b.files, a.kBytes + b.kBytes, a.xfertime + b.xfertime⟩

abbrev Transfers := List (TransferKey × Amounts)

def update (date : Date) (uid : UserID) (kBytes xfertime files : Int) (sec : Str)
    (direction : Direction) (decrement : Bool) (transfers : Transfers) : Transfers :=
  let amounts : Amounts :=
    if decrement then ⟨-files, -kBytes, -xfertime⟩ else ⟨files, kBytes, xfertime⟩
  upsert ⟨uid, date, direction, sec⟩ amounts transfers

/-- `XfertimeCorrection`, on a user, an amount, a time and a direction. -/
abbrev XfertimeCorrection := Transfers → UserID → Int → Int → Direction → Int

/-- What a correction of the uploads of a user takes back or gives back. -/
structure Correction where
  uid : UserID
  kBytes : Int
  modTime : Int
  sec : Str
  files : Int

variable (xfertimeCorrection : XfertimeCorrection)

/-- The transfer time of a correction; none where it cannot be estimated. -/
def Correction.xfertime (c : Correction) (transfers : Transfers) : Int :=
  max 0 (xfertimeCorrection transfers c.uid c.kBytes c.modTime .Upload)

/-- `UploadIncr`; the section without a name is not affected by nukes and deletions. -/
def uploadIncr (date : Date) (c : Correction) (transfers : Transfers) : Transfers :=
  if c.sec.isEmpty then transfers
  else
    let xfertime := c.xfertime xfertimeCorrection transfers
    update date c.uid c.kBytes xfertime c.files c.sec .Upload false
      (update date c.uid c.kBytes xfertime c.files [] .Upload true transfers)

def uploadDecr (date : Date) (c : Correction) (transfers : Transfers) : Transfers :=
  if c.sec.isEmpty then transfers
  else
    let xfertime := c.xfertime xfertimeCorrection transfers
    update date c.uid c.kBytes xfertime c.files [] .Upload false
      (update date c.uid c.kBytes xfertime c.files c.sec .Upload true transfers)

/-- `Upload`, of one file. -/
def upload (date : Date) (uid : UserID) (kBytes xfertime : Int) (sec : Str) (transfers : Transfers) :
    Transfers :=
  update date uid kBytes xfertime 1 sec .Upload false transfers

/-! ## The statistics of all time -/

inductive Column where
  | files
  | kBytes

def Column.of : Column → Amounts → Int
  | .files => Amounts.files
  | .kBytes => Amounts.kBytes

def Column.amount : Column → Correction → Int
  | .files => Correction.files
  | .kBytes => Correction.kBytes

def inSection (uid : UserID) (sec : Str) (k : TransferKey) : Bool :=
  k.uid == uid && k.direction == .Upload && k.sec == sec

/-- A user's uploads of all time in a section. -/
def uploaded (col : Column) (transfers : Transfers) (uid : UserID) (sec : Str) : Int :=
  total (inSection uid sec) col.of transfers

theorem Column.of_add (col : Column) (a b : Amounts) : col.of (a + b) = col.of a + col.of b := by
  cases col with
  | files => rfl
  | kBytes => rfl

theorem Column.of_neg (col : Column) (files kBytes xfertime : Int) :
    col.of ⟨-files, -kBytes, -xfertime⟩ = -col.of ⟨files, kBytes, xfertime⟩ := by
  cases col with
  | files => rfl
  | kBytes => rfl

theorem Column.of_correction (col : Column) (c : Correction) (xfertime : Int) :
    col.of ⟨c.files, c.kBytes, xfertime⟩ = col.amount c := by
  cases col with
  | files => rfl
  | kBytes => rfl

theorem uploaded_update (col : Column) (date : Date) (uid : UserID) (kBytes xfertime files : Int)
    (sec : Str) (decrement : Bool) (transfers : Transfers) (u : UserID) (j : Str) :
    uploaded col (update date uid kBytes xfertime files sec .Upload decrement transfers) u j =
      uploaded col transfers u j +
        if uid = u ∧ sec = j then
          (if decrement then -col.of ⟨files, kBytes, xfertime⟩ else col.of ⟨files, kBytes, xfertime⟩)
        else 0 := by
  unfold uploaded update
  rw [total_upsert _ col.of_add]
  congr 1
  cases decrement with
  | true => simp [inSection, col.of_neg]
  | false => simp [inSection]

/-- What moving `amount` from the section `sec` to the one without a name does to the section `j`. -/
def shift (sec j : Str) (amount : Int) : Int :=
  (if [] = j then amount else 0) - if sec = j then amount else 0

theorem shift_nil (j : Str) (amount : Int) : shift [] j amount = 0 := by
  simp [shift]

theorem uploaded_moved (col : Column) (date : Date) (c : Correction) (xfertime : Int) (sec sec' : Str)
    (transfers : Transfers) (u : UserID) (j : Str) :
    uploaded col (update date c.uid c.kBytes xfertime c.files sec' .Upload false
        (update date c.uid c.kBytes xfertime c.files sec .Upload true transfers)) u j =
      uploaded col transfers u j + if c.uid = u then
        (if sec' = j then col.amount c else 0) - (if sec = j then col.amount c else 0) else 0 := by
  rw [uploaded_update, uploaded_update, col.of_correction]
  by_cases hu : c.uid = u
  · simp only [hu, true_and, if_true, Bool.false_eq_true, if_false]
    split <;> split <;> omega
  · simp [hu]

theorem uploaded_uploadDecr (col : Column) (date : Date) (c : Correction) (transfers : Transfers)
    (u : UserID) (j : Str) :
    uploaded col (uploadDecr xfertimeCorrection date c transfers) u j =
      uploaded col transfers u j + if c.uid = u then shift c.sec j (col.amount c) else 0 := by
  unfold uploadDecr
  split
  · rename_i hsec
    rw [List.isEmpty_iff.mp hsec, shift_nil]
    simp
  · exact uploaded_moved ..

theorem uploaded_uploadIncr (col : Column) (date : Date) (c : Correction) (transfers : Transfers)
    (u : UserID) (j : Str) :
    uploaded col (uploadIncr xfertimeCorrection date c transfers) u j =
      uploaded col transfers u j - if c.uid = u then shift c.sec j (col.amount c) else 0 := by
  unfold uploadIncr
  split
  · rename_i hsec
    rw [List.isEmpty_iff.mp hsec, shift_nil]
    simp
  · refine (uploaded_moved ..).trans ?_
    rw [shift]
    split
    · omega
    · omega

end Stats
end Db
end Ebftpd
