import Mathlib.Algebra.BigOperators.Group.List.Basic
import Mathlib.Algebra.Order.Field.Rat
import Ebftpd.Db.Stats

/-!
# Ebftpd.Stats.Stat

A user's or a group's statistics (`src/stats/stat.hpp`) and the sums of some. The speed is the rational
number that the code has as a `double`.
-/

namespace Ebftpd
namespace Stats

open Db.Stats

inductive SortField where
  | KBytes | Files | Speed

/-- `stats::Stat`, of a user id or a group id. -/
structure Stat extends Amounts where
  id : Int
  deriving DecidableEq

/-- `Speed`, and that of the totals of a report. -/
def speed (a : Amounts) : ℚ :=
  if a.xfertime = 0 then a.kBytes else a.kBytes / (a.xfertime / 1000)

/-- The sums over some statistics. -/
def sums (l : List Stat) : Amounts where
  files := (l.map (·.files)).sum
  kBytes := (l.map (·.kBytes)).sum
  xfertime := (l.map (·.xfertime)).sum

@[ext] theorem amounts_ext {a b : Amounts} (hfiles : a.files = b.files) (hkBytes : a.kBytes = b.kBytes)
    (hxfertime : a.xfertime = b.xfertime) : a = b := by
  cases a
  cases b
  cases hfiles
  cases hkBytes
  cases hxfertime
  rfl

@[simp] theorem files_add (a b : Amounts) : (a + b).files = a.files + b.files := rfl

@[simp] theorem kBytes_add (a b : Amounts) : (a + b).kBytes = a.kBytes + b.kBytes := rfl

@[simp] theorem xfertime_add (a b : Amounts) : (a + b).xfertime = a.xfertime + b.xfertime := rfl

instance : Zero Amounts := ⟨⟨0, 0, 0⟩⟩

instance : AddCommMonoid Amounts where
  add_assoc a b c := by ext <;> exact Int.add_assoc _ _ _
  zero_add a := by ext <;> exact Int.zero_add _
  add_zero a := by ext <;> exact Int.add_zero _
  add_comm a b := by ext <;> exact Int.add_comm _ _
  nsmul := nsmulRec

theorem add_eq_left_iff {a b : Amounts} : a + b = a ↔ b = 0 := by
  constructor
  · intro h
    ext
    · exact add_eq_left.mp (congrArg Amounts.files h)
    · exact add_eq_left.mp (congrArg Amounts.kBytes h)
    · exact add_eq_left.mp (congrArg Amounts.xfertime h)
  · rintro rfl
    exact add_zero a

@[simp] theorem sums_nil : sums [] = 0 := rfl

theorem sums_cons (s : Stat) (l : List Stat) : sums (s :: l) = s.toAmounts + sums l := by
  ext <;> simp [sums]

theorem sums_append (l l' : List Stat) : sums (l ++ l') = sums l + sums l' := by
  ext <;> simp [sums]

theorem sums_perm {l l' : List Stat} (h : l.Perm l') : sums l = sums l' := by
  ext
  · exact (h.map _).sum_eq
  · exact (h.map _).sum_eq
  · exact (h.map _).sum_eq

end Stats
end Ebftpd
