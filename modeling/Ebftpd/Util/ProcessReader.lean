import Mathlib.Data.List.TakeWhile
import Ebftpd.Lib.Framing

/-!
# Ebftpd.Util.ProcessReader

The lines that a child process writes, as `ProcessReader::Getline` (`util/util/processreader.cpp`) returns
them. The bytes come in the chunks that `read` cuts the pipe into, through a buffer of characters, which
are signed.

* `nthLine_eq`: however the output is cut, the lines are those in front of the first byte 255.
* `readWhole_iff`: so the output is read whole exactly when that byte is not in it.
-/

namespace Ebftpd
namespace Util
namespace ProcessReader

open Lib

abbrev Bytes := List UInt8

/-- `BUFSIZ`. -/
def defaultBufferSize : Nat := 8192

/-- What one `read` returns before the end of the pipe. -/
structure Chunk where
  bytes : Bytes
  ne_nil : bytes ≠ []
  length_le : bytes.length ≤ defaultBufferSize

structure Reader where
  -- what the next reads return; after them the pipe is at its end
  reads : List Chunk
  -- `getcharBuffer`, as far as it was not read
  buffer : Bytes
  eof : Bool

def Reader.opened (reads : List Chunk) : Reader := ⟨reads, [], false⟩

/-- The value of a character. -/
def charOf (b : UInt8) : Int := if b.toNat < 128 then b.toNat else b.toNat - 256

/-- The character that a value is appended as. -/
def byteOf (ch : Int) : UInt8 := UInt8.ofNat (ch % 256).toNat

/-- `Read`, without interruption or timeout. -/
def read (r : Reader) : Bytes × List Chunk :=
  match r.reads with
  | [] => ([], [])
  | chunk :: reads => (chunk.bytes, reads)

def getcharBuffered (r : Reader) : Int × Reader :=
  match r.buffer with
  | c :: buffer => (charOf c, { r with buffer := buffer })
  | [] =>
    match read r with
    | ([], reads) => (-1, { r with reads := reads })
    | (c :: buffer, reads) => (charOf c, { r with reads := reads, buffer := buffer })

/-- The bytes that are still to come. -/
def Reader.left (r : Reader) : Bytes := r.buffer ++ r.reads.flatMap Chunk.bytes

theorem getcharBuffered_nil {r : Reader} (h : r.left = []) : getcharBuffered r = (-1, r) := by
  obtain ⟨reads, buffer, eof⟩ := r
  obtain ⟨rfl, hreads⟩ : buffer = [] ∧ reads.flatMap Chunk.bytes = [] := by simpa [Reader.left] using h
  cases reads with
  | nil => rfl
  | cons chunk reads =>
    rw [List.flatMap_cons, List.append_eq_nil_iff] at hreads
    exact absurd hreads.1 chunk.ne_nil

theorem getcharBuffered_cons {r : Reader} {c : UInt8} {l : Bytes} (h : r.left = c :: l) :
    ∃ r', getcharBuffered r = (charOf c, r') ∧ r'.left = l ∧ r'.eof = r.eof := by
  obtain ⟨reads, buffer, eof⟩ := r
  cases buffer with
  | cons b buffer =>
    rw [Reader.left, List.cons_append, List.cons.injEq] at h
    obtain ⟨rfl, hl⟩ := h
    exact ⟨⟨reads, buffer, eof⟩, rfl, hl, rfl⟩
  | nil =>
    cases reads with
    | nil => cases h
    | cons chunk reads =>
      obtain ⟨b, buffer, hchunk⟩ := List.exists_cons_of_ne_nil chunk.ne_nil
      rw [Reader.left, List.nil_append, List.flatMap_cons, hchunk, List.cons_append, List.cons.injEq] at h
      obtain ⟨rfl, hl⟩ := h
      refine ⟨⟨reads, buffer, eof⟩, ?_, hl, rfl⟩
      simp only [getcharBuffered, read, hchunk]

theorem getcharBuffered_left {r : Reader} (h : (getcharBuffered r).1 ≠ -1) :
    (getcharBuffered r).2.left.length < r.left.length := by
  cases hl : r.left with
  | nil =>
    rw [getcharBuffered_nil hl] at h
    exact absurd rfl h
  | cons c l =>
    obtain ⟨r', hr', hleft, -⟩ := getcharBuffered_cons hl
    rw [hr', hleft]
    simp

/-- The loop of `Getline`, with what is in the buffer. -/
def getlineLoop (r : Reader) (buffer : Bytes) : Bool × Bytes × Reader :=
  let ch := (getcharBuffered r).1
  let r' := (getcharBuffered r).2
  if _h : ch = -1 then
    -- the end of the output
    (!buffer.isEmpty, buffer, { r' with eof := true })
  else
    let buffer := if ch ≠ 13 ∧ ch ≠ 10 then buffer ++ [byteOf ch] else buffer
    if ch = 10 then (true, buffer, r') else getlineLoop r' buffer
termination_by r.left.length
decreasing_by exact getcharBuffered_left _h

def getline (r : Reader) (buffer : Bytes) : Bool × Bytes × Reader :=
  if r.eof then (false, buffer, r) else getlineLoop r []

/-- The line that the call returns after `n` calls, if it returns one. -/
def nthLine : Nat → Reader → Bytes → Option Bytes
  | 0, r, buffer =>
    let (more, line, _) := getline r buffer
    if more then some line else none
  | n + 1, r, buffer =>
    let (_, buffer', r') := getline r buffer
    nthLine n r' buffer'

/-- The lines of an output behind an open line: without carriage returns, and the last one also where no
line feed ends it. -/
def linesFrom (line output : Bytes) : List Bytes :=
  let (lines, rest) := Framing.feed 10 line (output.filter (· ≠ 13))
  lines ++ if rest.isEmpty then [] else [rest]

def linesOf (output : Bytes) : List Bytes := linesFrom [] output

/-- The calls return the lines of the output and then nothing. -/
def ReadWhole (chunks : List Chunk) : Prop :=
  ∀ n buffer, nthLine n (.opened chunks) buffer = (linesOf (chunks.flatMap Chunk.bytes))[n]?

/-! ## Characters -/

theorem charOf_eq_neg_one {b : UInt8} : charOf b = -1 ↔ b = 255 := by
  have hlt := b.toNat_lt
  rw [← UInt8.toNat_inj, charOf]
  split
  · simp only [UInt8.reduceToNat]
    omega
  · simp only [UInt8.reduceToNat]
    omega

theorem charOf_eq_small {b c : UInt8} (hc : c.toNat < 128) : charOf b = c.toNat ↔ b = c := by
  have hlt := b.toNat_lt
  rw [← UInt8.toNat_inj, charOf]
  split
  · omega
  · omega

theorem byteOf_charOf (b : UInt8) : byteOf (charOf b) = b := by
  have hlt := b.toNat_lt
  have hmod : (charOf b % 256).toNat = b.toNat := by
    unfold charOf
    split
    · omega
    · omega
  rw [byteOf, hmod, UInt8.ofNat_toNat]

/-! ## Lines -/

/-- The part of an output that comes through: up to the first byte that is taken for the end. -/
def readable (output : Bytes) : Bytes := output.takeWhile (· ≠ 255)

theorem linesFrom_nil (line : Bytes) : linesFrom line [] = if line.isEmpty then [] else [line] := rfl

theorem linesFrom_cr (line output : Bytes) : linesFrom line (13 :: output) = linesFrom line output := rfl

theorem linesFrom_lf (line output : Bytes) : linesFrom line (10 :: output) = line :: linesOf output := rfl

theorem linesFrom_other {c : UInt8} (hcr : c ≠ 13) (hlf : c ≠ 10) (line output : Bytes) :
    linesFrom line (c :: output) = linesFrom (line ++ [c]) output := by
  have hfilter : (c :: output).filter (· ≠ 13) = c :: output.filter (· ≠ 13) := by simp [hcr]
  rw [linesFrom, hfilter, Framing.feed, if_neg hlf]
  rfl

/-- The lines that are still to come. -/
def Reader.lines (r : Reader) : List Bytes := if r.eof then [] else linesOf (readable r.left)

/-- What a call does where these lines are to come. -/
def Returns (lines : List Bytes) (result : Bool × Bytes × Reader) : Prop :=
  match lines with
  | [] => result.1 = false ∧ result.2.2.lines = []
  | line :: rest => result.1 = true ∧ result.2.1 = line ∧ result.2.2.lines = rest

theorem returns_end (buffer : Bytes) {r : Reader} (h : r.eof = true) :
    Returns (linesFrom buffer []) (!buffer.isEmpty, buffer, r) := by
  have hlines : r.lines = [] := by rw [Reader.lines, if_pos h]
  cases buffer with
  | nil => exact ⟨rfl, hlines⟩
  | cons c buffer => exact ⟨rfl, rfl, hlines⟩

theorem getlineLoop_returns (l : Bytes) :
    ∀ (r : Reader) (buffer : Bytes), r.left = l → r.eof = false →
      Returns (linesFrom buffer (readable l)) (getlineLoop r buffer) := by
  induction l with
  | nil =>
    intro r buffer hleft _
    rw [getlineLoop, getcharBuffered_nil hleft]
    exact returns_end buffer rfl
  | cons c l ih =>
    intro r buffer hleft heof
    obtain ⟨r', hr', hleft', heof'⟩ := getcharBuffered_cons hleft
    rw [getlineLoop, hr']
    by_cases hend : c = 255
    · subst hend
      exact returns_end buffer rfl
    have hreadable : readable (c :: l) = c :: readable l := by simp [readable, hend]
    have hcr : charOf c = 13 ↔ c = 13 := charOf_eq_small (c := 13) (by decide)
    have hlf : charOf c = 10 ↔ c = 10 := charOf_eq_small (c := 10) (by decide)
    rw [dif_neg (mt charOf_eq_neg_one.mp hend), hreadable]
    simp only [ne_eq, hcr, hlf, byteOf_charOf]
    by_cases h13 : c = 13
    · subst h13
      rw [linesFrom_cr, if_neg (by decide), if_neg (by simp)]
      exact ih r' buffer hleft' (heof'.trans heof)
    by_cases h10 : c = 10
    · subst h10
      rw [linesFrom_lf, if_pos rfl, if_neg (by simp)]
      refine ⟨rfl, rfl, ?_⟩
      rw [Reader.lines, heof', heof, hleft']
      rfl
    · rw [linesFrom_other h13 h10, if_neg h10, if_pos ⟨h13, h10⟩]
      exact ih r' (buffer ++ [c]) hleft' (heof'.trans heof)

theorem getline_returns (r : Reader) (buffer : Bytes) : Returns r.lines (getline r buffer) := by
  unfold getline Reader.lines
  cases heof : r.eof with
  | true =>
    refine ⟨rfl, ?_⟩
    simp [Reader.lines, heof]
  | false => exact getlineLoop_returns r.left r [] rfl heof

/-- However the output is cut, the calls return the lines in front of the first byte 255. -/
theorem nthLine_eq (n : Nat) : ∀ (r : Reader) (buffer : Bytes), nthLine n r buffer = r.lines[n]? := by
  induction n with
  | zero =>
    intro r buffer
    have hret := getline_returns r buffer
    rw [nthLine]
    cases hlines : r.lines with
    | nil =>
      rw [hlines] at hret
      simp [hret.1]
    | cons line rest =>
      rw [hlines] at hret
      simp [hret.1, hret.2.1]
  | succ n ih =>
    intro r buffer
    have hret := getline_returns r buffer
    rw [nthLine]
    simp only [ih]
    cases hlines : r.lines with
    | nil =>
      rw [hlines] at hret
      simp [hret.2]
    | cons line rest =>
      rw [hlines] at hret
      simp [hret.2.2]

/-- Every byte of a line comes from the output or was there before. -/
theorem mem_of_mem_linesFrom {b : UInt8} {output : Bytes} :
    ∀ {line : Bytes}, ∀ l ∈ linesFrom line output, b ∈ l → b ∈ line ∨ b ∈ output := by
  induction output with
  | nil =>
    intro line l hl hb
    rw [linesFrom_nil] at hl
    split at hl
    · cases hl
    · rw [List.mem_singleton.mp hl] at hb
      exact .inl hb
  | cons c output ih =>
    intro line l hl hb
    by_cases h13 : c = 13
    · subst h13
      rw [linesFrom_cr] at hl
      exact (ih l hl hb).imp_right (List.mem_cons_of_mem _)
    by_cases h10 : c = 10
    · subst h10
      rw [linesFrom_lf] at hl
      rcases List.mem_cons.mp hl with rfl | hl
      · exact .inl hb
      · exact .inr (List.mem_cons_of_mem _ ((ih l hl hb).resolve_left List.not_mem_nil))
    · rw [linesFrom_other h13 h10] at hl
      rcases ih l hl hb with hold | hnew
      · rcases List.mem_append.mp hold with hline | hc
        · exact .inl hline
        · rw [List.mem_singleton.mp hc]
          exact .inr List.mem_cons_self
      · exact .inr (List.mem_cons_of_mem _ hnew)

/-- No byte but carriage returns and line feeds is lost. -/
theorem exists_mem_linesFrom {b : UInt8} (h13 : b ≠ 13) (h10 : b ≠ 10) {output : Bytes} :
    ∀ {line : Bytes}, b ∈ line ∨ b ∈ output → ∃ l ∈ linesFrom line output, b ∈ l := by
  induction output with
  | nil =>
    intro line hb
    have hb := hb.resolve_right List.not_mem_nil
    rw [linesFrom_nil, if_neg (by simpa using List.ne_nil_of_mem hb)]
    exact ⟨line, List.mem_singleton_self line, hb⟩
  | cons c output ih =>
    intro line hb
    rw [List.mem_cons] at hb
    by_cases hc13 : c = 13
    · subst hc13
      rw [linesFrom_cr]
      exact ih (hb.imp_right fun h => h.resolve_left h13)
    by_cases hc10 : c = 10
    · subst hc10
      rw [linesFrom_lf]
      rcases hb with hb | hb
      · exact ⟨line, List.mem_cons_self, hb⟩
      · obtain ⟨l, hl, hmem⟩ := @ih [] (.inr (hb.resolve_left h10))
        exact ⟨l, List.mem_cons_of_mem _ hl, hmem⟩
    · rw [linesFrom_other hc13 hc10]
      apply ih
      rw [List.mem_append, List.mem_singleton]
      tauto

/-- The output is read whole exactly when no byte in it is taken for the end. -/
theorem readWhole_iff (chunks : List Chunk) : ReadWhole chunks ↔ 255 ∉ chunks.flatMap Chunk.bytes := by
  have hlines : (Reader.opened chunks).lines = linesOf (readable (chunks.flatMap Chunk.bytes)) := rfl
  constructor
  · intro h hmem
    have hsame : linesOf (readable (chunks.flatMap Chunk.bytes)) = linesOf (chunks.flatMap Chunk.bytes) := by
      refine List.ext_getElem? fun n => ?_
      rw [← h n [], nthLine_eq, hlines]
    obtain ⟨l, hl, hb⟩ := @exists_mem_linesFrom 255 (by decide) (by decide) _ [] (.inr hmem)
    rw [← linesOf, ← hsame] at hl
    have hread := (mem_of_mem_linesFrom l hl hb).resolve_left List.not_mem_nil
    simpa using List.mem_takeWhile_imp hread
  · intro h n buffer
    have hall : readable (chunks.flatMap Chunk.bytes) = chunks.flatMap Chunk.bytes := by
      refine List.takeWhile_eq_self_iff.mpr fun b hb => ?_
      simpa using ne_of_mem_of_not_mem hb h
    rw [nthLine_eq, hlines, hall]

/-- The byte 255 in the first of two lines hides the rest of it and the second one. -/
theorem readWhole_cut : ¬ReadWhole [⟨[97, 255, 98, 10, 99, 10], by decide, by decide⟩] := by
  intro h
  have hfirst := h 0 []
  rw [nthLine_eq] at hfirst
  revert hfirst
  decide

end ProcessReader
end Util
end Ebftpd
