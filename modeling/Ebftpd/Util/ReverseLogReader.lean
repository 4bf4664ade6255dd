import Ebftpd.Util.String

/-!
# Ebftpd.Util.ReverseLogReader

A log file read from its end (`util/util/reverselogreader.hpp`). The mapping is a list of bytes, and
a read outside of it is a fault (`none`). A position is kept as `pos + 1`, the number of bytes up to it,
so that `-1` is zero.

* `getline_cut`: one call returns what stands behind the last line feed, and the position goes to the end
  of the line before.
* `getlines_iff`: so all lines are returned if and only if none of them is empty: an empty line is no
  place where a call can start.
* `reverseLog_iff`: with no byte behind the file every read of a file faults; with a null byte there,
  the lines are right if no empty line is in front of others and no lone carriage return at the end.
-/

namespace Ebftpd
namespace Util
namespace ReverseLogReader

/-- The loop of `Open`. -/
def openLoop (data : Str) : Nat → Option Nat
  | 0 => some 0
  | pos + 1 =>
    match data[pos]? with
    | none => none
    | some c => if c = '\r' ∨ c = '\n' ∨ c = '\x00' then openLoop data pos else some (pos + 1)

/-- `Open` of a file of this size. An empty file is not mapped. -/
def openLog (data : Str) (size : Nat) : Option Nat :=
  if size = 0 then some 0 else openLoop data (size + 1)

/-- The loop of `Getline`: back to a line feed, or in front of the file. -/
def scanBack (data : Str) : Nat → Option Nat
  | 0 => some 0
  | pos + 1 =>
    match data[pos]? with
    | none => none
    | some c => if c = '\n' then some (pos + 1) else scanBack data pos

/-- `Getline`: the line and the position behind it; `some none` is its `false`. -/
def getline (data : Str) : Nat → Option (Option (Str × Nat))
  | 0 => some none
  | lastPos + 1 =>
    if data.length ≤ lastPos then none
    else
      match scanBack data lastPos with
      | none => none
      | some 0 => some (some (data.take (lastPos + 1), 0))
      | some (pos + 1) =>
        let line := (data.drop (pos + 1)).take (lastPos - pos)
        match pos with
        -- `data[--pos]` is in front of the mapping
        | 0 => none
        | prev + 1 =>
          match data[prev]? with
          | none => none
          | some c => some (some (line, if c = '\r' then prev else prev + 1))

/-- Calls of `Getline` until it returns false; `none` where one of them faults, or the calls made are not
enough. -/
def getlines (data : Str) : Nat → Nat → Option (List Str)
  | 0, _ => none
  | calls + 1, pos =>
    match getline data pos with
    | none => none
    | some none => some []
    | some (some (line, pos)) => (getlines data calls pos).map (line :: ·)

/-! ## The lines of a file -/

/-- A line without the carriage return in front of its line feed. -/
def chopCR (line : Str) : Str := if line.getLast? = some '\r' then line.dropLast else line

/-- The lines between line feeds; the last one has no end. -/
def endLines : List Str → List Str
  | [] => []
  | [last] => [last]
  | line :: next :: rest => chopCR line :: endLines (next :: rest)

/-- The lines of a file without their ends, the last in front. What stands behind the last line feed is a
line like the others. -/
def linesBack (content : Str) : List Str := (endLines (content.splitOn '\n')).reverse

/-- What is to be read: the lines in reverse order, less the empty ones at the end of the file. -/
def expected (content : Str) : List Str := (linesBack content).dropWhile List.isEmpty

structure LogFile where
  content : Str
  no_null : '\x00' ∉ content

/-- With these bytes to be read, opening the file and reading it to the end gives its lines. -/
def ReadsRight (data : Str) (file : LogFile) : Prop :=
  ∃ pos calls, openLog data file.content.length = some pos ∧
    getlines data calls pos = some (expected file.content)

/-- No line but those at the end is empty, and the last one does not end with a carriage return. -/
def Clean (file : LogFile) : Prop :=
  (∀ line ∈ expected file.content, line ≠ []) ∧
    ∀ line, (expected file.content).head? = some line → line.getLast? ≠ some '\r'

/-! ## Cutting off the last line -/

theorem cut_last (t : Str) : '\n' ∉ t ∨ ∃ pre line, t = pre ++ '\n' :: line ∧ '\n' ∉ line := by
  induction t with
  | nil => exact .inl (by simp)
  | cons c t ih =>
    rcases ih with h | ⟨pre, line, rfl, hline⟩
    · by_cases hc : c = '\n'
      · exact .inr ⟨[], t, by rw [hc, List.nil_append], h⟩
      · exact .inl (by simpa [h] using fun h => hc h.symm)
    · exact .inr ⟨c :: pre, line, rfl, hline⟩

theorem endLines_concat (pieces : List Str) (line : Str) :
    endLines (pieces ++ [line]) = pieces.map chopCR ++ [line] := by
  induction pieces with
  | nil => rfl
  | cons piece pieces ih =>
    cases pieces with
    | nil => rfl
    | cons next rest => rw [List.cons_append, List.cons_append, endLines, ← List.cons_append, ih]; rfl

theorem splitOn_cut (pre : Str) {line : Str} (hline : '\n' ∉ line) :
    (pre ++ '\n' :: line).splitOn '\n' = pre.splitOn '\n' ++ [line] := by
  rw [List.splitOn_append_cons_self, List.splitOn_eq_singleton hline]

theorem linesBack_free {t : Str} (ht : '\n' ∉ t) : linesBack t = [t] := by
  rw [linesBack, List.splitOn_eq_singleton ht]
  rfl

theorem chopCR_append (a : Str) {b : Str} (hb : b ≠ []) : chopCR (a ++ b) = a ++ chopCR b := by
  unfold chopCR
  rw [List.getLast?_append_of_ne_nil a hb]
  split
  · exact List.dropLast_append_of_ne_nil hb
  · rfl

theorem chopCR_length_le (t : Str) : (chopCR t).length ≤ t.length := by
  unfold chopCR
  split
  · rw [List.length_dropLast]
    exact Nat.sub_le _ _
  · exact Nat.le_refl _

theorem chopCR_initial (t : Str) : chopCR t <+: t := by
  unfold chopCR
  split
  · exact List.dropLast_prefix t
  · exact List.prefix_rfl

theorem chopCR_newline (a b : Str) : chopCR (a ++ '\n' :: b) = a ++ '\n' :: chopCR b := by
  have hline : chopCR ('\n' :: b) = '\n' :: chopCR b := by
    cases b with
    | nil => rfl
    | cons c b => exact chopCR_append ['\n'] (by simp)
  rw [chopCR_append a (by simp), hline]

/-- In front of a line feed stand the lines up to there, the last one without its carriage return. -/
theorem linesBack_cut (pre : Str) {line : Str} (hline : '\n' ∉ line) :
    linesBack (pre ++ '\n' :: line) = line :: linesBack (chopCR pre) := by
  have hpre : (pre.splitOn '\n').map chopCR = endLines ((chopCR pre).splitOn '\n') := by
    have hchop : ∀ {t : Str}, '\n' ∉ t → '\n' ∉ chopCR t := fun ht h => ht ((chopCR_initial _).mem h)
    rcases cut_last pre with h | ⟨a, b, rfl, hb⟩
    · rw [List.splitOn_eq_singleton h, List.splitOn_eq_singleton (hchop h)]
      rfl
    · rw [chopCR_newline, splitOn_cut a hb, splitOn_cut a (hchop hb), endLines_concat, List.map_append]
      rfl
  rw [linesBack, splitOn_cut pre hline, endLines_concat, hpre, List.reverse_concat, linesBack]

/-! ## One call -/

theorem getElem?_cut (a : Str) (c : Char) (b : Str) : (a ++ c :: b)[a.length]? = some c := by
  simp

theorem scanBack_le {data : Str} {pos found : Nat} (h : scanBack data pos = some found) : found ≤ pos := by
  induction pos with
  | zero =>
    cases h
    exact Nat.le_refl 0
  | succ pos ih =>
    simp only [scanBack] at h
    split at h
    · cases h
    · split at h
      · cases h
        exact Nat.le_refl _
      · exact Nat.le_succ_of_le (ih h)

/-- The scan passes by what is no line feed. -/
theorem scanBack_free (pre : Str) {line : Str} (hline : '\n' ∉ line) (rest : Str) :
    scanBack (pre ++ (line ++ rest)) (pre.length + line.length) = scanBack (pre ++ (line ++ rest)) pre.length := by
  induction line generalizing pre with
  | nil => rfl
  | cons c line ih =>
    rw [List.mem_cons, not_or] at hline
    have hmove : pre ++ (c :: line ++ rest) = pre ++ [c] ++ (line ++ rest) := by simp
    have hlen : pre.length + (c :: line).length = (pre ++ [c]).length + line.length := by
      simp only [List.length_cons, List.length_append, List.length_nil]
      omega
    have hstep : scanBack (pre ++ c :: (line ++ rest)) (pre.length + 1) =
        scanBack (pre ++ c :: (line ++ rest)) pre.length := by
      rw [scanBack, getElem?_cut]
      exact if_neg (Ne.symm hline.1)
    rw [hmove, hlen, ih (pre ++ [c]) hline.2]
    simpa using hstep

theorem take_word (body : Str) (c : Char) (rest : Str) :
    (body ++ c :: rest).take (body.length + 1) = body ++ [c] := by
  have hword : body ++ c :: rest = body ++ [c] ++ rest := by simp
  rw [hword]
  exact List.take_left' (by simp)

/-- A line with nothing in front of it is the first one of the file. -/
theorem getline_first {line : Str} (hne : line ≠ []) (hline : '\n' ∉ line.dropLast) (rest : Str) :
    getline (line ++ rest) line.length = some (some (line, 0)) := by
  obtain ⟨body, c, rfl⟩ : ∃ body c, line = body ++ [c] := by
    rcases List.eq_nil_or_concat line with h | ⟨body, c, h⟩
    · exact absurd h hne
    · exact ⟨body, c, by rw [h, List.concat_eq_append]⟩
  rw [List.dropLast_concat] at hline
  have hscan := scanBack_free [] hline (c :: rest)
  rw [List.nil_append, List.length_nil, Nat.zero_add] at hscan
  have hdata : body ++ [c] ++ rest = body ++ c :: rest := by simp
  have hlen : (body ++ [c]).length = body.length + 1 := by simp
  rw [hdata, hlen, getline, if_neg (by simp), hscan]
  simp only [scanBack, take_word]

/-- A call returns the line behind the last line feed, and goes to the end of the line before. It reads the
byte in front of the line feed, which is not there if that line is the first one and empty. -/
theorem getline_cut (pre : Str) {line : Str} (hne : line ≠ []) (hline : '\n' ∉ line.dropLast) (rest : Str) :
    getline (pre ++ '\n' :: (line ++ rest)) (pre.length + 1 + line.length) =
      if pre = [] then none else some (some (line, (chopCR pre).length)) := by
  obtain ⟨body, c, rfl⟩ : ∃ body c, line = body ++ [c] := by
    rcases List.eq_nil_or_concat line with h | ⟨body, c, h⟩
    · exact absurd h hne
    · exact ⟨body, c, by rw [h, List.concat_eq_append]⟩
  rw [List.dropLast_concat] at hline
  have hdata : pre ++ '\n' :: (body ++ [c] ++ rest) = pre ++ ['\n'] ++ (body ++ c :: rest) := by simp
  have hlen : pre.length + 1 + (body ++ [c]).length = (pre ++ ['\n']).length + body.length + 1 := by
    simp only [List.length_append, List.length_singleton]
    omega
  have hscan : scanBack (pre ++ ['\n'] ++ (body ++ c :: rest)) ((pre ++ ['\n']).length + body.length) =
      some (pre.length + 1) := by
    rw [scanBack_free (pre ++ ['\n']) hline, List.length_append, List.length_singleton, scanBack]
    simp
  have htake : ((pre ++ ['\n'] ++ (body ++ c :: rest)).drop (pre.length + 1)).take
      ((pre ++ ['\n']).length + body.length - pre.length) = body ++ [c] := by
    rw [show pre.length + 1 = (pre ++ ['\n']).length by simp, List.drop_left]
    have : (pre ++ ['\n']).length + body.length - pre.length = body.length + 1 := by
      simp only [List.length_append, List.length_singleton]
      omega
    rw [this, take_word]
  rw [hdata, hlen, getline, if_neg (by simp; omega), hscan]
  simp only [htake]
  rcases List.eq_nil_or_concat pre with rfl | ⟨before, d, h⟩
  · rfl
  · rw [List.concat_eq_append] at h
    subst h
    have hprev : (before ++ [d] ++ ['\n'] ++ (body ++ c :: rest))[before.length]? = some d := by simp
    rw [if_neg (by simp), List.length_append, List.length_singleton]
    simp only [hprev, chopCR]
    by_cases hd : d = '\r' <;> simp [hd]

/-- A call that returns a line returns at least one byte. -/
theorem getline_ne_nil {data line : Str} {pos next : Nat} (h : getline data pos = some (some (line, next))) :
    line ≠ [] := by
  cases pos with
  | zero => cases h
  | succ lastPos =>
    simp only [getline] at h
    split at h
    · cases h
    · rename_i hin
      split at h
      · cases h
      · cases h
        rw [ne_eq, List.take_eq_nil_iff, not_or]
        exact ⟨by omega, fun hnil => hin (by simp [hnil])⟩
      · rename_i pos hscan
        have hle := scanBack_le hscan
        split at h
        · cases h
        · split at h
          · cases h
          · cases h
            rw [ne_eq, List.take_eq_nil_iff, List.drop_eq_nil_iff]
            omega

/-! ## All calls -/

/-- Reading from a position gives these lines. -/
def Reads (data : Str) (pos : Nat) (lines : List Str) : Prop := ∃ calls, getlines data calls pos = some lines

theorem reads_zero {data : Str} {lines : List Str} : Reads data 0 lines ↔ lines = [] := by
  constructor
  · rintro ⟨calls, h⟩
    cases calls with
    | zero => cases h
    | succ calls => exact (Option.some.inj h).symm
  · rintro rfl
    exact ⟨1, rfl⟩

theorem reads_line {data line : Str} {pos next : Nat} (hline : getline data pos = some (some (line, next)))
    {lines : List Str} : Reads data pos lines ↔ ∃ rest, lines = line :: rest ∧ Reads data next rest := by
  constructor
  · rintro ⟨calls, h⟩
    cases calls with
    | zero => cases h
    | succ calls =>
      simp only [getlines, hline] at h
      obtain ⟨rest, hrest, rfl⟩ := Option.map_eq_some_iff.mp h
      exact ⟨rest, rfl, calls, hrest⟩
  · rintro ⟨rest, rfl, calls, h⟩
    exact ⟨calls + 1, by simp only [getlines, hline, h, Option.map_some]⟩

theorem not_reads_fault {data : Str} {pos : Nat} (hfault : getline data pos = none) (lines : List Str) :
    ¬ Reads data pos lines := by
  rintro ⟨calls, h⟩
  cases calls with
  | zero => cases h
  | succ calls =>
    simp only [getlines, hfault] at h
    cases h

theorem linesBack_head {t : Str} (ht : t.getLast? = some '\n') : ∃ rest, linesBack t = [] :: rest := by
  obtain ⟨pre, rfl⟩ := List.getLast?_eq_some_iff.mp ht
  exact ⟨_, linesBack_cut pre (by simp)⟩

/-- Nothing is read from behind a line feed: a line that is returned there is not empty. -/
theorem not_reads_empty {data : Str} {pos : Nat} (rest : List Str) :
    ¬ Reads data pos ([] :: rest) := by
  intro h
  cases hline : getline data pos with
  | none => exact not_reads_fault hline _ h
  | some result =>
    cases result with
    | none =>
      obtain ⟨calls, h⟩ := h
      cases calls with
      | zero => cases h
      | succ calls =>
        simp only [getlines, hline] at h
        cases h
    | some result =>
      obtain ⟨rest, hrest, -⟩ := (reads_line hline).mp h
      exact getline_ne_nil hline (List.cons.inj hrest).1.symm

/-- From the end of a line that is not empty, the lines up to there are read if and only if none of them is
empty. -/
theorem getlines_iff (n : Nat) : ∀ (t rest : Str), t.length ≤ n → t ≠ [] → t.getLast? ≠ some '\n' →
    (Reads (t ++ rest) t.length (linesBack t) ↔ ∀ line ∈ linesBack t, line ≠ []) := by
  induction n with
  | zero =>
    intro t rest hlen hne
    exact absurd (List.eq_nil_of_length_eq_zero (Nat.le_zero.mp hlen)) hne
  | succ n ih =>
    intro t rest hlen hne hlast
    rcases cut_last t with hfree | ⟨pre, line, rfl, hfree⟩
    · have hline := getline_first hne (fun h => hfree (List.dropLast_subset _ h)) rest
      rw [linesBack_free hfree, reads_line hline]
      refine iff_of_true ⟨[], rfl, reads_zero.mpr rfl⟩ ?_
      simpa using hne
    · have hlinene : line ≠ [] := by
        rintro rfl
        exact hlast (by simp)
      have hline := getline_cut pre hlinene (fun h => hfree (List.dropLast_subset _ h)) rest
      have hdata : pre ++ '\n' :: line ++ rest = pre ++ '\n' :: (line ++ rest) := by simp
      have hlength : (pre ++ '\n' :: line).length = pre.length + 1 + line.length := by
        simp only [List.length_append, List.length_cons]
        omega
      rw [hdata, hlength, linesBack_cut pre hfree]
      by_cases hpre : pre = []
      · -- an empty first line: the byte in front of the mapping is read
        rw [if_pos hpre] at hline
        refine iff_of_false (not_reads_fault hline _) fun h => ?_
        exact h [] (by simp [hpre, chopCR, linesBack_free]) rfl
      · rw [if_neg hpre] at hline
        rw [reads_line hline, List.forall_mem_cons]
        have hnext : (∃ lines, line :: linesBack (chopCR pre) = line :: lines ∧
            Reads (pre ++ '\n' :: (line ++ rest)) (chopCR pre).length lines) ↔
              Reads (pre ++ '\n' :: (line ++ rest)) (chopCR pre).length (linesBack (chopCR pre)) := by
          constructor
          · rintro ⟨lines, h, hreads⟩
            rwa [(List.cons.inj h).2]
          · exact fun h => ⟨_, rfl, h⟩
        rw [hnext, and_iff_right hlinene]
        obtain ⟨u, hu⟩ := chopCR_initial pre
        by_cases hempty : ∃ before, linesBack (chopCR pre) = [] :: before
        · -- an empty line: the call starts at the line feed of the line before
          obtain ⟨before, hbefore⟩ := hempty
          rw [hbefore]
          exact iff_of_false (not_reads_empty before) fun h => h [] List.mem_cons_self rfl
        · have hchop : chopCR pre ≠ [] := fun h => hempty ⟨[], by rw [h]; rfl⟩
          have hend : (chopCR pre).getLast? ≠ some '\n' := fun h => hempty (linesBack_head h)
          have hmove : pre ++ '\n' :: (line ++ rest) = chopCR pre ++ (u ++ '\n' :: (line ++ rest)) := by
            rw [← List.append_assoc, hu]
          rw [hmove]
          refine ih _ _ ?_ hchop hend
          have := chopCR_length_le pre
          omega

/-- What is read first ends where the reading starts. -/
theorem reads_getLast {t rest line : Str} {others : List Str} (hne : t ≠ []) (hlast : t.getLast? ≠ some '\n')
    (h : Reads (t ++ rest) t.length (line :: others)) : line.getLast? = t.getLast? := by
  rcases cut_last t with hfree | ⟨pre, last, rfl, hfree⟩
  · have hline := getline_first hne (fun h => hfree (List.dropLast_subset _ h)) rest
    obtain ⟨_, heq, -⟩ := (reads_line hline).mp h
    rw [(List.cons.inj heq).1]
  · have hlastne : last ≠ [] := by
      rintro rfl
      exact hlast (by simp)
    have hline := getline_cut pre hlastne (fun h => hfree (List.dropLast_subset _ h)) rest
    have hdata : pre ++ '\n' :: last ++ rest = pre ++ '\n' :: (last ++ rest) := by simp
    have hlength : (pre ++ '\n' :: last).length = pre.length + 1 + last.length := by
      simp only [List.length_append, List.length_cons]
      omega
    rw [hdata, hlength] at h
    by_cases hpre : pre = []
    · rw [if_pos hpre] at hline
      exact absurd h (not_reads_fault hline _)
    · rw [if_neg hpre] at hline
      obtain ⟨_, heq, -⟩ := (reads_line hline).mp h
      rw [(List.cons.inj heq).1, List.getLast?_append_of_ne_nil _ (by simp), List.getLast?_cons]
      simp [List.getLast?_eq_some_getLast hlastne]

/-! ## The end of the file -/

def LineEnd (c : Char) : Prop := c = '\r' ∨ c = '\n'

/-- A file is a text that ends with another character, with line feeds and carriage returns behind it. -/
theorem cut_end (content : Str) : ∃ body tail, content = body ++ tail ∧ (∀ c ∈ tail, LineEnd c) ∧
    ∀ c, body.getLast? = some c → ¬ LineEnd c := by
  induction content with
  | nil => exact ⟨[], [], rfl, by simp, by simp⟩
  | cons c content ih =>
    obtain ⟨body, tail, rfl, htail, hbody⟩ := ih
    cases body with
    | nil =>
      by_cases hc : LineEnd c
      · exact ⟨[], c :: tail, rfl, List.forall_mem_cons.mpr ⟨hc, htail⟩, by simp⟩
      · refine ⟨[c], tail, rfl, htail, fun d hd => ?_⟩
        rw [List.getLast?_singleton, Option.some.injEq] at hd
        exact hd ▸ hc
    | cons d body =>
      refine ⟨c :: d :: body, tail, rfl, htail, fun e he => hbody e ?_⟩
      rwa [List.getLast?_cons_cons] at he

/-- `Open` goes back over the line ends, and over a null byte behind them. -/
theorem openLoop_end {body : Str} (hbody : ∀ c, body.getLast? = some c → ¬ (LineEnd c ∨ c = '\x00')) (tail : Str)
    (htail : ∀ c ∈ tail, LineEnd c ∨ c = '\x00') :
    openLoop (body ++ tail) (body.length + tail.length) = some body.length := by
  have hback : ∀ n, n ≤ tail.length → openLoop (body ++ tail) (body.length + n) = some body.length := by
    intro n
    induction n with
    | zero =>
      intro _
      rcases List.eq_nil_or_concat body with rfl | ⟨before, c, h⟩
      · rfl
      · rw [List.concat_eq_append] at h
        subst h
        have hc := hbody c (by simp)
        rw [LineEnd, or_assoc] at hc
        have hread : (before ++ [c] ++ tail)[before.length]? = some c := by simp
        rw [Nat.add_zero, List.length_append, List.length_singleton, openLoop, hread]
        exact if_neg hc
    | succ n ih =>
      intro hn
      have hc := htail tail[n] (List.getElem_mem hn)
      rw [LineEnd, or_assoc] at hc
      have hread : (body ++ tail)[body.length + n]? = some tail[n] := by
        rw [List.getElem?_append_right (Nat.le_add_right _ _), Nat.add_sub_cancel_left]
        exact List.getElem?_eq_getElem hn
      rw [← Nat.add_assoc, openLoop, hread]
      exact (if_pos hc).trans (ih (by omega))
  exact hback _ (Nat.le_refl _)

/-! ## What is expected of the file -/

/-- The last line ends as the text does. -/
theorem linesBack_getLast {t : Str} {c : Char} (hc : c ≠ '\n') (h : t.getLast? = some c) :
    ∃ line rest, linesBack t = line :: rest ∧ line.getLast? = some c := by
  rcases cut_last t with hfree | ⟨pre, line, rfl, hfree⟩
  · exact ⟨t, [], linesBack_free hfree, h⟩
  · refine ⟨line, _, linesBack_cut pre hfree, ?_⟩
    cases line with
    | nil =>
      simp only [List.getLast?_append, List.getLast?_singleton, Option.some_or, Option.some.injEq] at h
      exact absurd h.symm hc
    | cons d line => simpa [List.getLast?_append_of_ne_nil] using h

theorem expected_of_getLast {t : Str} {c : Char} (hc : c ≠ '\n') (h : t.getLast? = some c) :
    expected t = linesBack t ∧ ∃ line rest, expected t = line :: rest ∧ line.getLast? = some c := by
  obtain ⟨line, rest, hlines, hline⟩ := linesBack_getLast hc h
  have heq : expected t = linesBack t := by
    cases line with
    | nil => cases hline
    | cons d line => rw [expected, hlines]; rfl
  exact ⟨heq, line, rest, heq.trans hlines, hline⟩

theorem expected_newline (t : Str) : expected (t ++ ['\n']) = expected (chopCR t) := by
  rw [expected, linesBack_cut t (by simp)]
  rfl

/-- Line ends behind a text add no line, unless a carriage return is left that ends none. -/
theorem expected_tail {body : Str} (hbody : ∀ c, body.getLast? = some c → ¬ LineEnd c) (n : Nat) :
    ∀ tail : Str, tail.length ≤ n → (∀ c ∈ tail, LineEnd c) →
      expected (body ++ tail) = expected body ∨
        ∃ line rest, expected (body ++ tail) = line :: rest ∧ line.getLast? = some '\r' := by
  induction n with
  | zero =>
    intro tail hlen _
    rw [List.eq_nil_of_length_eq_zero (Nat.le_zero.mp hlen), List.append_nil]
    exact .inl rfl
  | succ n ih =>
    intro tail hlen htail
    rcases List.eq_nil_or_concat tail with rfl | ⟨u, c, h⟩
    · exact .inl (by rw [List.append_nil])
    · rw [List.concat_eq_append] at h
      subst h
      rw [List.length_append, List.length_singleton] at hlen
      rcases htail c (by simp) with rfl | rfl
      · exact .inr (expected_of_getLast (by decide) (by simp)).2
      · -- a line that ended behind `u`, with a carriage return or without
        rw [← List.append_assoc, expected_newline]
        have hu : ∀ c ∈ u, LineEnd c := fun d hd => htail d (by simp [hd])
        rcases List.eq_nil_or_concat u with rfl | ⟨v, d, h⟩
        · have hbare : chopCR body = body := if_neg fun hcr => hbody _ hcr (.inl rfl)
          rw [List.append_nil, hbare]
          exact .inl rfl
        · rw [List.concat_eq_append] at h
          subst h
          rcases hu d (by simp) with rfl | rfl
          · have hchop : chopCR (body ++ (v ++ ['\r'])) = body ++ v := by
              rw [← List.append_assoc, chopCR, if_pos (by simp), List.dropLast_concat]
            rw [hchop]
            rw [List.length_append, List.length_singleton] at hlen
            exact ih v (by omega) fun d hd => hu d (by simp [hd])
          · have hstay : chopCR (body ++ (v ++ ['\n'])) = body ++ (v ++ ['\n']) :=
              if_neg (by rw [← List.append_assoc]; simp)
            rw [hstay]
            exact ih _ (by omega) hu

/-- With a null byte behind the file, it is read right if and only if its lines are clean. -/
theorem readsRight_null_iff (file : LogFile) : ReadsRight (file.content ++ ['\x00']) file ↔ Clean file := by
  obtain ⟨content, hnull⟩ := file
  obtain ⟨body, tail, rfl, htail, hbody⟩ := cut_end content
  have hopen : openLog (body ++ tail ++ ['\x00']) (body ++ tail).length = some body.length := by
    unfold openLog
    split
    · rename_i hempty
      rw [List.length_append] at hempty
      exact congrArg some (by omega)
    · have hlast : ∀ c, body.getLast? = some c → ¬ (LineEnd c ∨ c = '\x00') := by
        rintro c hc (hend | rfl)
        · exact hbody c hc hend
        · exact hnull (List.mem_append_left _ (List.mem_of_getLast? hc))
      have hall : ∀ c ∈ tail ++ ['\x00'], LineEnd c ∨ c = '\x00' := by
        intro c hc
        rcases List.mem_append.mp hc with hc | hc
        · exact .inl (htail c hc)
        · exact .inr (List.mem_singleton.mp hc)
      have hlen : (body ++ tail).length + 1 = body.length + (tail ++ ['\x00']).length := by
        simp only [List.length_append, List.length_singleton]
        omega
      rw [hlen, List.append_assoc]
      exact openLoop_end hlast _ hall
  have hreads : ReadsRight (body ++ tail ++ ['\x00']) ⟨body ++ tail, hnull⟩ ↔
      Reads (body ++ (tail ++ ['\x00'])) body.length (expected (body ++ tail)) := by
    rw [← List.append_assoc]
    constructor
    · rintro ⟨pos, calls, hpos, hlines⟩
      rw [hopen] at hpos
      exact ⟨calls, (Option.some.inj hpos) ▸ hlines⟩
    · rintro ⟨calls, hlines⟩
      exact ⟨body.length, calls, hopen, hlines⟩
  rw [hreads, Clean]
  rcases List.eq_nil_or_concat body with rfl | ⟨before, c, h⟩
  · -- line ends only: no line is returned
    rcases expected_tail hbody _ tail (Nat.le_refl _) htail with hexp | ⟨line, rest, hexp, hcr⟩
    · have hnil : expected ([] : Str) = [] := rfl
      rw [hexp, hnil]
      exact iff_of_true (reads_zero.mpr rfl) ⟨by simp, by simp⟩
    · rw [hexp]
      exact iff_of_false (fun h => by cases reads_zero.mp h) fun h => h.2 line rfl hcr
  · rw [List.concat_eq_append] at h
    have hlast : body.getLast? = some c := by simp [h]
    have hc := hbody c hlast
    have hne : body ≠ [] := by simp [h]
    obtain ⟨hback, last, others, hbodylines, hlastline⟩ := expected_of_getLast (fun hn => hc (.inr hn)) hlast
    have hnl : body.getLast? ≠ some '\n' := by
      rw [hlast]
      exact fun hn => hc (.inr (Option.some.inj hn))
    rcases expected_tail hbody _ tail (Nat.le_refl _) htail with hexp | ⟨line, rest, hexp, hcr⟩
    · rw [hexp, hback, getlines_iff body.length body _ (Nat.le_refl _) hne hnl, ← hback]
      refine (and_iff_left fun line hline => ?_).symm
      rw [hbodylines, List.head?_cons, Option.some.injEq] at hline
      rw [← hline, hlastline]
      exact fun hr => hc (.inl (Option.some.inj hr))
    · -- the line that was cut short
      rw [hexp]
      refine iff_of_false (fun hread => ?_) fun h => h.2 line rfl hcr
      have := reads_getLast hne hnl hread
      rw [hcr, hlast] at this
      exact hc (.inl (Option.some.inj this).symm)

/-- `Open` reads the byte behind every file that is not empty. -/
theorem readsRight_bare_iff (file : LogFile) : ReadsRight file.content file ↔ file.content = [] := by
  constructor
  · rintro ⟨pos, calls, hopen, -⟩
    by_contra hne
    rw [openLog, if_neg (by simpa using hne), openLoop, List.getElem?_eq_none (Nat.le_refl _)] at hopen
    cases hopen
  · intro h
    refine ⟨0, 1, ?_, ?_⟩
    · rw [h]
      rfl
    · rw [h]
      rfl

/-- A file is read right within its bytes if and only if it is empty. Where a null byte can be read behind
it, it is read right if and only if no line but those at its end is empty and the last one does not
end with a carriage return. -/
theorem reverseLog_iff (file : LogFile) :
    (ReadsRight file.content file ↔ file.content = []) ∧
      (ReadsRight (file.content ++ ['\x00']) file ↔ Clean file) :=
  ⟨readsRight_bare_iff file, readsRight_null_iff file⟩

def exampleLog : LogFile := ⟨"a\n\nb\n".toList, by decide⟩

/-- With the null byte the lines of this file are `b` and `a` with its line feed; without it the first read
faults. -/
theorem exampleLog_wrong : ¬ ReadsRight exampleLog.content exampleLog ∧
    ¬ ReadsRight (exampleLog.content ++ ['\x00']) exampleLog := by
  constructor
  · rintro ⟨pos, calls, hopen, -⟩
    have hfault : openLog exampleLog.content exampleLog.content.length = none := by decide
    rw [hfault] at hopen
    cases hopen
  · rintro ⟨pos, calls, hopen, hlines⟩
    have hstart : openLog (exampleLog.content ++ ['\x00']) exampleLog.content.length = some 4 := by decide
    obtain rfl : 4 = pos := Option.some.inj (hstart.symm.trans hopen)
    match calls with
    | 0 => cases hlines
    | 1 => exact absurd hlines (by decide)
    | 2 => exact absurd hlines (by decide)
    | calls + 3 =>
      have hrun : getlines (exampleLog.content ++ ['\x00']) (calls + 3) 4 =
          some ["b".toList, "a\n".toList] := rfl
      rw [hrun] at hlines
      exact absurd hlines (by decide)

end ReverseLogReader
end Util
end Ebftpd
