import Ebftpd.Util.String

/-!
# Ebftpd.Ftp.Util

The conversions of line endings in transfers of type ASCII (`src/ftp/util.cpp`), on a system whose
line ending is LF. `RETR` runs `LFtoCRLF` on every buffer it has read from the file, `STOR` runs
`CRLFtoLF` on every buffer it has read from the connection, and neither keeps anything from one buffer
to the next.

`toCRLF` and `toLF` are the conversions of a whole file.

* `retr_eq_iff`: the buffers of a download add up to the conversion of the file exactly if none of
  them begins with an LF whose CR is missing.
* `stor_eq_iff`: those of an upload do exactly if every CR belongs to an LF.
* `stor_retr`: a file without CR comes back from a download, however it and the download are cut.
* `transcode_iff`: all three together.
-/

namespace Ebftpd
namespace Ftp

open Util

/-- The loop of `LFtoCRLF`; `prev` is the byte before in the buffer, if there is one. -/
def lfToCRLFLoop : Option Char → Str → Str
  | _, [] => []
  | prev, c :: cs =>
    if c = '\n' ∧ prev.isSome ∧ prev ≠ some '\r' then '\r' :: c :: lfToCRLFLoop (some c) cs
    else c :: lfToCRLFLoop (some c) cs

def lfToCRLF (source : Str) : Str := lfToCRLFLoop none source

def crlfToLF (source : Str) : Str := source.filter (· != '\r')

/-- What `RETR` writes to the connection for the buffers it reads from the file. -/
def retrASCII (buffers : List Str) : Str := buffers.flatMap lfToCRLF

/-- What `STOR` writes to the file for the buffers it reads from the connection. -/
def storASCII (buffers : List Str) : Str := buffers.flatMap crlfToLF

/-! ## The conversion of a whole file -/

/-- Every LF gets a CR, if the byte before it is none; `cr` tells whether the last byte was. -/
def toCRLF : Bool → Str → Str
  | _, [] => []
  | cr, c :: cs =>
    if c = '\n' ∧ cr = false then '\r' :: c :: toCRLF false cs else c :: toCRLF (c == '\r') cs

/-- Every CR directly before an LF goes. -/
def toLF : Str → Str
  | [] => []
  | c :: cs => if c = '\r' ∧ cs.head? = some '\n' then toLF cs else c :: toLF cs

/-- Whether the last byte is a CR, of a text behind another. -/
def endsInCR (cr : Bool) (s : Str) : Bool := (s.getLast?.map (· == '\r')).getD cr

/-- No buffer begins with an LF, unless the byte before it is a CR. -/
def NoBareStart : Bool → List Str → Prop
  | _, [] => True
  | cr, buffer :: buffers =>
    (buffer.head? = some '\n' → cr = true) ∧ NoBareStart (endsInCR cr buffer) buffers

theorem endsInCR_cons (cr : Bool) (c : Char) (cs : Str) : endsInCR cr (c :: cs) = endsInCR (c == '\r') cs := by
  cases cs with
  | nil => rfl
  | cons d cs =>
    rw [endsInCR, endsInCR, List.getLast?_cons_cons, List.getLast?_cons]
    rfl

theorem toCRLF_append (s t : Str) : ∀ cr, toCRLF cr (s ++ t) = toCRLF cr s ++ toCRLF (endsInCR cr s) t := by
  induction s with
  | nil => exact fun _ => rfl
  | cons c cs ih =>
    intro cr
    rw [endsInCR_cons, List.cons_append, toCRLF, toCRLF]
    split
    · rename_i hlf
      rw [ih, hlf.1]
      rfl
    · rw [ih, List.cons_append]

/-- Inside a buffer the loop does what is done to the whole file. -/
theorem lfToCRLFLoop_eq (cs : Str) : ∀ c, lfToCRLFLoop (some c) cs = toCRLF (c == '\r') cs := by
  induction cs with
  | nil => exact fun _ => rfl
  | cons d ds ih =>
    intro c
    rw [lfToCRLFLoop, toCRLF, ih]
    by_cases hlf : d = '\n' ∧ c ≠ '\r'
    · rw [if_pos (by simp [hlf.1, hlf.2]), if_pos (by simp [hlf.1, hlf.2]), hlf.1]
      rfl
    · rw [if_neg (by simpa using hlf), if_neg (by simpa using hlf)]

/-- The first byte of a buffer is left alone. -/
theorem lfToCRLF_cons (c : Char) (cs : Str) : lfToCRLF (c :: cs) = c :: toCRLF (c == '\r') cs := by
  rw [lfToCRLF, lfToCRLFLoop, if_neg (by simp), lfToCRLFLoop_eq]

theorem lfToCRLF_eq {cr : Bool} {buffer : Str} (h : buffer.head? = some '\n' → cr = true) :
    lfToCRLF buffer = toCRLF cr buffer := by
  cases buffer with
  | nil => rfl
  | cons c cs =>
    rw [lfToCRLF_cons, toCRLF, if_neg]
    rintro ⟨rfl, hcr⟩
    rw [h rfl] at hcr
    cases hcr

/-- The CR that a buffer beginning with an LF lacks. -/
theorem toCRLF_of_bare {buffer : Str} (h : buffer.head? = some '\n') :
    ∃ rest, lfToCRLF buffer = '\n' :: rest ∧ toCRLF false buffer = '\r' :: '\n' :: rest := by
  cases buffer with
  | nil => cases h
  | cons c cs =>
    have hc : c = '\n' := Option.some.inj h
    subst hc
    exact ⟨toCRLF false cs, lfToCRLF_cons _ _, rfl⟩

theorem retr_eq_iff (buffers : List Str) :
    ∀ cr, retrASCII buffers = toCRLF cr buffers.flatten ↔ NoBareStart cr buffers := by
  induction buffers with
  | nil => exact fun _ => iff_of_true rfl trivial
  | cons buffer buffers ih =>
    intro cr
    rw [retrASCII, List.flatMap_cons, List.flatten_cons, toCRLF_append, NoBareStart, ← ih, retrASCII]
    by_cases hstart : buffer.head? = some '\n' → cr = true
    · rw [lfToCRLF_eq hstart, List.append_cancel_left_eq]
      exact (and_iff_right hstart).symm
    · refine iff_of_false (fun heq => ?_) fun h => hstart h.1
      rw [Classical.not_imp, Bool.not_eq_true] at hstart
      obtain ⟨hlf, rfl⟩ := hstart
      obtain ⟨rest, hbuffer, hwhole⟩ := toCRLF_of_bare hlf
      rw [hbuffer, hwhole] at heq
      exact absurd (List.cons.inj heq).1 (by decide)

/-! ## Uploads -/

theorem storASCII_eq (buffers : List Str) : storASCII buffers = crlfToLF buffers.flatten := by
  rw [storASCII, crlfToLF, List.filter_flatten, List.flatMap]
  rfl

/-- Every CR is followed by an LF. -/
def CROnlyBeforeLF : Str → Prop
  | [] => True
  | c :: cs => (c = '\r' → cs.head? = some '\n') ∧ CROnlyBeforeLF cs

theorem crlfToLF_eq_iff (s : Str) : crlfToLF s = toLF s ↔ CROnlyBeforeLF s := by
  induction s with
  | nil => exact iff_of_true rfl trivial
  | cons c cs ih =>
    rw [toLF, CROnlyBeforeLF, ← ih, crlfToLF]
    by_cases hcr : c = '\r'
    · subst hcr
      rw [List.filter_cons_of_neg (by simp)]
      by_cases hlf : cs.head? = some '\n'
      · rw [if_pos ⟨rfl, hlf⟩]
        exact (and_iff_right fun _ => hlf).symm
      · rw [if_neg fun h => hlf h.2]
        -- the CR is kept in the whole file, and none is in what the loop writes
        refine iff_of_false (fun heq => ?_) fun h => hlf (h.1 rfl)
        have hin : '\r' ∈ cs.filter (· != '\r') := heq ▸ List.mem_cons_self
        simp at hin
    · rw [List.filter_cons_of_pos (by simpa using hcr), if_neg fun h => hcr h.1, List.cons.injEq]
      exact ⟨fun h => ⟨fun hc => absurd hc hcr, h.2⟩, fun h => ⟨rfl, h.2⟩⟩

theorem stor_eq_iff (buffers : List Str) :
    storASCII buffers = toLF buffers.flatten ↔ CROnlyBeforeLF buffers.flatten := by
  rw [storASCII_eq, crlfToLF_eq_iff]

theorem crlfToLF_lfToCRLFLoop (s : Str) : ∀ prev, crlfToLF (lfToCRLFLoop prev s) = crlfToLF s := by
  induction s with
  | nil => exact fun _ => rfl
  | cons c cs ih =>
    intro prev
    rw [lfToCRLFLoop]
    split
    · simp only [crlfToLF] at ih ⊢
      rw [List.filter_cons_of_neg (by simp), List.filter_cons, List.filter_cons, ih]
    · simp only [crlfToLF] at ih ⊢
      rw [List.filter_cons, List.filter_cons, ih]

/-- A download, cut in any way and uploaded, gives the file without its CRs. -/
theorem stor_retr {buffers received : List Str} (h : received.flatten = retrASCII buffers) :
    storASCII received = crlfToLF buffers.flatten := by
  rw [storASCII_eq, h, ← storASCII_eq, retrASCII, crlfToLF, List.filter_flatMap, storASCII]
  exact congrArg (fun f => buffers.flatMap f) (funext fun buffer => crlfToLF_lfToCRLFLoop buffer none)

/-- What becomes of a file and of a download in any number of buffers. -/
theorem transcode_iff (buffers : List Str) :
    (retrASCII buffers = toCRLF false buffers.flatten ↔ NoBareStart false buffers) ∧
      (storASCII buffers = toLF buffers.flatten ↔ CROnlyBeforeLF buffers.flatten) ∧
      ∀ received : List Str, '\r' ∉ buffers.flatten → received.flatten = retrASCII buffers →
        storASCII received = buffers.flatten := by
  refine ⟨retr_eq_iff buffers false, stor_eq_iff buffers, fun received hcr h => ?_⟩
  rw [stor_retr h, crlfToLF, List.filter_eq_self]
  intro c hc
  rw [bne_iff_ne]
  rintro rfl
  exact hcr hc

/-- A file that begins with an LF, and one whose second buffer does; a lone CR that is uploaded. -/
theorem transcode_lost :
    retrASCII ["\na".toList] = "\na".toList ∧ toCRLF false "\na".toList = "\r\na".toList ∧
      retrASCII ["a".toList, "\n".toList] = "a\n".toList ∧ toCRLF false "a\n".toList = "a\r\n".toList ∧
      storASCII ["a\rb".toList] = "ab".toList ∧ toLF "a\rb".toList = "a\rb".toList := by
  decide

end Ftp
end Ebftpd
