import Mathlib.Data.List.Forall2
import Mathlib.Data.List.Induction
import Ebftpd.Lib.Framing
import Ebftpd.Util.String

/-!
# Ebftpd.Ftp.Xdupe

The lines that tell a client of files which are there already (`src/ftp/xdupe.cpp`; the modes are those of
`doc/specs/xdupe.txt`). They are sent behind `553-`. Which names are listed is up to the configuration and
the directory; here they are a list.

Two modes pack names into lines and count what they wrote beside the text. The limits they count to are not
those of the lines they send.

* `messageOne_lines`: mode 1 as groups of names.
* `conforms_iff`: the lists of names that all modes list as they should.
-/

namespace Ebftpd
namespace Ftp
namespace Xdupe

open Util Lib

/-! ## The messages -/

def xDupe : Str := " X-DUPE: ".toList

/-- The loop of `MessageOne`. -/
def messageOneLoop : List Str → Str → Str → Nat → Str
  | [], reply, line, len => if len > 0 then reply ++ line ++ ['\n'] else reply
  | dupe :: dupes, reply, line, len =>
    if dupe.length > 67 then
      let reply := if len > 0 then reply ++ line ++ ['\n'] else reply
      messageOneLoop dupes (reply ++ xDupe ++ dupe.take 67 ++ ['\n']) xDupe 0
    else
      let full := len + dupe.length + (if len > 0 then 1 else 0) > 67
      let reply := if full then reply ++ line ++ ['\n'] else reply
      let line := if full then xDupe else line
      let len := if full then 0 else len
      let line := if len > 0 then line ++ [' '] else line
      let len := if len > 0 then len + 1 else len
      messageOneLoop dupes reply (line ++ dupe) (len + dupe.length)

def messageOne (dupes : List Str) : Str := messageOneLoop dupes [] xDupe 0

def messageTwo (dupes : List Str) : Str := dupes.flatMap fun dupe => xDupe ++ dupe.take 75 ++ ['\n']

def messageThree (dupes : List Str) : Str := dupes.flatMap fun dupe => xDupe ++ dupe ++ ['\n']

/-- The loop of `MessageFour`. -/
def messageFourLoop : List Str → Str → Nat → Str
  | [], reply, _ => reply
  | dupe :: dupes, reply, len =>
    if len + dupe.length + (if len = 8 then 0 else 1) > 1016 then reply
    else
      let reply := if len ≠ 8 then reply ++ [' '] else reply
      let len := if len ≠ 8 then len + 1 else len
      messageFourLoop dupes (reply ++ dupe) (len + dupe.length)

def messageFour (dupes : List Str) : Str :=
  let s := messageFourLoop dupes xDupe 8
  if s.length = 8 then [] else s ++ ['\n']

inductive Mode where
  | Disabled | One | Two | Three | Four

/-- `Message`, of the names that `BuildDupeList` found. -/
def message : Mode → List Str → Str
  | .Disabled, _ => []
  | .One, dupes => messageOne dupes
  | .Two, dupes => messageTwo dupes
  | .Three, dupes => messageThree dupes
  | .Four, dupes => messageFour dupes

/-! ## What they should list -/

/-- A file name without white space. -/
structure Name (name : Str) : Prop where
  ne_nil : name ≠ []
  no_space : ∀ c ∈ name, isSpace c = false

def lines (message : Str) : List Str := Framing.frames '\n' message

/-- A line as it is sent. -/
def sent (line : Str) : Str := "553-".toList ++ line

def joined (names : List Str) : Str := [' '].intercalate names

def lineOf (names : List Str) : Str := xDupe ++ joined names

/-- The names on a line. -/
def shown (line : Str) : List Str := ((line.drop xDupe.length).splitOn ' ').filter fun name => !name.isEmpty

def listed (message : Str) : List Str := (lines message).flatMap shown

/-- A name, or a part of one that does not fit a line of 80 characters alone. -/
def Cut (name dupe : Str) : Prop := name = dupe ∨ 80 < (sent (lineOf [dupe])).length ∧ name <+: dupe

/-- Behind those that are listed, the names that still fit the one line. -/
def fitting : List Str → List Str → List Str
  | listed, [] => listed
  | listed, dupe :: dupes =>
    if (sent (lineOf (listed ++ [dupe]))).length ≤ 1024 then fitting (listed ++ [dupe]) dupes
    else fitting listed dupes

/-- What the specification asks of a list of names. -/
structure Conforms (dupes : List Str) : Prop where
  one_length : ∀ line ∈ lines (messageOne dupes), (sent line).length ≤ 80
  two_length : ∀ line ∈ lines (messageTwo dupes), (sent line).length ≤ 80
  four_length : ∀ line ∈ lines (messageFour dupes), (sent line).length ≤ 1024
  four_line : (lines (messageFour dupes)).length ≤ 1
  one_names : List.Forall₂ Cut (listed (messageOne dupes)) dupes
  two_names : List.Forall₂ Cut (listed (messageTwo dupes)) dupes
  three_names : listed (messageThree dupes) = dupes
  four_names : listed (messageFour dupes) = fitting [] dupes
  empty : dupes = [] → ∀ mode, lines (message mode dupes) = []

/-! ## Lines and names -/

@[simp] theorem joined_nil : joined [] = [] := rfl

@[simp] theorem joined_singleton (name : Str) : joined [name] = name := List.intercalate_singleton

theorem joined_cons_cons (name name' : Str) (names : List Str) :
    joined (name :: name' :: names) = name ++ ' ' :: joined (name' :: names) := by
  rw [joined, List.intercalate_cons_cons, List.append_assoc]
  rfl

theorem joined_concat {names : List Str} (h : names ≠ []) (name : Str) :
    joined (names ++ [name]) = joined names ++ ' ' :: name := by
  induction names with
  | nil => exact absurd rfl h
  | cons first names ih =>
    cases names with
    | nil => simpa using joined_cons_cons first name []
    | cons second names =>
      have hrest := ih (List.cons_ne_nil second names)
      rw [List.cons_append, List.cons_append, joined_cons_cons, ← List.cons_append, hrest, joined_cons_cons]
      simp

theorem length_joined_concat (names : List Str) (name : Str) :
    (joined (names ++ [name])).length =
      (joined names).length + (if names = [] then 0 else 1) + name.length := by
  by_cases h : names = []
  · subst h
    simp
  · rw [joined_concat h, if_neg h, List.length_append, List.length_cons]
    omega

theorem joined_length_le (names more : List Str) : (joined names).length ≤ (joined (names ++ more)).length := by
  induction more using List.reverseRecOn with
  | nil => simp
  | append_singleton more name ih =>
    rw [← List.append_assoc, length_joined_concat]
    omega

theorem joined_pos {names : List Str} (hnames : ∀ name ∈ names, Name name) :
    0 < (joined names).length ↔ names ≠ [] := by
  constructor
  · rintro h rfl
    exact absurd h (by simp)
  · intro h
    obtain ⟨name, names, rfl⟩ := List.exists_cons_of_ne_nil h
    have hname := List.length_pos_of_ne_nil (hnames name (by simp)).ne_nil
    have hle := joined_length_le [name] names
    rw [joined_singleton] at hle
    exact hname.trans_le hle

theorem length_sent (names : List Str) : (sent (lineOf names)).length = 13 + (joined names).length := by
  have hxDupe : xDupe.length = 9 := rfl
  have hcode : "553-".toList.length = 4 := rfl
  rw [sent, lineOf, List.length_append, List.length_append, hxDupe, hcode]
  omega

theorem name_of_all {name : Str} (hne : name ≠ []) (hall : name.all (fun c => !isSpace c) = true) : Name name where
  ne_nil := hne
  no_space := fun c hc => by simpa using List.all_eq_true.mp hall c hc

theorem Name.space_free {name : Str} (h : Name name) {c : Char} (hc : isSpace c = true) : c ∉ name := fun hmem => by
  rw [h.no_space c hmem] at hc
  cases hc

/-- The names on a line of names. -/
theorem shown_lineOf {names : List Str} (hnames : ∀ name ∈ names, Name name) : shown (lineOf names) = names := by
  rw [shown, lineOf, List.drop_left]
  by_cases h : names = []
  · subst h
    rfl
  · rw [joined, List.splitOn_intercalate ' ' (fun name hname => (hnames name hname).space_free (by decide)) h]
    refine List.filter_eq_self.mpr fun name hname => ?_
    simpa using (hnames name hname).ne_nil

theorem mem_joined {names : List Str} {c : Char} (h : c ∈ joined names) : c = ' ' ∨ ∃ name ∈ names, c ∈ name := by
  induction names using List.reverseRecOn with
  | nil => cases h
  | append_singleton names name ih =>
    by_cases hnil : names = []
    · subst hnil
      exact .inr ⟨name, by simp, by simpa using h⟩
    · rw [joined_concat hnil, List.mem_append, List.mem_cons] at h
      rcases h with h | rfl | h
      · rcases ih h with rfl | ⟨name', hname', hc⟩
        · exact .inl rfl
        · exact .inr ⟨name', by simp [hname'], hc⟩
      · exact .inl rfl
      · exact .inr ⟨name, by simp, h⟩

/-- A message with these names on its lines. -/
def messageOf (groups : List (List Str)) : Str := groups.flatMap fun names => lineOf names ++ ['\n']

section Groups

variable {groups : List (List Str)} (hgroups : ∀ names ∈ groups, ∀ name ∈ names, Name name)

include hgroups

theorem lines_messageOf : lines (messageOf groups) = groups.map lineOf := by
  induction groups with
  | nil => rfl
  | cons names groups ih =>
    have hfree : '\n' ∉ lineOf names := by
      intro h
      rcases List.mem_append.mp h with h | h
      · exact absurd h (by decide)
      · rcases mem_joined h with h | ⟨name, hname, h⟩
        · cases h
        · exact (hgroups names (by simp) name hname).space_free (by decide) h
    have hmessage : messageOf (names :: groups) = lineOf names ++ '\n' :: messageOf groups := by
      simp [messageOf]
    rw [hmessage, lines, Framing.frames, Framing.feed_frame hfree, List.map_cons,
      ← ih fun names hnames => hgroups names (by simp [hnames])]
    rfl

theorem listed_messageOf : listed (messageOf groups) = groups.flatten := by
  rw [listed, lines_messageOf hgroups, List.flatMap_map, List.flatMap_def]
  congr 1
  exact (List.map_congr_left fun names hnames => shown_lineOf (hgroups names hnames)).trans (List.map_id _)

end Groups

/-! ## The first three modes -/

theorem Name.take {name : Str} (h : Name name) {n : Nat} (hn : 0 < n) : Name (name.take n) where
  ne_nil := by
    rw [ne_eq, List.take_eq_nil_iff, not_or]
    exact ⟨hn.ne', h.ne_nil⟩
  no_space := fun c hc => h.no_space c (List.mem_of_mem_take hc)

theorem lineOf_concat {names : List Str} (h : names ≠ []) (name : Str) :
    lineOf (names ++ [name]) = lineOf names ++ [' '] ++ name := by
  rw [lineOf, joined_concat h, lineOf]
  simp

/-- The line that is ended, if it holds any names. -/
def pending (names : List Str) : List (List Str) := if names = [] then [] else [names]

theorem flatten_pending (names : List Str) : (pending names).flatten = names := by
  unfold pending
  split
  · rename_i h
    rw [h, List.flatten_nil]
  · rw [List.flatten_cons, List.flatten_nil, List.append_nil]

theorem mem_pending {names group : List Str} (h : group ∈ pending names) : group = names := by
  unfold pending at h
  split at h
  · cases h
  · exact List.mem_singleton.mp h

theorem messageOf_append (groups groups' : List (List Str)) :
    messageOf (groups ++ groups') = messageOf groups ++ messageOf groups' := List.flatMap_append

theorem messageOf_pending {names : List Str} (hnames : ∀ name ∈ names, Name name) (reply : Str) :
    (if (joined names).length > 0 then reply ++ lineOf names ++ ['\n'] else reply) =
      reply ++ messageOf (pending names) := by
  by_cases h : names = []
  · rw [if_neg fun hpos => (joined_pos hnames).mp hpos h, pending, if_pos h]
    exact (List.append_nil reply).symm
  · rw [if_pos ((joined_pos hnames).mpr h), pending, if_neg h]
    simp [messageOf]

/-- Mode 1 behind a line that holds some names already: groups that fit their lines, and all names in them. -/
theorem messageOneLoop_groups {dupes : List Str} (hdupes : ∀ dupe ∈ dupes, Name dupe) :
    ∀ (names : List Str) (reply : Str), (∀ name ∈ names, Name name) → (joined names).length ≤ 67 →
      ∃ groups, messageOneLoop dupes reply (lineOf names) (joined names).length = reply ++ messageOf groups ∧
        groups.flatten = names ++ dupes.map (·.take 67) ∧
        ∀ group ∈ groups, (∀ name ∈ group, Name name) ∧ (joined group).length ≤ 67 := by
  induction dupes with
  | nil =>
    intro names reply hnames hlength
    refine ⟨pending names, ?_, ?_, fun group hgroup => ?_⟩
    · rw [messageOneLoop, messageOf_pending hnames]
    · rw [flatten_pending, List.map_nil, List.append_nil]
    · rw [mem_pending hgroup]
      exact ⟨hnames, hlength⟩
  | cons dupe dupes ih =>
    intro names reply hnames hlength
    have hdupe := hdupes dupe (by simp)
    have hrest := ih fun d hd => hdupes d (by simp [hd])
    rw [messageOneLoop]
    by_cases hlong : dupe.length > 67
    · -- the line is ended, and the name has one for itself
      obtain ⟨groups, hmessage, hflatten, hgroups⟩ :=
        hrest [] (reply ++ messageOf (pending names) ++ xDupe ++ dupe.take 67 ++ ['\n']) (by simp) (by simp)
      have htake : (∀ name ∈ [dupe.take 67], Name name) ∧ (joined [dupe.take 67]).length ≤ 67 :=
        ⟨by simpa using hdupe.take (by omega), by simpa using List.length_take_le 67 dupe⟩
      refine ⟨pending names ++ [dupe.take 67] :: groups, ?_, ?_, ?_⟩
      · rw [if_pos hlong, messageOf_pending hnames]
        simpa [messageOf_append, messageOf, lineOf] using hmessage
      · rw [List.flatten_append, flatten_pending, List.flatten_cons, hflatten]
        rfl
      · refine List.forall_mem_append.mpr ⟨fun group hgroup => ?_, List.forall_mem_cons.mpr ⟨htake, hgroups⟩⟩
        rw [mem_pending hgroup]
        exact ⟨hnames, hlength⟩
    · have htake : dupe.take 67 = dupe := List.take_of_length_le (by omega)
      rw [if_neg hlong]
      by_cases h : names = []
      · subst h
        obtain ⟨groups, hmessage, hflatten, hgroups⟩ :=
          hrest [dupe] reply (by simpa using hdupe) (by simpa using hlong)
        refine ⟨groups, ?_, ?_, hgroups⟩
        · simpa [lineOf, hlong] using hmessage
        · simpa [htake] using hflatten
      · have hpos := (joined_pos hnames).mpr h
        by_cases hfull : (joined names).length + dupe.length + 1 > 67
        · obtain ⟨groups, hmessage, hflatten, hgroups⟩ :=
            hrest [dupe] (reply ++ lineOf names ++ ['\n']) (by simpa using hdupe) (by simpa using hlong)
          refine ⟨names :: groups, ?_, ?_, ?_⟩
          · simp only [if_pos hpos, if_pos hfull]
            simpa [messageOf, lineOf] using hmessage
          · simpa [htake] using hflatten
          · exact List.forall_mem_cons.mpr ⟨⟨hnames, hlength⟩, hgroups⟩
        · have hjoined := length_joined_concat names dupe
          rw [if_neg h] at hjoined
          obtain ⟨groups, hmessage, hflatten, hgroups⟩ := hrest (names ++ [dupe]) reply
            (by simpa [or_imp, forall_and] using ⟨hnames, hdupe⟩) (by omega)
          refine ⟨groups, ?_, ?_, hgroups⟩
          · simp only [if_pos hpos, if_neg hfull]
            rw [lineOf_concat h, hjoined] at hmessage
            exact hmessage
          · simpa [htake] using hflatten

theorem messageOne_lines {dupes : List Str} (hdupes : ∀ dupe ∈ dupes, Name dupe) :
    ∃ groups, messageOne dupes = messageOf groups ∧ groups.flatten = dupes.map (·.take 67) ∧
      ∀ group ∈ groups, (∀ name ∈ group, Name name) ∧ (joined group).length ≤ 67 := by
  obtain ⟨groups, hmessage, hflatten, hgroups⟩ :=
    messageOneLoop_groups hdupes [] [] (by simp) (by simp)
  exact ⟨groups, hmessage, hflatten, hgroups⟩

theorem messageTwo_lines (dupes : List Str) : messageTwo dupes = messageOf (dupes.map fun dupe => [dupe.take 75]) := by
  simp [messageTwo, messageOf, lineOf, List.flatMap_map]

theorem messageThree_lines (dupes : List Str) : messageThree dupes = messageOf (dupes.map fun dupe => [dupe]) := by
  simp [messageThree, messageOf, lineOf, List.flatMap_map]

theorem cut_take {dupe : Str} {n : Nat} (h : 67 ≤ n) : Cut (dupe.take n) dupe := by
  by_cases hlong : dupe.length ≤ n
  · exact .inl (List.take_of_length_le hlong)
  · refine .inr ⟨?_, List.take_prefix n dupe⟩
    rw [length_sent, joined_singleton]
    omega

/-! ## The fourth mode -/

/-- The names that mode 4 lists: up to the first that is too long. -/
def packed : List Str → List Str → List Str
  | names, [] => names
  | names, dupe :: dupes =>
    if (joined (names ++ [dupe])).length ≤ 1008 then packed (names ++ [dupe]) dupes else names

theorem messageFourLoop_packed {dupes : List Str} (hdupes : ∀ dupe ∈ dupes, Name dupe) :
    ∀ (names : List Str), (∀ name ∈ names, Name name) →
      messageFourLoop dupes (lineOf names) (8 + (joined names).length) = lineOf (packed names dupes) := by
  induction dupes with
  | nil => exact fun _ _ => rfl
  | cons dupe dupes ih =>
    intro names hnames
    have hdupe := hdupes dupe (by simp)
    have hempty : 8 + (joined names).length = 8 ↔ names = [] := by
      have := joined_pos hnames
      rw [← not_iff_not, ← ne_eq names, ← this]
      omega
    have hlength := length_joined_concat names dupe
    have hnext := ih (fun d hd => hdupes d (by simp [hd])) (names ++ [dupe])
      (by simpa [or_imp, forall_and] using ⟨hnames, hdupe⟩)
    rw [messageFourLoop, packed]
    by_cases h : names = []
    · subst h
      rw [joined_nil, List.length_nil, List.nil_append, joined_singleton] at *
      simp only [Nat.add_zero, if_true, ne_eq, not_true, if_false]
      by_cases hlong : dupe.length ≤ 1008
      · have hline : lineOf [] ++ dupe = lineOf [dupe] := by simp [lineOf]
        rw [if_neg (by omega), if_pos hlong, ← hnext, hline]
      · rw [if_pos (by omega), if_neg hlong]
    · rw [if_neg h] at hlength
      rw [if_neg (mt hempty.mp h)]
      by_cases hlong : (joined (names ++ [dupe])).length ≤ 1008
      · have hne : 8 + (joined names).length ≠ 8 := mt hempty.mp h
        simp only [if_pos hne]
        rw [if_neg (by omega), if_pos hlong, ← hnext, lineOf_concat h, hlength]
        congr 1
        omega
      · rw [if_pos (by omega), if_neg hlong]

theorem messageFour_lines {dupes : List Str} (hdupes : ∀ dupe ∈ dupes, Name dupe) :
    messageFour dupes = messageOf [packed [] dupes] := by
  have hloop := messageFourLoop_packed hdupes [] (by simp)
  have hlength : (lineOf (packed [] dupes)).length ≠ 8 := by
    have hxDupe : xDupe.length = 9 := rfl
    rw [lineOf, List.length_append, hxDupe]
    omega
  have hstart : messageFourLoop dupes xDupe 8 = lineOf (packed [] dupes) := by simpa [lineOf] using hloop
  rw [messageFour, hstart]
  simp only [if_neg hlength]
  simp [messageOf]

theorem packed_names {dupes : List Str} (hdupes : ∀ dupe ∈ dupes, Name dupe) :
    ∀ (names : List Str), (∀ name ∈ names, Name name) → (joined names).length ≤ 1008 →
      (∀ name ∈ packed names dupes, Name name) ∧ (joined (packed names dupes)).length ≤ 1008 := by
  induction dupes with
  | nil => exact fun names hnames hlength => ⟨hnames, hlength⟩
  | cons dupe dupes ih =>
    intro names hnames hlength
    rw [packed]
    split
    · rename_i hfits
      exact ih (fun d hd => hdupes d (by simp [hd])) (names ++ [dupe])
        (by simpa [or_imp, forall_and] using ⟨hnames, hdupes dupe (by simp)⟩) hfits
    · exact ⟨hnames, hlength⟩

/-! ## The lines of each mode -/

section Lines

variable {dupes : List Str} (hdupes : ∀ dupe ∈ dupes, Name dupe)

include hdupes

theorem take_names {n : Nat} (hn : 0 < n) :
    ∀ names ∈ dupes.map fun dupe => [dupe.take n], ∀ name ∈ names, Name name := by
  simpa using fun dupe hdupe => (hdupes dupe hdupe).take hn

theorem lines_messageTwo : lines (messageTwo dupes) = dupes.map fun dupe => lineOf [dupe.take 75] := by
  rw [messageTwo_lines, lines_messageOf (take_names hdupes (by omega)), List.map_map]
  rfl

theorem listed_messageTwo : listed (messageTwo dupes) = dupes.map (·.take 75) := by
  rw [messageTwo_lines, listed_messageOf (take_names hdupes (by omega)), ← List.flatMap_def, ← List.map_eq_flatMap]

theorem listed_messageThree : listed (messageThree dupes) = dupes := by
  rw [messageThree_lines, listed_messageOf (by simpa using hdupes), ← List.flatMap_def, ← List.map_eq_flatMap]
  exact List.map_id dupes

theorem lines_messageFour : lines (messageFour dupes) = [lineOf (packed [] dupes)] := by
  have hpacked := packed_names hdupes [] (by simp) (by simp)
  rw [messageFour_lines hdupes, lines_messageOf (by simpa using hpacked.1)]
  rfl

theorem listed_messageFour : listed (messageFour dupes) = packed [] dupes := by
  have hpacked := packed_names hdupes [] (by simp) (by simp)
  rw [messageFour_lines hdupes, listed_messageOf (by simpa using hpacked.1), List.flatten_singleton]

end Lines

/-! ## The names that fit -/

theorem fitting_cons (names dupes : List Str) (dupe : Str) :
    fitting names (dupe :: dupes) =
      if (joined (names ++ [dupe])).length ≤ 1011 then fitting (names ++ [dupe]) dupes else fitting names dupes := by
  have hline : (sent (lineOf (names ++ [dupe]))).length ≤ 1024 ↔ (joined (names ++ [dupe])).length ≤ 1011 := by
    rw [length_sent]
    omega
  rw [fitting]
  exact if_congr hline rfl rfl

theorem fitting_append (dupes : List Str) : ∀ names, ∃ more, fitting names dupes = names ++ more := by
  induction dupes with
  | nil => exact fun names => ⟨[], by simp [fitting]⟩
  | cons dupe dupes ih =>
    intro names
    rw [fitting_cons]
    split
    · obtain ⟨more, hmore⟩ := ih (names ++ [dupe])
      exact ⟨dupe :: more, by rw [hmore, List.append_assoc]; rfl⟩
    · exact ih names

theorem fitting_eq_self {names dupes : List Str} :
    fitting names dupes = names ↔ ∀ dupe ∈ dupes, 1011 < (joined (names ++ [dupe])).length := by
  induction dupes with
  | nil => exact iff_of_true rfl (by simp)
  | cons dupe dupes ih =>
    rw [fitting_cons, List.forall_mem_cons]
    by_cases hfits : (joined (names ++ [dupe])).length ≤ 1011
    · rw [if_pos hfits]
      refine iff_of_false (fun h => ?_) fun h => absurd hfits h.1.not_ge
      obtain ⟨more, hmore⟩ := fitting_append dupes (names ++ [dupe])
      have hlength := congrArg List.length (hmore.symm.trans h)
      simp at hlength
    · rw [if_neg hfits, ih]
      exact (and_iff_right (by omega)).symm

/-- The names up to the first that is too long are those that fit, just if no later one does. -/
theorem packed_eq_fitting {dupes : List Str} :
    ∀ {names : List Str}, (joined names).length ≤ 1008 →
      (packed names dupes = fitting names dupes ↔
        ∃ first rest, dupes = first ++ rest ∧ (joined (names ++ first)).length ≤ 1008 ∧
          ∀ dupe ∈ rest, 1011 < (joined (names ++ first ++ [dupe])).length) := by
  induction dupes with
  | nil =>
    intro names hlength
    exact iff_of_true rfl ⟨[], [], rfl, by simpa using hlength, by simp⟩
  | cons dupe dupes ih =>
    intro names hlength
    rw [packed, fitting_cons]
    by_cases hfits : (joined (names ++ [dupe])).length ≤ 1008
    · rw [if_pos hfits, if_pos (by omega), ih hfits]
      constructor
      · rintro ⟨first, rest, rfl, hfirst, hrest⟩
        exact ⟨dupe :: first, rest, rfl, by simpa using hfirst, by simpa using hrest⟩
      · rintro ⟨first, rest, hsplit, hfirst, hrest⟩
        cases first with
        | nil =>
          rw [List.nil_append] at hsplit
          have hdupe := hrest dupe (hsplit ▸ List.mem_cons_self)
          rw [List.append_nil] at hdupe
          omega
        | cons dupe' first =>
          obtain ⟨rfl, rfl⟩ := List.cons.inj hsplit
          exact ⟨first, rest, rfl, by simpa using hfirst, by simpa using hrest⟩
    · -- the loop ends here
      rw [if_neg hfits, ← fitting_cons, eq_comm, fitting_eq_self]
      constructor
      · exact fun h => ⟨[], dupe :: dupes, rfl, by rwa [List.append_nil], by rwa [List.append_nil]⟩
      · rintro ⟨first, rest, hsplit, hfirst, hrest⟩
        cases first with
        | nil =>
          rw [List.nil_append] at hsplit
          rw [hsplit]
          simpa using hrest
        | cons dupe' first =>
          obtain ⟨rfl, rfl⟩ := List.cons.inj hsplit
          have hle := joined_length_le (names ++ [dupe]) first
          rw [List.append_assoc, List.singleton_append] at hle
          omega

/-! ## The specification -/

/-- A list conforms just if it has names, no name is over the 67 characters that a line of 80 leaves, and
the names behind those that mode 4 lists are all too long for its line. -/
theorem conforms_iff {dupes : List Str} (hdupes : ∀ dupe ∈ dupes, Name dupe) :
    Conforms dupes ↔ dupes ≠ [] ∧ (∀ dupe ∈ dupes, dupe.length ≤ 67) ∧
      ∃ first rest, dupes = first ++ rest ∧ (joined first).length ≤ 1008 ∧
        ∀ dupe ∈ rest, 1011 < (joined (first ++ [dupe])).length := by
  have hfour := @packed_eq_fitting dupes [] (by simp)
  constructor
  · intro h
    refine ⟨?_, ?_, ?_⟩
    · rintro rfl
      have := h.empty rfl .Four
      rw [message, lines_messageFour hdupes] at this
      cases this
    · intro dupe hdupe
      have := h.two_length (lineOf [dupe.take 75]) (by
        rw [lines_messageTwo hdupes]
        exact List.mem_map_of_mem hdupe)
      rw [length_sent, joined_singleton, List.length_take] at this
      omega
    · have hnames := h.four_names
      rw [listed_messageFour hdupes] at hnames
      simpa using hfour.mp hnames
  · rintro ⟨hne, hshort, hfits⟩
    obtain ⟨groups, hone, hflatten, hgroups⟩ := messageOne_lines hdupes
    have hnames : ∀ names ∈ groups, ∀ name ∈ names, Name name := fun names h => (hgroups names h).1
    exact {
      one_length := by
        rw [hone, lines_messageOf hnames, List.forall_mem_map]
        intro names hgroup
        have := (hgroups names hgroup).2
        rw [length_sent]
        omega
      two_length := by
        rw [lines_messageTwo hdupes, List.forall_mem_map]
        intro dupe hdupe
        have := hshort dupe hdupe
        rw [length_sent, joined_singleton, List.length_take]
        omega
      four_length := by
        have hpacked := packed_names hdupes [] (by simp) (by simp)
        rw [lines_messageFour hdupes, List.forall_mem_singleton, length_sent]
        omega
      four_line := by
        rw [lines_messageFour hdupes]
        exact Nat.le_refl 1
      one_names := by
        rw [hone, listed_messageOf hnames, hflatten, List.forall₂_map_left_iff]
        exact List.forall₂_same.mpr fun dupe _ => cut_take (Nat.le_refl 67)
      two_names := by
        rw [listed_messageTwo hdupes, List.forall₂_map_left_iff]
        exact List.forall₂_same.mpr fun dupe _ => cut_take (by omega)
      three_names := listed_messageThree hdupes
      four_names := by
        rw [listed_messageFour hdupes]
        exact hfour.mpr (by simpa using hfits)
      empty := fun h => absurd h hne }

/-! ## Long names -/

def long (n : Nat) : Str := List.replicate n 'a'

/-- An empty list gets a line in mode 4, a name of 68 characters makes a line of 81 in mode 2. -/
theorem xdupe_lines : ¬ Conforms [] ∧ ¬ Conforms [long 68] := by
  refine ⟨fun h => ?_, fun h => ?_⟩
  · have := h.empty rfl .Four
    revert this
    decide
  · have := h.two_length (xDupe ++ long 68) (by decide)
    revert this
    decide

theorem xdupe_two : (∀ dupe ∈ ["a.rar".toList, "a.r00".toList], Name dupe) ∧
    Conforms ["a.rar".toList, "a.r00".toList] := by
  have hnames : ∀ dupe ∈ ["a.rar".toList, "a.r00".toList], Name dupe := by
    intro dupe hdupe
    simp only [List.mem_cons, List.not_mem_nil, or_false] at hdupe
    rcases hdupe with rfl | rfl
    · exact name_of_all (by decide) (by decide)
    · exact name_of_all (by decide) (by decide)
  exact ⟨hnames, (conforms_iff hnames).mpr ⟨by decide, by decide, ["a.rar".toList, "a.r00".toList], [], rfl,
    by decide, by simp⟩⟩

end Xdupe
end Ftp
end Ebftpd
