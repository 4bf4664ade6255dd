import Ebftpd.Cmd.SiteAlias

/-!
# Ebftpd.Cmd.SiteDispatch

What `SITECommand::Execute` (`src/cmd/rfc/commands.cpp`) makes of its argument string before it looks
the command up. `SplitArgs` takes the braces off a token and says by what it returns when one is not
closed. Its caller does not look at that, takes `args[0]` of whatever came out, and cuts as many
characters off the line as `args[0]` has.

* `splitArgs_written`: tokens that are written down come back.
* `faithful_iff`: the lines whose command gets the text behind its name.
-/

namespace Ebftpd
namespace Cmd
namespace SiteDispatch

open Util Acl SiteAlias

/-! ## The argument string -/

/-- What `SplitArgs` returns. -/
def splits : Mode → Str → Bool
  | .skip, [] => true
  | .skip, c :: cs =>
    if isSpace c then splits .skip cs
    else if c = '{' then splits (.brace []) cs
    else splits (.word [c]) cs
  | .brace _, [] => false
  | .brace acc, c :: cs => if c = '}' then splits .skip cs else splits (.brace (acc ++ [c])) cs
  | .word _, [] => true
  | .word acc, c :: cs => if c = ' ' then splits .skip cs else splits (.word (acc ++ [c])) cs

/-- `args[0]`, in upper case, the text for the command, and the other arguments. -/
structure Parsed where
  name : Str
  argStr : Str
  arguments : List Str
  deriving DecidableEq

inductive Fault where
  -- `args[0]` of an empty vector
  | noArgument
  -- `substr`
  | outOfRange
  deriving DecidableEq

/-- `SITECommand::Execute`, up to the lookup. -/
def parse (argStr : Str) : Except Fault Parsed :=
  match splitArgs argStr with
  | [] => .error .noArgument
  | arg :: arguments =>
    let name := toUpperCopy arg
    if argStr.length < name.length then .error .outOfRange
    else .ok ⟨name, trimCopy (argStr.drop name.length), arguments⟩

variable (site : Site)

/-- The rest of `SITECommand::Execute`. -/
def executeParsed (p : Parsed) : Outcome :=
  match lookupCustom site p.name with
  | some custSiteCmd =>
    if !allowSiteCmd site.env ("custom-".toList ++ toLowerCopy p.name) then .reply (denied p.name)
    else if !isASCIIOnly p.argStr then notASCII
    else executeCustom site custSiteCmd p.argStr
  | none =>
    match site.factory.find p.name with
    | none => notUnderstood
    | some d => executeBuiltin site d p.name p.argStr p.arguments

/-- Whether `Factory::Lookup` finds a command. -/
def dispatches (name : Str) : Bool := (lookupCustom site name).isSome || (site.factory.find name).isSome

/-- A first token as it stands on a line, what it says, and what is behind it. -/
inductive FirstToken : Str → Str → Str → Prop
  | word {w rest : Str} (hspace : ' ' ∉ w) (hhead : ∃ c v, w = c :: v ∧ isSpace c = false ∧ c ≠ '{')
      (hrest : Follows rest) : FirstToken (w ++ rest) (trimCopy w) rest
  | braced {t : Str} (ht : '}' ∉ t) (rest : Str) : FirstToken ('{' :: t ++ '}' :: rest) (trimCopy t) rest

/-- There is an `args[0]`; and a command that is found is named by the first token and gets the text
behind it. -/
structure Faithful (argStr : Str) : Prop where
  indexed : parse argStr ≠ .error .noArgument
  remainder : ∀ p, parse argStr = .ok p → dispatches site p.name = true →
    ∃ token rest, FirstToken argStr token rest ∧ p.name = toUpperCopy token ∧ p.argStr = trimCopy rest

theorem execute_eq {argStr : Str} {p : Parsed} (h : parse argStr = .ok p) :
    execute site argStr = executeParsed site p := by
  unfold parse at h
  split at h
  · cases h
  · rename_i arg arguments hargs
    simp only at h
    split at h
    · cases h
    · cases h
      unfold execute
      rw [hargs]
      rfl

theorem executeParsed_unknown {p : Parsed} (h : dispatches site p.name = false) :
    executeParsed site p = notUnderstood := by
  simp only [dispatches, Bool.or_eq_false_iff, Option.isSome_eq_false_iff, Option.isNone_iff_eq_none] at h
  simp only [executeParsed, h.1, h.2]

/-! ## Tokens -/

theorem splitArgsLoop_brace (s : Str) {t : Str} (ht : '}' ∉ t) :
    ∀ acc, splitArgsLoop (.brace acc) (t ++ '}' :: s) = trimCopy (acc ++ t) :: splitArgs s := by
  induction t with
  | nil =>
    intro acc
    simp [splitArgsLoop, splitArgs]
  | cons c t ih =>
    intro acc
    rw [List.mem_cons, not_or] at ht
    rw [List.cons_append, splitArgsLoop, if_neg (Ne.symm ht.1), ih ht.2]
    simp

theorem splitArgsLoop_open {t : Str} (ht : '}' ∉ t) : ∀ acc, splitArgsLoop (.brace acc) t = [] := by
  induction t with
  | nil => exact fun _ => rfl
  | cons c t ih =>
    intro acc
    rw [List.mem_cons, not_or] at ht
    rw [splitArgsLoop, if_neg (Ne.symm ht.1), ih ht.2]

theorem FirstToken.splitArgs {argStr token rest : Str} (h : FirstToken argStr token rest) :
    splitArgs argStr = token :: SiteAlias.splitArgs rest := by
  cases h with
  | @word w rest hspace hhead hrest =>
    obtain ⟨c, v, rfl, hc, hbrace⟩ := hhead
    rw [SiteAlias.splitArgs, List.cons_append, splitArgsLoop, hc, if_neg Bool.false_ne_true, if_neg hbrace,
      splitArgsLoop_word hrest fun hv => hspace (List.mem_cons_of_mem _ hv)]
    rfl
  | braced ht rest =>
    have hspace : isSpace '{' = false := by decide
    rw [SiteAlias.splitArgs, List.cons_append, splitArgsLoop, hspace, if_neg Bool.false_ne_true, if_pos rfl,
      splitArgsLoop_brace rest ht]
    rfl

/-- A line that starts with neither white space nor a brace that stays open has a first token. -/
theorem exists_firstToken {c : Char} {s : Str} (hc : isSpace c = false) (hclosed : c = '{' → '}' ∈ s) :
    ∃ token rest, FirstToken (c :: s) token rest := by
  by_cases hbrace : c = '{'
  · subst hbrace
    obtain ⟨t, rest, rfl, ht⟩ := List.eq_append_cons_of_mem (hclosed rfl)
    exact ⟨_, rest, .braced ht rest⟩
  · have hword : ' ' ∉ c :: s.takeWhile (· ≠ ' ') := by
      rw [List.mem_cons, not_or]
      refine ⟨fun h => ?_, fun h => ?_⟩
      · rw [← h] at hc
        exact absurd hc (by decide)
      · simpa using List.mem_takeWhile_imp h
    have hrest : Follows (s.dropWhile (· ≠ ' ')) := by
      cases hdrop : s.dropWhile (· ≠ ' ') with
      | nil => exact .inl rfl
      | cons d t =>
        have hd := List.head?_dropWhile_not (· ≠ ' ') s
        rw [hdrop] at hd
        have hd : d = ' ' := by simpa using hd
        exact .inr ⟨t, by rw [hd]⟩
    have hsplit : c :: s = c :: s.takeWhile (· ≠ ' ') ++ s.dropWhile (· ≠ ' ') := by
      rw [List.cons_append, List.takeWhile_append_dropWhile]
    rw [hsplit]
    exact ⟨_, _, .word hword ⟨c, _, rfl, hc, hbrace⟩ hrest⟩

theorem FirstToken.append {argStr token rest : Str} (h : FirstToken argStr token rest) :
    ∃ raw, argStr = raw ++ rest := by
  cases h with
  | @word w rest hspace hhead hrest => exact ⟨w, rfl⟩
  | @braced t ht rest => exact ⟨'{' :: t ++ ['}'], by simp⟩

theorem FirstToken.length {argStr token rest : Str} (h : FirstToken argStr token rest) :
    token.length ≤ argStr.length := by
  cases h with
  | @word w rest _ _ _ =>
    have := trimCopy_length w
    rw [List.length_append]
    omega
  | @braced t ht rest =>
    have := trimCopy_length t
    simp only [List.cons_append, List.length_cons, List.length_append]
    omega

theorem FirstToken.parse {argStr token rest : Str} (h : FirstToken argStr token rest) :
    parse argStr = .ok ⟨toUpperCopy token, trimCopy (argStr.drop token.length), SiteAlias.splitArgs rest⟩ := by
  have hlength : (toUpperCopy token).length = token.length := List.length_map _
  rw [SiteDispatch.parse, h.splitArgs]
  simp only [hlength, if_neg h.length.not_gt]

/-- The text behind a token without braces is cut where it begins. -/
theorem FirstToken.cut_word {w rest : Str} {c : Char} {v : Str} (hw : w = c :: v) (hc : isSpace c = false) :
    trimCopy ((w ++ rest).drop (trimCopy w).length) = trimCopy rest := by
  have htrim : trimCopy w = trimRightCopy w := by rw [hw, trimCopy_cons hc]
  obtain ⟨blank, hblank, hsplit⟩ := trimRight_split w
  have hdrop : (w ++ rest).drop (trimCopy w).length = blank ++ rest := by
    rw [htrim]
    conv_lhs => arg 2; rw [hsplit]
    rw [List.append_assoc, List.drop_left]
  rw [hdrop, trimCopy_blank hblank]

/-- Behind a token in braces the closing one is left. -/
theorem FirstToken.cut_braced (t rest : Str) :
    trimCopy (('{' :: t ++ '}' :: rest).drop (trimCopy t).length) ≠ trimCopy rest := by
  have hle : (trimCopy t).length ≤ ('{' :: t).length := by
    have := trimCopy_length t
    rw [List.length_cons]
    omega
  intro h
  have hweight := congrArg weight h
  rw [weight_trim, weight_trim, List.drop_append_of_le_length hle] at hweight
  simp [weight, isSpace] at hweight
  omega

theorem FirstToken.argStr_iff {argStr token rest : Str} (h : FirstToken argStr token rest) :
    trimCopy (argStr.drop token.length) = trimCopy rest ↔ argStr.head? ≠ some '{' := by
  cases h with
  | @word w rest hspace hhead hrest =>
    obtain ⟨c, v, rfl, hc, hbrace⟩ := hhead
    refine iff_of_true (cut_word rfl hc) ?_
    simpa using hbrace
  | @braced t ht rest => exact iff_of_false (cut_braced t rest) (by simp)

/-! ## Lines -/

theorem head_trimCopy {line s : Str} {c : Char} (h : trimCopy line = c :: s) : isSpace c = false := by
  have hhead := List.head?_dropWhile_not isSpace (trimRightCopy line)
  rw [trimCopy, trimLeftCopy] at h
  rw [h] at hhead
  exact hhead

theorem parse_open {s : Str} (hs : '}' ∉ s) : parse ('{' :: s) = .error .noArgument := by
  have hspace : isSpace '{' = false := by decide
  have hnone : splitArgs ('{' :: s) = [] := by
    rw [splitArgs, splitArgsLoop, hspace, if_neg Bool.false_ne_true, if_pos rfl, splitArgsLoop_open hs]
  rw [parse, hnone]

theorem FirstToken.token_braced {s token rest : Str} (h : FirstToken ('{' :: s) token rest) :
    token = trimCopy (s.takeWhile (· ≠ '}')) := by
  generalize hline : '{' :: s = line at h
  cases h with
  | @word w rest hspace hhead hrest =>
    obtain ⟨c, v, rfl, hc, hbrace⟩ := hhead
    exact absurd (List.cons.inj hline).1.symm hbrace
  | @braced t ht rest =>
    obtain rfl : s = t ++ '}' :: rest := (List.cons.inj hline).2
    have hall : ∀ c ∈ t, decide (c ≠ '}') = true := fun c hc => by
      simp only [decide_eq_true_eq]
      exact fun h => ht (h ▸ hc)
    rw [List.takeWhile_append_of_pos hall]
    simp

/-- What is behind the first token is settled by the line. -/
theorem FirstToken.rest_eq {argStr token rest : Str} (h : FirstToken argStr token rest) :
    rest = if argStr.head? = some '{' then (argStr.dropWhile (· ≠ '}')).tail else argStr.dropWhile (· ≠ ' ') := by
  cases h with
  | @word w rest hspace hhead hrest =>
    obtain ⟨c, v, rfl, hc, hbrace⟩ := hhead
    have hall : ∀ d ∈ c :: v, decide (d ≠ ' ') = true := fun d hd => by
      simp only [decide_eq_true_eq]
      exact fun h => hspace (h ▸ hd)
    rw [if_neg (by simpa using hbrace), List.dropWhile_append_of_pos hall]
    rcases hrest with rfl | ⟨t, rfl⟩
    · rfl
    · simp
  | @braced t ht rest =>
    have hall : ∀ d ∈ '{' :: t, decide (d ≠ '}') = true := fun d hd => by
      simp only [decide_eq_true_eq]
      rintro rfl
      exact ht ((List.mem_cons.mp hd).resolve_left (by decide))
    rw [if_pos (by simp), List.dropWhile_append_of_pos hall]
    simp

/-- A line with arguments has a first token. -/
theorem firstToken_of_args {line : Str} (h : splitArgs (trimCopy line) ≠ []) :
    ∃ token rest, FirstToken (trimCopy line) token rest := by
  cases hline : trimCopy line with
  | nil => exact absurd (by rw [hline]; rfl) h
  | cons c s =>
    refine exists_firstToken (head_trimCopy hline) ?_
    rintro rfl
    by_contra hopen
    have hparse := parse_open hopen
    rw [hline] at h
    obtain ⟨arg, arguments, hargs⟩ := List.exists_cons_of_ne_nil h
    simp only [SiteDispatch.parse, hargs] at hparse
    split at hparse
    · cases hparse
    · cases hparse

/-- A line with a first token is taken apart as it should be if the token has no braces, or if nothing has
its name. -/
theorem FirstToken.exact_iff {argStr token rest : Str} (h : FirstToken argStr token rest) :
    Faithful site argStr ↔ argStr.head? = some '{' → dispatches site (toUpperCopy token) = false := by
  constructor
  · intro hfaithful hbrace
    by_contra hfound
    obtain ⟨token', rest', h', hname, hargStr⟩ :=
      hfaithful.remainder _ h.parse (Bool.eq_true_of_not_eq_false hfound)
    have htoken : token' = token := by
      have := h'.splitArgs.symm.trans h.splitArgs
      exact (List.cons.inj this).1
    subst htoken
    exact h'.argStr_iff.mp hargStr hbrace
  · intro hnone
    refine ⟨by simp [h.parse], ?_⟩
    intro p hp hfound
    cases h.parse.symm.trans hp
    refine ⟨token, rest, h, rfl, h.argStr_iff.mpr fun hbrace => ?_⟩
    rw [hnone hbrace] at hfound
    cases hfound

/-! ## What is behind a token -/

theorem trimRight_suffix {a b : Str} (h : trimRightCopy (a ++ b) = a ++ b) : trimRightCopy b = b := by
  rw [trimRight_append] at h
  split at h
  · obtain ⟨blank, -, hsplit⟩ := trimRight_split a
    have hlength := congrArg List.length hsplit
    rw [h] at hlength
    rw [List.length_append, List.length_append] at hlength
    obtain rfl : b = [] := List.eq_nil_of_length_eq_zero (by omega)
    rfl
  · exact List.append_cancel_left h

/-- What is in front of the text behind a token: one character more than the token at least, and a space if
it is no more. -/
theorem FirstToken.gap {text token rest : Str} (h : FirstToken text token rest) (htext : trimRightCopy text = text)
    (hrest : trimCopy rest ≠ []) :
    ∃ front, text = front ++ trimCopy rest ∧ token.length + 1 ≤ front.length ∧
      (front.length = token.length + 1 → front = token ++ [' ']) := by
  have hblanks : ∀ {raw : Str}, trimRightCopy (raw ++ rest) = raw ++ rest →
      ∃ blank, rest = blank ++ trimCopy rest := by
    intro raw hraw
    refine ⟨rest.takeWhile isSpace, ?_⟩
    rw [trimCopy, trimRight_suffix hraw, trimLeftCopy, List.takeWhile_append_dropWhile]
  cases h with
  | @word w rest hspace hhead hfollows =>
    obtain ⟨c, v, rfl, hc, -⟩ := hhead
    obtain ⟨blank, hblank⟩ := hblanks htext
    obtain ⟨more, -, hw⟩ := trimRight_split (c :: v)
    rw [← trimCopy_cons hc] at hw
    have hlength := congrArg List.length hw
    rw [List.length_append] at hlength
    obtain ⟨t, rfl⟩ := hfollows.resolve_left fun h => hrest (by rw [h]; rfl)
    obtain ⟨blank', rfl⟩ : ∃ blank', blank = ' ' :: blank' := by
      cases blank with
      | nil => exact absurd (head_trimCopy hblank.symm) (by decide)
      | cons b blank' => exact ⟨blank', by rw [(List.cons.inj hblank).1]⟩
    refine ⟨c :: v ++ ' ' :: blank', ?_, ?_, ?_⟩
    · rw [List.append_assoc, ← hblank]
    · simp only [List.length_append, List.length_cons] at hlength ⊢
      omega
    · intro hfront
      simp only [List.length_append, List.length_cons] at hfront hlength
      obtain rfl : more = [] := List.eq_nil_of_length_eq_zero (by omega)
      obtain rfl : blank' = [] := List.eq_nil_of_length_eq_zero (by omega)
      rw [List.append_nil] at hw
      rw [← hw]
  | @braced t ht rest =>
    have hraw : '{' :: t ++ '}' :: rest = ('{' :: t ++ ['}']) ++ rest := by simp
    rw [hraw] at htext ⊢
    obtain ⟨blank, hblank⟩ := hblanks htext
    have hle := trimCopy_length t
    refine ⟨('{' :: t ++ ['}']) ++ blank, ?_, ?_, ?_⟩
    · rw [List.append_assoc _ blank, ← hblank]
    · simp only [List.cons_append, List.length_cons, List.length_append, List.length_nil]
      omega
    · intro hfront
      simp only [List.cons_append, List.length_cons, List.length_append, List.length_nil] at hfront
      omega

theorem trimRight_trimCopy (s : Str) : trimRightCopy (trimCopy s) = trimCopy s := by
  have hidem : trimRightCopy (trimRightCopy s) = trimRightCopy s := by
    rw [trimRightCopy, trimRightCopy, List.reverse_reverse, List.dropWhile_idempotent]
  have hsplit : (trimRightCopy s).takeWhile isSpace ++ trimCopy s = trimRightCopy s :=
    List.takeWhile_append_dropWhile
  refine trimRight_suffix (a := (trimRightCopy s).takeWhile isSpace) ?_
  rw [hsplit, hidem]

theorem FirstToken.args {text token rest : Str} (h : FirstToken text token rest) (htext : trimRightCopy text = text) :
    SiteAlias.splitArgs text = token :: SiteAlias.splitArgs (trimCopy rest) := by
  obtain ⟨raw, hraw⟩ := h.append
  rw [hraw] at htext
  rw [h.splitArgs, ← splitArgs_trimRight, trimRight_suffix htext]

/-! ## Tokens that are written down -/

/-- A token of the command line, and how it is written there. -/
structure Token where
  text : Str
  braced : Bool
  ne_nil : text ≠ []
  trimmed : trimCopy text = text
  free : if braced then '}' ∉ text else ' ' ∉ text ∧ text.head? ≠ some '{'

def Token.written (token : Token) : Str := if token.braced then '{' :: token.text ++ ['}'] else token.text

/-- Tokens with a space, and as many more as are asked for, between them. -/
def written : List (Token × Nat) → Str
  | [] => []
  | [(token, _)] => token.written
  | (token, extra) :: tokens => token.written ++ ' ' :: (List.replicate extra ' ' ++ written tokens)

theorem Token.firstToken (token : Token) {rest : Str} (hrest : Follows rest) :
    FirstToken (token.written ++ rest) token.text rest := by
  obtain ⟨c, text, htext⟩ := List.exists_cons_of_ne_nil token.ne_nil
  have hc : isSpace c = false := head_trimCopy (token.trimmed.trans htext)
  have hfree := token.free
  have htrimmed := token.trimmed
  unfold Token.written
  by_cases hbraced : token.braced = true
  · rw [if_pos hbraced] at hfree ⊢
    have h := FirstToken.braced hfree rest
    rw [htrimmed] at h
    simpa using h
  · rw [if_neg hbraced] at hfree ⊢
    have h := FirstToken.word hfree.1 ⟨c, text, htext, hc, by simpa [htext] using hfree.2⟩ hrest
    rwa [htrimmed] at h

theorem splits_skip_cons (c : Char) (cs : Str) : splits .skip (c :: cs) =
    if isSpace c then splits .skip cs
    else if c = '{' then splits (.brace []) cs
    else splits (.word [c]) cs := rfl

theorem splits_brace_cons (acc : Str) (c : Char) (cs : Str) :
    splits (.brace acc) (c :: cs) = if c = '}' then splits .skip cs else splits (.brace (acc ++ [c])) cs := rfl

theorem splits_word_cons (acc : Str) (c : Char) (cs : Str) :
    splits (.word acc) (c :: cs) = if c = ' ' then splits .skip cs else splits (.word (acc ++ [c])) cs := rfl

theorem splits_word {s : Str} (hs : Follows s) {w : Str} (hw : ' ' ∉ w) :
    ∀ acc, splits (.word acc) (w ++ s) = splits .skip s := by
  induction w with
  | nil =>
    intro acc
    rcases hs with rfl | ⟨t, rfl⟩
    · rfl
    · rfl
  | cons c w ih =>
    intro acc
    rw [List.mem_cons, not_or] at hw
    rw [List.cons_append, splits_word_cons, if_neg (Ne.symm hw.1), ih hw.2]

theorem splits_brace (s : Str) {t : Str} (ht : '}' ∉ t) :
    ∀ acc, splits (.brace acc) (t ++ '}' :: s) = splits .skip s := by
  induction t with
  | nil =>
    intro acc
    rw [List.nil_append, splits_brace_cons, if_pos rfl]
  | cons c t ih =>
    intro acc
    rw [List.mem_cons, not_or] at ht
    rw [List.cons_append, splits_brace_cons, if_neg (Ne.symm ht.1), ih ht.2]

theorem FirstToken.splits {argStr token rest : Str} (h : FirstToken argStr token rest) :
    splits .skip argStr = SiteDispatch.splits .skip rest := by
  cases h with
  | @word w rest hspace hhead hrest =>
    obtain ⟨c, v, rfl, hc, hbrace⟩ := hhead
    rw [List.cons_append, splits_skip_cons, hc, if_neg Bool.false_ne_true, if_neg hbrace,
      splits_word hrest fun hv => hspace (List.mem_cons_of_mem _ hv)]
  | braced ht rest =>
    have hspace : isSpace '{' = false := by decide
    rw [List.cons_append, splits_skip_cons, hspace, if_neg Bool.false_ne_true, if_pos rfl, splits_brace rest ht]

theorem splits_spaces (n : Nat) (s : Str) : splits .skip (List.replicate n ' ' ++ s) = splits .skip s := by
  induction n with
  | zero => rfl
  | succ n ih =>
    have hspace : isSpace ' ' = true := by decide
    rw [List.replicate_succ, List.cons_append, splits_skip_cons, hspace, if_pos rfl, ih]

/-- Tokens that are written down come back. -/
theorem splitArgs_written (tokens : List (Token × Nat)) :
    splits .skip (written tokens) = true ∧ splitArgs (written tokens) = tokens.map (·.1.text) := by
  induction tokens using written.induct with
  | case1 => exact ⟨rfl, rfl⟩
  | case2 token extra =>
    have h := token.firstToken (.inl rfl)
    rw [List.append_nil] at h
    rw [written, h.splits, h.splitArgs]
    exact ⟨rfl, rfl⟩
  | case3 token extra tokens hne ih =>
    have h := @Token.firstToken token (' ' :: (List.replicate extra ' ' ++ written tokens)) (.inr ⟨_, rfl⟩)
    have hspaces : ' ' :: (List.replicate extra ' ' ++ written tokens) =
        List.replicate (extra + 1) ' ' ++ written tokens := rfl
    have hblank : ∀ c ∈ List.replicate (extra + 1) ' ', isSpace c = true := fun c hc => by
      rw [List.eq_of_mem_replicate hc]
      decide
    rw [written, h.splits, h.splitArgs, hspaces, splits_spaces, splitArgs_blank hblank, ih.1, ih.2]
    · exact ⟨rfl, rfl⟩
    · exact hne

/-- The command gets its text, on a line that is not blank, unless the first token is in braces: they have to
be closed, and no command may be named in them. Tokens that are written down come back. -/
theorem faithful_iff (line : Str) :
    (Faithful site (trimCopy line) ↔ trimCopy line ≠ [] ∧ ∀ s, trimCopy line = '{' :: s →
      '}' ∈ s ∧ dispatches site (toUpperCopy (trimCopy (s.takeWhile (· ≠ '}')))) = false) ∧
    ∀ tokens : List (Token × Nat),
      splits .skip (written tokens) = true ∧ splitArgs (written tokens) = tokens.map (·.1.text) := by
  refine ⟨?_, splitArgs_written⟩
  cases hline : trimCopy line with
  | nil => exact iff_of_false (fun h => h.indexed rfl) fun h => h.1 rfl
  | cons c s =>
    have hc : isSpace c = false := head_trimCopy hline
    by_cases hopen : c = '{' ∧ '}' ∉ s
    · obtain ⟨rfl, hopen⟩ := hopen
      exact iff_of_false (fun h => h.indexed (parse_open hopen)) fun h => hopen (h.2 s rfl).1
    · have hclosed : c = '{' → '}' ∈ s := fun hc => by_contra fun hs => hopen ⟨hc, hs⟩
      obtain ⟨token, rest, h⟩ := exists_firstToken hc hclosed
      rw [h.exact_iff]
      constructor
      · intro hnone
        refine ⟨List.cons_ne_nil c s, fun s' hs => ?_⟩
        cases hs
        refine ⟨hclosed rfl, ?_⟩
        rw [← h.token_braced]
        exact hnone rfl
      · rintro ⟨-, hnone⟩ hbrace
        obtain rfl : c = '{' := by simpa using hbrace
        rw [h.token_braced]
        exact (hnone s rfl).2

/-- A command in braces gets a part of them as its text; a brace that is not closed leaves no argument. -/
theorem braces_unfaithful : ¬ Faithful exampleSite (trimCopy "\x7btagline\x7d hi".toList) ∧
    parse (trimCopy "\x7btagline".toList) = .error .noArgument := by
  refine ⟨fun h => ?_, by decide⟩
  obtain ⟨token, rest, hfirst, hname, hargStr⟩ :=
    h.remainder ⟨"TAGLINE".toList, "e\x7d hi".toList, ["hi".toList]⟩ (by decide) (by decide)
  have hline : parse (trimCopy "\x7btagline\x7d hi".toList) =
      .ok ⟨"TAGLINE".toList, "e\x7d hi".toList, ["hi".toList]⟩ := by decide
  have hcut := (Except.ok.inj (hfirst.parse.symm.trans hline))
  have hbraced := hfirst.argStr_iff.mp ((congrArg Parsed.argStr hcut).trans hargStr)
  exact hbraced (by decide)

end SiteDispatch
end Cmd
end Ebftpd
