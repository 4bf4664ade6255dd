import Ebftpd.Acl.Path
import Ebftpd.Lib.FirstMatch
import Ebftpd.Lib.Replace
import Ebftpd.Util.Fnmatch

/-!
# Ebftpd.Acl.Rights

Path rights with `[:username:]` and `[:groupname:]` (`Evaluate` in `src/acl/path.cpp`, `Right` in
`src/cfg/setting.cpp`). The names are put into the text of a wildcard pattern. What a right is meant
to match is the pattern with all variables replaced at once by the names as literal text, and
nothing at all if it asks for the group of a user without one.

* `evaluate_exact_iff`: when the first right meant for the path is the one that decides.
* `taken_eq_meant`: names of word characters stand for themselves and the two readings agree, unless
  the user has no group, or his name is a part of the word `groupname`.
* `evaluate_stray`: for a user without a group `[:groupname:]` stays in the pattern, where it is a
  bracket expression and matches one character.
-/

namespace Ebftpd
namespace Acl
namespace Rights

open Path Util Lib.FirstMatch Lib.Replace Lib.Wildcard Cfg

def usernameVar : Str := "[:username:]".toList

def groupnameVar : Str := "[:groupname:]".toList

/-- `Right::Right`, the tokens being the path and the ACL. -/
def ofToks (path : Str) (toks : List Str) : Right where
  path := path
  acl := ACL.fromString (" ".toList.intercalate toks)
  specialVar := decide (usernameVar <:+: path) || decide (groupnameVar <:+: path)

/-- What `\w` stands for in the patterns that names must match. -/
def isWord (c : Char) : Bool := c.isAlphanum || c == '_'

/-- A name that `Validate` lets through. -/
def ValidName (name : Str) : Prop := name ≠ [] ∧ ∀ c ∈ name, isWord c = true

/-- The pattern that matches the name only: any character that could be special is escaped. -/
def literalText (name : Str) : Str := name.flatMap fun c => if isWord c then [c] else ['\\', c]

variable (env : Env) (path : Str)

def admits (right : Right) : Bool := (right.acl.evaluate env.info).1

/-- `Evaluate` takes the right to match. -/
def taken (right : Right) : Bool :=
  env.cfg.wildcardMatch (if right.specialVar then specialPath env right else right.path) path

/-- The pattern of a right with the names of the user for the variables. -/
def namedPath (mask : Str) : Str :=
  replaceVars [(usernameVar, literalText env.user.name),
    (groupnameVar, literalText (env.user.primaryGroup env.gidToName))] mask

/-- The right is meant for the path: with the user's own names it matches, and it does not ask for a
group the user has not. -/
def meant (right : Right) : Bool :=
  (!decide (groupnameVar <:+: right.path) || env.user.primaryGid != -1) &&
    env.cfg.wildcardMatch (namedPath env right.path) path

variable {env path}

theorem evaluate_eq (rights : List Right) :
    evaluate env rights path = decision false (admits env) (taken env path) rights := by
  induction rights with
  | nil => rfl
  | cons right rights ih =>
    rw [evaluate, ih, decision, decision, List.find?_cons]
    change (if taken env path right = true then admits env right else _) = _
    cases taken env path right <;> rfl

/-- The first right meant for the path decides if and only if the first right that is meant for it or
taken for it is both, or the one that is not both gives the answer the other reading comes to. -/
theorem evaluate_exact_iff (env : Env) (rights : List Right) (path : Str) :
    (evaluate env rights path = true ↔
        ∃ right, rights.find? (meant env path) = some right ∧ admits env right = true) ↔
      ∀ right, rights.find? (anyOf [taken env path, meant env path]) = some right →
        ∀ reading ∈ [taken env path, meant env path], reading right = false →
          (∀ next, rights.find? reading = some next → admits env next = admits env right) ∧
            (rights.find? reading = none → false = admits env right) := by
  rw [← decision_agree_iff]
  have hmeant : (∃ right, rights.find? (meant env path) = some right ∧ admits env right = true) ↔
      decision false (admits env) (meant env path) rights = true := by
    cases h : rights.find? (meant env path) with
    | none => simp [decision_of_none h]
    | some right => simp [decision_of_find h]
  rw [hmeant, evaluate_eq, ← Bool.eq_iff_iff]
  simp only [List.forall_mem_cons, List.not_mem_nil, false_imp_iff, implies_true, and_true, true_and]
  exact ⟨fun h => ⟨h, h.symm⟩, fun h => h.1⟩

/-- A user without a group, and a right for the directories of the user's group: it is taken for a
directory whose name is one of the letters of `:groupname`. -/
def exampleEnv : Env where
  cfg :=
    { sitepath := "/site".toList
      tlsControl := ACL.fromString "!*".toList
      maxOnline := ⟨10, 0⟩
      wildcardMatch := fun mask text => wildcardMatch mask text false }
  user := { id := 1, name := "alice".toList, flags := "3".toList }
  gidToName := fun _ => "NoGroup".toList

theorem evaluate_stray :
    let rights := [ofToks "/[:groupname:]/*".toList ["*".toList]]
    evaluate exampleEnv rights "/g/file".toList = true ∧
      ¬ ∃ right, rights.find? (meant exampleEnv "/g/file".toList) = some right ∧
        admits exampleEnv right = true := by
  intro rights
  have hfind : rights.find? (meant exampleEnv "/g/file".toList) = none := by decide
  refine ⟨by decide, ?_⟩
  rintro ⟨right, hright, -⟩
  rw [hfind] at hright
  cases hright

/-! ## Names of word characters -/

theorem literalText_valid {name : Str} (h : ValidName name) : literalText name = name := by
  obtain ⟨-, hword⟩ := h
  induction name with
  | nil => rfl
  | cons c name ih =>
    have hc := hword c (by simp)
    have hrest := ih fun d hd => hword d (by simp [hd])
    rw [literalText, List.flatMap_cons, ← literalText, hrest, if_pos hc]
    rfl

theorem tokens_word {c : Char} (hc : isWord c = true) (caseFold : Bool) (n : Nat) (s : Str) :
    tokens caseFold (n + 1) (c :: s) = literal caseFold c :: tokens caseFold n s := by
  have hspecial : c ≠ '*' ∧ c ≠ '?' ∧ c ≠ '\\' ∧ c ≠ '[' := by
    refine ⟨?_, ?_, ?_, ?_⟩ <;> rintro rfl <;> exact absurd hc (by decide)
  obtain ⟨hstar, hquestion, hescape, hbracket⟩ := hspecial
  rw [tokens]
  · exact hstar
  · exact hquestion
  · exact fun h _ => hescape h
  · exact fun _ _ h _ => hescape h
  · exact hbracket

/-- Escaped, a name in front of a pattern stands for itself. -/
theorem tokens_literalText (caseFold : Bool) (name rest : Str) :
    tokens caseFold (literalText name ++ rest).length (literalText name ++ rest) =
      name.map (literal caseFold) ++ tokens caseFold rest.length rest := by
  induction name with
  | nil => rfl
  | cons c name ih =>
    rw [literalText, List.flatMap_cons, ← literalText, List.map_cons, List.cons_append, ← ih]
    by_cases hc : isWord c = true
    · rw [if_pos hc]
      exact tokens_word hc caseFold _ _
    · rw [if_neg hc]
      change literal caseFold c :: tokens caseFold (_ + 1) _ = _
      rw [tokens_fuel _ _ _ (Nat.le_succ _)]
      rfl

theorem replaceAll_eq (input search fmt : Str) :
    replaceAll input search fmt = replaceVars [(search, fmt)] input := by
  have hloop : ∀ skip, replaceAllLoop search fmt skip input = replaceVarsLoop [(search, fmt)] skip input := by
    induction input with
    | nil => intro skip; cases skip <;> rfl
    | cons c cs ih =>
      intro skip
      cases skip with
      | succ skip => exact ih skip
      | zero =>
        rw [replaceAllLoop, replaceVarsLoop, pick, List.find?_cons]
        cases hpre : search.isPrefixOf (c :: cs) with
        | true => simp only [if_true, ih]
        | false => 
          simp only [Bool.false_eq_true, if_false, ih]
          rfl
  exact hloop 0

/-- A user with a group: the two replacements of the code are one, unless the name of the user is a
part of the other variable. -/
theorem specialPath_grouped {right : Right} (hname : ValidName env.user.name)
    (hgroup : ValidName (env.user.primaryGroup env.gidToName)) (hgid : env.user.primaryGid ≠ -1)
    (hpart : ¬ env.user.name <:+: ":groupname:]".toList) :
    specialPath env right = namedPath env right.path := by
  have hword : ∀ c ∈ ['[', ']'], c ∉ env.user.name := by
    intro c hc hmem
    have hc' := hname.2 c hmem
    simp only [List.mem_cons, List.not_mem_nil, or_false] at hc
    rcases hc with rfl | rfl <;> exact absurd hc' (by decide)
  have hempty : (env.user.primaryGroup env.gidToName).isEmpty = false :=
    List.isEmpty_eq_false_iff.mpr hgroup.1
  simp only [specialPath, if_pos hgid, hempty, Bool.false_eq_true, if_false, replaceAll_eq, namedPath,
    literalText_valid hname, literalText_valid hgroup]
  exact two_passes (o := '[') (z := ']') (b := ":groupname:".toList) rfl rfl (by decide)
    (hword _ (by simp)) (hword _ (by simp)) hpart _

/-- A right that does not ask for the group: the code replaces the other variable only. -/
theorem replaceVars_username {mask : Str} (h : ¬ groupnameVar <:+: mask) (name group : Str) :
    replaceVars [(usernameVar, name), (groupnameVar, group)] mask = replaceVars [(usernameVar, name)] mask := by
  refine replaceVars_congr fun t ht => ?_
  have hno : groupnameVar.isPrefixOf t = false := by
    rw [Bool.eq_false_iff, ne_eq, List.isPrefixOf_iff_prefix]
    exact fun hpre => h (hpre.isInfix.trans ht.isInfix)
  simp [pick, List.find?_cons, hno]

theorem specialPath_username {right : Right} (hname : ValidName env.user.name)
    (hgid : env.user.primaryGid = -1) (h : ¬ groupnameVar <:+: right.path) :
    specialPath env right = namedPath env right.path := by
  simp only [specialPath, hgid, ne_eq, not_true_eq_false, if_false, List.isEmpty_nil, if_true,
    replaceAll_eq, namedPath, replaceVars_username h, literalText_valid hname]
  rfl

theorem taken_eq_meant {mask : Str} {toks : List Str} (hname : ValidName env.user.name)
    (hgroup : env.user.primaryGid ≠ -1 → ValidName (env.user.primaryGroup env.gidToName))
    (hpart : ¬ env.user.name <:+: ":groupname:]".toList)
    (hasked : groupnameVar <:+: mask → env.user.primaryGid ≠ -1) :
    taken env path (ofToks mask toks) = meant env path (ofToks mask toks) := by
  have hspecial : specialPath env (ofToks mask toks) = namedPath env mask := by
    by_cases hgid : env.user.primaryGid = -1
    · exact specialPath_username hname hgid fun h => hasked h hgid
    · exact specialPath_grouped hname (hgroup hgid) hgid hpart
  have hpath : (if (ofToks mask toks).specialVar then specialPath env (ofToks mask toks)
      else (ofToks mask toks).path) = namedPath env mask := by
    split
    · exact hspecial
    · rename_i hno
      simp only [ofToks, Bool.or_eq_true, decide_eq_true_eq, not_or] at hno
      exact (replaceVars_self (s := mask) (by simpa using hno)).symm
  have hmeant : (!decide (groupnameVar <:+: mask) || env.user.primaryGid != -1) = true := by
    by_cases hasks : groupnameVar <:+: mask
    · simp [hasked hasks]
    · simp [hasks]
  rw [taken, meant, hpath]
  change _ = ((!decide (groupnameVar <:+: mask) || env.user.primaryGid != -1) && _)
  rw [hmeant, Bool.true_and]
  rfl

/-- With a group, the rights of the configuration decide as they are meant. -/
theorem evaluate_grouped {entries : List (Str × List Str)} (hname : ValidName env.user.name)
    (hgid : env.user.primaryGid ≠ -1) (hgroup : ValidName (env.user.primaryGroup env.gidToName))
    (hpart : ¬ env.user.name <:+: ":groupname:]".toList) :
    evaluate env (entries.map fun entry => ofToks entry.1 entry.2) path =
      decision false (admits env) (meant env path) (entries.map fun entry => ofToks entry.1 entry.2) := by
  rw [evaluate_eq]
  refine decision_congr fun right hright => ?_
  obtain ⟨entry, -, rfl⟩ := List.mem_map.mp hright
  exact taken_eq_meant hname (fun _ => hgroup) hpart fun _ => hgid

end Rights
end Acl
end Ebftpd
