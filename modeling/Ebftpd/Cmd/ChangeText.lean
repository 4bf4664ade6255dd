import Ebftpd.Cmd.Change
import Ebftpd.Cmd.SiteDispatch
import Ebftpd.Cmd.SiteUser

/-!
# Ebftpd.Cmd.ChangeText

The settings of `SITE CHANGE` and the arguments they are read from (`CHANGECommand::Check` and what it
calls, `src/cmd/site/change.cpp`). The command gets its line twice, as text and as a list of arguments.
Four settings want the text behind the name of the setting; they cut off the lengths of two arguments and
two spaces, where the arguments are without their braces.

Dates are a parameter (`boost::gregorian::from_simple_string`), and so is `fs::PathFromUser`.

* `check_beyond_iff`: the one setting that reads an argument that may not be there.
* `changeText_iff`: the lines whose settings get the text that was typed.
-/

namespace Ebftpd
namespace Cmd
namespace ChangeText

open Util Acl Db SiteUser
open SiteAlias (splitArgs Follows)
open SiteDispatch (FirstToken trimRight_trimCopy)

/-! ## The checks -/

inductive Exit where
  -- `args[i]` with no such argument
  | beyond (i : Nat)
  -- `std::out_of_range`
  | outOfRange
  | thrown (e : Exn)
  | reply (r : Reply)

/-- What a check returns: how the value reads, and the function that sets it or says why it does not. -/
structure Setting where
  display : Str
  set : Database → User → Except Str User

/-- What a check reads. -/
structure Request where
  site : Site
  isMaster : Bool
  db : Database
  pathFromUser : Str → Except Exn Str
  fromSimpleString : Str → Option Int
  argStr : Str
  args : List Str

abbrev Check := Request → Except Exit Setting

def Request.arg (r : Request) (i : Nat) : Except Exit Str :=
  match r.args[i]? with
  | some arg => .ok arg
  | none => .error (.beyond i)

def Setting.always (display : Str) (set : User → User) : Setting where
  display := display
  set _ user := .ok (set user)

/-- A setting of `SiteUser`. -/
def Setting.ofChange : Except Reply Change → Except Exit Setting
  | .error reply => .error (.reply reply)
  | .ok c => .ok ⟨c.display, fun db user => (c.set db user).map fun field => field.set user⟩

def checkRatio : Check := fun r => do
  let value ← r.arg 3
  Setting.ofChange (SiteUser.checkRatio r.site value r.db)

def noSection (sec : Str) : Exit := .reply (.notOkay ("Section ".toList ++ sec ++ " doesn't exist.".toList))

def hasSection (site : Site) (sec : Str) : Bool := site.cfg.sections.any fun s => s.name == sec

def checkSectionRatio : Check := fun r => do
  if r.args.length < 4 then .error (.reply .syntaxError)
  else
    let sec := toUpperCopy (← r.arg 3)
    if !hasSection r.site sec then .error (noSection sec)
    else
      match Util.strToInt (← r.arg 4) with
      | none => .error (.reply .syntaxError)
      | some ratio =>
        if ratio < 0 then .error (.reply .syntaxError)
        else if ratio > r.site.maximumRatio then
          .error (.reply (.notOkay ("Ratio must be no larger than ".toList ++
            (toString r.site.maximumRatio).toList ++ ".".toList)))
        else
          let text := if ratio = 0 then "Unlimited".toList else "1:".toList ++ (toString ratio).toList
          .ok (.always (sec ++ "(".toList ++ text ++ ")".toList) (·.setSectionRatio sec ratio))

def checkWeeklyAllotment : Check := fun r => do
  let value ← r.arg 3
  Setting.ofChange (SiteUser.checkWeeklyAllotment r.site value (r.args.drop 4))

/-- The text behind the setting: `argStr` without the lengths of two arguments and two spaces. -/
def Request.cut (r : Request) : Except Exit Str := do
  let user ← r.arg 1
  let setting ← r.arg 2
  let start := user.length + setting.length + 2
  if r.argStr.length < start then .error .outOfRange else .ok (r.argStr.drop start)

/-- What the four settings that want the text make of it. -/
inductive TextSetting where
  | homedir | startupdir | tagline | comment

def TextSetting.name : TextSetting → Str
  | .homedir => "homedir".toList
  | .startupdir => "startupdir".toList
  | .tagline => "tagline".toList
  | .comment => "comment".toList

/-- `boost::regex("[^{}]+")`. -/
def validTagline (s : Str) : Bool := !s.isEmpty && s.all fun c => c ≠ '{' && c ≠ '}'

def onPath (r : Request) (set : Str → User → User) (text : Str) : Except Exit Setting :=
  match r.pathFromUser text with
  | .ok path => .ok (.always path (set path))
  | .error e => .error (.thrown e)

def TextSetting.onText (r : Request) (text : Str) : TextSetting → Except Exit Setting
  | .homedir => onPath r (fun path user => { user with homeDir := path }) text
  | .startupdir => onPath r (fun path user => { user with startUpDir := path }) text
  | .tagline =>
    if !validTagline text then .error (.reply (.notOkay "Tagline contains invalid characters.".toList))
    else .ok (.always text (·.setTagline text))
  | .comment => .ok (.always text fun user => { user with comment := text })

/-- `CheckHomeDir`, `CheckStartUpDir`, `CheckTagline` and `CheckComment`. -/
def TextSetting.check (t : TextSetting) : Check := fun r => do
  let text ← r.cut
  t.onText r text

def checkHomeDir : Check := TextSetting.homedir.check

def checkStartUpDir : Check := TextSetting.startupdir.check

def checkTagline : Check := TextSetting.tagline.check

def checkComment : Check := TextSetting.comment.check

def checkFlags : Check := fun r => do
  let value ← r.arg 3
  match Change.checkFlags value with
  | .error .outOfRange => .error .outOfRange
  | .error .syntaxError => .error (.reply .syntaxError)
  | .error (.notOkay text) => .error (.reply (.notOkay text.toList))
  | .ok (action, flags) =>
    .ok ⟨value, fun _ user =>
      match Change.setFlags r.isMaster user action flags with
      | .ok user => .ok user
      | .error text => .error text.toList⟩

/-- A number from -1 on. -/
def checkNumber (display : Int → Str) (set : Int → User → User) : Check := fun r => do
  match Util.strToInt (← r.arg 3) with
  | none => .error (.reply .syntaxError)
  | some n => if n < -1 then .error (.reply .syntaxError) else .ok (.always (display n) (set n))

def checkIdleTime : Check :=
  checkNumber
    (fun n =>
      if n = -1 then "Unset".toList
      else if n = 0 then "Unlimited".toList
      else (toString n).toList ++ " seconds".toList)
    fun n user => { user with idleTime := n }

def checkNumLogins : Check :=
  checkNumber (fun n => if n = -1 then "Unlimited".toList else (toString n).toList)
    fun n user => { user with numLogins := n }

def simultaneous (n : Int) : Str :=
  if n = 0 then "Disabled".toList else if n = -1 then "Unlimited".toList else (toString n).toList

def checkMaxSimUp : Check := checkNumber simultaneous fun n user => { user with maxSimUp := n }

def checkMaxSimDown : Check := checkNumber simultaneous fun n user => { user with maxSimDown := n }

def checkSpeed (set : Int → User → User) : Check := fun r => do
  match Cfg.parseSize (← r.arg 3) with
  | none => .error (.reply .syntaxError)
  | some speed =>
    .ok (.always (if speed = 0 then "Unlimited".toList else (toString speed).toList ++ "KB/s".toList) (set speed))

def checkMaxUpSpeed : Check := checkSpeed fun n user => { user with maxUpSpeed := n }

def checkMaxDownSpeed : Check := checkSpeed fun n user => { user with maxDownSpeed := n }

def checkExpires : Check := fun r => do
  let value := toLowerCopy (← r.arg 3)
  if value = "never".toList then .ok (.always value fun user => { user with expires := none })
  else
    let value := value.map fun c => if c = '/' then '-' else c
    match r.fromSimpleString value with
    | none => .error (.reply (.notOkay "Date must be in format YYYY/MM/DD or YYYY-MM-DD.".toList))
    | some date => .ok (.always value fun user => { user with expires := some date })

/-- The functions of the table of settings, by name. -/
def checks : List (Str × Check) :=
  [("ratio".toList, checkRatio), ("sratio".toList, checkSectionRatio),
    ("wkly_allotment".toList, checkWeeklyAllotment), ("homedir".toList, checkHomeDir),
    ("startupdir".toList, checkStartUpDir), ("flags".toList, checkFlags), ("idle_time".toList, checkIdleTime),
    ("expires".toList, checkExpires), ("num_logins".toList, checkNumLogins), ("tagline".toList, checkTagline),
    ("comment".toList, checkComment), ("max_up_speed".toList, checkMaxUpSpeed),
    ("max_down_speed".toList, checkMaxDownSpeed), ("max_sim_up".toList, checkMaxSimUp),
    ("max_sim_down".toList, checkMaxSimDown)]

/-- What `CHANGECommand::Check` asks before it calls the function of a setting. -/
def clearance (r : Request) (setting : Str) : Except Exit Unit :=
  match settings.find? fun d => d.name == setting with
  | none => .error (.reply .syntaxError)
  | some d =>
    if !r.site.allow d.aclKeyword then .error (.reply .permissionError)
    else if d.maximumArgs.any fun n => n + 3 < r.args.length then .error (.reply .syntaxError)
    else .ok ()

/-- The function of a setting. -/
def call (setting : Str) : Check := fun r =>
  match checks.find? fun entry => entry.1 == setting with
  | some entry => entry.2 r
  | none => .error (.reply .syntaxError)

/-- `CHANGECommand::Check`. -/
def check : Check := fun r => do
  let setting := toLowerCopy (← r.arg 2)
  clearance r setting
  call setting r

/-! ## Arguments -/

def Safe (e : Except Exit Setting) : Prop := ∀ i, e ≠ .error (.beyond i)

theorem Request.arg_ok {r : Request} {i : Nat} {arg : Str} (h : r.args[i]? = some arg) : r.arg i = .ok arg := by
  rw [Request.arg, h]

theorem safe_ok (setting : Setting) : Safe (.ok setting) := fun _ h => nomatch h

theorem safe_reply (reply : Reply) : Safe (.error (.reply reply)) := fun _ h => nomatch h

theorem ofChange_safe (c : Except Reply Change) : Safe (Setting.ofChange c) := by
  cases c with
  | error reply => exact safe_reply reply
  | ok c => exact safe_ok _

section Arguments

variable {r : Request} {value : Str} (h3 : r.args[3]? = some value)

include h3

theorem checkRatio_safe : Safe (checkRatio r) := by
  simp only [checkRatio, Request.arg_ok h3]
  exact ofChange_safe _

theorem checkWeeklyAllotment_safe : Safe (checkWeeklyAllotment r) := by
  simp only [checkWeeklyAllotment, Request.arg_ok h3]
  exact ofChange_safe _

theorem checkFlags_safe : Safe (checkFlags r) := by
  simp only [checkFlags, Request.arg_ok h3, bind, Except.bind]
  intro i
  split <;> simp

theorem checkNumber_safe (display : Int → Str) (set : Int → User → User) : Safe (checkNumber display set r) := by
  simp only [checkNumber, Request.arg_ok h3, bind, Except.bind]
  split
  · exact safe_reply _
  · split
    · exact safe_reply _
    · exact safe_ok _

theorem checkSpeed_safe (set : Int → User → User) : Safe (checkSpeed set r) := by
  simp only [checkSpeed, Request.arg_ok h3, bind, Except.bind]
  split
  · exact safe_reply _
  · exact safe_ok _

theorem checkExpires_safe : Safe (checkExpires r) := by
  simp only [checkExpires, Request.arg_ok h3, bind, Except.bind]
  split
  · exact safe_ok _
  · split
    · exact safe_reply _
    · exact safe_ok _

end Arguments

theorem onText_safe (r : Request) (text : Str) (t : TextSetting) : Safe (t.onText r text) := by
  have hpath : ∀ set, Safe (onPath r set text) := by
    intro set i
    unfold onPath
    split <;> simp
  cases t with
  | homedir => exact hpath _
  | startupdir => exact hpath _
  | tagline =>
    by_cases hvalid : validTagline text = true
    · simp only [TextSetting.onText, hvalid, Bool.not_true, Bool.false_eq_true, if_false]
      exact safe_ok _
    · simp only [TextSetting.onText, Bool.eq_false_iff.mpr hvalid, Bool.not_false, if_true]
      exact safe_reply _
  | comment => exact safe_ok _

/-- A section's ratio without the ratio: the argument is read if there is such a section. -/
theorem checkSectionRatio_safe {r : Request} {value : Str} (h3 : r.args[3]? = some value) :
    Safe (checkSectionRatio r) ↔ (r.args[4]? = none → hasSection r.site (toUpperCopy value) = false) := by
  have hlength : ¬ r.args.length < 4 := by
    obtain ⟨hlt, -⟩ := List.getElem?_eq_some_iff.mp h3
    omega
  simp only [checkSectionRatio, Request.arg_ok h3, bind, Except.bind, if_neg hlength]
  by_cases hsec : hasSection r.site (toUpperCopy value) = true
  · simp only [hsec, Bool.not_true, Bool.false_eq_true, if_false, Bool.true_eq_false, imp_false]
    cases h4 : r.args[4]? with
    | none =>
      have hbeyond : r.arg 4 = .error (.beyond 4) := by rw [Request.arg, h4]
      rw [hbeyond]
      exact iff_of_false (fun h => h 4 rfl) fun h => h rfl
    | some ratio =>
      rw [Request.arg_ok h4]
      refine iff_of_true ?_ (Option.some_ne_none ratio)
      simp only
      split
      · exact safe_reply _
      · split
        · exact safe_reply _
        · split
          · exact safe_reply _
          · exact safe_ok _
  · rw [Bool.not_eq_true] at hsec
    simp only [hsec, Bool.not_false, if_true]
    exact iff_of_true (safe_reply _) fun _ => trivial

/-- The other settings read no argument behind the value. -/
theorem checks_safe {r : Request} {value : Str} (h3 : r.args[3]? = some value)
    (htext : ∀ t : TextSetting, Safe (t.check r)) :
    ∀ entry ∈ checks, entry.1 ≠ "sratio".toList → Safe (entry.2 r) := by
  intro entry hentry hne
  simp only [checks, List.mem_cons, List.not_mem_nil, or_false] at hentry
  rcases hentry with rfl | rfl | rfl | rfl | rfl | rfl | rfl | rfl | rfl | rfl | rfl | rfl | rfl | rfl | rfl
  · exact checkRatio_safe h3
  · exact absurd rfl hne
  · exact checkWeeklyAllotment_safe h3
  · exact htext _
  · exact htext _
  · exact checkFlags_safe h3
  · exact checkNumber_safe h3 _ _
  · exact checkExpires_safe h3
  · exact checkNumber_safe h3 _ _
  · exact htext _
  · exact htext _
  · exact checkSpeed_safe h3 _
  · exact checkSpeed_safe h3 _
  · exact checkNumber_safe h3 _ _
  · exact checkNumber_safe h3 _ _

/-! ## The line -/

/-- A command as it is typed: the text behind its name, and the arguments in it. -/
def Request.typed (r : Request) (line : Str) : Request :=
  { r with argStr := trimCopy line, args := "CHANGE".toList :: splitArgs (trimCopy line) }

/-- The command gets these from `SITECommand::Execute`. -/
theorem parse_change (line : Str) : SiteDispatch.parse (SiteAlias.siteLine "change".toList line) =
    .ok ⟨"CHANGE".toList, trimCopy line, splitArgs (trimCopy line)⟩ := by
  have hword : SiteAlias.Word "change".toList := SiteAlias.word_of_all (by decide) (by decide) (by decide)
  have hline : SiteAlias.siteLine "change".toList line = "change".toList ++ trimRightCopy (' ' :: line) := by
    simpa using @SiteAlias.siteLine_eq _ [] line hword
  have hfirst : FirstToken ("change".toList ++ trimRightCopy (' ' :: line)) (trimCopy "change".toList)
      (trimRightCopy (' ' :: line)) :=
    .word (by decide) ⟨'c', "hange".toList, rfl, by decide, by decide⟩
      (SiteAlias.follows_trimRight (.inr ⟨line, rfl⟩))
  have htrim : trimCopy (' ' :: line) = trimCopy line := by
    rw [← List.singleton_append, SiteAlias.trimCopy_blank (by simp [isSpace])]
  have hcut := hfirst.argStr_iff.mpr (by simp)
  rw [hline, hfirst.parse, hcut, SiteAlias.trimCopy_trimRight, SiteAlias.splitArgs_trimRight, htrim]
  rfl

/-- The user, the setting, and the text behind it. -/
structure Behind (text user setting value : Str) : Prop where
  tokens : ∃ rest rest', FirstToken text user rest ∧ FirstToken (trimCopy rest) setting rest' ∧
    value = trimCopy rest'

section Line

variable {line user setting value : Str} (h : Behind (trimCopy line) user setting value)

include h

theorem Behind.args : splitArgs (trimCopy line) = user :: setting :: splitArgs value := by
  obtain ⟨rest, rest', huser, hsetting, rfl⟩ := h.tokens
  rw [huser.args (trimRight_trimCopy line), hsetting.args (trimRight_trimCopy rest)]

omit h in
theorem Behind.unique {user' setting' value' : Str} (h : Behind (trimCopy line) user setting value)
    (h' : Behind (trimCopy line) user' setting' value') : user' = user ∧ setting' = setting ∧ value' = value := by
  have hargs := h'.args.symm.trans h.args
  obtain ⟨rest, rest₂, huser, hsetting, rfl⟩ := h.tokens
  obtain ⟨rest', rest₂', huser', hsetting', rfl⟩ := h'.tokens
  have hrest : rest' = rest := huser'.rest_eq.trans huser.rest_eq.symm
  rw [hrest] at hsetting'
  have hrest₂ : rest₂' = rest₂ := hsetting'.rest_eq.trans hsetting.rest_eq.symm
  exact ⟨(List.cons.inj hargs).1, (List.cons.inj (List.cons.inj hargs).2).1, by rw [hrest₂]⟩

/-- What is cut off behind the user and the setting ends in the value. -/
theorem Behind.cut (hvalue : value ≠ []) :
    user.length + setting.length + 2 ≤ (trimCopy line).length ∧
    ∃ extra, (trimCopy line).drop (user.length + setting.length + 2) = extra ++ value ∧
      (extra = [] ↔ trimCopy line = user ++ ' ' :: (setting ++ ' ' :: value)) := by
  obtain ⟨rest, rest', huser, hsetting, rfl⟩ := h.tokens
  have hrest : trimCopy rest ≠ [] := by
    intro hnil
    have hargs := hsetting.args (trimRight_trimCopy rest)
    rw [hnil] at hargs
    cases hargs
  obtain ⟨front, hfront, hle, heq⟩ := huser.gap (trimRight_trimCopy line) hrest
  obtain ⟨front', hfront', hle', heq'⟩ := hsetting.gap (trimRight_trimCopy rest) hvalue
  rw [hfront'] at hfront
  rw [hfront]
  have hdrop : user.length + setting.length + 2 ≤ (front ++ front').length := by
    rw [List.length_append]
    omega
  refine ⟨by rw [← List.append_assoc, List.length_append]; omega,
    (front ++ front').drop (user.length + setting.length + 2), ?_, ?_⟩
  · rw [← List.append_assoc, List.drop_append_of_le_length hdrop]
  · rw [List.drop_eq_nil_iff, List.length_append]
    constructor
    · intro hall
      rw [heq (by omega), heq' (by omega)]
      simp
    · intro hplain
      have hlength := congrArg List.length hplain
      simp only [List.length_append, List.length_cons] at hlength
      omega

end Line

theorem exists_behind {line : Str} (hargs : 3 ≤ (splitArgs (trimCopy line)).length) :
    ∃ user setting value, Behind (trimCopy line) user setting value ∧ splitArgs value ≠ [] := by
  obtain ⟨user, rest, huser⟩ := @SiteDispatch.firstToken_of_args line
    (List.ne_nil_of_length_pos (by omega))
  have hrest := huser.args (trimRight_trimCopy line)
  rw [hrest, List.length_cons] at hargs
  obtain ⟨setting, rest', hsetting⟩ := @SiteDispatch.firstToken_of_args rest
    (List.ne_nil_of_length_pos (by omega))
  rw [hsetting.args (trimRight_trimCopy rest), List.length_cons] at hargs
  exact ⟨user, setting, trimCopy rest', ⟨⟨rest, rest', huser, hsetting, rfl⟩⟩, List.ne_nil_of_length_pos (by omega)⟩

/-! ## The text that was typed -/

def Request.resolving (r : Request) (pathFromUser : Str → Except Exn Str) : Request :=
  { r with pathFromUser := pathFromUser }

/-- No argument is used that is not there; and a setting that wants the text behind its name gets it, whatever
`PathFromUser` makes of a text. -/
structure Faithful (r : Request) (line : Str) : Prop where
  indexed : Safe (check (r.typed line))
  text : ∀ (t : TextSetting) user setting value, Behind (trimCopy line) user setting value →
    toLowerCopy setting = t.name → clearance (r.typed line) t.name = .ok () →
    ∀ pathFromUser, check ((r.resolving pathFromUser).typed line) = t.onText (r.resolving pathFromUser) value

/-- The section's ratio comes with a ratio, if the section exists. The others stand behind the user, a space, the
setting and a space, without braces; a tagline that is refused may stand anywhere. -/
structure Plain (r : Request) (line : Str) : Prop where
  section_ratio : ∀ user setting value, Behind (trimCopy line) user setting value →
    toLowerCopy setting = "sratio".toList → clearance (r.typed line) "sratio".toList = .ok () →
    ∀ arg, splitArgs value = [arg] → hasSection r.site (toUpperCopy arg) = false
  text : ∀ (t : TextSetting) user setting value, Behind (trimCopy line) user setting value →
    toLowerCopy setting = t.name → clearance (r.typed line) t.name = .ok () →
    trimCopy line = user ++ ' ' :: (setting ++ ' ' :: value) ∨ t = .tagline ∧ validTagline value = false

theorem onText_typed (r : Request) (line text : Str) (t : TextSetting) :
    t.onText (r.typed line) text = t.onText r text := by
  cases t <;> rfl

theorem validTagline_append (extra : Str) {value : Str} (hvalue : value ≠ []) (h : validTagline value = false) :
    validTagline (extra ++ value) = false := by
  have hempty : value.isEmpty = false := by simpa using hvalue
  simp only [validTagline, hempty, Bool.not_false, Bool.true_and] at h
  rw [validTagline, List.all_append, h, Bool.and_false, Bool.and_false]

/-- Only a tagline that is refused can have something in front without a difference. -/
theorem onText_iff (r : Request) (t : TextSetting) (extra : Str) {value : Str} (hvalue : value ≠ []) :
    (∀ pathFromUser, t.onText (r.resolving pathFromUser) (extra ++ value) =
      t.onText (r.resolving pathFromUser) value) ↔ extra = [] ∨ t = .tagline ∧ validTagline value = false := by
  constructor
  · intro h
    have hok := h .ok
    have hdisplay : ∀ {set set' : User → User}, (.ok (.always (extra ++ value) set) : Except Exit Setting) =
        .ok (.always value set') → extra = [] := fun h =>
      List.append_left_eq_self.mp (congrArg Setting.display (Except.ok.inj h))
    cases t with
    | homedir => exact .inl (hdisplay hok)
    | startupdir => exact .inl (hdisplay hok)
    | comment => exact .inl (hdisplay hok)
    | tagline =>
      by_cases hvalid : validTagline value = true
      · left
        simp only [TextSetting.onText, hvalid, Bool.not_true, Bool.false_eq_true, if_false] at hok
        split at hok
        · cases hok
        · exact hdisplay hok
      · exact .inr ⟨rfl, Bool.eq_false_iff.mpr hvalid⟩
  · rintro (rfl | ⟨rfl, hvalid⟩) pathFromUser
    · rfl
    · simp only [TextSetting.onText, hvalid, validTagline_append extra hvalue hvalid, Bool.not_false, if_true]

theorem call_text (t : TextSetting) (r : Request) : call t.name r = t.check r := by
  cases t <;> rfl

theorem clearance_error {r : Request} {setting : Str} {e : Exit} (h : clearance r setting = .error e) :
    ∃ reply, e = .reply reply := by
  unfold clearance at h
  split at h
  · cases h
    exact ⟨_, rfl⟩
  · split at h
    · cases h
      exact ⟨_, rfl⟩
    · split at h
      · cases h
        exact ⟨_, rfl⟩
      · cases h

section Typed

variable {r : Request} {line user setting value : Str} (h : Behind (trimCopy line) user setting value)

include h

theorem check_typed : check (r.typed line) =
    (clearance (r.typed line) (toLowerCopy setting) >>= fun _ => call (toLowerCopy setting) (r.typed line)) := by
  have h2 : (r.typed line).args[2]? = some setting := by
    rw [Request.typed, h.args]
    rfl
  rw [check, Request.arg_ok h2]
  rfl

/-- The settings that want the text get the value, and in front of it what the arguments were longer on the line. -/
theorem textCheck_typed (hvalue : value ≠ []) :
    ∃ extra, (extra = [] ↔ trimCopy line = user ++ ' ' :: (setting ++ ' ' :: value)) ∧
      ∀ (t : TextSetting) (r : Request), t.check (r.typed line) = t.onText r (extra ++ value) := by
  obtain ⟨hle, extra, hdrop, hplain⟩ := h.cut hvalue
  refine ⟨extra, hplain, fun t r => ?_⟩
  have h1 : (r.typed line).args[1]? = some user := by
    rw [Request.typed, h.args]
    rfl
  have h2 : (r.typed line).args[2]? = some setting := by
    rw [Request.typed, h.args]
    rfl
  have hcut : (r.typed line).cut = .ok (extra ++ value) := by
    rw [Request.cut, Request.arg_ok h1, Request.arg_ok h2, ← hdrop]
    exact if_neg hle.not_gt
  rw [TextSetting.check, hcut, ← onText_typed r line]
  rfl

theorem check_cleared (hcleared : clearance (r.typed line) (toLowerCopy setting) = .ok ()) :
    check (r.typed line) = call (toLowerCopy setting) (r.typed line) := by
  rw [check_typed h, hcleared]
  rfl

theorem check_safe (hvalue : splitArgs value ≠ []) :
    Safe (check (r.typed line)) ↔
      (toLowerCopy setting = "sratio".toList → clearance (r.typed line) "sratio".toList = .ok () →
        ∀ arg, splitArgs value = [arg] → hasSection r.site (toUpperCopy arg) = false) := by
  obtain ⟨arg, more, hargs⟩ := List.exists_cons_of_ne_nil hvalue
  have htyped : (r.typed line).args = "CHANGE".toList :: user :: setting :: arg :: more := by
    rw [Request.typed, h.args, hargs]
  have h3 : (r.typed line).args[3]? = some arg := by rw [htyped]; rfl
  cases hcleared : clearance (r.typed line) (toLowerCopy setting) with
  | error e =>
    have hsafe : Safe (check (r.typed line)) := by
      obtain ⟨reply, rfl⟩ := clearance_error hcleared
      rw [check_typed h, hcleared]
      exact safe_reply reply
    refine iff_of_true hsafe fun hsetting hok => ?_
    rw [hsetting, hok] at hcleared
    cases hcleared
  | ok _ =>
    rw [check_cleared h hcleared]
    by_cases hsetting : toLowerCopy setting = "sratio".toList
    · have hcall : call "sratio".toList (r.typed line) = checkSectionRatio (r.typed line) := rfl
      have h4 : (r.typed line).args[4]? = none ↔ more = [] := by
        rw [htyped]
        simp
      rw [hsetting] at hcleared
      rw [hsetting, hcall, checkSectionRatio_safe h3, h4, hargs]
      constructor
      · intro hsec _ _ arg' harg
        cases harg
        exact hsec rfl
      · rintro hsec rfl
        exact hsec rfl hcleared arg rfl
    · refine iff_of_true ?_ fun h => absurd h hsetting
      have hne : value ≠ [] := by
        rintro rfl
        exact hvalue rfl
      obtain ⟨extra, -, htext⟩ := textCheck_typed h hne
      unfold call
      split
      · rename_i entry hentry
        refine checks_safe h3 (fun t => ?_) entry (List.mem_of_find?_eq_some hentry) fun hname => ?_
        · rw [htext t r]
          exact onText_safe r _ t
        · have hsome := List.find?_some hentry
          rw [hname] at hsome
          exact hsetting (beq_iff_eq.mp hsome).symm
      · exact safe_reply _

end Typed

/-- A command gets the text that was typed just if it stands where it is looked for, and the argument it reads. -/
theorem changeText_iff (r : Request) {line : Str} (hargs : 3 ≤ (splitArgs (trimCopy line)).length) :
    Faithful r line ↔ Plain r line := by
  have hmore : ∀ {user setting value}, Behind (trimCopy line) user setting value → splitArgs value ≠ [] := by
    intro user setting value h hnil
    rw [h.args, hnil] at hargs
    exact absurd hargs (by simp)
  have hne : ∀ {user setting value}, Behind (trimCopy line) user setting value → value ≠ [] := by
    rintro user setting value h rfl
    exact hmore h rfl
  have hcheck : ∀ {t : TextSetting} {user setting value : Str}, Behind (trimCopy line) user setting value →
      toLowerCopy setting = t.name → clearance (r.typed line) t.name = .ok () →
      ((∀ pathFromUser, check ((r.resolving pathFromUser).typed line) =
          t.onText (r.resolving pathFromUser) value) ↔
        trimCopy line = user ++ ' ' :: (setting ++ ' ' :: value) ∨ t = .tagline ∧ validTagline value = false) := by
    intro t user setting value h hsetting hcleared
    obtain ⟨extra, hplain, htext⟩ := textCheck_typed h (hne h)
    have hvalue : ∀ pathFromUser, check ((r.resolving pathFromUser).typed line) =
        t.onText (r.resolving pathFromUser) (extra ++ value) := by
      intro pathFromUser
      have hcleared' : clearance ((r.resolving pathFromUser).typed line) (toLowerCopy setting) = .ok () := by
        rw [hsetting]
        exact hcleared
      rw [check_cleared h hcleared', hsetting, call_text, htext]
    rw [← hplain, ← onText_iff r t extra (hne h)]
    exact forall_congr' fun pathFromUser => by rw [hvalue]
  constructor
  · intro hfaithful
    exact ⟨fun user setting value h => (check_safe h (hmore h)).mp hfaithful.indexed,
      fun t user setting value h hsetting hcleared =>
        (hcheck h hsetting hcleared).mp (hfaithful.text t user setting value h hsetting hcleared)⟩
  · intro hplain
    obtain ⟨user, setting, value, h, hsplit⟩ := exists_behind hargs
    exact ⟨(check_safe h hsplit).mpr (hplain.section_ratio user setting value h),
      fun t user setting value h hsetting hcleared =>
        (hcheck h hsetting hcleared).mpr (hplain.text t user setting value h hsetting hcleared)⟩

/-! ## A section and a tagline -/

def exampleOp : User := { id := 1, name := "alice".toList, flags := "1".toList }

def exampleDatabase : Database where
  users := { rows := [exampleOp], ids := by decide, names := by decide }
  groups := { rows := [{ id := 4, name := "ops".toList }], ids := by decide, names := by decide }
  uids := by decide
  gids := by decide

/-- Commands by a user who may change users, on a site with one section. -/
def exampleRequest : Request where
  site :=
    { cfg :=
        { sitepath := "/site".toList
          sections := [{ name := "MP3".toList }]
          commandACLs := [("change".toList, ACL.fromString "*".toList)]
          tlsControl := ACL.fromString "!*".toList
          maxOnline := ⟨10, 0⟩
          wildcardMatch := fun _ _ => false }
      user := exampleOp
      users := UserCache.populate exampleDatabase.users
      groups := GroupCache.populate exampleDatabase.groups
      bannedUsers := []
      totalUsers := -1
      maximumRatio := 10
      masters := []
      securePass := fun _ => none
      secureIP := fun _ => none
      ipMatch := fun mask text => mask == text
      hashPassword := fun password salt => password ++ salt
      rawSalt := "salt".toList
      kicked := fun _ => 0
      templateError := none
      otherSetting := fun _ _ => .error [] }
  isMaster := false
  db := exampleDatabase
  pathFromUser := .ok
  fromSimpleString := fun _ => none
  argStr := []
  args := []

theorem example_behind : Behind (trimCopy "bob tagline hi there".toList) "bob".toList "tagline".toList
    "hi there".toList where
  tokens := ⟨" tagline hi there".toList, " hi there".toList,
    .word (w := "bob".toList) (by decide) ⟨'b', "ob".toList, rfl, by decide, by decide⟩ (.inr ⟨_, rfl⟩),
    .word (w := "tagline".toList) (by decide) ⟨'t', "agline".toList, rfl, by decide, by decide⟩ (.inr ⟨_, rfl⟩),
    rfl⟩

/-- The letters of the setting's name that stand where the line is cut come with the text of a user in braces;
and the section's ratio is read where there is none. -/
theorem change_unfaithful : ¬ Faithful exampleRequest "{a b} tagline x".toList ∧
    ¬ Faithful exampleRequest "bob sratio mp3".toList := by
  refine ⟨fun h => ?_, fun h => h.indexed 4 rfl⟩
  have hbehind : Behind (trimCopy "{a b} tagline x".toList) "a b".toList "tagline".toList "x".toList :=
    ⟨" tagline x".toList, " x".toList, .braced (t := "a b".toList) (by decide) _,
      .word (w := "tagline".toList) (by decide) ⟨'t', "agline".toList, rfl, by decide, by decide⟩ (.inr ⟨_, rfl⟩), rfl⟩
  have htext := h.text .tagline _ _ _ hbehind (by decide) rfl .ok
  have hdisplay := congrArg (fun e => e.toOption.map Setting.display) htext
  revert hdisplay
  decide

/-- A user and a setting without braces, each with one space behind it. -/
theorem change_bob : 3 ≤ (splitArgs (trimCopy "bob tagline hi there".toList)).length ∧
    Faithful exampleRequest "bob tagline hi there".toList := by
  refine ⟨by decide, (changeText_iff exampleRequest (by decide)).mpr ⟨?_, ?_⟩⟩
  · intro user setting value h hsetting
    obtain ⟨-, rfl, -⟩ := example_behind.unique h
    cases hsetting
  · intro t user setting value h _ _
    obtain ⟨rfl, rfl, rfl⟩ := example_behind.unique h
    exact .inl rfl

end ChangeText
end Cmd
end Ebftpd
