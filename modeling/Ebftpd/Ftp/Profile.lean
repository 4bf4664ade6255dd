import Ebftpd.Ftp.UserUpdate

/-!
# Ebftpd.Ftp.Profile

Whether a session acts on the record the database has. `UpdateInv` holds over every run in which the
tasks are `Noticed`: the record of a logged in client is the database's, or a task for it is to come,
or the flag is set. From there the turn of one command is followed up to the command (`Turn`).

* `neverStale_of_noticed`: what has to hold of a run for no command to act on an old record.
* `sameProfile_of_noticed`: the same without the writes that are not in the update log.
* `stale_password`: the record changes while the client is asked for its password.
-/

namespace Ebftpd
namespace Ftp
namespace UserUpdate

open Util Lib Acl Db

variable {hashPassword : Str → Str → Str} {peer : Peer} {R : User → User → Prop} {s s' : State}

/-! ## What it is to be up to date -/

/-- The record in memory is, up to `R`, the one in the database. -/
def Current (R : User → User → Prop) (users : Users) (u : User) : Prop :=
  ∃ r ∈ users.loadUID u.id, R u r

/-- The action is not a write to the record of `uid`, nor the execution of a command. -/
def Action.leaves (uid : UserID) : Action → Bool
  | .update uid' _ => uid' != uid
  | .purge uid' => uid' != uid
  | .create user => user.id != uid
  | .write uid' _ => uid' != uid
  | .execute _ => false
  | _ => true

/-- A line is read in a state `s₁` of the run where every `UserUpdate` task for the user is executed.
When its command is about to be executed for the logged in user, the record not written in between,
then with a record that is the database's, and not a deleted one. -/
def NeverStale (R : User → User → Prop) (hashPassword : Str → Str → Str) (peer : Peer) (users : Users)
    (l : List Action) : Prop :=
  ∀ s₁ line u l₂ s₂, run (step hashPassword peer) { users := users } l = some s₁ →
    s₁.thread = .read line → u.id ∉ s₁.tasks → (∀ a ∈ l₂, a.leaves u.id = true) →
    run (step hashPassword peer) s₁ l₂ = some s₂ → s₂.thread = .command line →
    s₂.client.state = .LoggedIn → s₂.client.user = some u →
    Current R s₂.users u ∧ u.hasFlag .Deleted = false

/-- A task that finds the client waiting for its password finds the record of `USER` up to date, or
another task for it comes. A write that is not in the update log leaves the record of the client's
user, up to `R`. -/
def Noticed (R : User → User → Prop) (s : State) : Action → Prop
  | .task =>
    ∀ u ∈ s.client.user, s.client.state = .WaitingPassword → s.tasks.head? = some u.id →
      Current R s.users u ∨ u.id ∈ s.tasks.tail
  | .write uid w =>
    ∀ u ∈ s.client.user, s.client.state = .WaitingPassword ∨ s.client.state = .LoggedIn → u.id = uid →
      ∀ r ∈ s.users.loadUID uid, R r (w.fields r)
  | _ => True

instance Noticed.decidable [DecidableRel R] (s : State) : ∀ a, Decidable (Noticed R s a)
  | .task => inferInstanceAs (Decidable (∀ u ∈ s.client.user, s.client.state = .WaitingPassword →
      s.tasks.head? = some u.id → (∃ r ∈ s.users.loadUID u.id, R u r) ∨ u.id ∈ s.tasks.tail))
  | .write uid w => inferInstanceAs (Decidable (∀ u ∈ s.client.user,
      s.client.state = .WaitingPassword ∨ s.client.state = .LoggedIn → u.id = uid →
      ∀ r ∈ s.users.loadUID uid, R r (w.fields r)))
  | .update .. | .purge _ | .create _ | .nextCommand _ | .check | .reload | .execute _ | .save =>
    .isTrue trivial

structure Agreement (R : User → User → Prop) : Prop where
  equiv : Equivalence R
  loggedIn {u r : User} (now : Int) : R u r →
    R (u.setLoggedIn now) (Save.loggedIn.fields (u.setLoggedIn now) r)
  fields (save : Save) (u : User) {r r' : User} : R r r' → R (save.fields u r) (save.fields u r')

theorem agreement_eq : Agreement (Eq : User → User → Prop) where
  equiv := eq_equivalence
  loggedIn _ h := h ▸ rfl
  fields _ _ _ _ h := h ▸ rfl

/-- The same record, but for the fields that are written without an entry in the update log. -/
def SameProfile (u r : User) : Prop :=
  { u with loggedIn := 0, lastLogin := none, credits := [] } =
    { r with loggedIn := 0, lastLogin := none, credits := [] }

theorem agreement_sameProfile : Agreement SameProfile where
  equiv := ⟨fun _ => rfl, Eq.symm, Eq.trans⟩
  loggedIn _ h := h
  fields save u r r' h := by
    cases save with
    | loggedIn => exact h
    | tagline => exact congrArg (fun x : User => { x with tagline := u.tagline }) h

/-! ## The invariant -/

/-- What holds of a logged in user's record where no task is to come and the flag is not set. -/
def Settled (R : User → User → Prop) (users : Users) (u : User) : Thread → Prop
  | .reload _ => True
  -- behind the entry of a tagline in the update log comes a task
  | .saving save => save = .tagline ∨ ∃ r ∈ users.loadUID u.id, R u (save.fields u r)
  | .nextCommand | .read _ | .command _ => Current R users u

structure UpdateInv (R : User → User → Prop) (s : State) : Prop where
  flag : s.userUpdated = true → s.client.state = .LoggedIn ∨ s.client.state = .Finished
  reload : ∀ line, s.thread = .reload line → s.client.state = .LoggedIn ∨ s.client.state = .Finished
  waiting : s.client.state = .WaitingPassword → (∀ save, s.thread ≠ .saving save) ∧
    ∃ u, s.client.user = some u ∧ (u.id ∈ s.tasks ∨ Current R s.users u)
  loggedIn : s.client.state = .LoggedIn → ∃ u, s.client.user = some u ∧ u.hasFlag .Deleted = false ∧
    (u.id ∈ s.tasks ∨ s.userUpdated = true ∨ Settled R s.users u s.thread)

theorem Current.congr {users users' : Users} {u : User} (h : users'.loadUID u.id = users.loadUID u.id)
    (hu : Current R users u) : Current R users' u := by
  unfold Current
  rw [h]
  exact hu

theorem Settled.congr {users users' : Users} {u : User} {t : Thread}
    (h : users'.loadUID u.id = users.loadUID u.id) (hu : Settled R users u t) : Settled R users' u t := by
  cases t with
  | reload => trivial
  | saving save =>
    unfold Settled
    rw [h]
    exact hu
  | nextCommand => exact Current.congr h hu
  | read => exact Current.congr h hu
  | command => exact Current.congr h hu

/-- The record of a user behind a write to it that keeps the uid. -/
theorem mem_loadUID_setFields {users : Users} {uid : UserID} {f : User → User} {r : User}
    (hr : r ∈ users.loadUID uid) (hf : (f r).id = r.id) :
    f r ∈ (users.setFields uid f).loadUID uid := by
  rw [Users.loadUID_setFields, Option.mem_def.mp hr, Option.map_some, Users.written,
    if_pos (Users.loadUID_id hr), ← hf]
  rfl

theorem Current.write (hR : Agreement R) {users : Users} {u : User} {w : Unlogged}
    (hw : ∀ r ∈ users.loadUID u.id, R r (w.fields r)) (hu : Current R users u) :
    Current R (users.setFields u.id w.fields) u := by
  obtain ⟨r, hr, hur⟩ := hu
  exact ⟨w.fields r, mem_loadUID_setFields hr rfl, hR.equiv.trans hur (hw r hr)⟩

theorem Settled.write (hR : Agreement R) {users : Users} {u : User} {w : Unlogged} {t : Thread}
    (hw : ∀ r ∈ users.loadUID u.id, R r (w.fields r)) (hu : Settled R users u t) :
    Settled R (users.setFields u.id w.fields) u t := by
  cases t with
  | reload => trivial
  | saving save =>
    rcases hu with hu | ⟨r, hr, hur⟩
    · exact .inl hu
    · exact .inr ⟨w.fields r, mem_loadUID_setFields hr rfl,
        hR.equiv.trans hur (hR.fields save u (hw r hr))⟩
  | nextCommand => exact Current.write hR hw hu
  | read => exact Current.write hR hw hu
  | command => exact Current.write hR hw hu

/-! ### The steps of the others -/

theorem UpdateInv.logged (hi : UpdateInv R s) {users : Users} (uid : UserID)
    (hsame : ∀ uid', uid' ≠ uid → users.loadUID uid' = s.users.loadUID uid') :
    UpdateInv R { s with users := users, tasks := s.tasks ++ [uid] } where
  flag := hi.flag
  reload := hi.reload
  waiting hw := by
    obtain ⟨hthread, u, hu, h⟩ := hi.waiting hw
    refine ⟨hthread, u, hu, ?_⟩
    by_cases hid : u.id = uid
    · exact .inl (by simp [hid])
    · exact h.imp (List.mem_append_left _) (Current.congr (hsame _ hid))
  loggedIn hl := by
    obtain ⟨u, hu, hdel, h⟩ := hi.loggedIn hl
    refine ⟨u, hu, hdel, ?_⟩
    by_cases hid : u.id = uid
    · exact .inl (by simp [hid])
    · exact h.imp (List.mem_append_left _) (.imp_right (Settled.congr (hsame _ hid)))

theorem UpdateInv.write (hR : Agreement R) (hi : UpdateInv R s) (uid : UserID) (w : Unlogged)
    (hw : Noticed R s (.write uid w)) :
    UpdateInv R { s with users := s.users.setFields uid w.fields } where
  flag := hi.flag
  reload := hi.reload
  waiting hwait := by
    obtain ⟨hthread, u, hu, h⟩ := hi.waiting hwait
    refine ⟨hthread, u, hu, h.imp_right fun hcur => ?_⟩
    by_cases hid : u.id = uid
    · subst hid
      exact hcur.write hR (hw u hu (.inl hwait) rfl)
    · exact hcur.congr (Users.loadUID_setFields_ne hid _)
  loggedIn hl := by
    obtain ⟨u, hu, hdel, h⟩ := hi.loggedIn hl
    refine ⟨u, hu, hdel, h.imp_right (.imp_right fun hset => ?_)⟩
    by_cases hid : u.id = uid
    · subst hid
      exact hset.write hR (hw u hu (.inr hl) rfl)
    · exact hset.congr (Users.loadUID_setFields_ne hid _)

theorem UpdateInv.task (hi : UpdateInv R s) {uid : UserID} {tasks : List UserID}
    (htasks : s.tasks = uid :: tasks) (hn : Noticed R s .task) :
    UpdateInv R (userUpdate uid { s with tasks := tasks }) := by
  unfold userUpdate
  split
  · rename_i hc
    obtain ⟨hin, -⟩ := hc
    refine ⟨fun _ => .inl hin, hi.reload, fun hw => ?_, fun hl => ?_⟩
    · exact absurd (hin.symm.trans hw) (by decide)
    · obtain ⟨u, hu, hdel, -⟩ := hi.loggedIn hl
      exact ⟨u, hu, hdel, .inr (.inl rfl)⟩
  · rename_i hc
    refine ⟨hi.flag, hi.reload, fun hw => ?_, fun hl => ?_⟩
    · obtain ⟨hthread, u, hu, h⟩ := hi.waiting hw
      refine ⟨hthread, u, hu, ?_⟩
      by_cases hid : u.id = uid
      · rcases hn u hu hw (by rw [htasks, hid]; rfl) with hcur | hmem
        · exact .inr hcur
        · exact .inl (by simpa [htasks] using hmem)
      · rw [htasks] at h
        exact h.imp_left fun hmem => (List.mem_cons.mp hmem).resolve_left hid
    · obtain ⟨u, hu, hdel, h⟩ := hi.loggedIn hl
      have hid : u.id ≠ uid := fun hid => hc ⟨hl, by simp [hu, hid]⟩
      rw [htasks] at h
      exact ⟨u, hu, hdel, h.imp_left fun hmem => (List.mem_cons.mp hmem).resolve_left hid⟩

/-! ### The steps of the client -/

theorem UpdateInv.check (hi : UpdateInv R s) (h : step hashPassword peer s .check = some s') :
    UpdateInv R s' := by
  obtain ⟨line, ht, ⟨hflag, rfl⟩ | ⟨-, rfl⟩⟩ := step_check h
  · refine ⟨fun hf => (by cases hf), fun _ _ => hi.flag hflag, fun hw => ?_, fun hl => ?_⟩
    · exact ⟨fun _ hsave => (by cases hsave), (hi.waiting hw).2⟩
    · obtain ⟨u, hu, hdel, -⟩ := hi.loggedIn hl
      exact ⟨u, hu, hdel, .inr (.inr trivial)⟩
  · refine ⟨hi.flag, fun _ hr => (by cases hr), fun hw => ?_, fun hl => ?_⟩
    · exact ⟨fun _ hsave => (by cases hsave), (hi.waiting hw).2⟩
    · have hin := hi.loggedIn hl
      rw [ht] at hin
      exact hin

theorem UpdateInv.of_finished (h : s.client.state = .Finished) : UpdateInv R s where
  flag _ := .inr h
  reload _ _ := .inr h
  waiting hw := absurd (h.symm.trans hw) (by decide)
  loggedIn hl := absurd (h.symm.trans hl) (by decide)

theorem UpdateInv.reloaded (hR : Agreement R) (hi : UpdateInv R s)
    (h : step hashPassword peer s .reload = some s') : UpdateInv R s' := by
  obtain ⟨line, ht, ⟨-, rfl⟩ | ⟨c, hload, rfl⟩⟩ := step_reload h
  · exact .of_finished rfl
  · obtain ⟨u, r, -, hr, hdel, rfl⟩ := reloadUser_eq hload
    refine ⟨hi.flag, fun _ hr => (by cases hr), fun hw => ?_, fun _ => ?_⟩
    · rcases hi.reload line ht with hin | hfin
      · exact absurd (hin.symm.trans hw) (by decide)
      · exact absurd (hfin.symm.trans hw) (by decide)
    · have hid : r.id = u.id := Users.loadUID_id hr
      exact ⟨r, rfl, hdel, .inr (.inr ⟨r, hid ▸ hr, hR.equiv.refl r⟩)⟩

theorem UpdateInv.effect (hR : Agreement R) (hi : UpdateInv R s) {line : Str} {o : Outside}
    {r : Outcome} (ht : s.thread = .command line)
    (hload : ∀ name u, o.load name = .ok (some u) → s.users.load name = some u)
    (h : LoginEffect hashPassword peer o s.client r) :
    UpdateInv R { s with
      client := r.client
      thread := match r.save with
        | some save => .saving save
        | none => .nextCommand } := by
  have hin : s.client.state = .LoggedIn → ∃ u, s.client.user = some u ∧ u.hasFlag .Deleted = false ∧
      (u.id ∈ s.tasks ∨ s.userUpdated = true ∨ Current R s.users u) := by
    intro hl
    have hin := hi.loggedIn hl
    rw [ht] at hin
    exact hin
  have hflag : s.client.state ≠ .LoggedIn → s.client.state ≠ .Finished → s.userUpdated = true → False :=
    fun hl hf hset => (hi.flag hset).elim hl hf
  cases h with
  | quiet _ _ state user =>
    rcases state with state | state
    · rcases user with ⟨huser, hsave⟩ | ⟨hl, hsave, tagline, huser⟩
      · rw [hsave]
        refine ⟨fun hset => ?_, fun _ hr => (by cases hr), fun hw => ?_, fun hl => ?_⟩
        · exact state ▸ hi.flag hset
        · obtain ⟨-, u, hu, hcur⟩ := hi.waiting (state ▸ hw)
          exact ⟨fun _ hr => (by cases hr), u, huser.trans hu, hcur⟩
        · obtain ⟨u, hu, hdel, hcur⟩ := hin (state ▸ hl)
          exact ⟨u, huser.trans hu, hdel, hcur⟩
      · rw [hsave]
        have hl' : r.client.state = .LoggedIn := state.trans hl
        refine ⟨fun _ => .inl hl', fun _ _ => .inl hl', fun hw => ?_, fun _ => ?_⟩
        · exact absurd (hl'.symm.trans hw) (by decide)
        · obtain ⟨u, hu, hdel, -⟩ := hin hl
          exact ⟨u.setTagline tagline, by simp [huser, hu], hdel, .inr (.inr (.inl rfl))⟩
    · exact .of_finished state
  | accepted name u _ _ loggedOut state loaded found _ save =>
    rw [save]
    refine ⟨fun hset => ?_, fun _ hr => (by cases hr), fun _ => ?_, fun hl => ?_⟩
    · exact (hflag (by rw [loggedOut]; decide) (by rw [loggedOut]; decide) hset).elim
    · have hu : s.users.loadUID u.id = some u := Users.loadUID_of_load (hload name u found)
      exact ⟨fun _ hr => (by cases hr), u, loaded, .inr ⟨u, hu, hR.equiv.refl u⟩⟩
    · exact absurd (hl.symm.trans state) (by decide)
  | verified password u _ _ waiting loaded _ passed =>
    obtain ⟨-, u', hu', hcur⟩ := hi.waiting waiting
    obtain rfl : u = u' := Option.some.inj (loaded.symm.trans hu')
    rcases passed with state | ⟨state, huser, hsave⟩ | ⟨state, huser, hsave, hadmitted⟩
    · exact .of_finished state
    · rw [hsave]
      have hw : r.client.state = .WaitingPassword := state.trans waiting
      refine ⟨fun hset => ?_, fun _ hr => (by cases hr), fun _ => ?_, fun hl => ?_⟩
      · exact state ▸ hi.flag hset
      · exact ⟨fun _ hr => (by cases hr), u, huser.trans loaded, hcur⟩
      · exact absurd (hw.symm.trans hl) (by decide)
    · rw [hsave]
      refine ⟨fun _ => .inl state, fun _ _ => .inl state, fun hw => ?_, fun _ => ?_⟩
      · exact absurd (state.symm.trans hw) (by decide)
      · refine ⟨u.setLoggedIn o.now, huser, hadmitted.notDeleted, hcur.imp_right fun hcur => .inr ?_⟩
        obtain ⟨r', hr', hur⟩ := hcur
        exact .inr ⟨r', hr', hR.loggedIn o.now hur⟩
  | refused _ _ waiting save state =>
    rw [save]
    have hset : s.userUpdated = true → False :=
      hflag (by rw [waiting]; decide) (by rw [waiting]; decide)
    refine ⟨fun h => (hset h).elim, fun _ hr => (by cases hr), fun hw => ?_, fun hl => ?_⟩
    · rw [hw] at state
      split at state <;> cases state
    · rw [hl] at state
      split at state <;> cases state

theorem UpdateInv.execute (hR : Agreement R) (hi : UpdateInv R s) {o : Outside}
    (h : step hashPassword peer s (.execute o) = some s') : UpdateInv R s' := by
  simp only [step] at h
  split at h
  · rename_i line ht
    have heffect := executeCommand_effect hashPassword peer (s.outside o) s.client line
    cases h
    unfold Outcome.clientAfter
    split
    · exact .of_finished rfl
    · refine hi.effect hR ht (fun name u hload => ?_) heffect
      simp only [State.outside] at hload
      cases hname : o.load name with
      | error e => simp [hname, Except.map] at hload
      | ok found => simpa [hname, Except.map] using hload
  · cases h

theorem UpdateInv.saved (hi : UpdateInv R s) (h : step hashPassword peer s .save = some s') :
    UpdateInv R s' := by
  simp only [step] at h
  split at h
  · rename_i save u ht hu
    cases h
    refine ⟨hi.flag, fun _ hr => (by cases hr), fun hw => ?_, fun hl => ?_⟩
    · exact absurd ht ((hi.waiting hw).1 save)
    · obtain ⟨u', hu', hdel, hset⟩ := hi.loggedIn hl
      obtain rfl : u = u' := Option.some.inj (hu.symm.trans hu')
      refine ⟨u, hu, hdel, ?_⟩
      cases save with
      | tagline => exact .inl (by simp [Save.updateLog])
      | loggedIn =>
        rw [ht] at hset
        refine hset.imp_right (.imp_right ?_)
        rintro (h | ⟨r, hr, hur⟩)
        · cases h
        · exact ⟨_, mem_loadUID_setFields hr rfl, hur⟩
  · cases h

theorem step_updateInv (hR : Agreement R) {a : Action} (hi : UpdateInv R s) (hn : Noticed R s a)
    (h : step hashPassword peer s a = some s') : UpdateInv R s' := by
  cases a with
  | update uid f =>
    cases h
    exact hi.logged uid fun uid' hne => Users.loadUID_setFields_ne hne f
  | purge uid =>
    cases h
    exact hi.logged uid fun uid' hne => Users.loadUID_purge_ne hne
  | create user =>
    cases h
    exact hi.logged user.id fun uid' hne => Users.loadUID_create_ne hne
  | write uid w =>
    cases h
    exact hi.write hR uid w hn
  | task =>
    simp only [step] at h
    split at h
    · cases h
    · rename_i uid tasks htasks
      cases h
      exact hi.task htasks hn
  | nextCommand line =>
    simp only [step] at h
    split at h
    · rename_i ht
      split at h
      · cases h
      · cases h
        refine ⟨hi.flag, fun _ hr => (by cases hr), fun hw => ?_, fun hl => ?_⟩
        · exact ⟨fun _ hr => (by cases hr), (hi.waiting hw).2⟩
        · have hin := hi.loggedIn hl
          rw [ht] at hin
          exact hin
    · cases h
  | check => exact hi.check h
  | reload => exact hi.reloaded hR h
  | execute o => exact hi.execute hR h
  | save => exact hi.saved h

theorem init_updateInv (users : Users) : UpdateInv R { users := users } where
  flag h := nomatch h
  reload _ h := nomatch h
  waiting h := nomatch h
  loggedIn h := nomatch h

/-! ## One command -/

/-- What holds of the logged in user's record from the line read to the command. -/
def OnTurn (R : User → User → Prop) (users : Users) (userUpdated : Bool) (u : User) : Thread → Prop
  | .read _ => userUpdated = true ∨ Current R users u
  | .reload _ => True
  | .command _ => Current R users u
  | .nextCommand | .saving _ => False

theorem OnTurn.mono {users users' : Users} {b b' : Bool} {u : User} {t : Thread} (hb : b = true → b' = true)
    (hcur : Current R users u → Current R users' u) (h : OnTurn R users b u t) :
    OnTurn R users' b' u t := by
  cases t with
  | read => exact h.imp hb hcur
  | reload => trivial
  | command => exact hcur h
  | nextCommand => exact h
  | saving => exact h

def Turn (R : User → User → Prop) (uid : UserID) (s : State) : Prop :=
  s.client.state = .LoggedIn → ∀ u, s.client.user = some u → u.id = uid →
    u.hasFlag .Deleted = false ∧ OnTurn R s.users s.userUpdated u s.thread

theorem Turn.start (hi : UpdateInv R s) {line : Str} {uid : UserID} (ht : s.thread = .read line)
    (hdone : uid ∉ s.tasks) : Turn R uid s := by
  intro hl u hu hid
  obtain ⟨u', hu', hdel, h⟩ := hi.loggedIn hl
  obtain rfl : u = u' := Option.some.inj (hu.symm.trans hu')
  rw [ht] at h ⊢
  exact ⟨hdel, h.resolve_left (hid ▸ hdone)⟩

theorem Turn.users {uid : UserID} (h : Turn R uid s) {users : Users} (tasks : List UserID)
    (hsame : users.loadUID uid = s.users.loadUID uid) :
    Turn R uid { s with users := users, tasks := tasks } := by
  intro hl u hu hid
  obtain ⟨hdel, honturn⟩ := h hl u hu hid
  exact ⟨hdel, honturn.mono id (Current.congr (hid ▸ hsame))⟩

theorem Turn.task {uid : UserID} (h : Turn R uid s) (uid' : UserID) : Turn R uid (userUpdate uid' s) := by
  unfold userUpdate
  split
  · intro hl u hu hid
    obtain ⟨hdel, honturn⟩ := h hl u hu hid
    exact ⟨hdel, honturn.mono (fun _ => rfl) id⟩
  · exact h

theorem step_turn (hR : Agreement R) {uid : UserID} {a : Action} (hturn : Turn R uid s)
    (ha : a.leaves uid = true) (h : step hashPassword peer s a = some s') : Turn R uid s' := by
  cases a with
  | update uid' f =>
    cases h
    exact hturn.users _ (Users.loadUID_setFields_ne (Ne.symm (by simpa [Action.leaves] using ha)) f)
  | purge uid' =>
    cases h
    exact hturn.users _ (Users.loadUID_purge_ne (Ne.symm (by simpa [Action.leaves] using ha)))
  | create user =>
    cases h
    exact hturn.users _ (Users.loadUID_create_ne (Ne.symm (by simpa [Action.leaves] using ha)))
  | write uid' w =>
    cases h
    exact hturn.users _ (Users.loadUID_setFields_ne (Ne.symm (by simpa [Action.leaves] using ha)) w.fields)
  | task =>
    simp only [step] at h
    split at h
    · cases h
    · rename_i uid' tasks _
      cases h
      exact Turn.task (hturn.users tasks rfl) uid'
  | nextCommand line =>
    -- the turn is over, and with it the session
    simp only [step] at h
    split at h
    · rename_i ht
      split at h
      · cases h
      · cases h
        intro hl u hu hid
        have honturn := (hturn hl u hu hid).2
        rw [ht] at honturn
        exact honturn.elim
    · cases h
  | check =>
    obtain ⟨line, ht, ⟨-, rfl⟩ | ⟨hflag, rfl⟩⟩ := step_check h
    · intro hl u hu hid
      exact ⟨(hturn hl u hu hid).1, trivial⟩
    · intro hl u hu hid
      obtain ⟨hdel, honturn⟩ := hturn hl u hu hid
      rw [ht, hflag] at honturn
      exact ⟨hdel, honturn.resolve_left (by decide)⟩
  | reload =>
    obtain ⟨line, ht, ⟨-, rfl⟩ | ⟨c, hload, rfl⟩⟩ := step_reload h
    · exact fun hl => by cases hl
    · obtain ⟨u, r, -, hr, hdel, rfl⟩ := reloadUser_eq hload
      rintro - u' ⟨⟩ -
      have hid : r.id = u.id := Users.loadUID_id hr
      exact ⟨hdel, r, hid ▸ hr, hR.equiv.refl r⟩
  | execute o => cases ha
  | save =>
    simp only [step] at h
    split at h
    · rename_i save u ht hu
      cases h
      intro hl u' hu' hid
      have honturn := (hturn hl u' hu' hid).2
      rw [ht] at honturn
      exact honturn.elim
    · cases h

/-! ## Whole runs -/

theorem Agreement.neverStale (hR : Agreement R) {users : Users} {l : List Action}
    (hm : Meets (step hashPassword peer) (Noticed R) { users := users } l) :
    NeverStale R hashPassword peer users l := by
  intro s₁ line u l₂ s₂ hrun ht hdone hleaves hrun₂ ht₂ hl hu
  have hi : UpdateInv R s₁ :=
    run_invariant_of_meets (fun _ _ _ hi hn h => step_updateInv hR hi hn h) l (init_updateInv users) hm hrun
  have hturn : Turn R u.id s₂ :=
    run_invariant_of_forall (fun _ _ _ hturn ha h => step_turn hR hturn ha h) l₂
      (Turn.start hi ht hdone) hleaves hrun₂
  obtain ⟨hdel, honturn⟩ := hturn hl u hu rfl
  rw [ht₂] at honturn
  exact ⟨honturn, hdel⟩

/-- In a run where every task is noticed no command of a logged in user runs with a record that is
not the database's, nor for a deleted user. -/
theorem neverStale_of_noticed (hashPassword : Str → Str → Str) (peer : Peer) (users : Users)
    (l : List Action) (hm : Meets (step hashPassword peer) (Noticed Eq) { users := users } l) :
    NeverStale Eq hashPassword peer users l :=
  agreement_eq.neverStale hm

def exampleUsers : Users := ⟨[exampleUser], by decide⟩

def examplePeer : Peer := ⟨"*".toList, "10.0.0.7".toList, "10.0.0.7".toList⟩

def exampleLine (line : String) : List Action :=
  [.nextCommand line.toList, .check, .execute exampleOutside]

/-- The record is written between `USER` and `PASS`, the task executed behind the login: the next
command runs with the record as it is now. -/
theorem neverStale_of_noticed_late :
    let l := exampleLine "USER alice" ++ [.update 1 ({ · with flags := "1".toList })] ++
      exampleLine "PASS secret" ++ [.save, .task, .nextCommand "PWD".toList]
    NeverStale Eq exampleHash examplePeer exampleUsers l ∧
      ∃ s, run (step exampleHash examplePeer) { users := exampleUsers } (l ++ [.check, .reload]) = some s ∧
        s.thread = .command "PWD".toList ∧ s.client.state = .LoggedIn ∧
        s.client.user.map (·.flags) = some "1".toList := by
  intro l
  refine ⟨neverStale_of_noticed exampleHash examplePeer exampleUsers l (by decide), ?_⟩
  have hs : (run (step exampleHash examplePeer) { users := exampleUsers } (l ++ [.check, .reload])).map
      (fun s => (s.thread, s.client.state, s.client.user.map (·.flags))) =
        some (.command "PWD".toList, .LoggedIn, some "1".toList) := by decide
  obtain ⟨s, hrun, hs⟩ := Option.map_eq_some_iff.mp hs
  simp only [Prod.mk.injEq] at hs
  exact ⟨s, hrun, hs⟩

/-- The user is deleted, and the task executed, while the client is asked for its password. The client
logs in with the record of before and its commands are executed. -/
theorem stale_password :
    ¬ NeverStale Eq exampleHash examplePeer exampleUsers
      (exampleLine "USER alice" ++ [.update 1 ({ · with flags := "6".toList }), .task] ++
        exampleLine "PASS secret" ++ [.save, .nextCommand "PWD".toList]) := by
  -- a client that reads its command with no task left, and checks it with another record than the stored one
  have hstale : ∀ l : List Action,
      (run (step exampleHash examplePeer) { users := exampleUsers } (l ++ [.check])).map
        (fun s => (s.thread, s.client.state, s.client.user, (s.users.loadUID 1).map (·.flags))) =
          some (.command "PWD".toList, .LoggedIn, some (exampleUser.setLoggedIn 0), some "6".toList) →
      (run (step exampleHash examplePeer) { users := exampleUsers } l).map
        (fun s => (s.thread, s.tasks)) = some (.read "PWD".toList, []) →
      ¬ NeverStale Eq exampleHash examplePeer exampleUsers l := by
    intro l hs hs₁ h
    obtain ⟨s₂, hrun, hs⟩ := Option.map_eq_some_iff.mp hs
    obtain ⟨s₁, hrun₁, hrun₂⟩ := run_append_inv hrun
    rw [hrun₁] at hs₁
    simp only [Prod.mk.injEq, Option.map_some, Option.some.injEq] at hs hs₁
    obtain ⟨ht, hin, hu, hflags⟩ := hs
    obtain ⟨⟨r, hr, rfl⟩, -⟩ := h s₁ "PWD".toList (exampleUser.setLoggedIn 0) [.check] s₂ hrun₁ hs₁.1
      (by simp [hs₁.2]) (by decide) hrun₂ ht hin hu
    have : s₂.users.loadUID 1 = some (exampleUser.setLoggedIn 0) := hr
    rw [this] at hflags
    exact absurd hflags (by decide)
  exact hstale _ (by decide) (by decide)

/-- What is not in the update log is only ever in three fields of the record. -/
theorem noticed_write (s : State) (uid : UserID) (w : Unlogged) :
    Noticed SameProfile s (.write uid w) := by
  intro _ _ _ _ _ _
  rfl

/-- Up to these, what others write without an entry in the update log does no harm. -/
theorem sameProfile_of_noticed {users : Users} {l : List Action}
    (hm : Meets (step hashPassword peer) (fun s a => a = .task → Noticed SameProfile s a)
      { users := users } l) :
    NeverStale SameProfile hashPassword peer users l := by
  refine agreement_sameProfile.neverStale (Meets.mono (fun s a ha => ?_) hm)
  cases a with
  | task => exact ha rfl
  | write uid w => exact noticed_write s uid w
  | update => trivial
  | purge => trivial
  | create => trivial
  | nextCommand => trivial
  | check => trivial
  | reload => trivial
  | execute => trivial
  | save => trivial

end UserUpdate
end Ftp
end Ebftpd
