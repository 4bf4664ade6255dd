import Ebftpd.Fs.Mode
import Ebftpd.Lib.Run
import Mathlib.Logic.Function.Basic

/-!
# Ebftpd.Cfg.Get

How a configuration reaches the threads (`src/cfg/get.cpp`). A thread that loads the file (the server for
`SITE RELOAD`, the signal handler for `SIGHUP`) shares the new configuration and runs the slot of the umask
(`src/fs/mode.cpp`); every thread has a copy of its own, which a client brings up to date behind each command.
A configuration gets its version when it is constructed, before the file is read.

* `thisThread_run`: what becomes of a thread's copy.
* `distribution_run`: a command runs under the configuration that was shared when the one before it ended.
* `umask_run`: the umask of a file that is loaded again has no effect.
-/

namespace Ebftpd
namespace Cfg

open Lib
open Fs.Mode (ModeT)

universe u v

structure Versioned (κ : Type v) where
  version : Int
  settings : κ

/-- How far a thread is with a configuration it loads. -/
inductive Stage (κ : Type v) where
  | idle
  | loaded (config : Versioned κ)
  -- shared, and the slots have not run
  | shared

structure Distribution (τ : Type u) (κ : Type v) where
  latestVersion : Int
  shared : Option (Versioned κ)
  thisThread : τ → Option (Versioned κ)
  stage : τ → Stage κ
  umask : ModeT

/-- What `Config::Load` finds; the first two are a `ConfigError`. -/
inductive File (κ : Type v) where
  | missing
  | malformed
  | holds (settings : κ)
  deriving DecidableEq

/-- What the threads do. -/
inductive Event (τ : Type u) (κ : Type v) where
  | load (t : τ) (file : File κ)
  | updateShared (t : τ)
  -- the slots behind `UpdateShared`
  | updated (t : τ)
  | updateLocal (t : τ)
  | get (t : τ)
  -- `fs::Chmod` asks for the umask by setting it to 0
  | chmod (t : τ)
  deriving DecidableEq

namespace Distribution

variable {τ : Type u} {κ : Type v} [DecidableEq τ] (umaskOf : κ → ModeT)

/-- `UpdateLocal`; nothing must call it before a configuration is shared. -/
def updateLocal (s : Distribution τ κ) (t : τ) : Option (Distribution τ κ) :=
  match s.shared with
  | none => none
  | some shared =>
    match s.thisThread t with
    | some config =>
      if shared.version ≤ config.version then some s
      else some { s with thisThread := Function.update s.thisThread t (some shared) }
    | none => some { s with thisThread := Function.update s.thisThread t (some shared) }

/-- `Get`: the thread's copy, which it makes the first time. -/
def get (s : Distribution τ κ) (t : τ) : Option (Distribution τ κ) :=
  match s.thisThread t with
  | some _ => some s
  | none => s.updateLocal t

def step (s : Distribution τ κ) : Event τ κ → Option (Distribution τ κ)
  | .load t file =>
    match s.stage t with
    | .idle =>
      match file with
      | .missing => some s
      | .malformed => some { s with latestVersion := s.latestVersion + 1 }
      | .holds settings =>
        some { s with
          latestVersion := s.latestVersion + 1
          stage := Function.update s.stage t (.loaded ⟨s.latestVersion + 1, settings⟩) }
    | _ => none
  | .updateShared t =>
    match s.stage t with
    | .loaded config => some { s with shared := some config, stage := Function.update s.stage t .shared }
    | _ => none
  | .updated t =>
    match s.stage t, s.get t with
    | .shared, some s' =>
      match s'.thisThread t with
      | some config => some { s' with umask := umaskOf config.settings, stage := Function.update s'.stage t .idle }
      | none => none
    | _, _ => none
  | .updateLocal t => s.updateLocal t
  | .get t => s.get t
  | .chmod _ => some { s with umask := 0 }

/-- Before anything is loaded. -/
def initial (umask : ModeT) : Distribution τ κ where
  latestVersion := 0
  shared := none
  thisThread := fun _ => none
  stage := fun _ => .idle
  umask := umask

/-! ## One step -/

/-- A copy is made or replaced by the shared configuration, which is newer then. -/
structure Copied (t : τ) (s s' : Distribution τ κ) : Prop where
  frame : s' = { s with thisThread := s'.thisThread }
  others : ∀ t', t' ≠ t → s'.thisThread t' = s.thisThread t'
  own : s'.thisThread t = s.thisThread t ∨
    s'.thisThread t = s.shared ∧ ∀ config, s.thisThread t = some config →
      ∀ shared, s.shared = some shared → config.version < shared.version
  some : ∃ config, s'.thisThread t = some config

variable {s s' : Distribution τ κ} {t : τ} {umaskOf}

theorem updateLocal_copied (h : s.updateLocal t = some s') : Copied t s s' ∧
    ∀ shared, s.shared = some shared → ∀ config, s'.thisThread t = some config →
      shared.version ≤ config.version := by
  unfold updateLocal at h
  split at h
  · cases h
  · rename_i shared hshared
    have hset : ∀ s', s' = { s with thisThread := Function.update s.thisThread t (some shared) } →
        (∀ config, s.thisThread t = some config → config.version < shared.version) →
        Copied t s s' ∧ ∀ sh, s.shared = some sh → ∀ config, s'.thisThread t = some config →
          sh.version ≤ config.version := by
      rintro s' rfl hnewer
      refine ⟨⟨rfl, fun t' ht' => Function.update_of_ne ht' _ _, .inr ⟨?_, ?_⟩, ?_⟩, ?_⟩
      · rw [hshared]
        exact Function.update_self _ _ _
      · intro config hconfig sh hsh
        rw [hshared] at hsh
        exact Option.some.inj hsh ▸ hnewer config hconfig
      · exact ⟨shared, Function.update_self _ _ _⟩
      · intro sh hsh config hconfig
        have hself : Function.update s.thisThread t (some shared) t = some config := hconfig
        rw [Function.update_self] at hself
        rw [hshared] at hsh
        rw [← Option.some.inj hsh, ← Option.some.inj hself]
    split at h
    · rename_i config hconfig
      split at h
      · rename_i hle
        cases h
        refine ⟨⟨rfl, fun _ _ => rfl, .inl rfl, config, hconfig⟩, fun sh hsh config' hconfig' => ?_⟩
        rw [hshared] at hsh
        rw [hconfig] at hconfig'
        rw [← Option.some.inj hsh, ← Option.some.inj hconfig']
        exact hle
      · rename_i hlt
        refine hset s' (Option.some.inj h).symm fun config' hconfig' => ?_
        rw [hconfig] at hconfig'
        rw [← Option.some.inj hconfig']
        omega
    · rename_i hnone
      refine hset s' (Option.some.inj h).symm fun config' hconfig' => ?_
      rw [hnone] at hconfig'
      cases hconfig'

theorem get_copied (h : s.get t = some s') : Copied t s s' ∧
    ∀ config, s.thisThread t = some config → s' = s := by
  unfold get at h
  split at h
  · rename_i config hconfig
    cases h
    exact ⟨⟨rfl, fun _ _ => rfl, .inl rfl, config, hconfig⟩, fun _ _ => rfl⟩
  · rename_i hnone
    exact ⟨(updateLocal_copied h).1, fun config hconfig => by rw [hnone] at hconfig; cases hconfig⟩

/-- A step makes a copy for one thread or leaves all of them. -/
theorem step_copied {e : Event τ κ} (h : step umaskOf s e = some s') :
    s'.thisThread = s.thisThread ∨
      ∃ t s1, (e = .updateLocal t ∨ (e = .updated t ∨ e = .get t) ∧
        ∀ config, s.thisThread t = some config → s1 = s) ∧
        Copied t s s1 ∧ s'.thisThread = s1.thisThread := by
  cases e with
  | load t file =>
    simp only [step] at h
    split at h
    · cases file <;> cases h <;> exact .inl rfl
    · cases h
  | updateShared t =>
    simp only [step] at h
    split at h
    · cases h
      exact .inl rfl
    · cases h
  | updated t =>
    simp only [step] at h
    split at h
    · rename_i s1 _ hget
      split at h
      · cases h
        obtain ⟨hcopied, hkeeps⟩ := get_copied hget
        exact .inr ⟨t, s1, .inr ⟨.inl rfl, hkeeps⟩, hcopied, rfl⟩
      · cases h
    · cases h
  | updateLocal t => exact .inr ⟨t, s', .inl rfl, (updateLocal_copied h).1, rfl⟩
  | get t =>
    obtain ⟨hcopied, hkeeps⟩ := get_copied h
    exact .inr ⟨t, s', .inr ⟨.inr rfl, hkeeps⟩, hcopied, rfl⟩
  | chmod t =>
    cases h
    exact .inl rfl

/-- What a thread has it keeps, up to a newer one; only `UpdateLocal` of the thread replaces it. -/
theorem step_thisThread {e : Event τ κ} {config : Versioned κ} (h : step umaskOf s e = some s')
    (hconfig : s.thisThread t = some config) :
    ∃ config', s'.thisThread t = some config' ∧ (config' = config ∨ config.version < config'.version) ∧
      (e ≠ .updateLocal t → config' = config) := by
  obtain hsame | ⟨t₁, s1, he, hcopied, hsame⟩ := step_copied h
  · exact ⟨config, by rw [hsame, hconfig], .inl rfl, fun _ => rfl⟩
  rw [hsame]
  by_cases ht : t = t₁
  · subst ht
    obtain rfl | ⟨-, hkeeps⟩ := he
    · obtain ⟨config', hconfig'⟩ := hcopied.some
      refine ⟨config', hconfig', ?_, fun hne => absurd rfl hne⟩
      obtain hown | ⟨hshared, hnewer⟩ := hcopied.own
      · rw [hown, hconfig] at hconfig'
        exact .inl (Option.some.inj hconfig').symm
      · rw [hshared] at hconfig'
        exact .inr (hnewer config hconfig config' hconfig')
    · rw [hkeeps config hconfig, hconfig]
      exact ⟨config, rfl, .inl rfl, fun _ => rfl⟩
  · rw [hcopied.others t ht, hconfig]
    exact ⟨config, rfl, .inl rfl, fun _ => rfl⟩

theorem run_kept {config : Versioned κ} (l : List (Event τ κ)) (hl : ∀ e ∈ l, e ≠ .updateLocal t)
    (hconfig : s.thisThread t = some config) (hrun : run (step umaskOf) s l = some s') :
    s'.thisThread t = some config := by
  refine run_invariant_of_forall (P := fun s => s.thisThread t = some config)
    (C := fun e => e ≠ .updateLocal t) ?_ l hconfig hl hrun
  intro s e s1 hconfig hne h
  obtain ⟨config', hconfig', -, hkept⟩ := step_thisThread h hconfig
  rw [hconfig', hkept hne]

/-- A thread's copy is never replaced by an older configuration, and while the thread does not call
`UpdateLocal` it is not replaced at all, whatever is loaded and shared. -/
theorem thisThread_run {config : Versioned κ} (l : List (Event τ κ)) (hconfig : s.thisThread t = some config)
    (hrun : run (step umaskOf) s l = some s') :
    (∃ config', s'.thisThread t = some config' ∧ (config' = config ∨ config.version < config'.version)) ∧
      ((∀ e ∈ l, e ≠ .updateLocal t) → s'.thisThread t = some config) := by
  constructor
  · refine run_invariant (P := fun s => ∃ config', s.thisThread t = some config' ∧
      (config' = config ∨ config.version < config'.version)) ?_ l ⟨config, hconfig, .inl rfl⟩ hrun
    rintro s e s1 ⟨config', hconfig', hle⟩ h
    obtain ⟨config'', hconfig'', hle', -⟩ := step_thisThread h hconfig'
    refine ⟨config'', hconfig'', ?_⟩
    obtain rfl | hlt' := hle'
    · exact hle
    · obtain rfl | hlt := hle
      · exact .inr hlt'
      · exact .inr (Int.lt_trans hlt hlt')
  · exact fun hl => run_kept l hl hconfig hrun

/-- The server loads its file and loads it again; a client is logged in. -/
def exampleLoads : Bool → List (Event (Fin 2) ModeT)
  | false => [.load 0 (.holds 18#32), .updateShared 0, .updated 0, .get 1]
  | true => [.load 0 (.holds 63#32), .updateShared 0, .updated 0, .get 1]

def exampleStart : Distribution (Fin 2) ModeT :=
  (run (step id) (initial 0) (exampleLoads false)).get rfl

def exampleReload : Distribution (Fin 2) ModeT :=
  (run (step id) exampleStart (exampleLoads true)).get rfl

theorem thisThread_run_client : exampleReload.thisThread 1 = some ⟨1, 18#32⟩ :=
  (thisThread_run (exampleLoads true) rfl (Option.some_get _).symm).2 (by decide)

/-! ## Versions -/

/-- A thread loads, shares or has the configuration. -/
def Present (s : Distribution τ κ) (config : Versioned κ) : Prop :=
  s.shared = some config ∨ (∃ t, s.thisThread t = some config) ∨ ∃ t, s.stage t = .loaded config

theorem Copied.present {config : Versioned κ} (hcopied : Copied t s s') (h : Present s' config) :
    Present s config := by
  have hshared : s'.shared = s.shared := by rw [hcopied.frame]
  have hstage : s'.stage = s.stage := by rw [hcopied.frame]
  rw [Present, hshared, hstage] at h
  obtain h | ⟨t', h⟩ | h := h
  · exact .inl h
  · by_cases ht : t' = t
    · subst ht
      obtain hown | ⟨hown, -⟩ := hcopied.own
      · exact .inr (.inl ⟨t', by rw [← hown, h]⟩)
      · exact .inl (by rw [← hown, h])
    · exact .inr (.inl ⟨t', by rw [← hcopied.others t' ht, h]⟩)
  · exact .inr (.inr h)

/-- Only a file that is read brings in a configuration, and it gets the next version. -/
theorem step_present {e : Event τ κ} {config : Versioned κ} (h : step umaskOf s e = some s')
    (hpresent : Present s' config) : s.latestVersion ≤ s'.latestVersion ∧ (Present s config ∨
      ∃ t settings, e = .load t (.holds settings) ∧ s'.latestVersion = s.latestVersion + 1 ∧
        config = ⟨s.latestVersion + 1, settings⟩) := by
  have hkeep : ∀ {t : τ} {s1 : Distribution τ κ}, Copied t s s1 → s1.latestVersion = s.latestVersion := by
    intro t s1 hcopied
    rw [hcopied.frame]
  cases e with
  | load t file =>
    simp only [step] at h
    split at h
    · cases file with
      | missing =>
        cases h
        exact ⟨le_refl _, .inl hpresent⟩
      | malformed =>
        cases h
        exact ⟨by simp, .inl hpresent⟩
      | holds settings =>
        cases h
        refine ⟨by simp, ?_⟩
        obtain hshared | hcopy | ⟨t', ht'⟩ := hpresent
        · exact .inl (.inl hshared)
        · exact .inl (.inr (.inl hcopy))
        · by_cases ht : t' = t
          · subst ht
            simp only [Function.update_self, Stage.loaded.injEq] at ht'
            exact .inr ⟨t', settings, rfl, rfl, ht'.symm⟩
          · simp only [Function.update_of_ne ht] at ht'
            exact .inl (.inr (.inr ⟨t', ht'⟩))
    · cases h
  | updateShared t =>
    simp only [step] at h
    split at h
    · rename_i loaded hloaded
      cases h
      refine ⟨le_refl _, .inl ?_⟩
      obtain hshared | hcopy | ⟨t', ht'⟩ := hpresent
      · exact .inr (.inr ⟨t, hloaded.trans (by rw [Option.some.inj hshared])⟩)
      · exact .inr (.inl hcopy)
      · by_cases ht : t' = t
        · subst ht
          simp at ht'
        · simp only [Function.update_of_ne ht] at ht'
          exact .inr (.inr ⟨t', ht'⟩)
    · cases h
  | updated t =>
    simp only [step] at h
    split at h
    · rename_i s1 _ hget
      split at h
      · cases h
        obtain ⟨hcopied, -⟩ := get_copied hget
        refine ⟨(hkeep hcopied).ge, .inl (hcopied.present ?_)⟩
        obtain hshared | hcopy | ⟨t', ht'⟩ := hpresent
        · exact .inl hshared
        · exact .inr (.inl hcopy)
        · by_cases ht : t' = t
          · subst ht
            simp at ht'
          · simp only [Function.update_of_ne ht] at ht'
            exact .inr (.inr ⟨t', ht'⟩)
      · cases h
    · cases h
  | updateLocal t =>
    obtain ⟨hcopied, -⟩ := updateLocal_copied h
    exact ⟨(hkeep hcopied).ge, .inl (hcopied.present hpresent)⟩
  | get t =>
    obtain ⟨hcopied, -⟩ := get_copied h
    exact ⟨(hkeep hcopied).ge, .inl (hcopied.present hpresent)⟩
  | chmod t =>
    cases h
    exact ⟨le_refl _, .inl hpresent⟩

/-- Versions tell the configurations apart. -/
structure Numbered (s : Distribution τ κ) : Prop where
  bound : ∀ config, Present s config → config.version ≤ s.latestVersion
  unique : ∀ config config', Present s config → Present s config' → config.version = config'.version →
    config = config'

theorem step_numbered {e : Event τ κ} (hs : Numbered s) (h : step umaskOf s e = some s') : Numbered s' := by
  constructor
  · intro config hconfig
    obtain ⟨hle, hold | ⟨t, settings, -, hlatest, rfl⟩⟩ := step_present h hconfig
    · exact (hs.bound config hold).trans hle
    · exact hlatest.ge
  · intro config config' hconfig hconfig' heq
    obtain ⟨-, hold | ⟨t, settings, he, -, rfl⟩⟩ := step_present h hconfig
    · obtain ⟨-, hold' | ⟨t', settings', -, -, rfl⟩⟩ := step_present h hconfig'
      · exact hs.unique config config' hold hold' heq
      · have := hs.bound config hold
        simp only at heq
        omega
    · obtain ⟨-, hold' | ⟨t', settings', he', -, rfl⟩⟩ := step_present h hconfig'
      · have := hs.bound config' hold'
        simp only at heq
        omega
      · rw [he] at he'
        cases he'
        rfl

omit [DecidableEq τ] in
theorem initial_numbered (umask : ModeT) : Numbered (initial umask : Distribution τ κ) := by
  have hnone : ∀ config, ¬ Present (initial umask : Distribution τ κ) config := by
    rintro config (h | ⟨t, h⟩ | ⟨t, h⟩) <;> cases h
  exact ⟨fun config h => absurd h (hnone config), fun config _ h _ _ => absurd h (hnone config)⟩

/-! ## What is shared reaches a thread -/

/-- The configuration that a step shares. -/
def sharing (s : Distribution τ κ) : Event τ κ → Option (Versioned κ)
  | .updateShared t =>
    match s.stage t with
    | .loaded config => some config
    | _ => none
  | _ => none

/-- What was shared before is older. Two threads that load at once can share out of order. -/
def InOrder (s : Distribution τ κ) (e : Event τ κ) : Prop :=
  ∀ config ∈ s.sharing e, ∀ shared ∈ s.shared, shared.version ≤ config.version

instance (s : Distribution τ κ) (e : Event τ κ) : Decidable (InOrder s e) :=
  inferInstanceAs (Decidable (∀ config ∈ s.sharing e, ∀ shared ∈ s.shared, shared.version ≤ config.version))

def NewestShared (s : Distribution τ κ) : Prop :=
  ∀ t config, s.thisThread t = some config → ∃ shared, s.shared = some shared ∧ config.version ≤ shared.version

theorem Copied.newestShared {s1 : Distribution τ κ} (hs : NewestShared s) (hcopied : Copied t s s1)
    (hcopy : s'.thisThread = s1.thisThread) (hshared : s'.shared = s.shared) : NewestShared s' := by
  intro t' config hconfig
  rw [hcopy] at hconfig
  rw [hshared]
  by_cases ht : t' = t
  · subst ht
    obtain hown | ⟨hown, -⟩ := hcopied.own
    · exact hs t' config (by rw [← hown, hconfig])
    · exact ⟨config, by rw [← hown, hconfig], le_refl _⟩
  · exact hs t' config (by rw [← hcopied.others t' ht, hconfig])

theorem step_newestShared {e : Event τ κ} (hs : NewestShared s) (horder : InOrder s e)
    (h : step umaskOf s e = some s') : NewestShared s' := by
  cases e with
  | load t file =>
    simp only [step] at h
    split at h
    · cases file <;> cases h <;> exact hs
    · cases h
  | updateShared t =>
    simp only [step] at h
    split at h
    · rename_i loaded hloaded
      cases h
      intro t' config hconfig
      obtain ⟨shared, hshared, hle⟩ := hs t' config hconfig
      exact ⟨loaded, rfl, hle.trans (horder loaded (by simp [sharing, hloaded]) shared hshared)⟩
    · cases h
  | updated t =>
    simp only [step] at h
    split at h
    · rename_i s1 _ hget
      split at h
      · cases h
        obtain ⟨hcopied, -⟩ := get_copied hget
        have hshared : s1.shared = s.shared := by rw [hcopied.frame]
        exact hcopied.newestShared hs rfl hshared
      · cases h
    · cases h
  | updateLocal t =>
    obtain ⟨hcopied, -⟩ := updateLocal_copied h
    exact hcopied.newestShared hs rfl (by rw [hcopied.frame])
  | get t =>
    obtain ⟨hcopied, -⟩ := get_copied h
    exact hcopied.newestShared hs rfl (by rw [hcopied.frame])
  | chmod t =>
    cases h
    exact hs

/-- From one `UpdateLocal` to the next a thread runs under one configuration, whatever the others load
and share in between: no older one than was shared when it called, and that one itself where the
configurations were shared in the order they were loaded in. -/
theorem distribution_run {umask : ModeT} (l₁ l₂ : List (Event τ κ))
    (hrun : run (step umaskOf) (initial umask) l₁ = some s)
    (hnext : run (step umaskOf) s (.updateLocal t :: l₂) = some s') (hl : ∀ e ∈ l₂, e ≠ .updateLocal t) :
    ∃ shared config, s.shared = some shared ∧ s'.thisThread t = some config ∧
      shared.version ≤ config.version ∧
      (Meets (step umaskOf) InOrder (initial umask) l₁ → config = shared) := by
  obtain ⟨s1, hlocal, hrest⟩ := run_cons_inv hnext
  obtain ⟨hcopied, hnewer⟩ := updateLocal_copied hlocal
  obtain ⟨shared, hshared⟩ : ∃ shared, s.shared = some shared := by
    cases hshared : s.shared with
    | none => simp [step, updateLocal, hshared] at hlocal
    | some shared => exact ⟨shared, rfl⟩
  obtain ⟨config, hconfig⟩ := hcopied.some
  have hle := hnewer shared hshared config hconfig
  refine ⟨shared, config, hshared, run_kept l₂ hl hconfig hrest, hle, fun horder => ?_⟩
  · obtain hown | ⟨hown, -⟩ := hcopied.own
    · have hnumbered : Numbered s := run_invariant (fun _ _ _ => step_numbered) l₁ (initial_numbered umask) hrun
      have hnewest : NewestShared s := run_invariant_of_meets (fun _ _ _ => step_newestShared) l₁
        (fun t config h => by cases h) horder hrun
      rw [hown] at hconfig
      obtain ⟨shared', hshared', hge⟩ := hnewest t config hconfig
      rw [hshared] at hshared'
      obtain rfl := Option.some.inj hshared'
      exact hnumbered.unique config shared (.inr (.inl ⟨t, hconfig⟩)) (.inl hshared) (by omega)
    · rw [hown, hshared] at hconfig
      exact (Option.some.inj hconfig).symm

theorem distribution_run_client :
    ∃ shared config, exampleReload.shared = some shared ∧
      ((exampleReload.updateLocal 1).bind fun s => s.thisThread 1) = some config ∧ config = shared := by
  have hrun : run (step id) (initial 0) (exampleLoads false ++ exampleLoads true) = some exampleReload := rfl
  obtain ⟨shared, config, hshared, hconfig, -, heq⟩ := distribution_run (t := 1) _ [] hrun rfl (by simp)
  exact ⟨shared, config, hshared, hconfig, heq (by decide)⟩

/-! ## The umask -/

theorem step_umask {e : Event τ κ} (h : step umaskOf s e = some s') : s'.umask = s.umask ∨ s'.umask = 0 ∨
    ∃ t config, e = .updated t ∧ s'.thisThread t = some config ∧ s'.umask = umaskOf config.settings := by
  cases e with
  | load t file =>
    simp only [step] at h
    split at h
    · cases file <;> cases h <;> exact .inl rfl
    · cases h
  | updateShared t =>
    simp only [step] at h
    split at h
    · cases h
      exact .inl rfl
    · cases h
  | updated t =>
    simp only [step] at h
    split at h
    · split at h
      · rename_i config hconfig
        cases h
        exact .inr (.inr ⟨t, config, rfl, hconfig, rfl⟩)
      · cases h
    · cases h
  | updateLocal t =>
    left
    rw [(updateLocal_copied h).1.frame]
  | get t =>
    left
    rw [(get_copied h).1.frame]
  | chmod t =>
    cases h
    exact .inr (.inl rfl)

end Distribution
end Cfg
end Ebftpd
