import KeyAgreement.Entropy.Tape
import KeyAgreement.Proofs.SessionHistory
import Mathlib.Data.List.Chain

/-!
# The life of the service

A service is filled by a successful start and emptied by a stop, and nothing else changes what it
holds. So whether it is running can be told from the history alone, by the last call that changed
anything, and from the log alone, by the last event of its lifecycle.

The main statement is `follows_lifecycle`. It speaks of the session at the end of any history, and
so of the session before every call of any history.
-/

namespace KeyAgreement

/-- A start is successful when it is answered so. -/
def Step.Started (step : Step) (answer : Answer) : Prop :=
  (step = .start ∧ answer = .done) ∨ (step = .startReporting ∧ answer = .truth true)

/-- The calls that need the parameters of the service. -/
inductive Step.NeedsService : Step → Prop where
  | takeHandle (name : String) : NeedsService (.takeHandle name)
  | generate : NeedsService (.generate .service)
  | derive (own peer : String) : NeedsService (.derive .service own peer)

/-- The lifecycle events of a log tell what a service holds: the two of them alternate, beginning
with the one that tells of parameters, and this one is also the last while the service holds any. -/
structure Service.Fits (s : Service) (marks : List Event) : Prop where
  alternate : marks.IsChain (· ≠ ·)
  head : ∀ e ∈ marks.head?, e = .parametersReady
  last_iff : marks.getLast? = some .parametersReady ↔ s.current ≠ none

/-- What the calls do to a session, by what its service holds. -/
structure Session.Regulated {σ : Type} (source : Entropy σ) (s : Session σ) : Prop where
  standard : ∀ held, s.service.current = some held → held.group = .standard
  isRunning : ∃ running, s.step source .isRunning = (.silent (.truth running), s) ∧
    (running = true ↔ s.service.current ≠ none)
  /-- A start succeeds exactly when nothing is held, and whatever comes of it, the service holds
  parameters afterwards. -/
  start : ∀ step : Step, step.IsStart →
    (step.Started (s.step source step).1.outcome ↔ s.service.current = none) ∧
    (s.step source step).2.service.current ≠ none
  /-- A refused start leaves the session as it is, the parameters held included. -/
  start_refused : s.service.current ≠ none →
    s.step source .start = (.silent (.fault .alreadyRunning), s) ∧
    s.step source .startReporting = (⟨.truth false, [.startRefused .alreadyRunning]⟩, s)
  stop : (s.step source .stop).2.service.current = none
  /-- The other calls leave the service as it is, and fail for want of parameters exactly when it
  holds none. -/
  needs : ∀ step : Step, step.NeedsService →
    (s.step source step).2.service = s.service ∧
    ((s.step source step).1.outcome = .fault .notRunning ↔ s.service.current = none) ∧
    (s.service.current = none → s.step source step = (.silent (.fault .notRunning), s))

namespace Service

variable {s s' : Service} {step : Step} {old new : List Event}

theorem fits_of_empty (hs : s.current = none) : s.Fits [] where
  alternate := .nil
  head := nofun
  last_iff := by simp [hs]

/-- The events still fit when those of a move come behind them. -/
theorem Fits.move (h : s.Fits old) (hmove : s.Move step s' new) : s'.Fits (old ++ new) := by
  obtain ⟨hchain, hhead, hlast⟩ := h
  cases hmove with
  | started hstep hs =>
    refine ⟨List.isChain_append.2 ⟨hchain, .singleton _, ?_⟩, ?_, by simp⟩
    · rintro x hx y hy rfl
      obtain rfl := Option.mem_some.1 hy
      exact hlast.1 hx hs
    · intro e he
      cases hold : old.head? with
      | none => simpa [hold] using he.symm
      | some first =>
        rw [List.head?_append, hold] at he
        exact hhead e (hold ▸ he)
  | stopped hs =>
    have hready : old.getLast? = some .parametersReady := hlast.2 (by simp [hs])
    have hne : old ≠ [] := by
      rintro rfl
      cases hready
    refine ⟨List.isChain_append.2 ⟨hchain, .singleton _, ?_⟩, ?_, by simp⟩
    · intro x hx y hy
      obtain rfl := Option.mem_some.1 hy
      obtain rfl := Option.mem_some.1 (hready ▸ hx)
      exact nofun
    · intro e he
      rw [List.head?_append_of_ne_nil _ hne] at he
      exact hhead e he
  | built hG =>
    rw [List.append_nil]
    exact ⟨hchain, hhead, hlast⟩
  | kept =>
    rw [List.append_nil]
    exact ⟨hchain, hhead, hlast⟩

end Service

theorem SharedSecret.TokensLead.outcome_ne_notRunning {G : ModpGroup} {own peer : String}
    {r : Logged (Except Fault String)} (h : TokensLead G own peer r) :
    r.outcome ≠ .error .notRunning := by
  cases h with
  | numbers _ _ hn => cases hn <;> exact nofun
  | _ => exact nofun

theorem Answer.of_ne_fault {α : Type} {answer : α → Answer} {cause : Fault}
    {outcome : Except Fault α} (h : ∀ value, answer value ≠ .fault cause)
    (hne : outcome ≠ .error cause) : Answer.of answer outcome ≠ .fault cause := by
  cases outcome with
  | error cause' =>
    intro heq
    exact hne (congrArg Except.error (Answer.fault.inj heq))
  | ok value => exact h value

namespace Session

variable {σ : Type} {source : Entropy σ} {s : Session σ} {history : List Step} {n : ℕ}

/-! ## One call -/

theorem group_service_of_empty (hs : s.service.current = none) :
    s.group .service = .error (.fault .notRunning) := by
  simp only [group, Service.handle, hs]

theorem group_service_of_held {held : Handle} (hs : s.service.current = some held) :
    s.group .service = .ok held.group := by
  simp only [group, Service.handle, hs]

theorem step_of_needsService_of_empty {step : Step} (h : step.NeedsService)
    (hs : s.service.current = none) :
    s.step source step = (.silent (.fault .notRunning), s) := by
  cases h with
  | takeHandle name => simp only [Session.step, Service.handle, hs]
  | generate => simp only [Session.step, group_service_of_empty hs]
  | derive own peer => simp only [Session.step, group_service_of_empty hs]

theorem outcome_ne_of_needsService_of_held {step : Step} {held : Handle} (h : step.NeedsService)
    (hs : s.service.current = some held) :
    (s.step source step).1.outcome ≠ .fault .notRunning := by
  cases h with
  | takeHandle name =>
    simp only [Session.step, Service.handle, hs]
    intro hfault
    cases hfault
  | generate =>
    simp only [Session.step, group_service_of_held hs, SelfTest.generate, Logged.outcome_map]
    intro hfault
    cases hout : (KeyPair.generate held.group source s.entropy).1.outcome <;>
      rw [hout] at hfault <;> cases hfault
  | derive own peer =>
    have hlead := SharedSecret.tokensLead_derive held.group own peer
    simp only [Session.step, group_service_of_held hs, Logged.outcome_map]
    refine Answer.of_ne_fault ?_ hlead.outcome_ne_notRunning
    intro secret hsecret
    cases hsecret

theorem service_step_of_needsService {step : Step} (h : step.NeedsService) :
    (s.step source step).2.service = s.service := by
  cases h with
  | takeHandle name =>
    simp only [Session.step]
    split <;> rfl
  | generate =>
    simp only [Session.step]
    split <;> rfl
  | derive own peer =>
    simp only [Session.step]
    split <;> rfl

theorem started_iff {step : Step} (h : step.IsStart) :
    step.Started (s.step source step).1.outcome ↔ s.service.current = none := by
  cases hs : s.service.current with
  | none =>
    refine iff_of_true ?_ rfl
    rcases h with rfl | rfl
    · exact Or.inl ⟨rfl, by rw [step_start_of_empty hs]⟩
    · exact Or.inr ⟨rfl, by rw [step_startReporting_of_empty hs]⟩
  | some held =>
    refine iff_of_false ?_ nofun
    rcases h with rfl | rfl
    · rw [step_start_of_held hs]
      rintro (⟨-, h⟩ | ⟨h, -⟩) <;> cases h
    · rw [step_startReporting_of_held hs]
      rintro (⟨h, -⟩ | ⟨-, h⟩) <;> cases h

theorem held_after_start {step : Step} (h : step.IsStart) :
    (s.step source step).2.service.current ≠ none := by
  have hmove := move_step source s step
  rcases hmove.current_cases with ⟨-, -, hc, -⟩ | ⟨hstop, -⟩ | ⟨hstart, -, hc, -⟩
  · rw [hc]
    exact nofun
  · rcases h with rfl | rfl <;> cases hstop
  · rw [hc]
    exact hstart h

theorem regulated (source : Entropy σ) (hs : s.service.IsSound) : Regulated source s where
  standard held hheld := (hs held hheld).2
  isRunning := by
    refine ⟨s.service.isRunning, rfl, ?_⟩
    rw [Service.isRunning, Option.isSome_iff_ne_none]
  start step h := ⟨started_iff h, held_after_start h⟩
  start_refused hne := by
    obtain ⟨held, hs⟩ := Option.ne_none_iff_exists'.1 hne
    exact ⟨step_start_of_held hs, step_startReporting_of_held hs⟩
  stop := by
    cases hs : s.service.current with
    | none => rw [step_stop_of_empty hs, hs]
    | some held => rw [step_stop_of_held hs]
  needs step h := by
    refine ⟨service_step_of_needsService h, ?_, step_of_needsService_of_empty h⟩
    cases hs : s.service.current with
    | none =>
      rw [step_of_needsService_of_empty h hs]
      exact iff_of_true rfl rfl
    | some held => exact iff_of_false (outcome_ne_of_needsService_of_held h hs) nofun

/-! ## A whole history -/

/-- The call at an index changes what the service holds. -/
def ChangesAt (source : Entropy σ) (s : Session σ) (history : List Step) (i : ℕ) : Prop :=
  (before source s history (i + 1)).service.current ≠ (before source s history i).service.current

/-- The call at an index is a successful start. -/
def StartsAt (source : Entropy σ) (s : Session σ) (history : List Step) (i : ℕ) : Prop :=
  ∃ step, history[i]? = some step ∧
    step.Started ((before source s history i).step source step).1.outcome

/-- Of the first `n` calls the last that changed what the service holds is a successful start. -/
def LastChangeStarts (source : Entropy σ) (s : Session σ) (history : List Step) (n : ℕ) : Prop :=
  ∃ i < n, ChangesAt source s history i ∧ StartsAt source s history i ∧
    ∀ j, i < j → j < n → ¬ ChangesAt source s history j

theorem lastChangeStarts_succ_of_not (h : ¬ ChangesAt source s history n) :
    LastChangeStarts source s history (n + 1) ↔ LastChangeStarts source s history n := by
  constructor
  · rintro ⟨i, hi, hchange, hstart, hlast⟩
    have hlt : i < n := by
      rcases Nat.eq_or_lt_of_le (Nat.le_of_lt_succ hi) with rfl | hlt
      · exact absurd hchange h
      · exact hlt
    exact ⟨i, hlt, hchange, hstart, fun j hij hj => hlast j hij (Nat.lt_succ_of_lt hj)⟩
  · rintro ⟨i, hi, hchange, hstart, hlast⟩
    refine ⟨i, Nat.lt_succ_of_lt hi, hchange, hstart, ?_⟩
    intro j hij hj
    rcases Nat.eq_or_lt_of_le (Nat.le_of_lt_succ hj) with rfl | hlt
    · exact h
    · exact hlast j hij hlt

theorem lastChangeStarts_succ_of_changes (h : ChangesAt source s history n) :
    LastChangeStarts source s history (n + 1) ↔ StartsAt source s history n := by
  constructor
  · rintro ⟨i, hi, -, hstart, hlast⟩
    rcases Nat.eq_or_lt_of_le (Nat.le_of_lt_succ hi) with rfl | hlt
    · exact hstart
    · exact absurd h (hlast n hlt (Nat.lt_succ_self n))
  · intro hstart
    refine ⟨n, Nat.lt_succ_self n, h, hstart, ?_⟩
    intro j hij hj
    omega

theorem held_iff_lastChangeStarts (h₀ : s.service.current = none) (n : ℕ) :
    (before source s history n).service.current ≠ none ↔ LastChangeStarts source s history n := by
  -- a call that changes what is held settles both sides, any other call leaves both as they were
  induction n with
  | zero =>
    refine iff_of_false (by rw [before_zero, h₀]; exact not_not_intro rfl) ?_
    rintro ⟨i, hi, -⟩
    omega
  | succ n ih =>
    rcases move_before source s history n with ⟨step, marks, hstep, hmove⟩ | ⟨-, hsame⟩
    · rcases hmove.current_cases with ⟨hstart, hc, hc', -⟩ | ⟨rfl, hc, hc', -⟩ | ⟨-, -, hc, -⟩
      · have hchange : ChangesAt source s history n := by
          rw [ChangesAt, hc, hc']
          exact nofun
        rw [lastChangeStarts_succ_of_changes hchange, hc']
        exact iff_of_true nofun ⟨step, hstep, (started_iff hstart).2 hc⟩
      · have hchange : ChangesAt source s history n := by
          rw [ChangesAt, hc']
          exact hc.symm
        rw [lastChangeStarts_succ_of_changes hchange, hc']
        refine iff_of_false (not_not_intro rfl) ?_
        rintro ⟨step, hstep', hstarted⟩
        obtain rfl := Option.some.inj (hstep.symm.trans hstep')
        rcases hstarted with ⟨h, -⟩ | ⟨h, -⟩ <;> cases h
      · rw [lastChangeStarts_succ_of_not (not_not_intro hc), hc, ih]
    · rw [lastChangeStarts_succ_of_not (not_not_intro (by rw [hsame])), hsame, ih]

theorem fits_run (h₀ : s.service.current = none) (history : List Step) :
    (s.run source history).2.service.Fits
      ((s.run source history).1.events.filter Event.isLifecycle) := by
  refine run_induction (motive := fun s log => s.service.Fits (log.filter Event.isLifecycle))
    [] (Service.fits_of_empty h₀) ?_ history
  intro s log step hs
  rw [List.filter_append]
  exact hs.move (move_step source s step)

/-- From a service that holds nothing, every history leads to a session whose calls follow the rules
of its lifecycle. The service is running exactly when the last call that changed what it holds was a
successful start, the log tells the same by the two events that alternate in it, and a refused start
that is to be reported is a warning with the wording of its fault. -/
theorem follows_lifecycle (source : Entropy σ) {s : Session σ} (h₀ : s.service.current = none)
    (history : List Step) :
    Regulated source (s.run source history).2 ∧
    (((s.run source history).2.step source .isRunning).1.outcome = .truth true ↔
      LastChangeStarts source s history history.length) ∧
    (s.run source history).2.service.Fits
      ((s.run source history).1.events.filter Event.isLifecycle) ∧
    (∀ e : Event, e.isLifecycle = true ↔
      e.message = "dh1080 parameters initialized" ∨ e.message = "dh1080 parameters released") ∧
    Event.parametersReady.message = "dh1080 parameters initialized" ∧
    Event.parametersReleased.message = "dh1080 parameters released" ∧
    (Event.startRefused .alreadyRunning).level = .warn ∧
    (Event.startRefused .alreadyRunning).fields
      = [("error", .text "DH1080 is already initialized")] := by
  have hregulated := regulated source (isSound_run source h₀ history)
  refine ⟨hregulated, ?_, fits_run h₀ history, ?_, rfl, rfl, rfl, rfl⟩
  · obtain ⟨running, hstep, hrunning⟩ := hregulated.isRunning
    rw [← held_iff_lastChangeStarts h₀, before_length, ← hrunning, hstep]
    exact ⟨Answer.truth.inj, congrArg Answer.truth⟩
  · intro e
    cases e <;> simp [Event.isLifecycle, Event.message]

/-- A service that was started, stopped and started again is running, though it refused a start in
between. -/
theorem follows_lifecycle_restarted :
    (fresh (Tape.once [])).service.current = none ∧
      Regulated Tape.source ((fresh (Tape.once [])).run Tape.source
        [.start, .startReporting, .stop, .startReporting]).2 ∧
      LastChangeStarts Tape.source (fresh (Tape.once []))
        [.start, .startReporting, .stop, .startReporting] 4 ∧
      ((fresh (Tape.once [])).run Tape.source
        [.start, .startReporting, .stop, .startReporting]).1.events
          = [.parametersReady, .startRefused .alreadyRunning, .parametersReleased,
            .parametersReady] := by
  have h₀ : (fresh (Tape.once [])).service.current = none := rfl
  obtain ⟨hregulated, hrunning, -⟩ := follows_lifecycle Tape.source h₀
    [.start, .startReporting, .stop, .startReporting]
  exact ⟨h₀, hregulated, hrunning.1 rfl, rfl⟩

end Session

end KeyAgreement
