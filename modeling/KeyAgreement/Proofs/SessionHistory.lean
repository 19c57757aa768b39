import KeyAgreement.Proofs.DerivationOrder
import KeyAgreement.Session

/-!
# Histories of a session

Of all the steps of a session only three kinds touch the service, and what each of them does to it
depends on nothing but what the service holds. `Service.Move` lists these moves together with the
events that tell of them, and `move_step` says that there are no others; what is to be shown of the
service over a whole history is shown of one move and carried over by `run_induction`, or over the
sessions `before` each call by `before_succ`.
-/

namespace KeyAgreement

/-- The two calls that start the service. -/
def Step.IsStart (step : Step) : Prop := step = .start ∨ step = .startReporting

/-- The events that tell when the service begins and ceases to hold parameters. -/
def Event.isLifecycle : Event → Bool
  | .parametersReady | .parametersReleased => true
  | _ => false

/-- What a step can do to the service, and the lifecycle events that it reports. -/
inductive Service.Move (s : Service) : Step → Service → List Event → Prop where
  | started {step : Step} (hstep : step.IsStart) (hs : s.current = none) :
      Move s step ⟨some ⟨s.built, .standard⟩, s.built + 1⟩ [.parametersReady]
  | stopped {held : Handle} (hs : s.current = some held) :
      Move s .stop ⟨none, s.built⟩ [.parametersReleased]
  | built {name : String} {choice : ModpGroup.Choice} {G : ModpGroup} (hG : choice.group = .ok G) :
      Move s (.newHandle name choice) ⟨s.current, s.built + 1⟩ []
  | kept {step : Step} (hstart : step.IsStart → s.current ≠ none)
      (hstop : step = .stop → s.current = none)
      (hnew : ∀ name choice, step = .newHandle name choice → ∀ G, choice.group ≠ .ok G) :
      Move s step s []

namespace Service

variable {s s' : Service} {step : Step} {marks : List Event}

/-- The parameters held are the standard ones, and they were counted when they were built. -/
def IsSound (s : Service) : Prop :=
  ∀ held, s.current = some held → held.origin < s.built ∧ held.group = .standard

/-- Seen from what the service holds there are three moves: it is filled, emptied, or left alone. -/
theorem Move.current_cases (h : s.Move step s' marks) :
    (step.IsStart ∧ s.current = none ∧ s'.current = some ⟨s.built, .standard⟩ ∧
      s'.built = s.built + 1) ∨
    (step = .stop ∧ s.current ≠ none ∧ s'.current = none ∧ s'.built = s.built) ∨
    ((step.IsStart → s.current ≠ none) ∧ (step = .stop → s.current = none) ∧
      s'.current = s.current ∧ s.built ≤ s'.built) := by
  cases h with
  | started hstep hs => exact Or.inl ⟨hstep, hs, rfl, rfl⟩
  | stopped hs => exact Or.inr (Or.inl ⟨rfl, by simp [hs], rfl, rfl⟩)
  | built hG => exact Or.inr (Or.inr ⟨nofun, nofun, rfl, Nat.le_succ _⟩)
  | kept hstart hstop hnew => exact Or.inr (Or.inr ⟨hstart, hstop, rfl, Nat.le_refl _⟩)

theorem Move.isSound (h : s.Move step s' marks) (hs : s.IsSound) : s'.IsSound := by
  intro held hheld
  rcases h.current_cases with ⟨-, -, hc, hb⟩ | ⟨-, -, hc, -⟩ | ⟨-, -, hc, hb⟩
  · obtain rfl := Option.some.inj (hc.symm.trans hheld)
    exact ⟨hb ▸ Nat.lt_succ_self _, rfl⟩
  · cases hc.symm.trans hheld
  · obtain ⟨horigin, hgroup⟩ := hs held (hc ▸ hheld)
    exact ⟨Nat.lt_of_lt_of_le horigin hb, hgroup⟩

theorem isSound_of_empty (hs : s.current = none) : s.IsSound := by
  intro held hheld
  cases hs.symm.trans hheld

end Service

/-! ## Events of the operations on keys -/

theorem KeyPair.filter_generate {σ : Type} (G : ModpGroup) (source : Entropy σ) (state : σ) :
    (KeyPair.generate G source state).1.events.filter Event.isLifecycle = [] := by
  unfold KeyPair.generate
  rcases KeyPair.draw G source state with ⟨cause | pair, after⟩
  · rfl
  · dsimp only
    cases pair.tokens G <;> rfl

namespace SharedSecret

theorem NumbersLead.filter_events {G : ModpGroup} {x y : ℕ} {r : Logged (Except Fault String)}
    (h : NumbersLead G x y r) : r.events.filter Event.isLifecycle = [] := by
  cases h <;> rfl

theorem TokensLead.filter_events {G : ModpGroup} {own peer : String}
    {r : Logged (Except Fault String)} (h : TokensLead G own peer r) :
    r.events.filter Event.isLifecycle = [] := by
  cases h with
  | numbers _ _ hn => exact hn.filter_events
  | _ => rfl

end SharedSecret

namespace SelfTest

theorem filter_meet (G : ModpGroup) (a b : KeyTokens) :
    (meet G a b).events.filter Event.isLifecycle = [] := by
  have hleft := (SharedSecret.tokensLead_derive G a.privateToken b.publicToken).filter_events
  have hright := (SharedSecret.tokensLead_derive G b.privateToken a.publicToken).filter_events
  unfold meet Logged.andThen
  split
  · exact hleft
  · rw [Logged.events_map, List.filter_append, hleft, hright]
    rfl

theorem filter_exchange {σ : Type} (G : ModpGroup) (source : Entropy σ) (state : σ) :
    (exchange G source state).1.events.filter Event.isLifecycle = [] := by
  have hfirst := KeyPair.filter_generate G source state
  unfold exchange
  dsimp only
  split
  · exact hfirst
  · have hsecond := KeyPair.filter_generate G source (KeyPair.generate G source state).2
    split
    · rw [List.filter_append, hfirst, hsecond]
      rfl
    · rw [List.filter_append, List.filter_append, hfirst, hsecond, filter_meet]
      rfl

end SelfTest

namespace Session

variable {σ : Type} {source : Entropy σ} {s : Session σ} {history : List Step} {step : Step}

/-! ## The steps that touch the service -/

theorem step_start_of_empty (hs : s.service.current = none) :
    s.step source .start = (⟨.done, [.parametersReady]⟩,
      { s with service := ⟨some ⟨s.service.built, .standard⟩, s.service.built + 1⟩ }) := by
  simp only [Session.step, Service.start, hs]
  rfl

theorem step_start_of_held {held : Handle} (hs : s.service.current = some held) :
    s.step source .start = (.silent (.fault .alreadyRunning), s) := by
  simp only [Session.step, Service.start, hs]
  rfl

theorem step_startReporting_of_empty (hs : s.service.current = none) :
    s.step source .startReporting = (⟨.truth true, [.parametersReady]⟩,
      { s with service := ⟨some ⟨s.service.built, .standard⟩, s.service.built + 1⟩ }) := by
  simp only [Session.step, Service.startReporting, Service.start, hs]
  rfl

theorem step_startReporting_of_held {held : Handle} (hs : s.service.current = some held) :
    s.step source .startReporting
      = (⟨.truth false, [.startRefused .alreadyRunning]⟩, s) := by
  simp only [Session.step, Service.startReporting, Service.start, hs]
  rfl

theorem step_stop_of_held {held : Handle} (hs : s.service.current = some held) :
    s.step source .stop
      = (⟨.done, [.parametersReleased]⟩, { s with service := ⟨none, s.service.built⟩ }) := by
  simp only [Session.step, Service.stop, hs]
  rfl

theorem step_stop_of_empty (hs : s.service.current = none) :
    s.step source .stop = (.silent .done, s) := by
  simp only [Session.step, Service.stop, hs]
  rfl

theorem step_newHandle_of_ok {name : String} {choice : ModpGroup.Choice} {G : ModpGroup}
    (hG : choice.group = .ok G) :
    s.step source (.newHandle name choice) = (.silent .done,
      { s with service := ⟨s.service.current, s.service.built + 1⟩ }.keep name
        ⟨s.service.built, G⟩) := by
  simp only [Session.step, hG]
  rfl

theorem step_newHandle_of_error {name : String} {choice : ModpGroup.Choice} {cause : GroupFault}
    (hG : choice.group = .error cause) :
    s.step source (.newHandle name choice) = (.silent (.fault (.group cause)), s) := by
  simp only [Session.step, hG]

/-! ## Moves of the service -/

/-- What a step does to the service is one of the moves. -/
theorem move_step (source : Entropy σ) (s : Session σ) (step : Step) :
    s.service.Move step (s.step source step).2.service
      ((s.step source step).1.events.filter Event.isLifecycle) := by
  cases step with
  | start =>
    cases hs : s.service.current with
    | none =>
      rw [step_start_of_empty hs]
      exact .started (Or.inl rfl) hs
    | some held =>
      rw [step_start_of_held hs]
      exact .kept (fun _ => by simp [hs]) nofun nofun
  | startReporting =>
    cases hs : s.service.current with
    | none =>
      rw [step_startReporting_of_empty hs]
      exact .started (Or.inr rfl) hs
    | some held =>
      rw [step_startReporting_of_held hs]
      exact .kept (fun _ => by simp [hs]) nofun nofun
  | stop =>
    cases hs : s.service.current with
    | none =>
      rw [step_stop_of_empty hs]
      exact .kept nofun (fun _ => hs) nofun
    | some held =>
      rw [step_stop_of_held hs]
      exact .stopped hs
  | newHandle name choice =>
    cases hG : choice.group with
    | ok G =>
      rw [step_newHandle_of_ok hG]
      exact .built hG
    | error cause =>
      rw [step_newHandle_of_error hG]
      refine .kept nofun nofun ?_
      rintro _ _ ⟨⟩ G hok
      cases hG.symm.trans hok
  | derive target own peer =>
    cases hg : s.group target with
    | error answer =>
      simp only [Session.step, hg]
      exact .kept nofun nofun nofun
    | ok G =>
      have hevents := (SharedSecret.tokensLead_derive G own peer).filter_events
      simp only [Session.step, hg, Logged.events_map, hevents]
      exact .kept nofun nofun nofun
  | generate target =>
    cases hg : s.group target with
    | error answer =>
      simp only [Session.step, hg]
      exact .kept nofun nofun nofun
    | ok G =>
      have hevents := KeyPair.filter_generate G source s.entropy
      simp only [Session.step, hg, SelfTest.generate, Logged.events_map, hevents]
      exact .kept nofun nofun nofun
  | exchange target =>
    cases hg : s.group target with
    | error answer =>
      simp only [Session.step, hg]
      exact .kept nofun nofun nofun
    | ok G =>
      have hevents := SelfTest.filter_exchange G source s.entropy
      simp only [Session.step, hg, Logged.events_map, hevents]
      exact .kept nofun nofun nofun
  | decodePublic target token =>
    simp only [Session.step]
    split <;> exact .kept nofun nofun nofun
  | takeHandle name =>
    simp only [Session.step]
    split <;> exact .kept nofun nofun nofun
  | cloneHandle kept name =>
    simp only [Session.step]
    split <;> exact .kept nofun nofun nofun
  | compare name other =>
    simp only [Session.step]
    split <;> exact .kept nofun nofun nofun
  | describe name =>
    simp only [Session.step]
    split <;> exact .kept nofun nofun nofun
  | isRunning => exact .kept nofun nofun nofun

/-! ## Runs -/

/-- What every step preserves holds at the end of a history, of the session and of its log. -/
theorem run_induction {motive : Session σ → List Event → Prop} (log : List Event)
    (hs : motive s log)
    (hstep : ∀ s log step, motive s log →
      motive (s.step source step).2 (log ++ (s.step source step).1.events))
    (history : List Step) :
    motive (s.run source history).2 (log ++ (s.run source history).1.events) := by
  induction history generalizing s log with
  | nil =>
    show motive s (log ++ [])
    rw [List.append_nil]
    exact hs
  | cons first rest ih =>
    have htail := ih _ (hstep s log first hs)
    rw [List.append_assoc] at htail
    exact htail

theorem isSound_run (source : Entropy σ) (h₀ : s.service.current = none) (history : List Step) :
    (s.run source history).2.service.IsSound :=
  run_induction (motive := fun s _ => s.service.IsSound) [] (Service.isSound_of_empty h₀)
    (fun s _ step hs => (move_step source s step).isSound hs) history

theorem run_append (front back : List Step) :
    s.run source (front ++ back)
      = (⟨(s.run source front).1.outcome ++ ((s.run source front).2.run source back).1.outcome,
          (s.run source front).1.events ++ ((s.run source front).2.run source back).1.events⟩,
        ((s.run source front).2.run source back).2) := by
  induction front generalizing s with
  | nil => rfl
  | cons first rest ih =>
    simp only [List.cons_append, run, ih, List.append_assoc]

/-- The session before the call at an index of a history; from the length of the history on, the
session after all calls. -/
def before (source : Entropy σ) (s : Session σ) (history : List Step) (i : ℕ) : Session σ :=
  (s.run source (history.take i)).2

theorem before_zero : before source s history 0 = s := rfl

theorem before_length : before source s history history.length = (s.run source history).2 := by
  rw [before, List.take_length]

theorem before_succ {i : ℕ} (h : history[i]? = some step) :
    before source s history (i + 1) = ((before source s history i).step source step).2 := by
  rw [before, List.take_add_one, h, run_append]
  rfl

theorem before_succ_of_none {i : ℕ} (h : history[i]? = none) :
    before source s history (i + 1) = before source s history i := by
  rw [before, List.take_add_one, h, Option.toList_none, List.append_nil, before]

/-- From one call to the next the service makes a move, unless the history is over. -/
theorem move_before (source : Entropy σ) (s : Session σ) (history : List Step) (i : ℕ) :
    (∃ step marks, history[i]? = some step ∧ (before source s history i).service.Move step
      (before source s history (i + 1)).service marks) ∨
    (history[i]? = none ∧ before source s history (i + 1) = before source s history i) := by
  cases h : history[i]? with
  | none => exact Or.inr ⟨rfl, before_succ_of_none h⟩
  | some step =>
    rw [before_succ h]
    exact Or.inl ⟨step, _, rfl, move_step source _ step⟩

end Session

end KeyAgreement
