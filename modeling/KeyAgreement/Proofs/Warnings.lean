import KeyAgreement.Entropy.Tape
import KeyAgreement.Proofs.Generating
import KeyAgreement.Proofs.SessionHistory

/-!
# What the log warns of

A warning is a refusal that somebody should look at: a token off the alphabet, a public value out of
range, or a second start. A derivation and a reporting start warn of each of their refusals, once,
and nothing else in the library warns of anything; so the warnings of a log can be counted from the
answers of its history. The vetting of a peer's token refuses for the same reasons as a derivation
does, but it reports nothing, as `refused_unreported_standard` shows.

The main statement is `warnings_eq_refusals`.
-/

namespace KeyAgreement

/-! ## Warnings and refusals -/

/-- The number of warnings among the events of a course. -/
def Event.warnings (events : List Event) : ℕ := events.countP fun e => e.level = .warn

theorem Event.warnings_append (front back : List Event) :
    warnings (front ++ back) = warnings front + warnings back :=
  List.countP_append

/-- The faults of a token off the alphabet and of a value out of range. -/
def Fault.isOfToken : Fault → Bool
  | .invalidCharset | .invalidPublicKey => true
  | _ => false

/-- A call that is refused for a token off the alphabet, for a value out of range, or for being a
second start, as its answer tells. -/
def Step.isRefused : Step → Answer → Bool
  | .derive _ _ _, .fault cause => cause.isOfToken
  | .decodePublic _ _, .fault cause => cause.isOfToken
  | .startReporting, .truth started => !started
  | _, _ => false

/-- The calls that vet a peer's token and do nothing with it. -/
def Step.isVetting : Step → Bool
  | .decodePublic _ _ => true
  | _ => false

/-! ## Operations on keys -/

section Keys

variable {G : ModpGroup} {σ : Type} {source : Entropy σ} {state : σ}

theorem SharedSecret.TokensLead.warnings_events {own peer : String}
    {r : Logged (Except Fault String)} (h : TokensLead G own peer r) :
    Event.warnings r.events =
      if r.outcome = .error .invalidCharset ∨ r.outcome = .error .invalidPublicKey then 1
      else 0 := by
  cases h with
  | charset => rfl
  | peerToken => rfl
  | ownToken => rfl
  | numbers _ _ hnumbers => cases hnumbers <;> rfl

namespace KeyPair

theorem warnings_generate (G : ModpGroup) (source : Entropy σ) (state : σ) :
    Event.warnings (generate G source state).1.events = 0 := by
  cases hdraw : (draw G source state).1 with
  | error cause =>
    rw [generate_of_draw_error hdraw]
    rfl
  | ok pair =>
    obtain ⟨keys, hkeys, -⟩ := (BuiltIn.drawn source state hdraw).isOf.exists_tokens
    rw [generate_of_draw_ok hdraw hkeys]
    rfl

/-- Tokens that were handed out are those of a pair of the group. -/
theorem exists_isOf_of_generate {keys : KeyTokens}
    (h : (generate G source state).1.outcome = .ok keys) :
    ∃ pair : KeyPair, pair.IsOf G ∧ keys.privateToken = pair.privateToken ∧
      pair.publicToken G = .ok keys.publicToken := by
  cases hdraw : (draw G source state).1 with
  | error cause =>
    rw [generate_of_draw_error hdraw] at h
    cases h
  | ok pair =>
    have hpair := (BuiltIn.drawn source state hdraw).isOf
    obtain ⟨keys', hkeys, hprivate, hpublic, -⟩ := hpair.exists_tokens
    rw [generate_of_draw_ok hdraw hkeys] at h
    obtain rfl := Except.ok.inj h
    exact ⟨pair, hpair, hprivate, hpublic⟩

end KeyPair

/-- Nothing is refused between two pairs of the group. -/
theorem SharedSecret.warnings_derive_tokens {own peer : KeyPair} {token : String}
    (hown : own.IsOf G) (hpeer : peer.IsOf G) (htoken : peer.publicToken G = .ok token) :
    Event.warnings (derive G own.privateToken token).events = 0 := by
  obtain ⟨token', htoken', hderive⟩ := derive_tokens own hpeer
  obtain rfl := Except.ok.inj (htoken.symm.trans htoken')
  rw [hderive, deriveFrom_eq hown hpeer.isPublic]
  split <;> rfl

namespace SelfTest

theorem warnings_meet {a b : KeyTokens} {A B : KeyPair} (hA : A.IsOf G) (hB : B.IsOf G)
    (ha : a.privateToken = A.privateToken) (ha' : A.publicToken G = .ok a.publicToken)
    (hb : b.privateToken = B.privateToken) (hb' : B.publicToken G = .ok b.publicToken) :
    Event.warnings (meet G a b).events = 0 := by
  have hleft := SharedSecret.warnings_derive_tokens hA hB hb'
  have hright := SharedSecret.warnings_derive_tokens hB hA ha'
  unfold meet Logged.andThen
  rw [ha, hb]
  split
  · exact hleft
  · rw [Logged.events_map, Event.warnings_append, hleft, hright]

theorem warnings_exchange (G : ModpGroup) (source : Entropy σ) (state : σ) :
    Event.warnings (exchange G source state).1.events = 0 := by
  have hfirst := KeyPair.warnings_generate G source state
  have hsecond := KeyPair.warnings_generate G source (KeyPair.generate G source state).2
  unfold exchange
  dsimp only
  split
  · exact hfirst
  · rename_i a ha
    split
    · rw [Event.warnings_append, hfirst, hsecond]
    · rename_i b hb
      obtain ⟨A, hA, hprivate, hpublic⟩ := KeyPair.exists_isOf_of_generate ha
      obtain ⟨B, hB, hprivate', hpublic'⟩ := KeyPair.exists_isOf_of_generate hb
      rw [Event.warnings_append, Event.warnings_append, hfirst, hsecond,
        warnings_meet hA hB hprivate hpublic hprivate' hpublic']

end SelfTest

end Keys

namespace Session

variable {σ : Type} {source : Entropy σ} {s : Session σ}

/-! ## One call -/

theorem answer_of_group_error {target : Target} {answer : Answer}
    (h : s.group target = .error answer) :
    answer = .fault .notRunning ∨ ∃ name, answer = .unknownHandle name := by
  cases target with
  | service =>
    cases hs : s.service.current <;> simp only [group, Service.handle, hs] at h <;> cases h
    exact Or.inl rfl
  | handle name =>
    cases hn : s.handle? name <;> simp only [group, hn] at h <;> cases h
    exact Or.inr ⟨name, rfl⟩

theorem isRefused_derive_iff {target : Target} {own peer : String} {answer : Answer} :
    Step.isRefused (.derive target own peer) answer = true ↔
      answer = .fault .invalidCharset ∨ answer = .fault .invalidPublicKey := by
  cases answer with
  | fault cause => cases cause <;> simp [Step.isRefused, Fault.isOfToken]
  | _ => simp [Step.isRefused]

theorem of_secret_eq_fault_iff {outcome : Except Fault String} {cause : Fault} :
    Answer.of .secret outcome = .fault cause ↔ outcome = .error cause := by
  cases outcome <;> simp [Answer.of]

theorem warnings_step_derive (source : Entropy σ) (s : Session σ) (target : Target)
    (own peer : String) :
    Event.warnings (s.step source (.derive target own peer)).1.events =
      if (s.step source (.derive target own peer)).1.outcome = .fault .invalidCharset ∨
        (s.step source (.derive target own peer)).1.outcome = .fault .invalidPublicKey then 1
      else 0 := by
  cases hg : s.group target with
  | error answer =>
    simp only [Session.step, hg]
    rcases answer_of_group_error hg with rfl | ⟨name, rfl⟩ <;> rfl
  | ok G =>
    have hwarnings := (SharedSecret.tokensLead_derive G own peer).warnings_events
    simp only [Session.step, hg, Logged.events_map, Logged.outcome_map, hwarnings,
      of_secret_eq_fault_iff]

theorem events_step_decodePublic (target : Target) (token : String) :
    (s.step source (.decodePublic target token)).1.events = [] := by
  simp only [Session.step]
  split <;> rfl

/-- A call warns once if it is refused and does more than to vet a token, and not at all
otherwise. -/
theorem warnings_step (source : Entropy σ) (s : Session σ) (step : Step) :
    Event.warnings (s.step source step).1.events =
      if step.isRefused (s.step source step).1.outcome && !step.isVetting then 1 else 0 := by
  cases step with
  | derive target own peer =>
    have hkeys : Step.isVetting (.derive target own peer) = false := rfl
    simp only [warnings_step_derive, hkeys, Bool.not_false, Bool.and_true, isRefused_derive_iff]
  | decodePublic target token =>
    have hvets : Step.isVetting (.decodePublic target token) = true := rfl
    rw [events_step_decodePublic, hvets, Bool.not_true, Bool.and_false]
    rfl
  | start =>
    cases hs : s.service.current with
    | none =>
      rw [step_start_of_empty hs]
      rfl
    | some held =>
      rw [step_start_of_held hs]
      rfl
  | startReporting =>
    cases hs : s.service.current with
    | none =>
      rw [step_startReporting_of_empty hs]
      rfl
    | some held =>
      rw [step_startReporting_of_held hs]
      rfl
  | stop =>
    cases hs : s.service.current with
    | none =>
      rw [step_stop_of_empty hs]
      rfl
    | some held =>
      rw [step_stop_of_held hs]
      rfl
  | generate target =>
    simp only [Session.step]
    split
    · rfl
    · exact KeyPair.warnings_generate _ source s.entropy
  | exchange target =>
    simp only [Session.step]
    split
    · rfl
    · exact SelfTest.warnings_exchange _ source s.entropy
  | takeHandle name =>
    simp only [Session.step]
    split <;> rfl
  | newHandle name choice =>
    simp only [Session.step]
    split <;> rfl
  | cloneHandle kept name =>
    simp only [Session.step]
    split <;> rfl
  | compare name other =>
    simp only [Session.step]
    split <;> rfl
  | describe name =>
    simp only [Session.step]
    split <;> rfl
  | isRunning => rfl

/-! ## Histories -/

/-- The calls of a history that are refused and that do more than to vet a token. -/
def refusals (history : List Step) (answers : List Answer) : ℕ :=
  (history.zip answers).countP fun call => call.1.isRefused call.2 && !call.1.isVetting

theorem warnings_run (source : Entropy σ) (s : Session σ) (history : List Step) :
    Event.warnings (s.run source history).1.events
      = refusals history (s.run source history).1.outcome := by
  induction history generalizing s with
  | nil => rfl
  | cons first rest ih =>
    have hhead := warnings_step source s first
    have htail := ih (s.step source first).2
    simp only [refusals] at htail ⊢
    simp only [run, Event.warnings_append, List.zip_cons_cons, List.countP_cons, hhead, htail]
    exact Nat.add_comm ..

/-- Each refusal of a derivation and of a reporting start is a warning, and there is no other: a
derivation warns once if it is refused for a token off the alphabet or for a value out of range, a
reporting start if the service is running, whatever the session is in. The warnings of a log are the
refusals among the answers of its history, where the vetting of a peer's token does not count: it
reports nothing, whatever it answers. -/
theorem warnings_eq_refusals (source : Entropy σ) :
    (∀ G own peer, Event.warnings (SharedSecret.derive G own peer).events =
      if (SharedSecret.derive G own peer).outcome = .error .invalidCharset ∨
        (SharedSecret.derive G own peer).outcome = .error .invalidPublicKey then 1 else 0) ∧
    (∀ (s : Session σ) target own peer,
      Event.warnings (s.step source (.derive target own peer)).1.events =
        if (s.step source (.derive target own peer)).1.outcome = .fault .invalidCharset ∨
          (s.step source (.derive target own peer)).1.outcome = .fault .invalidPublicKey then 1
        else 0) ∧
    (∀ s : Session σ, Event.warnings (s.step source .startReporting).1.events =
        (if s.service.current = none then 0 else 1) ∧
      ((s.step source .startReporting).1.outcome = .truth false ↔ s.service.current ≠ none)) ∧
    (∀ (s : Session σ) target token,
      (s.step source (.decodePublic target token)).1.events = []) ∧
    ∀ (s : Session σ) history, Event.warnings (s.run source history).1.events
      = refusals history (s.run source history).1.outcome := by
  refine ⟨fun G own peer => (SharedSecret.tokensLead_derive G own peer).warnings_events,
    warnings_step_derive source, ?_, fun s target token => events_step_decodePublic target token,
    warnings_run source⟩
  intro s
  cases hs : s.service.current with
  | none =>
    rw [step_startReporting_of_empty hs]
    exact ⟨rfl, iff_of_false nofun fun h => h rfl⟩
  | some held =>
    rw [step_startReporting_of_held hs]
    exact ⟨rfl, iff_of_true rfl nofun⟩

example : ((fresh (Tape.once [])).run Tape.source [.startReporting, .startReporting,
    .derive .service "Ag" "AQ", .derive .service "Ag" "key?"]).1.events
      = [.parametersReady, .startRefused .alreadyRunning, .peerRefused 1, .charsetRefused] := rfl

/-- A token off the alphabet and a value out of range are refused by the vetting of a peer's token,
and the log of the session is empty. -/
theorem refused_unreported_standard :
    ((fresh (Tape.once [])).run Tape.source [.newHandle "a" .standard,
      .decodePublic (.handle "a") "key?", .decodePublic (.handle "a") "AQ"]).1
        = ⟨[.done, .fault .invalidCharset, .fault .invalidPublicKey], []⟩ ∧
      Step.isRefused (.decodePublic (.handle "a") "key?") (.fault .invalidCharset) = true ∧
      Step.isRefused (.decodePublic (.handle "a") "AQ") (.fault .invalidPublicKey) = true ∧
      ¬ ∀ (s : Session Tape) (step : Step),
        step.isRefused (s.step Tape.source step).1.outcome = true →
          Event.warnings (s.step Tape.source step).1.events = 1 := by
  refine ⟨rfl, rfl, rfl, fun h => ?_⟩
  have hrefused := h ((fresh (Tape.once [])).keep "a" ⟨0, .standard⟩)
    (.decodePublic (.handle "a") "key?") rfl
  cases hrefused

end Session

end KeyAgreement
