import KeyAgreement.Proofs.Lifecycle
import KeyAgreement.Proofs.Sharing

/-!
# Handles stand apart from the service

A handle is made over a group once, and from then on what is asked of it is answered from that group
alone: as the operations on the group answer it, with the same events, whatever else the session
does. A `Query` is what can be asked of a handle, and `queried` picks the answers to the queries of
one handle out of a history. Two histories with the same queries have the same answers, however the
steps between the queries differ, as long as no other handle is kept under the name.

The main statement is `queried_eq_of_madeOver`.
-/

namespace KeyAgreement

/-- What is asked of a group through a target, and answered without drawing random bytes. -/
inductive Query where
  | derive (privateToken peerToken : String)
  | decodePublic (token : String)
deriving DecidableEq

namespace Query

/-- The step that asks a query through a target. -/
def step (target : Target) : Query → Step
  | derive privateToken peerToken => .derive target privateToken peerToken
  | decodePublic token => .decodePublic target token

/-- The answer and the events of the operations on the group themselves. -/
def answer (G : ModpGroup) : Query → Logged Answer
  | derive privateToken peerToken =>
    (SharedSecret.derive G privateToken peerToken).map (.of .secret)
  | decodePublic token => .silent (.of .publicValue (PublicValue.decode G token))

end Query

/-- The query that a step asks of the handle of a name. -/
def Step.query? (name : String) : Step → Option Query
  | .derive (.handle other) privateToken peerToken =>
    if other = name then some (.derive privateToken peerToken) else none
  | .decodePublic (.handle other) token =>
    if other = name then some (.decodePublic token) else none
  | _ => none

theorem Step.query?_eq_some_iff {name : String} {step : Step} {query : Query} :
    step.query? name = some query ↔ step = query.step (.handle name) := by
  constructor
  · intro h
    unfold query? at h
    split at h
    case h_3 => cases h
    all_goals
      split at h
      · subst_vars
        cases h
        rfl
      · cases h
  · rintro rfl
    cases query <;> exact if_pos rfl

namespace Session

variable {σ : Type} {source : Entropy σ} {s : Session σ} {history : List Step}
  {name : String} {G : ModpGroup} {i : ℕ} {handle : Handle}

/-- The answers to the queries of the handle of a name in a history, with their events. -/
def queried (source : Entropy σ) (name : String) : Session σ → List Step → List (Logged Answer)
  | _, [] => []
  | s, first :: rest =>
    match first.query? name with
    | some _ => (s.step source first).1 :: queried source name (s.step source first).2 rest
    | none => queried source name (s.step source first).2 rest

/-! ## One query -/

theorem step_query {target : Target} (h : s.group target = .ok G) (query : Query) :
    s.step source (query.step target) = (query.answer G, s) := by
  cases query with
  | derive own peer => simp only [Query.step, Session.step, h, Query.answer]
  | decodePublic token => simp only [Query.step, Session.step, h, Query.answer]

theorem group_handle (h : s.handle? name = some handle) :
    s.group (.handle name) = .ok handle.group := by
  simp only [group, h]

/-! ## The queries of a history -/

/-- No call of a history keeps another handle under a name. -/
def Spares (source : Entropy σ) (s : Session σ) (history : List Step) (name : String) : Prop :=
  ∀ i, ¬ KeepsAt source s history i name

theorem Spares.handle?_step {first : Step} {rest : List Step}
    (h : Spares source s (first :: rest) name) :
    (s.step source first).2.handle? name = s.handle? name :=
  handle?_succ_of_not_keepsAt (h 0)

theorem Spares.tail {first : Step} {rest : List Step} (h : Spares source s (first :: rest) name) :
    Spares source (s.step source first).2 rest name := by
  intro i hkeeps
  exact h (i + 1) hkeeps

theorem spares_of_forall (h : ∀ step ∈ history, step.keptName? ≠ some name) :
    Spares source s history name := by
  rintro i ⟨step, hstep, hname, -⟩
  exact h step (List.mem_of_getElem? hstep) hname

/-- As long as the handle stays under its name, its queries are answered from its group. -/
theorem queried_eq_map_answer (hhandle : s.handle? name = some handle)
    (hspares : Spares source s history name) :
    queried source name s history
      = (history.filterMap (Step.query? name)).map (Query.answer handle.group) := by
  induction history generalizing s with
  | nil => rfl
  | cons first rest ih =>
    have hrest := ih (hspares.handle?_step.trans hhandle) hspares.tail
    cases hquery : first.query? name with
    | none => simp only [queried, hquery, List.filterMap_cons, hrest]
    | some query =>
      have hstep : (s.step source first).1 = query.answer handle.group := by
        rw [Step.query?_eq_some_iff.1 hquery, step_query (group_handle hhandle)]
      simp only [queried, hquery, List.filterMap_cons, hrest, hstep, List.map_cons]

/-! ## The group that a handle is made over -/

/-- The session that a history leads to from the start. -/
def reached (source : Entropy σ) (entropy : σ) (history : List Step) : Session σ :=
  ((fresh entropy).run source history).2

/-- After a history from the start, the handle under a name goes back to a call that hands out
parameters of a group. -/
def MadeOver (source : Entropy σ) (entropy : σ) (history : List Step) (name : String)
    (G : ModpGroup) : Prop :=
  ∃ i, StemsFrom source (fresh entropy) history history.length name i ∧ GivesAt history i G

theorem exists_givesAt (hcall : TakesAt history i ∨ BuildsAt history i)
    (hgiven : givenAt? source s history i = some handle) : ∃ G, GivesAt history i G := by
  rcases hcall with htakes | ⟨name, choice, hstep⟩
  · exact ⟨_, .taken htakes⟩
  · cases hG : choice.group with
    | ok G => exact ⟨G, .built hstep hG⟩
    | error cause =>
      rw [givenAt?_eq hstep, given?, hG] at hgiven
      cases hgiven

variable {entropy : σ}

theorem MadeOver.exists_handle (h : MadeOver source entropy history name G) :
    ∃ handle, (reached source entropy history).handle? name = some handle ∧ handle.group = G := by
  obtain ⟨i, hstems, hgives⟩ := h
  obtain ⟨-, handle, hgiven, hhandle⟩ := hstems.handle?_eq
  rw [before_length] at hhandle
  exact ⟨handle, hhandle, hgives.group_eq rfl hgiven⟩

theorem exists_madeOver (h : (reached source entropy history).handle? name = some handle) :
    ∃! G, MadeOver source entropy history name G := by
  obtain ⟨i, hstems, -⟩ := existsUnique_stemsFrom rfl h
  obtain ⟨hcall, given, hgiven, -⟩ := hstems.handle?_eq
  obtain ⟨G, hgives⟩ := exists_givesAt hcall hgiven
  refine ⟨G, ⟨i, hstems, hgives⟩, ?_⟩
  intro G' hmade
  obtain ⟨k, hk, hgroup⟩ := hmade.exists_handle
  obtain ⟨k', hk', hgroup'⟩ := MadeOver.exists_handle ⟨i, hstems, hgives⟩
  obtain rfl := Option.some.inj (hk.symm.trans hk')
  exact hgroup.symm.trans hgroup'

/-! ## Isolation -/

/-- Every handle of a session was made over one group, and from then on it stands apart. A query of
it is answered as the operations on that group answer it and changes nothing. So are all queries of
any history that goes on from there without another handle under the name; and two such histories
with the same queries have the same answers, even behind two different sessions, as long as both
handles were made over one group. A running service derives the secrets that every handle over the
standard group derives. -/
theorem queried_eq_of_madeOver (source : Entropy σ) (entropy : σ) (front : List Step)
    (name : String) :
    (∀ handle, (reached source entropy front).handle? name = some handle →
      ∃! G, MadeOver source entropy front name G) ∧
    ∀ G, MadeOver source entropy front name G →
      (∀ query : Query, (reached source entropy front).step source (query.step (.handle name))
        = (query.answer G, reached source entropy front)) ∧
      (∀ back, Spares source (reached source entropy front) back name →
        queried source name (reached source entropy front) back
          = (back.filterMap (Step.query? name)).map (Query.answer G)) ∧
      (∀ {τ : Type} (source' : Entropy τ) (entropy' : τ) (front' : List Step) (name' : String)
          (back back' : List Step), MadeOver source' entropy' front' name' G →
        Spares source (reached source entropy front) back name →
        Spares source' (reached source' entropy' front') back' name' →
        back.filterMap (Step.query? name) = back'.filterMap (Step.query? name') →
          queried source name (reached source entropy front) back
            = queried source' name' (reached source' entropy' front') back') ∧
      ((reached source entropy front).service.current ≠ none → G = .standard →
        ∀ privateToken peerToken,
          (reached source entropy front).step source (.derive .service privateToken peerToken)
            = (reached source entropy front).step source
                (.derive (.handle name) privateToken peerToken)) := by
  refine ⟨fun handle => exists_madeOver, ?_⟩
  intro G hmade
  obtain ⟨handle, hhandle, rfl⟩ := hmade.exists_handle
  have hgroup := group_handle hhandle
  refine ⟨step_query hgroup, fun back => queried_eq_map_answer hhandle, ?_, ?_⟩
  · intro τ source' entropy' front' name' back back' hmade' hspares hspares' hqueries
    obtain ⟨handle', hhandle', hsame⟩ := hmade'.exists_handle
    rw [queried_eq_map_answer hhandle hspares, queried_eq_map_answer hhandle' hspares', hsame,
      hqueries]
  · intro hheld hstandard privateToken peerToken
    obtain ⟨held, hheld⟩ := Option.ne_none_iff_exists'.1 hheld
    have hservice := group_service_of_held hheld
    rw [(isSound_run source rfl front held hheld).2] at hservice
    rw [hstandard] at hgroup
    exact (step_query hservice (.derive privateToken peerToken)).trans
      (step_query hgroup (.derive privateToken peerToken)).symm

/-- Two queries of a handle "b", with the service stopped and started around them, a handle that is
not to be had while it is stopped, and parameters of their own for another handle. -/
def interrupted : List Step :=
  [.stop, .decodePublic (.handle "b") "Ag", .takeHandle "b", .newHandle "c" (.custom [15] 7),
    .start, .derive (.handle "b") "Ag" "Ag"]

/-- The copy "b" of a handle of the first period is over the standard group. In the second period
its queries are answered as if nothing happened around them, and the service derives what it
derives. -/
theorem queried_eq_of_madeOver_restarted :
    MadeOver Tape.source (Tape.once []) restarted "b" .standard ∧
      (reached Tape.source (Tape.once []) restarted).service.current ≠ none ∧
      Spares Tape.source (reached Tape.source (Tape.once []) restarted) interrupted "b" ∧
      queried Tape.source "b" (reached Tape.source (Tape.once []) restarted) interrupted
        = queried Tape.source "b" (reached Tape.source (Tape.once []) restarted)
            [.decodePublic (.handle "b") "Ag", .derive (.handle "b") "Ag" "Ag"] ∧
      (reached Tape.source (Tape.once []) restarted).step Tape.source
          (.derive .service "Ag" "Ag")
        = (reached Tape.source (Tape.once []) restarted).step Tape.source
            (.derive (.handle "b") "Ag" "Ag") := by
  have hb : (reached Tape.source (Tape.once []) restarted).handle? "b" = some ⟨0, .standard⟩ := rfl
  obtain ⟨hexists, hall⟩ := queried_eq_of_madeOver Tape.source (Tape.once []) restarted "b"
  obtain ⟨G, hmade, -⟩ := hexists _ hb
  obtain ⟨handle, hhandle, hgroup⟩ := hmade.exists_handle
  obtain rfl := Option.some.inj (hb.symm.trans hhandle)
  subst hgroup
  have hheld : (reached Tape.source (Tape.once []) restarted).service.current ≠ none := by
    decide
  have hspares : Spares Tape.source (reached Tape.source (Tape.once []) restarted)
      interrupted "b" := by
    rintro i ⟨step, hstep, hname, hdone⟩
    -- only the third call names "b", and it comes while the service is stopped
    rcases i with _ | _ | _ | _ | _ | _ | i <;> cases hstep
    case succ.succ.zero => exact absurd hdone (by decide)
    all_goals exact absurd hname (by decide)
  obtain ⟨-, -, htwo, hservice⟩ := hall .standard hmade
  refine ⟨hmade, hheld, hspares, ?_, hservice hheld rfl "Ag" "Ag"⟩
  exact htwo Tape.source (Tape.once []) restarted "b" _ _ hmade hspares
    (spares_of_forall (by decide)) rfl

end Session

end KeyAgreement
