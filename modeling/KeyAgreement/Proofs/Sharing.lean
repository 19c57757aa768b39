import KeyAgreement.Entropy.Tape
import KeyAgreement.Proofs.SessionHistory
import Mathlib.Order.Monotone.Basic

/-!
# Which handles share their parameters

A handle refers to parameters that were built once, by the call that asked for parameters of its
own or by the start of the service that it was taken from. Where a handle comes from can be told
from the history alone: `StemsFrom` follows the copies under a name back to the call that first
handed the handle out, and `SameOrigin` says when two such calls handed out the same parameters.

The number that a set of parameters carries is never given twice, so it tells them apart. The main
statement is `sharesWith_iff_sameOrigin`.
-/

namespace KeyAgreement

/-- The name under which a step is to keep a handle. -/
def Step.keptName? : Step → Option String
  | .takeHandle name | .newHandle name _ | .cloneHandle _ name => some name
  | _ => none

namespace Session

variable {σ : Type} {source : Entropy σ} {s : Session σ} {history : List Step} {step : Step}
  {name : String} {i j n : ℕ}

/-! ## Where handles come from -/

/-- The call at an index takes a handle on the parameters of the service. -/
def TakesAt (history : List Step) (i : ℕ) : Prop := ∃ name, history[i]? = some (.takeHandle name)

/-- The call at an index asks for parameters of its own. -/
def BuildsAt (history : List Step) (i : ℕ) : Prop :=
  ∃ name choice, history[i]? = some (.newHandle name choice)

/-- The call at an index keeps a handle under a name, and is answered so. -/
def KeepsAt (source : Entropy σ) (s : Session σ) (history : List Step) (i : ℕ) (name : String) :
    Prop :=
  ∃ step, history[i]? = some step ∧ step.keptName? = some name ∧
    ((before source s history i).step source step).1.outcome = .done

/-- The call at an index stops a service that holds parameters. -/
def EndsAt (source : Entropy σ) (s : Session σ) (history : List Step) (i : ℕ) : Prop :=
  history[i]? = some .stop ∧ (before source s history i).service.current ≠ none

/-- After the first `n` calls, the handle under a name goes back to the call at an index, through
the copies that were made on the way. -/
inductive StemsFrom (source : Entropy σ) (s : Session σ) (history : List Step) :
    (n : ℕ) → (name : String) → (i : ℕ) → Prop where
  | handedOut {i : ℕ} {name : String} (h : TakesAt history i ∨ BuildsAt history i)
      (hkeeps : KeepsAt source s history i name) : StemsFrom source s history (i + 1) name i
  | copied {n i : ℕ} {kept name : String} (h : history[n]? = some (.cloneHandle kept name))
      (hkeeps : KeepsAt source s history n name) (hkept : StemsFrom source s history n kept i) :
      StemsFrom source s history (n + 1) name i
  | stayed {n i : ℕ} {name : String} (h : ¬ KeepsAt source s history n name)
      (hname : StemsFrom source s history n name i) : StemsFrom source s history (n + 1) name i

/-- Two calls hand out the same parameters: they are one call that builds them, or both take a
handle and the service was not emptied in between. -/
def SameOrigin (source : Entropy σ) (s : Session σ) (history : List Step) (i j : ℕ) : Prop :=
  (BuildsAt history i ∧ i = j) ∨
  (TakesAt history i ∧ TakesAt history j ∧
    ∀ m, min i j < m → m < max i j → ¬ EndsAt source s history m)

/-- The call at an index hands out parameters of a group: those of the service are the standard
ones, and a call for parameters of its own names them. -/
inductive GivesAt (history : List Step) (i : ℕ) : ModpGroup → Prop where
  | taken (h : TakesAt history i) : GivesAt history i .standard
  | built {name : String} {choice : ModpGroup.Choice} {G : ModpGroup}
      (h : history[i]? = some (.newHandle name choice)) (hchoice : choice.group = .ok G) :
      GivesAt history i G

/-- The call at an index is about the standard group. -/
def StandardAt (history : List Step) (i : ℕ) : Prop :=
  TakesAt history i ∨
    ∃ name choice, history[i]? = some (.newHandle name choice) ∧ choice.group = .ok .standard

/-! ## The handle that a call gives -/

/-- The handle that a step keeps, if there is one to keep. -/
def given? (s : Session σ) : Step → Option Handle
  | .takeHandle _ => s.service.current
  | .newHandle _ choice => choice.group.toOption.map fun G => ⟨s.service.built, G⟩
  | .cloneHandle kept _ => s.handle? kept
  | _ => none

theorem handle?_keep (s : Session σ) (name other : String) (handle : Handle) :
    (s.keep name handle).handle? other
      = if other = name then some handle else s.handle? other := by
  rw [handle?, keep, List.lookup_cons]
  by_cases h : other = name
  · rw [if_pos h, beq_iff_eq.2 h]
  · rw [if_neg h, beq_eq_false_iff_ne.2 h]
    rfl

theorem step_of_given (source : Entropy σ) {handle : Handle} (hname : step.keptName? = some name)
    (hgiven : s.given? step = some handle) :
    (s.step source step).1.outcome = .done ∧
      ∀ other, (s.step source step).2.handle? other
        = if other = name then some handle else s.handle? other := by
  cases step with
  | takeHandle name' =>
    obtain rfl := Option.some.inj hname
    replace hgiven : s.service.current = some handle := hgiven
    simp only [Session.step, Service.handle, hgiven]
    exact ⟨rfl, fun other => handle?_keep s name' other handle⟩
  | newHandle name' choice =>
    obtain rfl := Option.some.inj hname
    obtain ⟨G, hG, rfl⟩ := Option.map_eq_some_iff.1 hgiven
    cases hchoice : choice.group with
    | error cause =>
      rw [hchoice] at hG
      cases hG
    | ok G' =>
      rw [hchoice] at hG
      obtain rfl := Option.some.inj hG
      rw [step_newHandle_of_ok hchoice]
      exact ⟨rfl, fun other => handle?_keep _ name' other _⟩
  | cloneHandle kept name' =>
    obtain rfl := Option.some.inj hname
    replace hgiven : s.handle? kept = some handle := hgiven
    simp only [Session.step, hgiven]
    exact ⟨rfl, fun other => handle?_keep s name' other handle⟩
  | _ => cases hname

theorem step_of_not_given (source : Entropy σ) (hname : step.keptName? = some name)
    (hgiven : s.given? step = none) :
    (s.step source step).1.outcome ≠ .done ∧ (s.step source step).2 = s := by
  cases step with
  | takeHandle name' =>
    replace hgiven : s.service.current = none := hgiven
    have hstep : s.step source (.takeHandle name') = (.silent (.fault .notRunning), s) := by
      simp only [Session.step, Service.handle, hgiven]
    rw [hstep]
    refine ⟨?_, rfl⟩
    intro hdone
    cases hdone
  | newHandle name' choice =>
    cases hchoice : choice.group with
    | error cause =>
      rw [step_newHandle_of_error hchoice]
      refine ⟨?_, rfl⟩
      intro hdone
      cases hdone
    | ok G =>
      rw [given?, hchoice] at hgiven
      cases hgiven
  | cloneHandle kept name' =>
    replace hgiven : s.handle? kept = none := hgiven
    have hstep : s.step source (.cloneHandle kept name') = (.silent (.unknownHandle kept), s) := by
      simp only [Session.step, hgiven]
    rw [hstep]
    refine ⟨?_, rfl⟩
    intro hdone
    cases hdone
  | _ => cases hname

theorem handles_step_of_keptName?_eq_none (hname : step.keptName? = none) :
    (s.step source step).2.handles = s.handles := by
  cases step with
  | takeHandle name => cases hname
  | newHandle name choice => cases hname
  | cloneHandle kept name => cases hname
  | start => rfl
  | startReporting => rfl
  | stop => rfl
  | isRunning => rfl
  | _ =>
    simp only [Session.step]
    split <;> rfl

/-! ## The handle under a name -/

/-- The handle that the call at an index gives. -/
def givenAt? (source : Entropy σ) (s : Session σ) (history : List Step) (i : ℕ) : Option Handle :=
  history[i]?.bind (before source s history i).given?

theorem givenAt?_eq (h : history[i]? = some step) :
    givenAt? source s history i = (before source s history i).given? step := by
  rw [givenAt?, h, Option.bind_some]

/-- A call that keeps a handle keeps the one that it gives. -/
theorem handle?_succ_of_keepsAt (h : KeepsAt source s history n name) :
    ∃ handle, givenAt? source s history n = some handle ∧
      (before source s history (n + 1)).handle? name = some handle := by
  obtain ⟨step, hstep, hname, hdone⟩ := h
  rw [givenAt?_eq hstep, before_succ hstep]
  cases hgiven : (before source s history n).given? step with
  | none => exact absurd hdone (step_of_not_given source hname hgiven).1
  | some handle =>
    refine ⟨handle, rfl, ?_⟩
    rw [(step_of_given source hname hgiven).2, if_pos rfl]

theorem handle?_succ_of_not_keepsAt (h : ¬ KeepsAt source s history n name) :
    (before source s history (n + 1)).handle? name = (before source s history n).handle? name := by
  cases hstep : history[n]? with
  | none => rw [before_succ_of_none hstep]
  | some step =>
    rw [before_succ hstep]
    cases hname : step.keptName? with
    | none => rw [handle?, handle?, handles_step_of_keptName?_eq_none hname]
    | some other =>
      cases hgiven : (before source s history n).given? step with
      | none => rw [(step_of_not_given source hname hgiven).2]
      | some handle =>
        obtain ⟨hdone, hhandle⟩ := step_of_given source hname hgiven
        have hne : name ≠ other := by
          rintro rfl
          exact h ⟨step, hstep, hname, hdone⟩
        rw [hhandle, if_neg hne]

theorem not_clone_of_takes_or_builds {kept : String} (h : TakesAt history i ∨ BuildsAt history i) :
    history[i]? ≠ some (.cloneHandle kept name) := by
  intro hclone
  rcases h with ⟨_, h⟩ | ⟨_, _, h⟩ <;> cases h.symm.trans hclone

/-- The handle under a name is the one that was given by the call it stems from. -/
theorem StemsFrom.handle?_eq (h : StemsFrom source s history n name i) :
    (TakesAt history i ∨ BuildsAt history i) ∧
      ∃ handle, givenAt? source s history i = some handle ∧
        (before source s history n).handle? name = some handle := by
  induction h with
  | handedOut h hkeeps => exact ⟨h, handle?_succ_of_keepsAt hkeeps⟩
  | copied h hkeeps hkept ih =>
    obtain ⟨hcall, handle, hgiven, hhandle⟩ := ih
    obtain ⟨copy, hcopy, hhandle'⟩ := handle?_succ_of_keepsAt hkeeps
    rw [givenAt?_eq h] at hcopy
    obtain rfl := Option.some.inj (hhandle.symm.trans hcopy)
    exact ⟨hcall, handle, hgiven, hhandle'⟩
  | stayed h hname ih => rwa [handle?_succ_of_not_keepsAt h]

theorem exists_stemsFrom (h₀ : s.handles = []) {handle : Handle}
    (h : (before source s history n).handle? name = some handle) :
    ∃ i, StemsFrom source s history n name i := by
  induction n generalizing name handle with
  | zero =>
    rw [before_zero, handle?, h₀] at h
    cases h
  | succ n ih =>
    by_cases hkeeps : KeepsAt source s history n name
    · obtain ⟨handle', hgiven, -⟩ := handle?_succ_of_keepsAt hkeeps
      have ⟨step, hstep, hname, _⟩ := hkeeps
      cases step with
      | takeHandle name' =>
        exact ⟨n, .handedOut (Or.inl ⟨name', hstep⟩) hkeeps⟩
      | newHandle name' choice =>
        exact ⟨n, .handedOut (Or.inr ⟨name', choice, hstep⟩) hkeeps⟩
      | cloneHandle kept name' =>
        obtain rfl := Option.some.inj hname
        rw [givenAt?_eq hstep] at hgiven
        obtain ⟨i, hi⟩ := ih hgiven
        exact ⟨i, .copied hstep hkeeps hi⟩
      | _ => cases hname
    · rw [handle?_succ_of_not_keepsAt hkeeps] at h
      obtain ⟨i, hi⟩ := ih h
      exact ⟨i, .stayed hkeeps hi⟩

theorem StemsFrom.unique (hi : StemsFrom source s history n name i)
    (hj : StemsFrom source s history n name j) : i = j := by
  -- the last call fixes the rule: it hands out, it copies, or it leaves the name alone
  induction hi generalizing j with
  | handedOut h hkeeps =>
    cases hj with
    | handedOut => rfl
    | copied hclone => exact absurd hclone (not_clone_of_takes_or_builds h)
    | stayed hnot => exact absurd hkeeps hnot
  | copied h hkeeps hkept ih =>
    cases hj with
    | handedOut hcall => exact absurd h (not_clone_of_takes_or_builds hcall)
    | copied hclone _ hkept' =>
      cases h.symm.trans hclone
      exact ih hkept'
    | stayed hnot => exact absurd hkeeps hnot
  | stayed h hname ih =>
    cases hj with
    | handedOut _ hkeeps => exact absurd hkeeps h
    | copied _ hkeeps => exact absurd hkeeps h
    | stayed _ hname' => exact ih hname'

theorem existsUnique_stemsFrom (h₀ : s.handles = []) {handle : Handle}
    (h : (s.run source history).2.handle? name = some handle) :
    ∃! i, StemsFrom source s history history.length name i := by
  rw [← before_length] at h
  obtain ⟨i, hi⟩ := exists_stemsFrom h₀ h
  exact ⟨i, hi, fun j hj => hj.unique hi⟩

/-! ## What the service holds between two calls -/

theorem isSound_before (h₀ : s.service.current = none) (i : ℕ) :
    (before source s history i).service.IsSound :=
  isSound_run source h₀ (history.take i)

/-- A call fills the service, ends its period, or leaves alone what it holds. -/
theorem current_succ (source : Entropy σ) (s : Session σ) (history : List Step) (n : ℕ) :
    (before source s history n).service.built ≤ (before source s history (n + 1)).service.built ∧
    ((¬ EndsAt source s history n ∧ (before source s history n).service.current = none ∧
      (before source s history (n + 1)).service.current
        = some ⟨(before source s history n).service.built, .standard⟩) ∨
    (EndsAt source s history n ∧ (before source s history (n + 1)).service.current = none) ∨
    (¬ EndsAt source s history n ∧ (before source s history (n + 1)).service.current
      = (before source s history n).service.current)) := by
  rcases move_before source s history n with ⟨step, marks, hstep, hmove⟩ | ⟨hstep, hsame⟩
  · rcases hmove.current_cases with ⟨-, hc, hc', hb⟩ | ⟨rfl, hc, hc', hb⟩ | ⟨-, hstop, hc, hb⟩
    · exact ⟨hb ▸ Nat.le_succ _, Or.inl ⟨fun hends => hends.2 hc, hc, hc'⟩⟩
    · exact ⟨Nat.le_of_eq hb.symm, Or.inr (Or.inl ⟨⟨hstep, hc⟩, hc'⟩)⟩
    · refine ⟨hb, Or.inr (Or.inr ⟨?_, hc⟩)⟩
      rintro ⟨hstep', hne⟩
      exact hne (hstop (Option.some.inj (hstep.symm.trans hstep')))
  · rw [hsame]
    refine ⟨Nat.le_refl _, Or.inr (Or.inr ⟨?_, rfl⟩)⟩
    rintro ⟨hstep', -⟩
    cases hstep.symm.trans hstep'

theorem built_mono (h : i ≤ j) :
    (before source s history i).service.built ≤ (before source s history j).service.built :=
  monotone_nat_of_le_succ (f := fun n => (before source s history n).service.built)
    (fun n => (current_succ source s history n).1) h

/-- Parameters are held until the service is emptied. -/
theorem current_of_not_endsAt {held : Handle} (hij : i ≤ j)
    (hi : (before source s history i).service.current = some held)
    (hends : ∀ m, i ≤ m → m < j → ¬ EndsAt source s history m) :
    (before source s history j).service.current = some held := by
  induction j, hij using Nat.le_induction with
  | base => exact hi
  | succ j hij ih =>
    have hj := ih fun m him hmj => hends m him (Nat.lt_succ_of_lt hmj)
    rcases (current_succ source s history j).2 with ⟨-, hc, -⟩ | ⟨hend, -⟩ | ⟨-, hc⟩
    · cases hc.symm.trans hj
    · exact absurd hend (hends j hij (Nat.lt_succ_self j))
    · rw [hc, hj]

/-- Parameters that are held were held all the time before, or were built in the meantime. -/
theorem current_or_built_le {held : Handle} (hij : i ≤ j)
    (hj : (before source s history j).service.current = some held) :
    ((before source s history i).service.current = some held ∧
      ∀ m, i ≤ m → m < j → ¬ EndsAt source s history m) ∨
    (before source s history i).service.built ≤ held.origin := by
  induction j, hij using Nat.le_induction with
  | base => exact Or.inl ⟨hj, fun m him hmi => absurd hmi (Nat.not_lt.2 him)⟩
  | succ j hij ih =>
    rcases (current_succ source s history j).2 with ⟨-, -, hc⟩ | ⟨-, hc⟩ | ⟨hend, hc⟩
    · obtain rfl := Option.some.inj (hc.symm.trans hj)
      exact Or.inr (built_mono hij)
    · cases hc.symm.trans hj
    · rcases ih (hc ▸ hj) with ⟨hi, hends⟩ | hle
      · refine Or.inl ⟨hi, ?_⟩
        intro m him hmj
        rcases Nat.eq_or_lt_of_le (Nat.le_of_lt_succ hmj) with rfl | hlt
        · exact hend
        · exact hends m him hlt
      · exact Or.inr hle

/-! ## The number of the parameters -/

theorem TakesAt.not_endsAt (h : TakesAt history i) : ¬ EndsAt source s history i := by
  obtain ⟨_, h⟩ := h
  rintro ⟨h', -⟩
  cases h.symm.trans h'

theorem TakesAt.givenAt?_eq_current (h : TakesAt history i) :
    givenAt? source s history i = (before source s history i).service.current := by
  obtain ⟨_, h⟩ := h
  exact givenAt?_eq h

/-- A call that builds parameters gives them the next number, and the service holds what it held. -/
theorem BuildsAt.service_succ {handle : Handle} (h : BuildsAt history i)
    (hgiven : givenAt? source s history i = some handle) :
    handle.origin = (before source s history i).service.built ∧
      (before source s history (i + 1)).service
        = ⟨(before source s history i).service.current, handle.origin + 1⟩ := by
  obtain ⟨name, choice, h⟩ := h
  rw [givenAt?_eq h, given?] at hgiven
  rw [before_succ h]
  cases hchoice : choice.group with
  | error cause =>
    rw [hchoice] at hgiven
    cases hgiven
  | ok G =>
    rw [hchoice] at hgiven
    obtain rfl := Option.some.inj hgiven
    rw [step_newHandle_of_ok hchoice]
    exact ⟨rfl, rfl⟩

theorem origin_lt_built_succ (h₀ : s.service.current = none) {handle : Handle}
    (h : TakesAt history i ∨ BuildsAt history i)
    (hgiven : givenAt? source s history i = some handle) :
    handle.origin < (before source s history (i + 1)).service.built := by
  rcases h with h | h
  · rw [h.givenAt?_eq_current] at hgiven
    exact Nat.lt_of_lt_of_le (isSound_before h₀ i handle hgiven).1 (built_mono (Nat.le_succ i))
  · rw [(h.service_succ hgiven).2]
    exact Nat.lt_succ_self _

/-- The handle that a call gives is on the group that the call is about. -/
theorem GivesAt.group_eq (h₀ : s.service.current = none) {G : ModpGroup} {handle : Handle}
    (h : GivesAt history i G) (hgiven : givenAt? source s history i = some handle) :
    handle.group = G := by
  cases h with
  | taken htakes =>
    rw [htakes.givenAt?_eq_current] at hgiven
    exact (isSound_before h₀ i handle hgiven).2
  | built hstep hchoice =>
    rw [givenAt?_eq hstep, given?, hchoice] at hgiven
    obtain rfl := Option.some.inj hgiven
    rfl

theorem StandardAt.givesAt (h : StandardAt history i) : GivesAt history i .standard := by
  rcases h with htakes | ⟨name, choice, hstep, hchoice⟩
  · exact .taken htakes
  · exact .built hstep hchoice

/-! ## Sharing -/

theorem SameOrigin.symm (h : SameOrigin source s history i j) :
    SameOrigin source s history j i := by
  rcases h with ⟨hbuilds, rfl⟩ | ⟨hi, hj, hends⟩
  · exact Or.inl ⟨hbuilds, rfl⟩
  · exact Or.inr ⟨hj, hi, by rwa [min_comm, max_comm]⟩

theorem sameOrigin_self (h : TakesAt history i ∨ BuildsAt history i) :
    SameOrigin source s history i i := by
  rcases h with h | h
  · refine Or.inr ⟨h, h, ?_⟩
    intro m him hmi
    rw [min_self] at him
    rw [max_self] at hmi
    omega
  · exact Or.inl ⟨h, rfl⟩

theorem givenAt?_eq_of_sameOrigin_of_le {handle : Handle} (hij : i ≤ j)
    (h : SameOrigin source s history i j)
    (hi : givenAt? source s history i = some handle) :
    givenAt? source s history j = some handle := by
  rcases h with ⟨-, rfl⟩ | ⟨htakes, htakes', hends⟩
  · exact hi
  · rw [htakes.givenAt?_eq_current] at hi
    rw [htakes'.givenAt?_eq_current]
    rw [min_eq_left hij, max_eq_right hij] at hends
    refine current_of_not_endsAt hij hi ?_
    intro m him hmj
    rcases Nat.eq_or_lt_of_le him with rfl | hlt
    · exact htakes.not_endsAt
    · exact hends m hlt hmj

/-- Calls of the same origin hand out the same parameters. -/
theorem eq_of_sameOrigin {h k : Handle} (hsame : SameOrigin source s history i j)
    (hi : givenAt? source s history i = some h) (hj : givenAt? source s history j = some k) :
    h = k := by
  rcases Nat.le_total i j with hij | hji
  · have hj' := givenAt?_eq_of_sameOrigin_of_le hij hsame hi
    exact Option.some.inj (hj'.symm.trans hj)
  · have hi' := givenAt?_eq_of_sameOrigin_of_le hji hsame.symm hj
    exact Option.some.inj (hi.symm.trans hi')

theorem sameOrigin_of_lt (h₀ : s.service.current = none) {h k : Handle} (hij : i < j)
    (hcall : TakesAt history i ∨ BuildsAt history i)
    (hcall' : TakesAt history j ∨ BuildsAt history j)
    (hi : givenAt? source s history i = some h) (hj : givenAt? source s history j = some k)
    (horigin : h.origin = k.origin) : SameOrigin source s history i j := by
  rcases hcall' with htakes' | hbuilds'
  · rw [htakes'.givenAt?_eq_current] at hj
    rcases hcall with htakes | hbuilds
    · rw [htakes.givenAt?_eq_current] at hi
      have hlt := (isSound_before h₀ i h hi).1
      rcases current_or_built_le hij.le hj with ⟨-, hends⟩ | hle
      · rw [SameOrigin, min_eq_left hij.le, max_eq_right hij.le]
        exact Or.inr ⟨htakes, htakes', fun m him hmj => hends m him.le hmj⟩
      · omega
    · -- the service held nothing of that number, neither when it was given nor since
      obtain ⟨hbuilt, hservice⟩ := hbuilds.service_succ hi
      have hafter := current_or_built_le (Nat.succ_le_of_lt hij) hj
      rw [Nat.succ_eq_add_one, hservice] at hafter
      rcases hafter with ⟨hcurrent, -⟩ | hle
      · have hlt := (isSound_before h₀ i k hcurrent).1
        omega
      · replace hle : h.origin + 1 ≤ k.origin := hle
        omega
  · have hlt := origin_lt_built_succ h₀ hcall hi
    have hmono : (before source s history (i + 1)).service.built
        ≤ (before source s history j).service.built := built_mono hij
    have hbuilt := (hbuilds'.service_succ hj).1
    omega

theorem sharesWith_iff (h₀ : s.service.current = none) {h k : Handle}
    (hcall : TakesAt history i ∨ BuildsAt history i)
    (hcall' : TakesAt history j ∨ BuildsAt history j)
    (hi : givenAt? source s history i = some h) (hj : givenAt? source s history j = some k) :
    h.sharesWith k = true ↔ SameOrigin source s history i j := by
  rw [Handle.sharesWith, beq_iff_eq]
  constructor
  · intro horigin
    rcases Nat.lt_trichotomy i j with hij | rfl | hji
    · exact sameOrigin_of_lt h₀ hij hcall hcall' hi hj horigin
    · exact sameOrigin_self hcall
    · exact (sameOrigin_of_lt h₀ hji hcall' hcall hj hi horigin.symm).symm
  · intro hsame
    rw [eq_of_sameOrigin hsame hi hj]

/-- After any session, every handle stems from one call, and two handles share their parameters
exactly when the calls that they stem from have the same origin. Handles that share are on equal
groups, and so are all handles that stem from calls about the standard group. -/
theorem sharesWith_iff_sameOrigin (source : Entropy σ) (entropy : σ) (history : List Step)
    {a b : String} {h k : Handle}
    (ha : ((fresh entropy).run source history).2.handle? a = some h)
    (hb : ((fresh entropy).run source history).2.handle? b = some k) :
    (∃! i, StemsFrom source (fresh entropy) history history.length a i) ∧
    (∃! j, StemsFrom source (fresh entropy) history history.length b j) ∧
    ∀ i j, StemsFrom source (fresh entropy) history history.length a i →
      StemsFrom source (fresh entropy) history history.length b j →
      (h.sharesWith k = true ↔ SameOrigin source (fresh entropy) history i j) ∧
      (h.sharesWith k = true → h.group = k.group) ∧
      (StandardAt history i → StandardAt history j → h.group = k.group) := by
  refine ⟨existsUnique_stemsFrom rfl ha, existsUnique_stemsFrom rfl hb, ?_⟩
  intro i j hi hj
  obtain ⟨hcall, h', hgiven, hhandle⟩ := hi.handle?_eq
  obtain ⟨hcall', k', hgiven', hhandle'⟩ := hj.handle?_eq
  rw [before_length] at hhandle hhandle'
  obtain rfl := Option.some.inj (ha.symm.trans hhandle)
  obtain rfl := Option.some.inj (hb.symm.trans hhandle')
  have hiff := sharesWith_iff rfl hcall hcall' hgiven hgiven'
  refine ⟨hiff, ?_, ?_⟩
  · intro hshares
    rw [eq_of_sameOrigin (hiff.1 hshares) hgiven hgiven']
  · intro hstandard hstandard'
    rw [hstandard.givesAt.group_eq rfl hgiven, hstandard'.givesAt.group_eq rfl hgiven']

/-- A handle is taken and copied before the service is stopped, and another is taken after it was
started again. -/
def restarted : List Step :=
  [.start, .takeHandle "a", .cloneHandle "a" "b", .stop, .start, .takeHandle "c"]

/-- The copy goes back to the first period and the last handle to the second, so they do not share,
though both are on the standard group. -/
theorem sharesWith_iff_sameOrigin_restarted :
    ((fresh (Tape.once [])).run Tape.source restarted).2.handle? "b" = some ⟨0, .standard⟩ ∧
      ((fresh (Tape.once [])).run Tape.source restarted).2.handle? "c" = some ⟨1, .standard⟩ ∧
      StemsFrom Tape.source (fresh (Tape.once [])) restarted 6 "b" 1 ∧
      StemsFrom Tape.source (fresh (Tape.once [])) restarted 6 "c" 5 ∧
      ¬ SameOrigin Tape.source (fresh (Tape.once [])) restarted 1 5 := by
  have hb : ((fresh (Tape.once [])).run Tape.source restarted).2.handle? "b"
      = some ⟨0, .standard⟩ := rfl
  have hc : ((fresh (Tape.once [])).run Tape.source restarted).2.handle? "c"
      = some ⟨1, .standard⟩ := rfl
  obtain ⟨-, -, hall⟩ := sharesWith_iff_sameOrigin Tape.source (Tape.once []) restarted hb hc
  have hcopy : StemsFrom Tape.source (fresh (Tape.once [])) restarted 3 "b" 1 :=
    .copied rfl ⟨_, rfl, rfl, rfl⟩ (.handedOut (Or.inl ⟨_, rfl⟩) ⟨_, rfl, rfl, rfl⟩)
  have hstays : ∀ n, 3 ≤ n → n < 6 →
      ¬ KeepsAt Tape.source (fresh (Tape.once [])) restarted n "b" := by
    rintro n hn hn' ⟨step, hstep, hname, -⟩
    obtain rfl | rfl | rfl : n = 3 ∨ n = 4 ∨ n = 5 := by omega
    all_goals
      cases hstep
      revert hname
      decide
  have hstem : StemsFrom Tape.source (fresh (Tape.once [])) restarted 6 "b" 1 :=
    .stayed (hstays 5 (by omega) (by omega)) <| .stayed (hstays 4 (by omega) (by omega)) <|
      .stayed (hstays 3 (by omega) (by omega)) hcopy
  have hstem' : StemsFrom Tape.source (fresh (Tape.once [])) restarted 6 "c" 5 :=
    .handedOut (Or.inl ⟨_, rfl⟩) ⟨_, rfl, rfl, rfl⟩
  refine ⟨hb, hc, hstem, hstem', ?_⟩
  exact fun hsame => absurd ((hall 1 5 hstem hstem').1.2 hsame) (by decide)

end Session

end KeyAgreement
