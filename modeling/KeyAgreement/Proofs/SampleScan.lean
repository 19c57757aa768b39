import KeyAgreement.KeyPair.Generation
import Mathlib.Data.Nat.Count

/-!
# Scanning samples for an exponent

Seen from a source, drawing a key pair is one scan over the samples it serves: the scan ends at the
first sample that is usable, that was refused, that is the last of too many misses in a row, or that
is the last of too many exponents drawn in vain. `StopsAt` says at which samples a scan may end and
with what, each kind by itself, and `Pending` says what is true while none of them has come up.

The scan is about samples alone; that drawing is such a scan is shown in
`KeyAgreement.Proofs.Drawing`. The main statements are `pending_iff` and `Pending.lt_limit`.
-/

namespace KeyAgreement

namespace ModpGroup

variable (G : ModpGroup)

/-- The exponents of the range whose public value a peer accepts. -/
def IsUsable (x : ℕ) : Prop := G.IsExponent x ∧ G.IsPublic (G.publicValue x)

/-- The exponents of the range that are drawn in vain. -/
def IsWasted (x : ℕ) : Prop := G.IsExponent x ∧ ¬ G.IsPublic (G.publicValue x)

instance (x : ℕ) : Decidable (G.IsUsable x) := inferInstanceAs (Decidable (_ ∧ _))

instance (x : ℕ) : Decidable (G.IsWasted x) := inferInstanceAs (Decidable (_ ∧ _))

end ModpGroup

namespace KeyPair

/-- Samples in the order in which they are served: each is a number, or the fault of a refusal. -/
abbrev Samples : Type := ℕ → Except EntropyFault ℕ

/-- The sample at an index is a number with a property. -/
def Samples.Has (v : Samples) (P : ℕ → Prop) (i : ℕ) : Prop := ∃ x, v i = .ok x ∧ P x

instance (v : Samples) (P : ℕ → Prop) [DecidablePred P] : DecidablePred (v.Has P) := fun i =>
  match h : v i with
  | .ok x => decidable_of_iff (P x)
      ⟨fun hx => ⟨x, h, hx⟩, fun ⟨_, hy, hP⟩ => Except.ok.inj (h.symm.trans hy) ▸ hP⟩
  | .error _ => isFalse fun ⟨_, hy, _⟩ => nomatch h.symm.trans hy

variable {G : ModpGroup} {v v' : Samples} {i n : ℕ} {r r' : Except KeyFault ℕ}

/-- All samples from the `k`-th up to the `n`-th, which is left out, lie outside the range. -/
def Dry (G : ModpGroup) (v : Samples) (k n : ℕ) : Prop :=
  ∀ i, k ≤ i → i < n → v.Has (fun x => ¬ G.IsExponent x) i

/-- The samples at which a scan may end, with the exponent found or the fault. -/
inductive StopsAt (G : ModpGroup) (v : Samples) (i : ℕ) : Except KeyFault ℕ → Prop where
  | found {x : ℕ} (h : v i = .ok x) (hx : G.IsUsable x) : StopsAt G v i (.ok x)
  | refused {cause : EntropyFault} (h : v i = .error cause) :
      StopsAt G v i (.error (.entropy cause))
  /-- With this sample there are `attempts` in a row outside the range. -/
  | dry {k : ℕ} (hk : k + attempts = i + 1) (h : Dry G v k (i + 1)) :
      StopsAt G v i (.error .samplingExhausted)
  /-- With this sample there are `attempts` in the range that are not usable. -/
  | spent (h : v.Has G.IsWasted i) (hc : Nat.count (v.Has G.IsWasted) (i + 1) = attempts) :
      StopsAt G v i (.error .noUsableExponent)

/-- What is true of the first `n` samples when a scan goes on to the next one. -/
structure Pending (G : ModpGroup) (v : Samples) (n : ℕ) : Prop where
  served : ∀ i < n, ∃ x, v i = .ok x
  unusable : ∀ i < n, ¬ v.Has G.IsUsable i
  few : Nat.count (v.Has G.IsExponent) n < attempts
  not_dry : ∀ k, k + attempts ≤ n → ¬ Dry G v k (k + attempts)

/-! ## Kinds of samples -/

theorem Samples.has_iff {P : ℕ → Prop} {x : ℕ} (h : v i = .ok x) : v.Has P i ↔ P x := by
  constructor
  · rintro ⟨y, hy, hP⟩
    exact Except.ok.inj (h.symm.trans hy) ▸ hP
  · intro hP
    exact ⟨x, h, hP⟩

/-- A number in the range is usable or wasted. -/
theorem Samples.has_isExponent_iff :
    v.Has G.IsExponent i ↔ v.Has G.IsUsable i ∨ v.Has G.IsWasted i := by
  constructor
  · rintro ⟨x, hx, hr⟩
    by_cases hp : G.IsPublic (G.publicValue x)
    · exact Or.inl ⟨x, hx, hr, hp⟩
    · exact Or.inr ⟨x, hx, hr, hp⟩
  · rintro (⟨x, hx, hr, -⟩ | ⟨x, hx, hr, -⟩) <;> exact ⟨x, hx, hr⟩

/-- What a scan comes to if it ends at a sample. -/
def verdict (G : ModpGroup) : Except EntropyFault ℕ → Except KeyFault ℕ
  | .error cause => .error (.entropy cause)
  | .ok x =>
    if G.IsUsable x then .ok x
    else if G.IsExponent x then .error .noUsableExponent
    else .error .samplingExhausted

theorem Dry.last {k : ℕ} (hk : k + attempts = i + 1) (h : Dry G v k (i + 1)) :
    v.Has (fun x => ¬ G.IsExponent x) i := by
  refine h i ?_ (Nat.lt_succ_self i)
  unfold attempts at hk
  omega

/-- The four ends need four kinds of samples, so the sample alone decides what a scan comes to. -/
theorem StopsAt.eq_verdict (h : StopsAt G v i r) : r = verdict G (v i) := by
  cases h with
  | found h hx => rw [h, verdict, if_pos hx]
  | refused h => rw [h, verdict]
  | dry hk hd =>
    obtain ⟨x, hx, hn⟩ := hd.last hk
    rw [hx, verdict, if_neg (fun hu => hn hu.1), if_neg hn]
  | spent hw hc =>
    obtain ⟨x, hx, hr, hn⟩ := hw
    rw [hx, verdict, if_neg (fun hu => hn hu.2), if_pos hr]

/-- A miss can end a scan only as the last of too many in a row. -/
theorem StopsAt.exists_dry {x : ℕ} (h : StopsAt G v i r) (hx : v i = .ok x)
    (hr : ¬ G.IsExponent x) : ∃ k, k + attempts = i + 1 ∧ Dry G v k (i + 1) := by
  cases h with
  | found h hu => exact absurd (Except.ok.inj (hx.symm.trans h) ▸ hu.1) hr
  | refused h =>
    rw [hx] at h
    cases h
  | dry hk hd => exact ⟨_, hk, hd⟩
  | spent hw hc => exact absurd ((Samples.has_iff hx).1 hw).1 hr

/-- A wasted exponent can end a scan only as the last of too many. -/
theorem StopsAt.count_eq {x : ℕ} (h : StopsAt G v i r) (hx : v i = .ok x) (hw : G.IsWasted x) :
    Nat.count (v.Has G.IsWasted) (i + 1) = attempts := by
  cases h with
  | found h hu => exact absurd (Except.ok.inj (hx.symm.trans h) ▸ hu.2) hw.2
  | refused h =>
    rw [hx] at h
    cases h
  | dry hk hd => exact absurd hw.1 ((Samples.has_iff hx).1 (hd.last hk))
  | spent hw' hc => exact hc

theorem dry_self : Dry G v n n :=
  fun _ hi hlt => absurd hi (Nat.not_le_of_lt hlt)

theorem Dry.snoc {k x : ℕ} (h : Dry G v k n) (hx : v n = .ok x) (hr : ¬ G.IsExponent x) :
    Dry G v k (n + 1) := by
  intro i hi hlt
  rcases Nat.lt_succ_iff_lt_or_eq.1 hlt with hlt | rfl
  · exact h i hi hlt
  · exact ⟨x, hx, hr⟩

/-- No sample of a stretch of misses lies in the range. -/
theorem Dry.count_eq {m : ℕ} (h : Dry G v n m) (hle : n ≤ m) :
    Nat.count (v.Has G.IsExponent) m = Nat.count (v.Has G.IsExponent) n := by
  obtain ⟨d, rfl⟩ := Nat.exists_eq_add_of_le hle
  have hnone : Nat.count (fun i => v.Has G.IsExponent (n + i)) d = 0 := by
    refine Nat.count_of_forall_not fun i hi hr => ?_
    obtain ⟨x, hx, hn⟩ := h (n + i) (Nat.le_add_right ..) (Nat.add_lt_add_left hi n)
    exact hn ((Samples.has_iff hx).1 hr)
  rw [Nat.count_add, hnone, Nat.add_zero]

/-! ## Going on -/

theorem pending_zero (G : ModpGroup) (v : Samples) : Pending G v 0 where
  served i hi := absurd hi (Nat.not_lt_zero i)
  unusable i hi := absurd hi (Nat.not_lt_zero i)
  few := by
    rw [Nat.count_zero]
    decide
  not_dry k hk := by
    unfold attempts at hk
    omega

/-- Before a scan has found anything, the samples in the range are the wasted ones. -/
theorem Pending.count_isWasted (h : Pending G v n) :
    Nat.count (v.Has G.IsWasted) n = Nat.count (v.Has G.IsExponent) n := by
  rw [Nat.count_eq_card_filter_range, Nat.count_eq_card_filter_range]
  congr 1
  refine Finset.filter_congr fun i hi => ?_
  rw [Samples.has_isExponent_iff]
  exact ⟨Or.inr, fun hu => hu.resolve_left (h.unusable i (Finset.mem_range.1 hi))⟩

/-- A scan goes on past a sample exactly when it does not end there. -/
theorem pending_succ_iff : Pending G v (n + 1) ↔ Pending G v n ∧ ∀ r, ¬ StopsAt G v n r := by
  constructor
  · intro h
    have hn : Pending G v n :=
      { served := fun i hi => h.served i (Nat.lt_succ_of_lt hi)
        unusable := fun i hi => h.unusable i (Nat.lt_succ_of_lt hi)
        few := Nat.lt_of_le_of_lt (Nat.count_monotone _ (Nat.le_succ n)) h.few
        not_dry := fun k hk => h.not_dry k (Nat.le_succ_of_le hk) }
    refine ⟨hn, fun r hr => ?_⟩
    cases hr with
    | found hx hu => exact h.unusable n (Nat.lt_succ_self n) ⟨_, hx, hu⟩
    | refused hx =>
      obtain ⟨y, hy⟩ := h.served n (Nat.lt_succ_self n)
      rw [hx] at hy
      cases hy
    | dry hk hd => exact h.not_dry _ hk.le (hk ▸ hd)
    | spent hw hc =>
      have hfew := h.few
      rw [← h.count_isWasted, hc] at hfew
      exact absurd hfew (Nat.lt_irrefl _)
  · rintro ⟨h, hstop⟩
    have hserved : ∃ x, v n = .ok x := by
      cases hx : v n with
      | error cause => exact absurd (.refused hx) (hstop _)
      | ok x => exact ⟨x, rfl⟩
    have hunusable : ¬ v.Has G.IsUsable n := fun ⟨x, hx, hu⟩ => hstop _ (.found hx hu)
    refine ⟨?_, ?_, ?_, ?_⟩
    · intro i hi
      rcases Nat.lt_succ_iff_lt_or_eq.1 hi with hi | rfl
      · exact h.served i hi
      · exact hserved
    · intro i hi
      rcases Nat.lt_succ_iff_lt_or_eq.1 hi with hi | rfl
      · exact h.unusable i hi
      · exact hunusable
    · have hfew := h.few
      by_cases hr : v.Has G.IsExponent n
      · have hw : v.Has G.IsWasted n := (Samples.has_isExponent_iff.1 hr).resolve_left hunusable
        have hne : Nat.count (v.Has G.IsWasted) (n + 1) ≠ attempts :=
          fun hc => hstop _ (.spent hw hc)
        rw [Nat.count_succ, if_pos hw, h.count_isWasted] at hne
        rw [Nat.count_succ, if_pos hr]
        omega
      · rw [Nat.count_succ, if_neg hr]
        exact hfew
    · intro k hk hd
      rcases Nat.lt_or_eq_of_le hk with hlt | heq
      · exact h.not_dry k (Nat.le_of_lt_succ hlt) hd
      · exact hstop _ (.dry heq (heq ▸ hd))

theorem Pending.succ_of_isWasted {x : ℕ} (h : Pending G v n) (hx : v n = .ok x)
    (hw : G.IsWasted x) (hc : Nat.count (v.Has G.IsWasted) (n + 1) ≠ attempts) :
    Pending G v (n + 1) :=
  pending_succ_iff.2 ⟨h, fun _ hstop => hc (hstop.count_eq hx hw)⟩

/-- A scan has come to the `n`-th sample exactly when it ends at none of those before. -/
theorem pending_iff : Pending G v n ↔ ∀ i < n, ∀ r, ¬ StopsAt G v i r := by
  induction n with
  | zero => exact iff_of_true (pending_zero G v) fun i hi => absurd hi (Nat.not_lt_zero i)
  | succ n ih =>
    rw [pending_succ_iff, ih]
    constructor
    · rintro ⟨hbefore, hn⟩ i hi
      rcases Nat.lt_succ_iff_lt_or_eq.1 hi with hi | rfl
      · exact hbefore i hi
      · exact hn
    · intro h
      exact ⟨fun i hi => h i (Nat.lt_succ_of_lt hi), h n (Nat.lt_succ_self n)⟩

theorem StopsAt.index_unique {m : ℕ} (hn : Pending G v n) (hm : Pending G v m)
    (hr : StopsAt G v n r) (hr' : StopsAt G v m r') : n = m := by
  rcases Nat.lt_trichotomy n m with hlt | heq | hlt
  · exact absurd hr (pending_iff.1 hm n hlt r)
  · exact heq
  · exact absurd hr' (pending_iff.1 hn m hlt r')

/-- Only the samples before the `n`-th count. -/
theorem Pending.congr (h : Pending G v n) (hv : ∀ i < n, v i = v' i) : Pending G v' n := by
  have hhas : ∀ (P : ℕ → Prop), ∀ i < n, (v'.Has P i ↔ v.Has P i) := by
    intro P i hi
    unfold Samples.Has
    rw [hv i hi]
  refine ⟨?_, ?_, ?_, ?_⟩
  · intro i hi
    exact hv i hi ▸ h.served i hi
  · intro i hi
    rw [hhas _ i hi]
    exact h.unusable i hi
  · have hfew := h.few
    rw [Nat.count_eq_card_filter_range] at hfew ⊢
    rwa [Finset.filter_congr fun i hi => hhas _ i (Finset.mem_range.1 hi)]
  · intro k hk hd
    refine h.not_dry k hk fun i hi hlt => ?_
    exact (hhas _ i (hlt.trans_le hk)).1 (hd i hi hlt)

/-! ## The limit -/

/-- While a scan goes on, the samples right before the next one that lie outside the range are too
few to end it. -/
theorem Pending.lt_of_dry {k : ℕ} (h : Pending G v n) (hd : Dry G v k n) : n < k + attempts := by
  by_contra hge
  have hle : k + attempts ≤ n := Nat.le_of_not_lt hge
  exact h.not_dry k hle fun i hi hlt => hd i hi (hlt.trans_le hle)

/-- Up to the last sample in the range, every sample belongs to a stretch of at most `attempts` that
ends with one in the range. -/
theorem Pending.exists_dry (h : Pending G v n) :
    ∃ k, Dry G v k n ∧ k ≤ Nat.count (v.Has G.IsExponent) n * attempts := by
  induction n with
  | zero => exact ⟨0, dry_self, Nat.zero_le _⟩
  | succ n ih =>
    have hn : Pending G v n := (pending_succ_iff.1 h).1
    obtain ⟨k, hd, hk⟩ := ih hn
    obtain ⟨x, hx⟩ := h.served n (Nat.lt_succ_self n)
    by_cases hr : G.IsExponent x
    · have hlt := hn.lt_of_dry hd
      refine ⟨n + 1, dry_self, ?_⟩
      rw [Nat.count_succ, if_pos (Samples.has_iff hx |>.2 hr), Nat.succ_mul]
      omega
    · refine ⟨k, hd.snoc hx hr, hk.trans ?_⟩
      exact Nat.mul_le_mul_right _ (Nat.count_monotone _ (Nat.le_succ n))

theorem Pending.lt_limit (h : Pending G v n) : n < attempts * attempts := by
  obtain ⟨k, hd, hk⟩ := h.exists_dry
  calc n < k + attempts := h.lt_of_dry hd
    _ ≤ Nat.count (v.Has G.IsExponent) n * attempts + attempts := Nat.add_le_add_right hk _
    _ = (Nat.count (v.Has G.IsExponent) n + 1) * attempts := (Nat.succ_mul ..).symm
    _ ≤ attempts * attempts := Nat.mul_le_mul_right _ h.few

end KeyPair

end KeyAgreement
