import KeyAgreement.Entropy.Tape
import KeyAgreement.Proofs.KeyPairInvariant
import KeyAgreement.Proofs.SafePrime
import KeyAgreement.Proofs.SampleCount
import KeyAgreement.Proofs.SampleScan

/-!
# Drawing is a scan

Drawing a key pair runs two loops, one for an exponent of the range and one around it for a usable
exponent, and both take their samples from one source. The inner loop ends with the first sample in
the range or with `attempts` misses in a row, the outer one with the first usable exponent or with
`attempts` wasted ones, so together they end where a scan of the samples ends.

`exists_stop` is the run of both loops. `draw_refines_scan` reads it as a statement about requests:
which samples lead to which outcome after how many of them. The requests are told by `recorded`,
whose account has the size of each; that keeping an account changes nothing is `draw_accounted`, and
that a meter comes to the same number of requests is `fills_draw_metered`.
-/

namespace KeyAgreement

/-- A state together with the sizes of the requests so far, in order. -/
structure Recorded (σ : Type) where
  /-- The state of the source itself. -/
  inner : σ
  /-- The sizes that were asked for, whether or not the request was served. -/
  requests : List ℕ := []

/-- The account of a record. -/
def Recorded.account (σ : Type) : Account σ (Recorded σ) where
  inner := Recorded.inner
  enter record after size _ := ⟨after, record.requests ++ [size]⟩

/-- The same source with a record of the requests. -/
def Entropy.recorded {σ : Type} (source : Entropy σ) : Entropy (Recorded σ) :=
  source.accounted (Recorded.account σ)

namespace KeyPair

variable {G : ModpGroup} {σ ρ : Type} {source : Entropy σ} {state : σ} {n : ℕ}

/-! ## The samples of a source -/

/-- The state of a source after `n` requests for the width of a key. -/
def stateAfter (G : ModpGroup) (source : Entropy σ) (state : σ) : ℕ → σ
  | 0 => state
  | n + 1 => (source.fill G.byteLength (stateAfter G source state n)).2

/-- The samples that a source serves when it is asked for the width of a key again and again. -/
def samples (G : ModpGroup) (source : Entropy σ) (state : σ) : Samples := fun i =>
  (source.fill G.byteLength (stateAfter G source state i)).1.map fun buffer =>
    G.sample buffer.toList

/-- A sample is the number of what was served, cut off at the bits of the modulus. -/
theorem samples_eq (G : ModpGroup) (source : Entropy σ) (state : σ) (i : ℕ) :
    samples G source state i
      = (source.fill G.byteLength (stateAfter G source state i)).1.map fun buffer =>
          BigEndian.toNat buffer.toList % 2 ^ G.bits := by
  unfold samples
  congr 1
  funext buffer
  exact ModpGroup.sample_eq_mod buffer.length_toList

/-- Keeping an account does not change the state of the source. -/
theorem inner_stateAfter (A : Account σ ρ) (account : ρ) (n : ℕ) :
    A.inner (stateAfter G (source.accounted A) account n)
      = stateAfter G source (A.inner account) n := by
  induction n with
  | zero => rfl
  | succ n ih =>
    rw [stateAfter, stateAfter, ← ih]
    exact A.inner_enter ..

/-- Keeping an account does not change what is served. -/
theorem samples_accounted (A : Account σ ρ) (account : ρ) :
    samples G (source.accounted A) account = samples G source (A.inner account) := by
  funext i
  unfold samples
  rw [← inner_stateAfter A]
  rfl

theorem stateAfter_recorded (requests : List ℕ) (n : ℕ) :
    stateAfter G source.recorded ⟨state, requests⟩ n
      = ⟨stateAfter G source state n, requests ++ List.replicate n G.byteLength⟩ := by
  induction n with
  | zero => simp [stateAfter]
  | succ n ih =>
    rw [stateAfter, ih, List.replicate_succ', ← List.append_assoc]
    rfl

theorem fills_stateAfter_metered (meter : Metered σ) (n : ℕ) :
    (stateAfter G source.metered meter n).fills = meter.fills + n := by
  induction n with
  | zero => rfl
  | succ n ih =>
    rw [stateAfter, ← Nat.add_assoc, ← ih]
    rfl

/-! ## One sample -/

theorem drawExponent_of_error {cause : EntropyFault} (tries : ℕ)
    (h : samples G source state n = .error cause) :
    drawExponent G source (tries + 1) (stateAfter G source state n)
      = (.error (.entropy cause), stateAfter G source state (n + 1)) := by
  unfold samples at h
  rw [drawExponent, stateAfter]
  rcases hfill : source.fill G.byteLength (stateAfter G source state n) with ⟨c | buffer, after⟩
  · rw [hfill] at h
    rw [Except.error.inj h]
  · rw [hfill] at h
    cases h

theorem drawExponent_of_ok {x : ℕ} (tries : ℕ) (h : samples G source state n = .ok x) :
    drawExponent G source (tries + 1) (stateAfter G source state n)
      = if G.IsExponent x then (.ok x, stateAfter G source state (n + 1))
        else drawExponent G source tries (stateAfter G source state (n + 1)) := by
  unfold samples at h
  rw [drawExponent, stateAfter]
  rcases hfill : source.fill G.byteLength (stateAfter G source state n) with ⟨c | buffer, after⟩
  · rw [hfill] at h
    cases h
  · rw [hfill] at h
    obtain rfl : G.sample buffer.toList = x := Except.ok.inj h
    rfl

/-! ## The inner loop -/

/-- The loop for an exponent with `tries` left: behind it lies the stretch of misses from the `k`-th
sample on, which is the first of all or follows one in the range. -/
structure Searching (G : ModpGroup) (v : Samples) (k n tries : ℕ) : Prop where
  pending : Pending G v n
  le : k ≤ n
  dry : Dry G v k n
  first : ∀ j, j + 1 = k → v.Has G.IsExponent j
  tries_eq : n + tries = k + attempts

/-- A miss that leaves tries is behind a stretch too short to end the scan. -/
theorem Searching.step {v : Samples} {k tries x : ℕ} (h : Searching G v k n (tries + 2))
    (hx : v n = .ok x) (hr : ¬ G.IsExponent x) : Searching G v k (n + 1) (tries + 1) where
  pending := by
    refine pending_succ_iff.2 ⟨h.pending, fun r hstop => ?_⟩
    obtain ⟨k', hk', hd⟩ := hstop.exists_dry hx hr
    have htries := h.tries_eq
    -- The stretch that would end the scan starts before `k`, and the sample there is in the range.
    obtain ⟨j, rfl⟩ : ∃ j, k = j + 1 := Nat.exists_eq_succ_of_ne_zero (by omega)
    have hle := h.le
    obtain ⟨y, hy, hn⟩ := hd j (by omega) (by omega)
    exact hn ((Samples.has_iff hy).1 (h.first j rfl))
  le := Nat.le_succ_of_le h.le
  dry := h.dry.snoc hx hr
  first := h.first
  tries_eq := by
    have htries := h.tries_eq
    omega

/-- From the `n`-th sample on, the loop for an exponent goes to the sample at which it ends: one in
the range, or one at which the scan ends with a fault. -/
theorem exists_drawExponent {tries k : ℕ}
    (h : Searching G (samples G source state) k n tries) :
    ∃ m, n ≤ m ∧ Pending G (samples G source state) m ∧ Dry G (samples G source state) n m ∧
      ((∃ x, samples G source state m = .ok x ∧ G.IsExponent x ∧
          drawExponent G source tries (stateAfter G source state n)
            = (.ok x, stateAfter G source state (m + 1))) ∨
        ∃ cause, StopsAt G (samples G source state) m (.error cause) ∧
          drawExponent G source tries (stateAfter G source state n)
            = (.error cause, stateAfter G source state (m + 1))) := by
  induction tries generalizing n with
  | zero =>
    have hlt := h.pending.lt_of_dry h.dry
    have htries := h.tries_eq
    omega
  | succ tries ih =>
    cases hx : samples G source state n with
    | error cause =>
      refine ⟨n, Nat.le_refl n, h.pending, dry_self, Or.inr ⟨_, .refused hx, ?_⟩⟩
      exact drawExponent_of_error tries hx
    | ok x =>
      have hstep := drawExponent_of_ok tries hx
      by_cases hr : G.IsExponent x
      · rw [if_pos hr] at hstep
        exact ⟨n, Nat.le_refl n, h.pending, dry_self, Or.inl ⟨x, hx, hr, hstep⟩⟩
      · rw [if_neg hr] at hstep
        cases tries with
        | zero =>
          have hstop : StopsAt G (samples G source state) n (.error .samplingExhausted) :=
            .dry h.tries_eq.symm (h.dry.snoc hx hr)
          exact ⟨n, Nat.le_refl n, h.pending, dry_self, Or.inr ⟨_, hstop, hstep⟩⟩
        | succ tries =>
          obtain ⟨m, hle, hm, hd, hend⟩ := ih (h.step hx hr)
          refine ⟨m, Nat.le_of_succ_le hle, hm, ?_, ?_⟩
          · intro i hi hlt
            rcases Nat.eq_or_lt_of_le hi with rfl | hi
            · exact ⟨x, hx, hr⟩
            · exact hd i hi hlt
          · rw [hstep]
            exact hend

/-! ## The outer loop -/

section Turn

variable {x : ℕ} {after : σ}

theorem drawWithin_of_error {cause : KeyFault} (tries : ℕ)
    (h : drawExponent G source attempts state = (.error cause, after)) :
    drawWithin G source (tries + 1) state = (.error cause, after) := by
  rw [drawWithin, h]

/-- A pair is made of every usable exponent. -/
theorem exists_drawWithin_of_isPublic (tries : ℕ)
    (h : drawExponent G source attempts state = (.ok x, after)) (hr : G.IsExponent x)
    (hp : G.IsPublic (G.publicValue x)) :
    ∃ pair : KeyPair, drawWithin G source (tries + 1) state = (.ok pair, after) ∧
      pair.exponent = x := by
  have hlt : x < 256 ^ G.byteLength := G.lt_of_lt_modulus (lt_of_isExponent hr)
  have hbytes := keyBytes_eq_ok_iff.2 ⟨hlt, rfl⟩
  refine ⟨⟨BigEndian.padTo G.byteLength x, G.publicValue x⟩, ?_, toNat_padTo_of_lt hlt⟩
  rw [drawWithin, h]
  simp only [if_pos hp, hbytes]

theorem drawWithin_of_not_isPublic (tries : ℕ)
    (h : drawExponent G source attempts state = (.ok x, after))
    (hp : ¬ G.IsPublic (G.publicValue x)) :
    drawWithin G source (tries + 1) state = drawWithin G source tries after := by
  rw [drawWithin, h]
  exact if_neg hp

end Turn

/-- From the `n`-th sample on, which is the first of all or follows one in the range, the loop for a
pair goes to the sample at which the scan ends. -/
theorem exists_drawWithin {tries : ℕ} (hp : Pending G (samples G source state) n)
    (hfirst : ∀ j, j + 1 = n → (samples G source state).Has G.IsExponent j)
    (hcount : Nat.count ((samples G source state).Has G.IsExponent) n + tries = attempts) :
    ∃ m r, Pending G (samples G source state) m ∧ StopsAt G (samples G source state) m r ∧
      (drawWithin G source tries (stateAfter G source state n)).1.map exponent = r ∧
      (drawWithin G source tries (stateAfter G source state n)).2
        = stateAfter G source state (m + 1) := by
  induction tries generalizing n with
  | zero =>
    have hfew := hp.few
    omega
  | succ tries ih =>
    have hsearch : Searching G (samples G source state) n n attempts :=
      ⟨hp, Nat.le_refl n, dry_self, hfirst, rfl⟩
    obtain ⟨m, hle, hm, hd, ⟨x, hx, hr, hrun⟩ | ⟨cause, hstop, hrun⟩⟩ :=
      exists_drawExponent hsearch
    · by_cases hpub : G.IsPublic (G.publicValue x)
      · obtain ⟨pair, hdraw, hexp⟩ := exists_drawWithin_of_isPublic tries hrun hr hpub
        rw [hdraw]
        exact ⟨m, _, hm, .found hx ⟨hr, hpub⟩, congrArg Except.ok hexp, rfl⟩
      · rw [drawWithin_of_not_isPublic tries hrun hpub]
        have hw : (samples G source state).Has G.IsWasted m := ⟨x, hx, hr, hpub⟩
        have hin : (samples G source state).Has G.IsExponent m := ⟨x, hx, hr⟩
        have hwasted : Nat.count ((samples G source state).Has G.IsWasted) (m + 1) + tries
            = attempts := by
          rw [Nat.count_succ, if_pos hw, hm.count_isWasted, hd.count_eq hle]
          omega
        cases tries with
        | zero => exact ⟨m, _, hm, .spent hw hwasted, rfl, rfl⟩
        | succ tries =>
          refine ih (hm.succ_of_isWasted hx ⟨hr, hpub⟩ (by omega)) ?_ ?_
          · rintro j hj
            obtain rfl := Nat.succ.inj hj
            exact hin
          · rw [Nat.count_succ, if_pos hin, hd.count_eq hle]
            omega
    · rw [drawWithin_of_error tries hrun]
      exact ⟨m, _, hm, hstop, rfl, rfl⟩

/-- Drawing a pair goes through the samples of its source up to the first at which a scan ends. -/
theorem exists_stop (G : ModpGroup) (source : Entropy σ) (state : σ) :
    ∃ n r, Pending G (samples G source state) n ∧ StopsAt G (samples G source state) n r ∧
      (draw G source state).1.map exponent = r ∧
      (draw G source state).2 = stateAfter G source state (n + 1) := by
  refine exists_drawWithin (pending_zero ..) ?_ ?_
  · intro j hj
    exact absurd hj (Nat.succ_ne_zero j)
  · rw [Nat.count_zero, Nat.zero_add]

/-! ## Outcomes and requests -/

/-- What a source serves decides what is drawn from it. -/
theorem draw_congr {τ : Type} {source' : Entropy τ} {state' : τ}
    (h : samples G source state = samples G source' state') :
    (draw G source state).1 = (draw G source' state').1 := by
  obtain ⟨n, r, hn, hr, hmap, -⟩ := exists_stop G source state
  obtain ⟨n', r', hn', hr', hmap', -⟩ := exists_stop G source' state'
  rw [← h] at hn' hr'
  obtain rfl := hr.index_unique hn hn' hr'
  have hsame := (hmap.trans (hr.eq_verdict.trans hr'.eq_verdict.symm)).trans hmap'.symm
  cases hA : (draw G source state).1 with
  | error cause =>
    cases hB : (draw G source' state').1 with
    | error cause' =>
      rw [hA, hB] at hsame
      exact congrArg _ (Except.error.inj hsame)
    | ok B => rw [hA, hB] at hsame; cases hsame
  | ok A =>
    cases hB : (draw G source' state').1 with
    | error cause' => rw [hA, hB] at hsame; cases hsame
    | ok B =>
      rw [hA, hB] at hsame
      have hexp : A.exponent = B.exponent := Except.ok.inj hsame
      have hAof := (isOf_of_drawWithin hA).1.ofExponent_exponent
      rw [hexp, (isOf_of_drawWithin hB).1.ofExponent_exponent] at hAof
      exact hAof.symm

/-- Keeping an account does not change what is drawn. -/
theorem draw_accounted (A : Account σ ρ) (account : ρ) :
    (draw G (source.accounted A) account).1 = (draw G source (A.inner account)).1 :=
  draw_congr (samples_accounted A account)

/-- Drawing comes to `result`, a fault or the exponent of the pair, with the `count`-th request. -/
def EndsAfter (G : ModpGroup) (source : Entropy σ) (state : σ) (count : ℕ)
    (result : Except KeyFault ℕ) : Prop :=
  (draw G source.recorded ⟨state, []⟩).1.map exponent = result ∧
    (draw G source.recorded ⟨state, []⟩).2.requests.length = count

/-- A recorded run is the run itself, and its record has an entry for every sample to the last. -/
theorem exists_draw_recorded (G : ModpGroup) (source : Entropy σ) (state : σ) :
    ∃ n r, Pending G (samples G source state) n ∧ StopsAt G (samples G source state) n r ∧
      (draw G source.recorded ⟨state, []⟩).1.map exponent = r ∧
      draw G source.recorded ⟨state, []⟩
        = ((draw G source state).1,
            ⟨stateAfter G source state (n + 1), List.replicate (n + 1) G.byteLength⟩) := by
  obtain ⟨n, r, hn, hr, hmap, hafter⟩ := exists_stop G source.recorded ⟨state, []⟩
  rw [Entropy.recorded, samples_accounted] at hn hr
  rw [stateAfter_recorded, List.nil_append] at hafter
  exact ⟨n, r, hn, hr, hmap, Prod.ext (draw_accounted (Recorded.account σ) _) hafter⟩

/-- A meter shows as many requests of a draw as a record lists. -/
theorem fills_draw_metered (G : ModpGroup) (source : Entropy σ) (state : σ) :
    (draw G source.metered ⟨state, 0, 0⟩).2.fills
      = (draw G source.recorded ⟨state, []⟩).2.requests.length := by
  obtain ⟨n, r, hn, hr, -, hrun⟩ := exists_draw_recorded G source state
  obtain ⟨m, r', hm, hr', -, hafter⟩ := exists_stop G source.metered ⟨state, 0, 0⟩
  rw [Entropy.metered, samples_accounted] at hm hr'
  obtain rfl := hr.index_unique hn hm hr'
  rw [hafter, fills_stateAfter_metered, hrun, List.length_replicate, Nat.zero_add]

theorem endsAfter_succ_iff {r : Except KeyFault ℕ} :
    EndsAfter G source state (n + 1) r ↔
      StopsAt G (samples G source state) n r ∧ Pending G (samples G source state) n := by
  obtain ⟨m, r', hm, hr', hmap, hrun⟩ := exists_draw_recorded G source state
  have hlen : (draw G source.recorded ⟨state, []⟩).2.requests.length = m + 1 := by
    rw [hrun, List.length_replicate]
  unfold EndsAfter
  rw [hmap, hlen]
  constructor
  · rintro ⟨rfl, hmn⟩
    obtain rfl := Nat.succ.inj hmn
    exact ⟨hr', hm⟩
  · rintro ⟨hr, hn⟩
    obtain rfl := hr.index_unique hn hm hr'
    exact ⟨hr'.eq_verdict.trans hr.eq_verdict.symm, rfl⟩

theorem stopsAt_ok_iff {v : Samples} {x : ℕ} :
    StopsAt G v n (.ok x) ↔ v n = .ok x ∧ G.IsUsable x := by
  constructor
  · intro h
    cases h with
    | found h hx => exact ⟨h, hx⟩
  · rintro ⟨h, hx⟩
    exact .found h hx

/-- Drawing a pair is one scan of the samples, which are the numbers of what the source serves for
the width of a key, cut off at the bits of the modulus. It comes to an exponent with a sample
exactly when the sample is usable and the scan was still pending; otherwise it comes to the fault of
the first sample at which a scan ends. All requests are for the width of a key, there are at most
16384, and the pair that is drawn is the one built from its exponent. -/
theorem draw_refines_scan (G : ModpGroup) (source : Entropy σ) (state : σ) :
    (∀ i, samples G source state i
      = (source.fill G.byteLength (stateAfter G source state i)).1.map fun buffer =>
          BigEndian.toNat buffer.toList % 2 ^ G.bits) ∧
    (∀ n x, EndsAfter G source state (n + 1) (.ok x) ↔
      Pending G (samples G source state) n ∧ samples G source state n = .ok x ∧ G.IsUsable x) ∧
    (∀ n r, EndsAfter G source state (n + 1) r ↔
      StopsAt G (samples G source state) n r ∧
        ∀ i < n, ∀ r', ¬ StopsAt G (samples G source state) i r') ∧
    (∃ n < 16384, draw G source.recorded ⟨state, []⟩
      = ((draw G source state).1,
          ⟨stateAfter G source state (n + 1), List.replicate (n + 1) G.byteLength⟩)) ∧
    (∀ pair, (draw G source state).1 = .ok pair → ofExponent G pair.exponent = .ok pair) ∧
    (∀ cause, (KeyFault.entropy cause).message = "rng failure: " ++ cause.message) ∧
    KeyFault.samplingExhausted.message = "rejection sampling exhausted" ∧
    KeyFault.noUsableExponent.message = "no usable private exponent found" := by
  refine ⟨samples_eq G source state, ?_, ?_, ?_, ?_, fun _ => rfl, rfl, rfl⟩
  · intro n x
    rw [endsAfter_succ_iff, stopsAt_ok_iff, and_comm]
  · intro n r
    rw [endsAfter_succ_iff, pending_iff]
  · obtain ⟨n, r, hn, -, -, hrun⟩ := exists_draw_recorded G source state
    exact ⟨n, hn.lt_limit, hrun⟩
  · intro pair h
    exact (isOf_of_drawWithin h).1.ofExponent_exponent

/-- Modulo 23 the exponent 6 is drawn behind a miss and a wasted exponent, and a source that has
nothing left behind the miss is refused. -/
theorem draw_refines_scan_mod23 :
    EndsAfter .mod23 Tape.source (.once [255, 11, 6]) 3 (.ok 6) ∧
      Pending .mod23 (samples .mod23 Tape.source (.once [255, 11, 6])) 2 ∧
      EndsAfter .mod23 Tape.source (.once [255]) 2 (.error (.entropy Tape.exhausted)) ∧
      StopsAt .mod23 (samples .mod23 Tape.source (.once [255])) 1
        (.error (.entropy Tape.exhausted)) ∧
      (draw .mod23 Tape.source (.once [255, 11, 6])).1 = .ok ⟨[6], 8⟩ ∧
      ofExponent .mod23 (exponent ⟨[6], 8⟩) = .ok ⟨[6], 8⟩ := by
  have hfound : EndsAfter .mod23 Tape.source (.once [255, 11, 6]) 3 (.ok 6) :=
    ⟨by decide, by decide⟩
  have hrefused : EndsAfter .mod23 Tape.source (.once [255]) 2 (.error (.entropy Tape.exhausted)) :=
    ⟨by decide, by decide⟩
  have hpair : (draw .mod23 Tape.source (.once [255, 11, 6])).1 = .ok ⟨[6], 8⟩ := by decide
  obtain ⟨-, hends, -, -, hbuilds, -⟩ :=
    draw_refines_scan ModpGroup.mod23 Tape.source (.once [255, 11, 6])
  obtain ⟨-, -, hstops, -⟩ := draw_refines_scan ModpGroup.mod23 Tape.source (.once [255])
  obtain ⟨hpending, -⟩ := (hends 2 6).1 hfound
  obtain ⟨hstop, -⟩ := (hstops 1 _).1 hrefused
  have hbuilt := hbuilds _ hpair
  exact ⟨hfound, hpending, hrefused, hstop, hpair, hbuilt⟩

end KeyPair

end KeyAgreement
