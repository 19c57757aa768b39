import KeyAgreement.Entropy.Tape
import KeyAgreement.Proofs.Drawing
import KeyAgreement.Proofs.SafePrime

/-!
# Exponents under a safe prime

The own key is checked by its public value, and under a safe prime this check can be read off the
exponent: the generator is an accepted value, so its power is accepted unless the exponent is a
multiple of `q`. The range of the drawn exponents holds a single such multiple, `q` itself. So
whatever the generator is, a drawing loses one exponent and no other.

The main statement is `exists_ofExponent_iff_not_order_dvd`.
-/

namespace KeyAgreement

namespace ModpGroup

variable {G : ModpGroup} {x : ℕ}

theorem two_lt_order (G : ModpGroup) : 2 < G.order := by
  have h5 := G.five_lt_modulus
  have ht := G.top_eq
  have hm := G.top_add_one
  omega

/-- The check on the own key looks for multiples of `q`. -/
theorem isPublic_publicValue_iff_not_order_dvd (hG : G.IsSafe) :
    G.IsPublic (G.publicValue x) ↔ ¬ G.order ∣ x :=
  isPublic_power_iff hG G.generator_isPublic

theorem isExponent_order (G : ModpGroup) : G.IsExponent G.order := by
  have h2 := G.two_lt_order
  have ht := G.top_eq
  have hm := G.top_add_one
  constructor <;> omega

/-- The next multiple of `q` after `q` is the modulus less one, and so past the range. -/
theorem eq_order_of_isExponent (hx : G.IsExponent x) (hdvd : G.order ∣ x) : x = G.order := by
  have h2 := G.two_lt_order
  have ht := G.top_eq
  have hm := G.top_add_one
  obtain ⟨hlow, hhigh⟩ := hx
  have hlt : x < G.order * 2 := by omega
  obtain ⟨k, rfl⟩ := hdvd
  have hk : k < 2 := Nat.lt_of_mul_lt_mul_left hlt
  have hk0 : k ≠ 0 := by
    rintro rfl
    omega
  obtain rfl : k = 1 := by omega
  exact Nat.mul_one _

/-- Of the exponents that are drawn, `q` is the one whose public value nobody accepts. -/
theorem isWasted_iff_eq_order (hG : G.IsSafe) : G.IsWasted x ↔ x = G.order := by
  rw [IsWasted, isPublic_publicValue_iff_not_order_dvd hG, not_not]
  constructor
  · rintro ⟨hx, hdvd⟩
    exact eq_order_of_isExponent hx hdvd
  · rintro rfl
    exact ⟨G.isExponent_order, dvd_rfl⟩

end ModpGroup

namespace KeyPair

variable {G : ModpGroup} {x : ℕ}

theorem exists_ofExponent_iff : (∃ pair, ofExponent G x = .ok pair) ↔
    x < 256 ^ G.byteLength ∧ G.IsPublic (G.publicValue x) := by
  constructor
  · rintro ⟨pair, h⟩
    obtain ⟨hof, rfl⟩ := ofExponent_eq_ok_iff.1 h
    refine ⟨?_, hof.value_eq ▸ hof.isPublic⟩
    rw [← hof.width]
    exact BigEndian.toNat_lt pair.privateBytes
  · rintro ⟨hlt, hp⟩
    exact ⟨_, ofExponent_eq (keyBytes_eq_ok_iff.2 ⟨hlt, rfl⟩) hp⟩

/-- Under a safe prime a pair is made of just those exponents that fit into a key and are no
multiples of `q`. In the range that exponents are drawn from this leaves out `q` and nothing else:
the loop for a pair goes on when it has drawn `q`, and ends with any other exponent. -/
theorem exists_ofExponent_iff_not_order_dvd (hG : G.IsSafe) :
    (∀ x, (∃ pair, ofExponent G x = .ok pair) ↔
      0 < x ∧ x < 256 ^ G.byteLength ∧ ¬ G.order ∣ x) ∧
    (∀ x, (2 ≤ x ∧ x ≤ G.modulus - 2) ∧ ¬ G.IsPublic (G.publicValue x) ↔ x = G.order) ∧
    ∀ {σ : Type} (source : Entropy σ) (tries : ℕ) (state after : σ) (x : ℕ),
      drawExponent G source attempts state = (.ok x, after) →
        (x = G.order →
          drawWithin G source (tries + 1) state = drawWithin G source tries after) ∧
        (x ≠ G.order → ∃ pair : KeyPair,
          drawWithin G source (tries + 1) state = (.ok pair, after) ∧ pair.exponent = x) := by
  refine ⟨?_, fun x => ModpGroup.isWasted_iff_eq_order hG, ?_⟩
  · intro x
    rw [exists_ofExponent_iff, ModpGroup.isPublic_publicValue_iff_not_order_dvd hG]
    constructor
    · rintro ⟨hlt, hdvd⟩
      refine ⟨Nat.pos_of_ne_zero ?_, hlt, hdvd⟩
      rintro rfl
      exact hdvd (dvd_zero _)
    · rintro ⟨-, hlt, hdvd⟩
      exact ⟨hlt, hdvd⟩
  · intro σ source tries state after x hdraw
    have hx : G.IsExponent x := isExponent_of_drawExponent (congrArg Prod.fst hdraw)
    constructor
    · rintro rfl
      exact drawWithin_of_not_isPublic tries hdraw ((ModpGroup.isWasted_iff_eq_order hG).2 rfl).2
    · intro hne
      refine exists_drawWithin_of_isPublic tries hdraw hx ?_
      by_contra hp
      exact hne ((ModpGroup.isWasted_iff_eq_order hG).1 ⟨hx, hp⟩)

/-- Modulo 23 no pair is made of 33, which is three times 11, while one is made of 24, though it is
larger than the modulus. A loop that has drawn 11 goes on to the next exponent, here 6. -/
theorem exists_ofExponent_iff_mod23 :
    ModpGroup.mod23.IsSafe ∧ ModpGroup.mod23.order = 11 ∧
      (¬ ∃ pair, ofExponent .mod23 33 = .ok pair) ∧ (∃ pair, ofExponent .mod23 24 = .ok pair) ∧
      drawExponent .mod23 Tape.source attempts (.once [11, 6]) = (.ok 11, .once [6]) ∧
      drawExponent .mod23 Tape.source attempts (.once [6]) = (.ok 6, .once []) ∧
      drawWithin .mod23 Tape.source 2 (.once [11, 6])
        = drawWithin .mod23 Tape.source 1 (.once [6]) ∧
      ∃ pair : KeyPair, drawWithin .mod23 Tape.source 1 (.once [6]) = (.ok pair, .once []) ∧
        pair.exponent = 6 := by
  obtain ⟨hbuilt, -, hdrawn⟩ := exists_ofExponent_iff_not_order_dvd ModpGroup.isSafe_mod23
  have hlost : drawExponent .mod23 Tape.source attempts (.once [11, 6]) = (.ok 11, .once [6]) := by
    decide
  have hkept : drawExponent .mod23 Tape.source attempts (.once [6]) = (.ok 6, .once []) := by
    decide
  refine ⟨ModpGroup.isSafe_mod23, rfl, ?_, ?_, hlost, hkept, ?_, ?_⟩
  · rw [hbuilt]
    decide
  · rw [hbuilt]
    decide
  · exact (hdrawn Tape.source 1 _ _ 11 hlost).1 rfl
  · exact (hdrawn Tape.source 0 _ _ 6 hkept).2 (by decide)

end KeyPair

end KeyAgreement
