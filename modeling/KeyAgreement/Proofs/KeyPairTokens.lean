import KeyAgreement.Entropy.Tape
import KeyAgreement.Proofs.Exchange
import Mathlib.Algebra.Order.Floor.Div

/-!
# What a key pair promises

Whoever holds a key pair relies on more than its exponent and its public value: that both are handed
out as tokens of one length, that the tokens stand for the very numbers, that a peer accepts the
public token, and that the private token alone brings the pair back. `KeyPair.Represents` collects
these promises. Numbers that need fewer bytes than the group's keys are written with zero bytes in
front, so none of it depends on how large they happen to be.

The main statement is `represents_of_built`: both ways to a key pair keep every promise.
-/

namespace KeyAgreement

/-- The length of the token of so many bytes: four symbols for three bytes, rounded up, and the
marker if there is nothing to round. -/
theorem Token.length_eq (size : ℕ) :
    length size = if 3 ∣ size then 4 * size / 3 + 1 else (4 * size) ⌈/⌉ 3 := by
  rw [length, Nat.ceilDiv_eq_add_pred_div]
  by_cases h : 3 ∣ size
  · rw [if_pos h, if_pos (Nat.mod_eq_zero_of_dvd h)]
    omega
  · rw [if_neg h, if_neg (mt Nat.dvd_of_mod_eq_zero h), Nat.add_zero]
    omega

/-- The generator three modulo 257, a group in which small numbers are written with a zero byte in
front. -/
def ModpGroup.mod257 : ModpGroup where
  modulus := 257
  generator := 3
  modulus_odd := by decide
  five_lt_modulus := by decide
  one_lt_generator := by decide
  generator_lt := by decide

namespace KeyPair

variable {G : ModpGroup} {pair : KeyPair}

/-- A token of the width of the group's keys that stands for a number. -/
structure IsKeyToken (G : ModpGroup) (token : String) (n : ℕ) : Prop where
  length_eq : token.length
    = if 3 ∣ G.byteLength then 4 * G.byteLength / 3 + 1 else (4 * G.byteLength) ⌈/⌉ 3
  symbols : ¬ Token.HasStranger token
  decodes : ∃ bytes, Token.decode token = .ok bytes ∧ bytes.length = G.byteLength ∧
    BigEndian.toNat bytes = n

/-- A pair that keeps all that is promised of a pair of the exponent `x`. -/
structure Represents (pair : KeyPair) (G : ModpGroup) (x : ℕ) : Prop where
  width : pair.privateBytes.length = G.byteLength
  exponent_eq : pair.exponent = x
  publicValue_eq : pair.publicValue = G.generator ^ x % G.modulus
  isPublic : 1 < pair.publicValue ∧ pair.publicValue < G.modulus - 1
  isKeyToken_private : IsKeyToken G pair.privateToken x
  /-- There is a public token, and a peer reads the public value from it. -/
  exists_publicToken : ∃ token, pair.publicToken G = .ok token ∧
    IsKeyToken G token pair.publicValue ∧ PublicValue.decode G token = .ok pair.publicValue
  /-- The private token alone leads back to the pair. -/
  rebuilds : ∃ bytes, Token.decode pair.privateToken = .ok bytes ∧
    ofExponent G (BigEndian.toNat bytes) = .ok pair

theorem isKeyToken_encode {bytes : List UInt8} (h : bytes.length = G.byteLength) :
    IsKeyToken G (Token.encode bytes) (BigEndian.toNat bytes) where
  length_eq := by rw [Token.length_encode, h, Token.length_eq]
  symbols := Token.isSymbolic_iff.1 (Token.isSymbolic_encode bytes)
  decodes := ⟨bytes, Token.decode_encode bytes, h, rfl⟩

theorem IsOf.exists_publicToken (h : pair.IsOf G) : ∃ token, pair.publicToken G = .ok token ∧
    IsKeyToken G token pair.publicValue ∧ PublicValue.decode G token = .ok pair.publicValue := by
  have hnum := toNat_padTo_of_lt h.publicValue_lt
  have hkey := isKeyToken_encode (G := G) (BigEndian.length_padTo G.byteLength pair.publicValue)
  rw [hnum] at hkey
  refine ⟨_, h.publicToken_eq, hkey, PublicValue.decode_eq_ok_iff.2 ?_⟩
  exact ⟨Token.isSymbolic_encode _, _, Token.decode_encode _, hnum, h.isPublic⟩

/-- A pair that belongs to a group keeps every promise. -/
theorem IsOf.represents (h : pair.IsOf G) : pair.Represents G pair.exponent := by
  refine
    { width := h.width
      exponent_eq := rfl
      publicValue_eq := ?_
      isPublic := h.isPublic
      isKeyToken_private := isKeyToken_encode h.width
      exists_publicToken := h.exists_publicToken
      rebuilds := ⟨pair.privateBytes, pair.decode_privateToken, h.ofExponent_exponent⟩ }
  rw [h.value_eq, ModpGroup.publicValue, ModpGroup.power_eq]

/-- A pair built from an exponent represents that exponent, and a drawn pair one from the range. -/
theorem represents_of_built (G : ModpGroup) :
    (∀ (x : ℕ) (pair : KeyPair), ofExponent G x = .ok pair → pair.Represents G x) ∧
    (∀ {σ : Type} (source : Entropy σ) (state : σ) (pair : KeyPair),
      (draw G source state).1 = .ok pair →
        ∃ x, (2 ≤ x ∧ x ≤ G.modulus - 2) ∧ pair.Represents G x) := by
  constructor
  · intro x pair h
    obtain ⟨hof, rfl⟩ := ofExponent_eq_ok_iff.1 h
    exact hof.represents
  · intro σ source state pair h
    obtain ⟨hof, hrange⟩ := isOf_of_drawWithin h
    exact ⟨pair.exponent, hrange, hof.represents⟩

/-- Modulo 257 the exponent 5 and its public value 243 are written with two bytes each, whether the
pair is built or drawn. -/
theorem represents_of_built_mod257 :
    ofExponent .mod257 5 = .ok ⟨[0, 5], 243⟩ ∧ Represents ⟨[0, 5], 243⟩ .mod257 5 ∧
      (draw .mod257 Tape.source (.once [0, 5])).1 = .ok ⟨[0, 5], 243⟩ ∧
      (∃ x, (2 ≤ x ∧ x ≤ 255) ∧ Represents ⟨[0, 5], 243⟩ .mod257 x) ∧
      publicToken ⟨[0, 5], 243⟩ .mod257 = .ok "APM" := by
  obtain ⟨hbuilt, hdrawn⟩ := represents_of_built .mod257
  have hof : ofExponent .mod257 5 = .ok ⟨[0, 5], 243⟩ := by decide
  have hdraw : (draw .mod257 Tape.source (.once [0, 5])).1 = .ok ⟨[0, 5], 243⟩ := by decide
  exact ⟨hof, hbuilt 5 _ hof, hdraw, hdrawn Tape.source _ _ hdraw, by decide⟩

end KeyPair

end KeyAgreement
