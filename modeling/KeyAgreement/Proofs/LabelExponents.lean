import KeyAgreement.LabelExpansion
import KeyAgreement.Proofs.SafeExponents
import Mathlib.Data.Nat.ModEq

/-!
# The exponents of labels

A label is expanded into more bytes than are taken from it, and their number is reduced into the
range of the exponents that are drawn. So the exponent of a label is positive and fits into a key,
whatever the group and the label are, and a key pair fails to be made of it only for its public
value. Under a safe prime this leaves out a single exponent.

The main statement is `exponent_in_range`.
-/

namespace KeyAgreement

namespace KeyPair

variable {G : ModpGroup} {x : ℕ}

/-- An exponent in the range is positive and fits into a key: only its public value is checked. -/
theorem ofExponent_of_isExponent (hx : G.IsExponent x) :
    ofExponent G x =
      if G.IsPublic (G.publicValue x) then
        .ok ⟨BigEndian.padTo G.byteLength x, G.publicValue x⟩
      else .error .degeneratePublicValue := by
  have hlt : x < 256 ^ G.byteLength := G.lt_of_lt_modulus (lt_of_isExponent hx)
  by_cases hp : G.IsPublic (G.publicValue x)
  · rw [if_pos hp]
    exact ofExponent_eq (keyBytes_eq_ok_iff.2 ⟨hlt, rfl⟩) hp
  · have h0 : x ≠ 0 := by
      have hlow := hx.1
      omega
    rw [if_neg hp]
    exact ofExponent_of_not_isPublic h0 hlt hp

/-- Under a safe prime no pair is made of the exponent `q`, and one is made of any other in the
range. -/
theorem exists_ofExponent_error_iff (hG : G.IsSafe) (hx : G.IsExponent x) :
    (∃ cause, ofExponent G x = .error cause) ↔ x = G.order := by
  rw [← ModpGroup.isWasted_iff_eq_order hG, ofExponent_of_isExponent hx]
  by_cases hp : G.IsPublic (G.publicValue x)
  · rw [if_pos hp]
    refine iff_of_false ?_ fun hwasted => hwasted.2 hp
    rintro ⟨cause, h⟩
    cases h
  · rw [if_neg hp]
    exact iff_of_true ⟨_, rfl⟩ ⟨hx, hp⟩

end KeyPair

namespace LabelExpansion

theorem material_eq (label : String) :
    material label = Sha256.digest (Text.bytes label ++ [0])
      ++ Sha256.digest (Text.bytes label ++ [1]) ++ Sha256.digest (Text.bytes label ++ [2])
      ++ Sha256.digest (Text.bytes label ++ [3]) ++ Sha256.digest (Text.bytes label ++ [4]) := by
  simp [material, List.range_succ]

theorem isExponent_exponent (G : ModpGroup) (label : String) : G.IsExponent (exponent G label) := by
  have h5 := G.five_lt_modulus
  have hlt : BigEndian.toNat ((material label).take width) % (G.modulus - 3) < G.modulus - 3 :=
    Nat.mod_lt _ (by omega)
  unfold exponent
  constructor <;> omega

theorem exponent_sub_two (G : ModpGroup) (label : String) :
    exponent G label - 2 ≡ BigEndian.toNat ((material label).take width) [MOD G.modulus - 3] :=
  Nat.mod_modEq ..

/-- The exponent of a label lies in the range of the exponents that are drawn: it is two more than
the first 135 bytes of the label's five digests, taken for a number and reduced. Making a pair of it
asks for nothing but an accepted public value, and under a safe prime only the exponent `q` has
none. -/
theorem exponent_in_range (G : ModpGroup) (label : String) :
    (2 ≤ exponent G label ∧ exponent G label ≤ G.modulus - 2) ∧
    (0 < G.modulus - 3 ∧
      exponent G label - 2 ≡ BigEndian.toNat ((material label).take 135) [MOD G.modulus - 3]) ∧
    (material label = Sha256.digest (Text.bytes label ++ [0])
      ++ Sha256.digest (Text.bytes label ++ [1]) ++ Sha256.digest (Text.bytes label ++ [2])
      ++ Sha256.digest (Text.bytes label ++ [3]) ++ Sha256.digest (Text.bytes label ++ [4]) ∧
      (∀ message, (Sha256.digest message).length = 32) ∧ 135 ≤ (material label).length) ∧
    KeyPair.ofExponent G (exponent G label) =
      (if 1 < G.generator ^ exponent G label % G.modulus ∧
          G.generator ^ exponent G label % G.modulus < G.modulus - 1 then
        .ok ⟨BigEndian.padTo G.byteLength (exponent G label), G.publicValue (exponent G label)⟩
      else .error .degeneratePublicValue) ∧
    (G.modulus.Prime → ((G.modulus - 1) / 2).Prime →
      ((∃ cause, KeyPair.ofExponent G (exponent G label) = .error cause) ↔
        exponent G label = (G.modulus - 1) / 2)) := by
  have hx := isExponent_exponent G label
  have h5 := G.five_lt_modulus
  refine ⟨hx, ⟨by omega, exponent_sub_two G label⟩,
    ⟨material_eq label, Sha256.length_digest, ?_⟩, ?_, ?_⟩
  · rw [length_material]
    decide
  · simp only [KeyPair.ofExponent_of_isExponent hx, ModpGroup.isPublic_publicValue_iff]
  · intro hp hq
    exact KeyPair.exists_ofExponent_error_iff ⟨hp, hq⟩ hx

/-- Modulo 23 the exponent of a label is one from 2 to 21, and 11 is the one that no pair is made
of. -/
theorem exponent_in_range_mod23 :
    Nat.Prime 23 ∧ Nat.Prime 11 ∧
      (2 ≤ exponent .mod23 "alice" ∧ exponent .mod23 "alice" ≤ 21) ∧
      ((∃ cause, KeyPair.ofExponent .mod23 (exponent .mod23 "alice") = .error cause) ↔
        exponent .mod23 "alice" = 11) := by
  obtain ⟨hp, hq⟩ := ModpGroup.isSafe_mod23
  obtain ⟨hrange, -, -, -, hiff⟩ := exponent_in_range .mod23 "alice"
  exact ⟨hp, hq, hrange, hiff hp hq⟩

end LabelExpansion

end KeyAgreement
