import KeyAgreement.ModpGroup
import KeyAgreement.Proofs.Numerals

/-!
# Computed powers are powers

Repeated squaring computes the power, reduced once at the end: `modPow_eq`. Everything that is said
about exchanged values goes through this equation, in the form `ModpGroup.power_eq`.
-/

namespace KeyAgreement

/-- Squaring is exact once all digits of the exponent are counted. -/
theorem squareAndMultiply_eq (modulus : Nat) {digits base exponent : Nat}
    (h : exponent < 2 ^ digits) :
    squareAndMultiply modulus digits base exponent = base ^ exponent % modulus := by
  induction digits generalizing base exponent with
  | zero =>
    obtain rfl : exponent = 0 := by simpa using h
    simp [squareAndMultiply]
  | succ digits ih =>
    have half : exponent / 2 < 2 ^ digits := by rw [Nat.pow_succ] at h; omega
    have square : (base * base % modulus) ^ (exponent / 2) % modulus
        = base ^ (2 * (exponent / 2)) % modulus := by
      rw [← Nat.pow_mod, Nat.pow_mul, Nat.pow_two]
    simp only [squareAndMultiply, ih half, square]
    by_cases odd : exponent % 2 = 1
    · have whole : 2 * (exponent / 2) + 1 = exponent := by omega
      rw [if_pos odd, Nat.mod_mul_mod, ← Nat.pow_succ, Nat.succ_eq_add_one, whole]
    · have whole : 2 * (exponent / 2) = exponent := by omega
      rw [if_neg odd, whole]

theorem modPow_eq (base exponent modulus : Nat) :
    modPow base exponent modulus = base ^ exponent % modulus :=
  squareAndMultiply_eq modulus (BigEndian.bitLength_le_iff.1 (Nat.le_refl _))

namespace ModpGroup

@[simp] theorem power_eq (G : ModpGroup) (value exponent : Nat) :
    G.power value exponent = value ^ exponent % G.modulus := modPow_eq ..

theorem power_lt (G : ModpGroup) (value exponent : Nat) : G.power value exponent < G.modulus := by
  have h5 := G.five_lt_modulus
  rw [power_eq]
  exact Nat.mod_lt _ (by omega)

theorem modulus_lt (G : ModpGroup) : G.modulus < 256 ^ G.byteLength :=
  BigEndian.byteLength_le_iff.1 (Nat.le_refl _)

theorem byteLength_pos (G : ModpGroup) : 0 < G.byteLength := by
  have h := G.modulus_lt
  have h5 := G.five_lt_modulus
  rcases Nat.eq_zero_or_pos G.byteLength with h0 | hpos
  · rw [h0, Nat.pow_zero] at h
    omega
  · exact hpos

end ModpGroup

end KeyAgreement
