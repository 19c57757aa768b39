import KeyAgreement.Proofs.SampleCount
import KeyAgreement.Proofs.SafePrime
import Mathlib.Algebra.Ring.Parity

/-!
# Which numbers make a group

A modulus and a generator make a group exactly when they are admissible, and of two numbers that are
both wrong the modulus is named. What is built has the numbers it was built from and nothing else,
so two groups are the same when their numbers are, however many zero bytes a modulus had in front.
All later arithmetic relies on the sizes of the modulus, which `IsMeasured` collects.

The main statement is `exists_ofBytes_iff_isAdmissible`.
-/

namespace KeyAgreement

namespace ModpGroup

variable {G : ModpGroup} {p g : ℕ}

/-- The numbers that an exchange can be held with. -/
structure IsAdmissible (p g : ℕ) : Prop where
  odd : Odd p
  five_lt : 5 < p
  one_lt : 1 < g
  lt : g < p - 1

/-- The sizes of a group are the least numbers of bits and of bytes that its modulus fits into, and
the bytes leave over fewer bits than one of them has. -/
structure IsMeasured (G : ModpGroup) : Prop where
  top_add_one : G.top + 1 = G.modulus
  le_modulus : 2 ^ (G.bits - 1) ≤ G.modulus
  modulus_lt : G.modulus < 2 ^ G.bits
  one_le_byteLength : 1 ≤ G.byteLength
  le_modulus_of_bytes : 256 ^ (G.byteLength - 1) ≤ G.modulus
  modulus_lt_of_bytes : G.modulus < 256 ^ G.byteLength
  bits_le : G.bits ≤ 8 * G.byteLength
  excess_le : 8 * G.byteLength - G.bits ≤ 7

theorem isMeasured (G : ModpGroup) : G.IsMeasured := by
  have hne : G.modulus ≠ 0 := by
    have h5 := G.five_lt_modulus
    omega
  have hsum := G.excessBits_add_bits
  have hexcess := G.excessBits_lt
  exact {
    top_add_one := G.top_add_one
    le_modulus := BigEndian.pow_pred_le hne fun k => BigEndian.bitLength_le_iff
    modulus_lt := G.modulus_lt_two_pow
    one_le_byteLength := G.byteLength_pos
    le_modulus_of_bytes := BigEndian.pow_pred_le hne fun k => BigEndian.byteLength_le_iff
    modulus_lt_of_bytes := G.modulus_lt
    bits_le := by omega
    excess_le := by omega }

theorem isAdmissible (G : ModpGroup) : IsAdmissible G.modulus G.generator :=
  ⟨Nat.odd_iff.2 G.modulus_odd, G.five_lt_modulus, G.one_lt_generator, G.generator_lt⟩

/-! ## Building -/

/-- What is built has the numbers it was built from. -/
theorem of_eq_ok_iff : of p g = .ok G ↔ G.modulus = p ∧ G.generator = g := by
  constructor
  · intro h
    unfold of at h
    split at h
    · split at h
      · obtain rfl := Except.ok.inj h
        exact ⟨rfl, rfl⟩
      · cases h
    · cases h
  · rintro ⟨rfl, rfl⟩
    rw [of, dif_pos ⟨G.modulus_odd, G.five_lt_modulus⟩,
      dif_pos ⟨G.one_lt_generator, G.generator_lt⟩]

theorem exists_of_iff : (∃ G, of p g = .ok G) ↔ IsAdmissible p g := by
  constructor
  · rintro ⟨G, h⟩
    obtain ⟨rfl, rfl⟩ := of_eq_ok_iff.1 h
    exact G.isAdmissible
  · rintro ⟨hodd, hfive, hone, hlt⟩
    exact ⟨⟨p, g, Nat.odd_iff.1 hodd, hfive, hone, hlt⟩, of_eq_ok_iff.2 ⟨rfl, rfl⟩⟩

theorem of_of_not_odd (h : ¬ (Odd p ∧ 5 < p)) : of p g = .error .modulus := by
  rw [Nat.odd_iff] at h
  rw [of, dif_neg h]

theorem of_of_not_lt (h : Odd p ∧ 5 < p) (hg : ¬ (1 < g ∧ g < p - 1)) :
    of p g = .error .generator := by
  rw [Nat.odd_iff] at h
  rw [of, dif_pos h, dif_neg hg]

/-- A group is built exactly from admissible numbers, and a bad modulus is named before a bad
generator. What is built has just the numbers it was built from, so it is one group for all forms of
a modulus, and its sizes are those of the modulus. -/
theorem exists_ofBytes_iff_isAdmissible (m : List UInt8) (g : ℕ) :
    BigEndian.toNat m = Nat.ofDigits 256 (m.map UInt8.toNat).reverse ∧
    ((∃ G, ofBytes m g = .ok G) ↔ IsAdmissible (BigEndian.toNat m) g) ∧
    (¬ (Odd (BigEndian.toNat m) ∧ 5 < BigEndian.toNat m) → ofBytes m g = .error .modulus) ∧
    (Odd (BigEndian.toNat m) ∧ 5 < BigEndian.toNat m →
      ¬ (1 < g ∧ g < BigEndian.toNat m - 1) → ofBytes m g = .error .generator) ∧
    (Fault.group .modulus).message = "Init error: modulus must be odd and > 5" ∧
    (Fault.group .generator).message = "Init error: generator must satisfy 1 < g < p - 1" ∧
    (∀ G, ofBytes m g = .ok G →
      G.modulus = BigEndian.toNat m ∧ G.generator = g ∧ G.IsMeasured) ∧
    ∀ m' g' G G', ofBytes m g = .ok G → ofBytes m' g' = .ok G' →
      ((G == G') = true ↔ BigEndian.toNat m = BigEndian.toNat m' ∧ g = g') := by
  refine ⟨BigEndian.toNat_eq_ofDigits m, exists_of_iff, of_of_not_odd, of_of_not_lt, rfl, rfl, ?_,
    ?_⟩
  · intro G h
    obtain ⟨hmodulus, hgenerator⟩ := of_eq_ok_iff.1 h
    exact ⟨hmodulus, hgenerator, G.isMeasured⟩
  · intro m' g' G G' h h'
    obtain ⟨hmodulus, hgenerator⟩ := of_eq_ok_iff.1 h
    obtain ⟨hmodulus', hgenerator'⟩ := of_eq_ok_iff.1 h'
    rw [beq_iff_eq, ← hmodulus, ← hgenerator, ← hmodulus', ← hgenerator']
    constructor
    · rintro rfl
      exact ⟨rfl, rfl⟩
    · rintro ⟨hp, hg⟩
      exact ModpGroup.ext hp hg

/-- The bytes of 23 make one group with and without a zero byte in front; 24 is refused before its
generator is looked at, and 22 is no generator modulo 23. -/
theorem exists_ofBytes_iff_isAdmissible_mod23 :
    ofBytes [23] 5 = .ok .mod23 ∧ ofBytes [0, 23] 5 = .ok .mod23 ∧ IsAdmissible 23 5 ∧
      mod23.IsMeasured ∧ ofBytes [24] 0 = .error .modulus ∧
      ofBytes [23] 22 = .error .generator ∧ (mod23 == mod23) = true := by
  have hbuilt : ofBytes [23] 5 = .ok .mod23 := rfl
  have hpadded : ofBytes [0, 23] 5 = .ok .mod23 := rfl
  obtain ⟨-, hiff, -, -, -, -, hof, hsame⟩ := exists_ofBytes_iff_isAdmissible [23] 5
  obtain ⟨-, -, hmodulus, -⟩ := exists_ofBytes_iff_isAdmissible [24] 0
  obtain ⟨-, -, -, hgenerator, -⟩ := exists_ofBytes_iff_isAdmissible [23] 22
  exact ⟨hbuilt, hpadded, hiff.1 ⟨_, hbuilt⟩, (hof _ hbuilt).2.2, hmodulus (by decide),
    hgenerator (by decide) (by decide), (hsame _ _ _ _ hbuilt hpadded).2 ⟨rfl, rfl⟩⟩

end ModpGroup

end KeyAgreement
