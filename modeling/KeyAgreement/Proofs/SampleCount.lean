import KeyAgreement.KeyPair.Generation
import KeyAgreement.Proofs.ModularPower
import Mathlib.Data.Nat.Bitwise
import Mathlib.Data.Set.Card
import Mathlib.Tactic.IntervalCases

/-!
# How many buffers give a sample

Clearing the high bits of a buffer takes its number modulo the power of two above the modulus, as
`sample_eq_mod` says. Every number below that power is then the sample of equally many buffers, one
for each value of the bits that were cleared: `ncard_buffersOf`.
-/

namespace KeyAgreement.ModpGroup

variable {G : ModpGroup} {x : ℕ}

theorem excessBits_add_bits (G : ModpGroup) : G.excessBits + G.bits = 8 * G.byteLength := by
  unfold excessBits byteLength BigEndian.byteLength bits
  omega

theorem excessBits_lt (G : ModpGroup) : G.excessBits < 8 := by
  unfold excessBits byteLength BigEndian.byteLength bits
  omega

theorem pow_byteLength (G : ModpGroup) : 256 ^ G.byteLength = 2 ^ G.bits * 2 ^ G.excessBits := by
  have h : (256 : ℕ) = 2 ^ 8 := rfl
  rw [← pow_add, Nat.add_comm, excessBits_add_bits, h, pow_mul]

theorem modulus_lt_two_pow (G : ModpGroup) : G.modulus < 2 ^ G.bits :=
  BigEndian.bitLength_le_iff.1 (Nat.le_refl _)

/-! ## Clearing bits -/

/-- The mask keeps the low bits of a byte. -/
theorem toNat_and_mask (byte : UInt8) {count : ℕ} (h : count < 8) :
    (byte &&& (255 >>> UInt8.ofNat count)).toNat = byte.toNat % 2 ^ (8 - count) := by
  have hmask : (255 >>> UInt8.ofNat count).toNat = 2 ^ (8 - count) - 1 := by
    interval_cases count <;> decide
  rw [UInt8.toNat_and, hmask, Nat.and_two_pow_sub_one_eq_mod]

/-- A buffer of the width of a key is taken for its number, cut off at the bits of the modulus. -/
theorem sample_eq_mod {buffer : List UInt8} (h : buffer.length = G.byteLength) :
    G.sample buffer = BigEndian.toNat buffer % 2 ^ G.bits := by
  cases buffer with
  | nil =>
    have hpos := G.byteLength_pos
    rw [← h, List.length_nil] at hpos
    exact absurd hpos (Nat.lt_irrefl 0)
  | cons byte rest =>
    have hexcess := G.excessBits_lt
    have hsum := G.excessBits_add_bits
    rw [← h, List.length_cons] at hsum
    have hbits : 2 ^ G.bits = 256 ^ rest.length * 2 ^ (8 - G.excessBits) := by
      have h256 : (256 : ℕ) = 2 ^ 8 := rfl
      rw [h256, ← pow_mul, ← pow_add]
      congr 1
      omega
    have hrest := BigEndian.toNat_lt rest
    have hpos : 0 < 256 ^ rest.length := Nat.pos_of_ne_zero (by positivity)
    rw [sample, clearHighBits, BigEndian.toNat_cons, BigEndian.toNat_cons,
      toNat_and_mask byte hexcess, hbits, Nat.mod_mul, Nat.add_comm (byte.toNat * _),
      Nat.add_mul_mod_self_right, Nat.mod_eq_of_lt hrest, Nat.add_mul_div_right _ _ hpos,
      Nat.div_eq_of_lt hrest, Nat.zero_add, Nat.mul_comm, Nat.add_comm]

/-! ## Counting buffers -/

/-- The buffers of the width of a key that are taken for a number. -/
def buffersOf (G : ModpGroup) (x : ℕ) : Set (List UInt8) :=
  {buffer | buffer.length = G.byteLength ∧ G.sample buffer = x}

/-- The buffer of a sample in which the bits that are cleared have a value. -/
def bufferOf (G : ModpGroup) (x high : ℕ) : List UInt8 :=
  BigEndian.padTo G.byteLength (x + 2 ^ G.bits * high)

theorem toNat_bufferOf {high : ℕ} (hx : x < 2 ^ G.bits) (hhigh : high < 2 ^ G.excessBits) :
    BigEndian.toNat (G.bufferOf x high) = x + 2 ^ G.bits * high := by
  rw [bufferOf, BigEndian.toNat_padTo]
  refine Nat.mod_eq_of_lt ?_
  calc x + 2 ^ G.bits * high < 2 ^ G.bits + 2 ^ G.bits * high := Nat.add_lt_add_right hx _
    _ = 2 ^ G.bits * (high + 1) := by rw [Nat.mul_succ, Nat.add_comm]
    _ ≤ 2 ^ G.bits * 2 ^ G.excessBits := Nat.mul_le_mul_left _ hhigh
    _ = 256 ^ G.byteLength := (pow_byteLength G).symm

/-- The buffers of a sample are told apart by the bits that are cleared. -/
theorem buffersOf_eq_image (hx : x < 2 ^ G.bits) :
    G.buffersOf x = G.bufferOf x '' Set.Iio (2 ^ G.excessBits) := by
  ext buffer
  constructor
  · rintro ⟨hlen, rfl⟩
    refine ⟨BigEndian.toNat buffer / 2 ^ G.bits, ?_, ?_⟩
    · refine Nat.div_lt_of_lt_mul ?_
      rw [← pow_byteLength, ← hlen]
      exact BigEndian.toNat_lt buffer
    · rw [bufferOf, sample_eq_mod hlen, Nat.mod_add_div]
      exact BigEndian.padTo_toNat hlen
  · rintro ⟨high, hhigh, rfl⟩
    have hlen : (G.bufferOf x high).length = G.byteLength := BigEndian.length_padTo ..
    refine ⟨hlen, ?_⟩
    rw [sample_eq_mod hlen, toNat_bufferOf hx hhigh, Nat.add_mul_mod_self_left, Nat.mod_eq_of_lt hx]

theorem ncard_buffersOf (hx : x < 2 ^ G.bits) : (G.buffersOf x).ncard = 2 ^ G.excessBits := by
  have hinj : Set.InjOn (G.bufferOf x) (Set.Iio (2 ^ G.excessBits)) := by
    intro high hhigh high' hhigh' heq
    have hsame := toNat_bufferOf hx hhigh
    rw [heq, toNat_bufferOf hx hhigh'] at hsame
    exact Nat.eq_of_mul_eq_mul_left (Nat.two_pow_pos _) (Nat.add_left_cancel hsame.symm)
  rw [buffersOf_eq_image hx, hinj.ncard_image, ← Finset.coe_range, Set.ncard_coe_finset,
    Finset.card_range]

end KeyAgreement.ModpGroup
