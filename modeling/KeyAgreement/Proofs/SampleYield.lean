import KeyAgreement.Proofs.Admissibility
import KeyAgreement.Proofs.FixedWidth
import KeyAgreement.Proofs.UnbiasedDraw
import Mathlib.Data.Set.Card.Arithmetic
import Mathlib.Order.Interval.Finset.Nat

/-!
# How many buffers are kept

A buffer is kept if an exponent is drawn from it alone, and dropped if another one is asked for. The
exponents of the range are the samples of equally many buffers each, so the kept buffers are counted
by their samples. Masking leaves no more bits than the modulus has, of which the highest is set in
the modulus. So more than three buffers in eight are kept under every modulus but nine, and under
nine exactly three in eight.

The main statement is `three_eighths_kept`.
-/

namespace KeyAgreement

variable {G : ModpGroup} {buffer : List UInt8} {x : ℕ}

/-! ## Drawing from one buffer -/

theorem Tape.fill_once_nil {size : ℕ} (h : 0 < size) :
    (source.fill size (once [])).1 = .error exhausted := by
  obtain ⟨size, rfl⟩ := Nat.exists_eq_succ_of_ne_zero (Nat.ne_of_gt h)
  rfl

namespace KeyPair

/-- Nothing is drawn from a tape without bytes. -/
theorem exists_drawExponent_once_nil (G : ModpGroup) (tries : ℕ) :
    ∃ cause, (drawExponent G Tape.source tries (.once [])).1 = .error cause := by
  cases tries with
  | zero => exact ⟨_, rfl⟩
  | succ tries =>
    have hrefused : samples G Tape.source (.once []) 0 = .error Tape.exhausted := by
      rw [samples, stateAfter, Tape.fill_once_nil G.byteLength_pos]
      rfl
    exact ⟨_, congrArg Prod.fst (drawExponent_of_error tries hrefused)⟩

/-- From a single buffer its sample is drawn, if that lies in the range, and nothing else. -/
theorem drawExponent_once_eq_ok_iff {tries : ℕ} (h : buffer.length = G.byteLength)
    (htries : 0 < tries) :
    (drawExponent G Tape.source tries (.once buffer)).1 = .ok x ↔
      G.sample buffer = x ∧ G.IsExponent x := by
  obtain ⟨tries, rfl⟩ := Nat.exists_eq_succ_of_ne_zero (Nat.ne_of_gt htries)
  have hsample := samples_once_last (List.length_nil.trans (Nat.zero_mul _).symm) h
  have hrun := drawExponent_of_ok tries hsample
  have hafter : stateAfter G Tape.source (.once buffer) 1 = .once [] := by
    rw [stateAfter_once (by rw [h, Nat.one_mul]), Nat.one_mul, ← h, List.drop_length]
  rw [List.nil_append, stateAfter, Nat.zero_add, hafter] at hrun
  rw [hrun]
  by_cases hr : G.IsExponent (G.sample buffer)
  · rw [if_pos hr]
    constructor
    · intro heq
      obtain rfl := Except.ok.inj heq
      exact ⟨rfl, hr⟩
    · rintro ⟨rfl, -⟩
      rfl
  · rw [if_neg hr]
    obtain ⟨cause, hnil⟩ := exists_drawExponent_once_nil G tries
    rw [hnil]
    refine iff_of_false ?_ ?_
    · intro heq
      cases heq
    · rintro ⟨rfl, hx⟩
      exact hr hx

end KeyPair

namespace ModpGroup

/-! ## Counting -/

/-- The buffers of the width of a key. -/
def buffers (G : ModpGroup) : Set (List UInt8) := {buffer | buffer.length = G.byteLength}

/-- The buffers from which an exponent is drawn without asking for another one. -/
def keptBuffers (G : ModpGroup) : Set (List UInt8) :=
  {buffer ∈ G.buffers | ∃ x,
    (KeyPair.drawExponent G Tape.source KeyPair.attempts (.once buffer)).1 = .ok x}

theorem ncard_buffers (G : ModpGroup) : G.buffers.ncard = 256 ^ G.byteLength := by
  rw [buffers, (BigEndian.bijOn_toNat G.byteLength).ncard_eq, ← Finset.coe_Iio,
    Set.ncard_coe_finset, Nat.card_Iio]

/-- The kept buffers are those of the exponents of the range. -/
theorem keptBuffers_eq_biUnion (G : ModpGroup) :
    G.keptBuffers = ⋃ x ∈ (Finset.Icc 2 (G.modulus - 2) : Set ℕ), G.buffersOf x := by
  ext buffer
  simp only [keptBuffers, buffersOf, Set.mem_iUnion, Finset.mem_coe, Finset.mem_Icc, exists_prop]
  constructor
  · rintro ⟨hlen, x, hx⟩
    obtain ⟨rfl, hr⟩ := (KeyPair.drawExponent_once_eq_ok_iff hlen (by decide)).1 hx
    exact ⟨_, hr, hlen, rfl⟩
  · rintro ⟨x, hr, hlen, rfl⟩
    exact ⟨hlen, _, (KeyPair.drawExponent_once_eq_ok_iff hlen (by decide)).2 ⟨rfl, hr⟩⟩

theorem finite_buffersOf (G : ModpGroup) (x : ℕ) : (G.buffersOf x).Finite :=
  (List.finite_length_eq UInt8 G.byteLength).subset fun _ h => h.1

theorem ncard_keptBuffers (G : ModpGroup) :
    G.keptBuffers.ncard = (G.modulus - 3) * 2 ^ G.excessBits := by
  have hfibre : ∀ x ∈ Finset.Icc 2 (G.modulus - 2), (G.buffersOf x).ncard = 2 ^ G.excessBits :=
    fun x hx => ncard_buffersOf (lt_two_pow_bits (Finset.mem_Icc.1 hx))
  have hdisjoint : (Finset.Icc 2 (G.modulus - 2) : Set ℕ).PairwiseDisjoint G.buffersOf := by
    rintro x - y - hne
    refine Set.disjoint_left.2 ?_
    rintro buffer ⟨-, rfl⟩ ⟨-, rfl⟩
    exact hne rfl
  have hcount : G.modulus - 2 + 1 - 2 = G.modulus - 3 := by omega
  rw [keptBuffers_eq_biUnion,
    (Finset.finite_toSet _).ncard_biUnion (fun x _ => G.finite_buffersOf x) hdisjoint,
    finsum_mem_coe_finset, Finset.sum_congr rfl hfibre, Finset.sum_const, Nat.card_Icc,
    smul_eq_mul, hcount]

/-! ## The share of the kept buffers -/

theorem three_le_bits (G : ModpGroup) : 3 ≤ G.bits := by
  have h5 := G.five_lt_modulus
  by_contra hlt
  have hsmall : G.modulus < 2 ^ 2 := BigEndian.bitLength_le_iff.1 (by rw [← bits]; omega)
  omega

/-- The modulus is odd and has its highest bit, so three eighths of the numbers of its bits are
exponents of the range, and there are no more of them only if it is nine. -/
theorem three_mul_two_pow_bits_le (G : ModpGroup) :
    3 * 2 ^ G.bits ≤ 8 * (G.modulus - 3) ∧
      (8 * (G.modulus - 3) = 3 * 2 ^ G.bits ↔ G.modulus = 9) := by
  have hodd := G.modulus_odd
  have h5 := G.five_lt_modulus
  have hlow := G.isMeasured.le_modulus
  have hhigh := G.modulus_lt_two_pow
  obtain ⟨k, hk⟩ := Nat.exists_eq_add_of_le' G.three_le_bits
  have hwhole : 2 ^ (k + 3) = 8 * 2 ^ k := by rw [pow_add, Nat.mul_comm]; rfl
  have hhalf : 2 ^ (k + 3 - 1) = 4 * 2 ^ k := by
    rw [Nat.add_sub_assoc (by decide), pow_add, Nat.mul_comm]
    rfl
  rw [hk, hhalf] at hlow
  rw [hk, hwhole] at hhigh ⊢
  -- A modulus of three bits is seven. One of more bits reaches an even power of two, and as it is
  -- odd it lies above it.
  cases k with
  | zero => omega
  | succ k =>
    have hpos := Nat.two_pow_pos k
    rw [Nat.pow_succ] at hlow hhigh ⊢
    omega

/-- A sample is below the power of two above the modulus, every exponent of the range is the sample
of equally many buffers, and it is the one that is drawn from them. So the kept buffers can be
counted; they are at least three in eight, and just as many only if the modulus is nine. -/
theorem three_eighths_kept (G : ModpGroup) :
    (∀ buffer ∈ G.buffers, G.sample buffer = BigEndian.toNat buffer % 2 ^ G.bits ∧
      G.sample buffer < 2 ^ G.bits) ∧
    G.buffers.ncard = 256 ^ G.byteLength ∧
    (∀ x, 2 ≤ x ∧ x ≤ G.modulus - 2 →
      {buffer ∈ G.buffers | G.sample buffer = x}.ncard = 2 ^ (8 * G.byteLength - G.bits)) ∧
    (∀ buffer ∈ G.buffers, ∀ x,
      (KeyPair.drawExponent G Tape.source KeyPair.attempts (.once buffer)).1 = .ok x ↔
        G.sample buffer = x ∧ 2 ≤ x ∧ x ≤ G.modulus - 2) ∧
    G.keptBuffers.ncard = (G.modulus - 3) * 2 ^ (8 * G.byteLength - G.bits) ∧
    3 * G.buffers.ncard ≤ 8 * G.keptBuffers.ncard ∧
    (8 * G.keptBuffers.ncard = 3 * G.buffers.ncard ↔ G.modulus = 9) := by
  have hall : 3 * G.buffers.ncard = 3 * 2 ^ G.bits * 2 ^ G.excessBits := by
    rw [ncard_buffers, pow_byteLength, Nat.mul_assoc]
  have hkept : 8 * G.keptBuffers.ncard = 8 * (G.modulus - 3) * 2 ^ G.excessBits := by
    rw [ncard_keptBuffers, Nat.mul_assoc]
  obtain ⟨hle, heq⟩ := G.three_mul_two_pow_bits_le
  refine ⟨?_, G.ncard_buffers, ?_, ?_, G.ncard_keptBuffers, ?_, ?_⟩
  · intro buffer hlen
    have hmod := sample_eq_mod hlen
    exact ⟨hmod, hmod ▸ Nat.mod_lt _ (Nat.two_pow_pos _)⟩
  · intro x hx
    exact ncard_buffersOf (lt_two_pow_bits hx)
  · intro buffer hlen x
    exact KeyPair.drawExponent_once_eq_ok_iff hlen (by decide)
  · rw [hall, hkept]
    exact Nat.mul_le_mul_right _ hle
  · rw [hall, hkept, Nat.mul_left_inj (Nat.ne_of_gt (Nat.two_pow_pos _)), heq]

/-- The generator four modulo nine, the modulus of the least yield. -/
def mod9 : ModpGroup where
  modulus := 9
  generator := 4
  modulus_odd := by decide
  five_lt_modulus := by decide
  one_lt_generator := by decide
  generator_lt := by decide

/-- Modulo nine the six exponents from two to seven are drawn from sixteen buffers each, which are
three eighths of all buffers of one byte. -/
theorem three_eighths_kept_mod9 :
    [245] ∈ mod9.buffers ∧ mod9.sample [245] < 16 ∧
      (KeyPair.drawExponent mod9 Tape.source KeyPair.attempts (.once [245])).1 = .ok 5 ∧
      {buffer ∈ mod9.buffers | mod9.sample buffer = 5}.ncard = 16 ∧
      mod9.buffers.ncard = 256 ∧ mod9.keptBuffers.ncard = 96 ∧
      8 * mod9.keptBuffers.ncard = 3 * mod9.buffers.ncard := by
  obtain ⟨hbelow, hall, hfibre, hdrawn, hkept, -, hnine⟩ := three_eighths_kept mod9
  have hmem : [245] ∈ mod9.buffers := rfl
  exact ⟨hmem, (hbelow _ hmem).2, (hdrawn _ hmem 5).2 ⟨rfl, by decide, by decide⟩,
    hfibre 5 ⟨by decide, by decide⟩, hall, hkept, hnine.2 rfl⟩

end ModpGroup

end KeyAgreement
