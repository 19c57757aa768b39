import KeyAgreement.Proofs.ModularPower
import KeyAgreement.PublicValue
import Mathlib.FieldTheory.Finite.Basic
import Mathlib.GroupTheory.OrderOfElement
import Mathlib.Tactic.NormNum.Prime

/-!
# Safe primes

When the modulus `p` and the number `q = (p - 1) / 2` are both prime, the residues other than zero
form a group of order `2 * q` with very few subgroups: apart from `1` and `-1`, every residue has
order `q` or `2 * q`. The accepted public values are exactly the residues that are left, so nobody
can force a power of an accepted value into a small set.

The first half is about units modulo `p`. The second half carries it to public values through
`exists_unit_of_isPublic` and `power_eq_power_iff`; its main statement is `isPublic_power_iff`.
-/

namespace KeyAgreement.ModpGroup

variable {G : ModpGroup}

/-- Half of the modulus less one: the order of the squares, if the modulus is a safe prime. -/
def order (G : ModpGroup) : Nat := (G.modulus - 1) / 2

/-- The modulus is a safe prime. Nothing in the library checks this. -/
structure IsSafe (G : ModpGroup) : Prop where
  prime : G.modulus.Prime
  order_prime : G.order.Prime

theorem top_eq (G : ModpGroup) : G.top = 2 * G.order := by
  have := G.modulus_odd
  unfold top order
  omega

theorem top_add_one (G : ModpGroup) : G.top + 1 = G.modulus := by
  have := G.five_lt_modulus
  unfold top
  omega

theorem neg_one_ne_one (G : ModpGroup) : (-1 : (ZMod G.modulus)ˣ) ≠ 1 := by
  have h5 := G.five_lt_modulus
  have : Fact (2 < G.modulus) := ⟨by omega⟩
  intro h
  exact ZMod.neg_one_ne_one (congrArg Units.val h)

namespace IsSafe

theorem order_coprime_two (hG : G.IsSafe) : G.order.Coprime 2 := by
  refine (Nat.coprime_primes hG.order_prime Nat.prime_two).2 ?_
  have h5 := G.five_lt_modulus
  have ht := G.top_eq
  have hm := G.top_add_one
  omega

/-! ## Units -/

section Units

variable {u : (ZMod G.modulus)ˣ}

theorem eq_one_or_eq_neg_one (hG : G.IsSafe) (h : u ^ 2 = 1) : u = 1 ∨ u = -1 := by
  have : Fact G.modulus.Prime := ⟨hG.prime⟩
  have hval : (u : ZMod G.modulus) ^ 2 = 1 := by
    rw [← Units.val_pow_eq_pow_val, h, Units.val_one]
  rcases sq_eq_one_iff.1 hval with h1 | h1
  · exact Or.inl (Units.ext h1)
  · exact Or.inr (Units.ext h1)

theorem pow_two_mul_order (hG : G.IsSafe) (u : (ZMod G.modulus)ˣ) : u ^ (2 * G.order) = 1 := by
  have : Fact G.modulus.Prime := ⟨hG.prime⟩
  rw [← G.top_eq]
  exact ZMod.units_pow_card_sub_one_eq_one G.modulus u

theorem pow_order_eq (hG : G.IsSafe) (u : (ZMod G.modulus)ˣ) :
    u ^ G.order = 1 ∨ u ^ G.order = -1 := by
  apply hG.eq_one_or_eq_neg_one
  rw [← pow_mul, mul_comm, hG.pow_two_mul_order]

theorem orderOf_of_pow_eq_one (hG : G.IsSafe) (h1 : u ≠ 1) (h : u ^ G.order = 1) :
    orderOf u = G.order := by
  have : Fact G.order.Prime := ⟨hG.order_prime⟩
  exact orderOf_eq_prime h h1

/-- A unit whose power to `q` is not one has the full order, unless it is the negative of one: its
order divides `2 * q` and neither `q` nor two. -/
theorem orderOf_of_pow_ne_one (hG : G.IsSafe) (hm : u ≠ -1) (h : u ^ G.order ≠ 1) :
    orderOf u = 2 * G.order := by
  have h1 : u ≠ 1 := by
    rintro rfl
    exact h (one_pow _)
  have hdvd : orderOf u ∣ 2 * G.order := orderOf_dvd_of_pow_eq_one (hG.pow_two_mul_order u)
  obtain ⟨a, b, ha, hb, hab⟩ := Nat.dvd_mul.1 hdvd
  rcases (Nat.dvd_prime hG.order_prime).1 hb with rfl | rfl
  · have h2 : u ^ 2 = 1 := by
      rw [← orderOf_dvd_iff_pow_eq_one, ← hab, mul_one]
      exact ha
    rcases hG.eq_one_or_eq_neg_one h2 with h' | h'
    · exact absurd h' h1
    · exact absurd h' hm
  · rcases (Nat.dvd_prime Nat.prime_two).1 ha with rfl | rfl
    · rw [one_mul] at hab
      exact absurd (hab ▸ pow_orderOf_eq_one u) h
    · exact hab.symm

theorem order_dvd_orderOf (hG : G.IsSafe) (h1 : u ≠ 1) (hm : u ≠ -1) : G.order ∣ orderOf u := by
  by_cases h : u ^ G.order = 1
  · rw [hG.orderOf_of_pow_eq_one h1 h]
  · rw [hG.orderOf_of_pow_ne_one hm h]
    exact dvd_mul_left _ _

/-- Only multiples of `q` take a unit other than `1` and `-1` back to one of these two. -/
theorem pow_eq_one_or_neg_one_iff (hG : G.IsSafe) (h1 : u ≠ 1) (hm : u ≠ -1) {n : ℕ} :
    u ^ n = 1 ∨ u ^ n = -1 ↔ G.order ∣ n := by
  constructor
  · intro h
    have h2 : u ^ (n * 2) = 1 := by
      rw [pow_mul]
      rcases h with h | h <;> rw [h] <;> simp
    have hdvd : G.order ∣ n * 2 :=
      (hG.order_dvd_orderOf h1 hm).trans (orderOf_dvd_of_pow_eq_one h2)
    exact hG.order_coprime_two.dvd_of_dvd_mul_right hdvd
  · rintro ⟨k, rfl⟩
    apply hG.eq_one_or_eq_neg_one
    rw [← pow_mul, show G.order * k * 2 = 2 * G.order * k by ring, pow_mul,
      hG.pow_two_mul_order, one_pow]

end Units

end IsSafe

/-! ## Residues as units -/

theorem natCast_inj {a b : ℕ} (ha : a < G.modulus) (hb : b < G.modulus) :
    (a : ZMod G.modulus) = b ↔ a = b := by
  rw [ZMod.natCast_eq_natCast_iff', Nat.mod_eq_of_lt ha, Nat.mod_eq_of_lt hb]

theorem natCast_top (G : ModpGroup) : (G.top : ZMod G.modulus) = -1 := by
  have h : ((G.top + 1 : ℕ) : ZMod G.modulus) = 0 := by
    rw [G.top_add_one]
    exact ZMod.natCast_self _
  rw [Nat.cast_add, Nat.cast_one] at h
  exact eq_neg_of_add_eq_zero_left h

theorem natCast_power (G : ModpGroup) (value exponent : ℕ) :
    (G.power value exponent : ZMod G.modulus) = (value : ZMod G.modulus) ^ exponent := by
  rw [power_eq, ZMod.natCast_mod, Nat.cast_pow]

section Residues

variable {u v : (ZMod G.modulus)ˣ} {y z : ℕ}

theorem unit_eq_one_iff (hu : (u : ZMod G.modulus) = y) (hy : y < G.modulus) :
    u = 1 ↔ y = 1 := by
  have h5 := G.five_lt_modulus
  rw [← Units.val_inj, hu, Units.val_one, ← Nat.cast_one, natCast_inj hy (by omega)]

theorem unit_eq_neg_one_iff (hu : (u : ZMod G.modulus) = y) (hy : y < G.modulus) :
    u = -1 ↔ y = G.top := by
  have ht := G.top_add_one
  rw [← Units.val_inj, hu, Units.val_neg, Units.val_one, ← natCast_top,
    natCast_inj hy (by omega)]

theorem unit_inj (hu : (u : ZMod G.modulus) = y) (hv : (v : ZMod G.modulus) = z)
    (hy : y < G.modulus) (hz : z < G.modulus) : u = v ↔ y = z := by
  rw [← Units.val_inj, hu, hv, natCast_inj hy hz]

theorem val_pow_eq (hu : (u : ZMod G.modulus) = y) (n : ℕ) :
    ((u ^ n : (ZMod G.modulus)ˣ) : ZMod G.modulus) = G.power y n := by
  rw [Units.val_pow_eq_pow_val, hu, natCast_power]

theorem power_eq_power_iff (hu : (u : ZMod G.modulus) = y) (hv : (v : ZMod G.modulus) = z)
    {a b : ℕ} : G.power y a = G.power z b ↔ u ^ a = v ^ b := by
  rw [← natCast_inj (G.power_lt ..) (G.power_lt ..), ← val_pow_eq hu, ← val_pow_eq hv,
    Units.val_inj]

/-- A unit stands for an accepted value unless it is `1` or `-1`. -/
theorem isPublic_iff_unit (hu : (u : ZMod G.modulus) = y) (hy : y < G.modulus) :
    G.IsPublic y ↔ u ≠ 1 ∧ u ≠ -1 := by
  have h5 := G.five_lt_modulus
  have ht := G.top_add_one
  have h0 : y ≠ 0 := by
    rintro rfl
    have : Fact (1 < G.modulus) := ⟨by omega⟩
    exact u.ne_zero (hu.trans Nat.cast_zero)
  rw [Ne, Ne, unit_eq_one_iff hu hy, unit_eq_neg_one_iff hu hy, IsPublic]
  omega

theorem IsPublic.lt_modulus (hy : G.IsPublic y) : y < G.modulus := by
  have h := hy.2
  have ht := G.top_add_one
  omega

/-- Accepted values are opposite when they add up to the modulus. -/
theorem unit_eq_neg_iff (hu : (u : ZMod G.modulus) = y) (hv : (v : ZMod G.modulus) = z)
    (hy : G.IsPublic y) (hz : G.IsPublic z) : u = -v ↔ y + z = G.modulus := by
  have hcast : u = -v ↔ ((y + z : ℕ) : ZMod G.modulus) = 0 := by
    rw [← Units.val_inj, Units.val_neg, hu, hv, Nat.cast_add, eq_neg_iff_add_eq_zero]
  rw [hcast, ZMod.natCast_eq_zero_iff]
  constructor
  · rintro ⟨k, hk⟩
    have hylt := hy.lt_modulus
    have hzlt := hz.lt_modulus
    have hpos := hy.1
    -- The sum is positive and less than twice the modulus.
    have hk1 : k = 1 := by
      rcases k with _ | _ | k
      · omega
      · rfl
      · rw [show G.modulus * (k + 1 + 1) = G.modulus * k + G.modulus + G.modulus by ring] at hk
        omega
    rw [hk, hk1, mul_one]
  · intro h
    exact ⟨1, by rw [h, mul_one]⟩

theorem exists_unit_of_isPublic (hG : G.IsSafe) (hy : G.IsPublic y) :
    ∃ u : (ZMod G.modulus)ˣ, (u : ZMod G.modulus) = y ∧ u ≠ 1 ∧ u ≠ -1 := by
  have hpos : 0 < y := Nat.lt_trans Nat.zero_lt_one hy.1
  have hco : y.Coprime G.modulus :=
    ((Nat.Prime.coprime_iff_not_dvd hG.prime).2
      (Nat.not_dvd_of_pos_of_lt hpos hy.lt_modulus)).symm
  have hu := ZMod.coe_unitOfCoprime y hco
  exact ⟨ZMod.unitOfCoprime y hco, hu, (isPublic_iff_unit hu hy.lt_modulus).1 hy⟩

end Residues

/-! ## Powers of accepted values -/

section Powers

variable {y z x a b : ℕ}

/-- A power of an accepted value is accepted again unless the exponent is a multiple of `q`. -/
theorem isPublic_power_iff (hG : G.IsSafe) (hy : G.IsPublic y) :
    G.IsPublic (G.power y x) ↔ ¬ G.order ∣ x := by
  obtain ⟨u, hu, h1, hm⟩ := exists_unit_of_isPublic hG hy
  rw [isPublic_iff_unit (val_pow_eq hu x) (G.power_lt ..),
    ← hG.pow_eq_one_or_neg_one_iff h1 hm, not_or]

/-- Different accepted values have different powers, with one exception: the even powers of a value
and its negative. -/
theorem power_eq_power_iff_of_ne (hG : G.IsSafe) (hy : G.IsPublic y) (hz : G.IsPublic z)
    (hne : y ≠ z) (hx : ¬ G.order ∣ x) :
    G.power y x = G.power z x ↔ y + z = G.modulus ∧ Even x := by
  obtain ⟨u, hu, -, -⟩ := exists_unit_of_isPublic hG hy
  obtain ⟨v, hv, -, -⟩ := exists_unit_of_isPublic hG hz
  have hquot : u / v ≠ 1 := by
    intro h
    exact hne ((unit_inj hu hv hy.lt_modulus hz.lt_modulus).1 (div_eq_one.1 h))
  have hpow : u ^ x = v ^ x ↔ (u / v) ^ x = 1 := by rw [div_pow, div_eq_one]
  have hsum : y + z = G.modulus ↔ u / v = -1 := by
    rw [div_eq_iff_eq_mul, neg_one_mul]
    exact (unit_eq_neg_iff hu hv hy hz).symm
  rw [power_eq_power_iff hu hv, hpow, hsum]
  constructor
  · intro h
    -- A quotient other than `-1` has an order that is a multiple of `q`.
    have hm : u / v = -1 := by
      by_contra hm
      exact hx ((hG.pow_eq_one_or_neg_one_iff hquot hm).1 (Or.inl h))
    rw [hm] at h
    exact ⟨hm, (neg_one_pow_eq_one_iff_even G.neg_one_ne_one).1 h⟩
  · rintro ⟨hm, he⟩
    rw [hm, he.neg_one_pow]

theorem pow_order_mod_eq (hG : G.IsSafe) (hy : G.IsPublic y) :
    y ^ G.order % G.modulus = 1 ∨ y ^ G.order % G.modulus = G.modulus - 1 := by
  obtain ⟨u, hu, -, -⟩ := exists_unit_of_isPublic hG hy
  have hpow := val_pow_eq hu G.order
  rw [← power_eq]
  rcases hG.pow_order_eq u with h | h
  · exact Or.inl ((unit_eq_one_iff hpow (G.power_lt ..)).1 h)
  · exact Or.inr ((unit_eq_neg_one_iff hpow (G.power_lt ..)).1 h)

/-- Powers of an accepted square agree when the exponents do modulo `q`. -/
theorem power_eq_iff_of_pow_order_eq_one (hG : G.IsSafe) (hy : G.IsPublic y)
    (h : y ^ G.order % G.modulus = 1) : G.power y a = G.power y b ↔ a ≡ b [MOD G.order] := by
  obtain ⟨u, hu, h1, -⟩ := exists_unit_of_isPublic hG hy
  rw [← power_eq] at h
  have hpow := (unit_eq_one_iff (val_pow_eq hu G.order) (G.power_lt ..)).2 h
  rw [power_eq_power_iff hu hu, pow_eq_pow_iff_modEq, hG.orderOf_of_pow_eq_one h1 hpow]

/-- Powers of any other accepted value agree when the exponents do modulo `2 * q`. -/
theorem power_eq_iff_of_pow_order_eq_top (hG : G.IsSafe) (hy : G.IsPublic y)
    (h : y ^ G.order % G.modulus = G.modulus - 1) :
    G.power y a = G.power y b ↔ a ≡ b [MOD 2 * G.order] := by
  obtain ⟨u, hu, -, hm⟩ := exists_unit_of_isPublic hG hy
  rw [← power_eq] at h
  have hpow : u ^ G.order ≠ 1 := by
    rw [(unit_eq_neg_one_iff (val_pow_eq hu G.order) (G.power_lt ..)).2 h]
    exact G.neg_one_ne_one
  rw [power_eq_power_iff hu hu, pow_eq_pow_iff_modEq, hG.orderOf_of_pow_ne_one hm hpow]

end Powers

/-! ## A small group -/

/-- The generator five modulo 23, small enough to calculate by hand. -/
def mod23 : ModpGroup where
  modulus := 23
  generator := 5
  modulus_odd := by decide
  five_lt_modulus := by decide
  one_lt_generator := by decide
  generator_lt := by decide

theorem isSafe_mod23 : mod23.IsSafe :=
  ⟨by norm_num [mod23], by norm_num [order, mod23]⟩

end KeyAgreement.ModpGroup
