import KeyAgreement.KeyPair.Generation
import KeyAgreement.Proofs.ModularPower
import KeyAgreement.Proofs.TokenRoundTrip

/-!
# What holds of every key pair

A key pair is made from a given exponent or drawn from a source, and both ways leave the same three
facts behind, collected in `KeyPair.IsOf`. From there on nobody asks how a pair was made:
`ofExponent_eq_ok_iff` says that rebuilding a pair from its exponent gives the pair back, and
`BuiltIn.isOf` carries both constructors to the invariant.
-/

namespace KeyAgreement

variable {G : ModpGroup}

theorem ModpGroup.generator_isPublic (G : ModpGroup) : G.IsPublic G.generator :=
  ⟨G.one_lt_generator, G.generator_lt⟩

theorem ModpGroup.isPublic_iff {value : Nat} :
    G.IsPublic value ↔ 1 < value ∧ value < G.modulus - 1 := Iff.rfl

theorem ModpGroup.isPublic_publicValue_iff {x : Nat} : G.IsPublic (G.publicValue x) ↔
    1 < G.generator ^ x % G.modulus ∧ G.generator ^ x % G.modulus < G.modulus - 1 := by
  rw [publicValue, power_eq, isPublic_iff]

theorem ModpGroup.lt_of_lt_modulus {value : Nat} (h : value < G.modulus) :
    value < 256 ^ G.byteLength :=
  Nat.lt_trans h G.modulus_lt

namespace KeyPair

variable {pair : KeyPair} {x : Nat}

/-- A pair that belongs to a group: its exponent has the width of the group's keys, and its public
value is the exponent's and is one that a peer accepts. -/
structure IsOf (pair : KeyPair) (G : ModpGroup) : Prop where
  width : pair.privateBytes.length = G.byteLength
  value_eq : pair.publicValue = G.publicValue pair.exponent
  isPublic : G.IsPublic pair.publicValue

/-- The pairs that can be built in a group: from an exponent, or from a source of random bytes in
any state. -/
inductive BuiltIn (G : ModpGroup) : KeyPair → Prop where
  | ofExponent {exponent : Nat} {pair : KeyPair}
      (h : KeyPair.ofExponent G exponent = .ok pair) : BuiltIn G pair
  | drawn {σ : Type} (source : Entropy σ) (state : σ) {pair : KeyPair}
      (h : (KeyPair.draw G source state).1 = .ok pair) : BuiltIn G pair

/-! ## Key bytes -/

theorem keyBytes_eq_ok_iff {value : Nat} {bytes : List UInt8} :
    keyBytes G value = .ok bytes ↔
      value < 256 ^ G.byteLength ∧ bytes = BigEndian.padTo G.byteLength value := by
  rw [← BigEndian.toFixed_eq_ok_iff (.inl G.byteLength_pos), keyBytes]
  cases BigEndian.toFixed G.byteLength value with
  | error cause =>
    show Except.error (EncodingFault.tooWide cause) = Except.ok bytes ↔ _
    simp
  | ok written =>
    show Except.ok written = Except.ok bytes ↔ _
    simp

theorem keyBytes_of_le (h : 256 ^ G.byteLength ≤ x) :
    keyBytes G x = .error (.tooWide ⟨BigEndian.minimalWidth x, G.byteLength⟩) := by
  rw [keyBytes, (BigEndian.toFixed_eq_error_iff (.inl G.byteLength_pos)).2 ⟨h, rfl⟩]
  rfl

theorem toNat_padTo_of_lt {value : Nat} (h : value < 256 ^ G.byteLength) :
    BigEndian.toNat (BigEndian.padTo G.byteLength value) = value := by
  rw [BigEndian.toNat_padTo, Nat.mod_eq_of_lt h]

/-! ## Pairs from an exponent -/

theorem ne_zero_of_isPublic (h : G.IsPublic (G.publicValue x)) : x ≠ 0 := by
  rintro rfl
  -- The exponent zero has the public value one.
  have h1 : 1 % G.modulus = 1 := Nat.mod_eq_of_lt (by have := G.five_lt_modulus; omega)
  have hlt := h.1
  rw [ModpGroup.publicValue, ModpGroup.power_eq, Nat.pow_zero, h1] at hlt
  omega

theorem ofExponent_eq {bytes : List UInt8} (h : keyBytes G x = .ok bytes)
    (hp : G.IsPublic (G.publicValue x)) : ofExponent G x = .ok ⟨bytes, G.publicValue x⟩ := by
  simp only [ofExponent, if_neg (ne_zero_of_isPublic hp), h, if_pos hp]

theorem ofExponent_zero (G : ModpGroup) : ofExponent G 0 = .error .zeroExponent := rfl

theorem ofExponent_of_le (h : 256 ^ G.byteLength ≤ x) :
    ofExponent G x
      = .error (.encoding (.tooWide ⟨BigEndian.minimalWidth x, G.byteLength⟩)) := by
  have h0 : x ≠ 0 := by
    have hpos : 0 < 256 ^ G.byteLength := Nat.pow_pos (by decide)
    omega
  simp only [ofExponent, if_neg h0, keyBytes_of_le h]

theorem ofExponent_of_not_isPublic (h0 : x ≠ 0) (hlt : x < 256 ^ G.byteLength)
    (hp : ¬ G.IsPublic (G.publicValue x)) :
    ofExponent G x = .error .degeneratePublicValue := by
  simp only [ofExponent, if_neg h0, keyBytes_eq_ok_iff.2 ⟨hlt, rfl⟩, if_neg hp]

/-- Building a pair succeeds with just those pairs of the group that have the exponent. -/
theorem ofExponent_eq_ok_iff : ofExponent G x = .ok pair ↔ pair.IsOf G ∧ pair.exponent = x := by
  constructor
  · intro h
    unfold ofExponent at h
    by_cases h0 : x = 0
    · rw [if_pos h0] at h
      exact absurd h (by simp)
    · rw [if_neg h0] at h
      cases hb : keyBytes G x with
      | error cause =>
        rw [hb] at h
        exact absurd h (by simp)
      | ok bytes =>
        rw [hb] at h
        obtain ⟨hlt, rfl⟩ := keyBytes_eq_ok_iff.1 hb
        by_cases hp : G.IsPublic (G.publicValue x)
        · obtain rfl := Except.ok.inj ((if_pos hp).symm.trans h)
          have hx : exponent ⟨BigEndian.padTo G.byteLength x, G.publicValue x⟩ = x :=
            toNat_padTo_of_lt hlt
          exact ⟨⟨BigEndian.length_padTo .., by rw [hx], hp⟩, hx⟩
        · exact absurd ((if_neg hp).symm.trans h) (by simp)
  · rintro ⟨⟨hw, hv, hp⟩, rfl⟩
    have hlt : pair.exponent < 256 ^ G.byteLength := hw ▸ BigEndian.toNat_lt pair.privateBytes
    have hb : keyBytes G pair.exponent = .ok pair.privateBytes :=
      keyBytes_eq_ok_iff.2 ⟨hlt, (BigEndian.padTo_toNat hw).symm⟩
    rw [hv] at hp
    rw [ofExponent_eq hb hp, ← hv]

theorem IsOf.ofExponent_exponent (h : pair.IsOf G) : ofExponent G pair.exponent = .ok pair :=
  ofExponent_eq_ok_iff.2 ⟨h, rfl⟩

/-! ## Drawn pairs -/

section Drawn

variable {σ : Type} {source : Entropy σ}

theorem isExponent_of_drawExponent {tries : Nat} {state : σ}
    (h : (drawExponent G source tries state).1 = .ok x) : G.IsExponent x := by
  induction tries generalizing state with
  | zero => exact absurd h (by simp [drawExponent])
  | succ tries ih =>
    unfold drawExponent at h
    rcases hfill : source.fill G.byteLength state with ⟨cause | buffer, after⟩
    · rw [hfill] at h
      exact absurd h (by simp)
    · simp only [hfill] at h
      by_cases hr : G.IsExponent (G.sample buffer.toList)
      · rw [if_pos hr] at h
        exact Except.ok.inj h ▸ hr
      · rw [if_neg hr] at h
        exact ih h

theorem lt_of_isExponent (h : G.IsExponent x) : x < G.modulus := by
  have h5 := G.five_lt_modulus
  have := h.2
  omega

/-- A drawn pair belongs to the group, and its exponent lies in the range. -/
theorem isOf_of_drawWithin {tries : Nat} {state : σ}
    (h : (drawWithin G source tries state).1 = .ok pair) :
    pair.IsOf G ∧ G.IsExponent pair.exponent := by
  induction tries generalizing state with
  | zero => exact absurd h (by simp [drawWithin])
  | succ tries ih =>
    unfold drawWithin at h
    rcases hdraw : drawExponent G source attempts state with ⟨cause | x, after⟩
    · rw [hdraw] at h
      exact absurd h (by simp)
    · have hr : G.IsExponent x := isExponent_of_drawExponent (congrArg Prod.fst hdraw)
      simp only [hdraw] at h
      by_cases hp : G.IsPublic (G.publicValue x)
      · obtain ⟨bytes, hb⟩ : ∃ bytes, keyBytes G x = .ok bytes :=
          ⟨_, keyBytes_eq_ok_iff.2 ⟨G.lt_of_lt_modulus (lt_of_isExponent hr), rfl⟩⟩
        simp only [if_pos hp, hb] at h
        have hof := ofExponent_eq hb hp
        rw [h] at hof
        obtain ⟨hpair, hexp⟩ := ofExponent_eq_ok_iff.1 hof
        exact ⟨hpair, hexp ▸ hr⟩
      · simp only [if_neg hp] at h
        exact ih h

end Drawn

theorem BuiltIn.isOf (h : BuiltIn G pair) : pair.IsOf G := by
  cases h with
  | ofExponent h => exact (ofExponent_eq_ok_iff.1 h).1
  | drawn source state h => exact (isOf_of_drawWithin h).1

/-! ## Tokens of a pair -/

theorem decode_privateToken (pair : KeyPair) :
    Token.decode pair.privateToken = .ok pair.privateBytes :=
  Token.decode_encode _

theorem isSymbolic_privateToken (pair : KeyPair) : Token.isSymbolic pair.privateToken = true :=
  Token.isSymbolic_encode _

theorem IsOf.publicValue_lt (h : pair.IsOf G) : pair.publicValue < 256 ^ G.byteLength := by
  apply G.lt_of_lt_modulus
  rw [h.value_eq]
  exact G.power_lt ..

/-- A pair of the group always has a public token: its value written in the width of keys. -/
theorem IsOf.publicToken_eq (h : pair.IsOf G) :
    pair.publicToken G
      = .ok (Token.encode (BigEndian.padTo G.byteLength pair.publicValue)) := by
  have hb := keyBytes_eq_ok_iff.2 ⟨h.publicValue_lt, rfl⟩
  rw [publicToken, hb]
  rfl

end KeyPair

end KeyAgreement
