import KeyAgreement.Proofs.KeyPairInvariant
import KeyAgreement.SharedSecret

/-!
# Both sides of an exchange

A derivation reads two tokens, and once they are read only their numbers matter. For tokens of key
pairs of the group these numbers are the own exponent and the peer's public value, the checks on the
way all pass, and what is left to decide is whether the common value is one that anybody could
guess. That value is the generator's power to the product of the exponents, so it does not depend on
the side, and neither does the outcome.
-/

namespace KeyAgreement

variable {G : ModpGroup}

/-- The tokens that a peer's value is read from. -/
theorem PublicValue.decode_eq_ok_iff {token : String} {y : Nat} :
    PublicValue.decode G token = .ok y ↔
      Token.isSymbolic token = true ∧
        ∃ bytes, Token.decode token = .ok bytes ∧ BigEndian.toNat bytes = y ∧ G.IsPublic y := by
  unfold PublicValue.decode
  by_cases hs : Token.isSymbolic token = true
  · rw [if_pos hs]
    cases hd : Token.decode token with
    | error cause => simp
    | ok bytes =>
      by_cases hp : G.IsPublic (BigEndian.toNat bytes)
      · simp only [if_pos hp, hs, true_and, Except.ok.injEq, exists_eq_left']
        constructor
        · rintro rfl
          exact ⟨rfl, hp⟩
        · exact fun h => h.1
      · simp only [if_neg hp, hs, true_and, Except.ok.injEq, exists_eq_left', reduceCtorEq,
          false_iff, not_and]
        rintro rfl
        exact hp
  · simp [hs]

/-- The generator seven modulo 15, which is not prime. Its powers are 1, 4, 7 and 13. -/
def ModpGroup.mod15 : ModpGroup where
  modulus := 15
  generator := 7
  modulus_odd := by decide
  five_lt_modulus := by decide
  one_lt_generator := by decide
  generator_lt := by decide

/-- A token of symbols that stands for the bytes of a number. -/
def Token.Denotes (token : String) (n : Nat) : Prop :=
  ¬ HasStranger token ∧ ∃ bytes, decode token = .ok bytes ∧ BigEndian.toNat bytes = n

theorem Token.denotes_of_decode {token : String} {bytes : List UInt8} {n : Nat}
    (hs : isSymbolic token = true) (hd : decode token = .ok bytes)
    (hn : BigEndian.toNat bytes = n) : Denotes token n :=
  ⟨isSymbolic_iff.1 hs, bytes, hd, hn⟩

theorem Token.Denotes.unique {token : String} {m n : ℕ} (hm : Token.Denotes token m)
    (hn : Token.Denotes token n) : m = n := by
  obtain ⟨-, bytes, hd, rfl⟩ := hm
  obtain ⟨-, bytes', hd', rfl⟩ := hn
  rw [Except.ok.inj (hd.symm.trans hd')]

namespace SharedSecret

/-! ## From tokens to numbers -/

/-- Tokens that can be read are judged by the numbers they stand for. -/
theorem derive_eq_deriveFrom {privateToken peerToken : String} {privateBytes peerBytes : List UInt8}
    (hp : Token.isSymbolic privateToken = true) (hq : Token.isSymbolic peerToken = true)
    (hx : Token.decode privateToken = .ok privateBytes)
    (hy : Token.decode peerToken = .ok peerBytes) :
    derive G privateToken peerToken
      = deriveFrom G (BigEndian.toNat privateBytes) (BigEndian.toNat peerBytes) := by
  simp only [derive, hp, hq, hx, hy, Bool.and_self, if_true]

theorem derive_of_denotes {own peer : String} {x y : Nat} (hown : Token.Denotes own x)
    (hpeer : Token.Denotes peer y) :
    derive G own peer = deriveFrom G x y := by
  obtain ⟨hos, ownBytes, hod, rfl⟩ := hown
  obtain ⟨hps, peerBytes, hpd, rfl⟩ := hpeer
  exact derive_eq_deriveFrom (Token.isSymbolic_iff.2 hos) (Token.isSymbolic_iff.2 hps) hod hpd

/-- With the tokens of two pairs of the group, the numbers are the own exponent and the peer's
public value. -/
theorem derive_tokens (own : KeyPair) {peer : KeyPair} (hpeer : peer.IsOf G) :
    ∃ token, peer.publicToken G = .ok token ∧
      derive G own.privateToken token = deriveFrom G own.exponent peer.publicValue := by
  refine ⟨_, hpeer.publicToken_eq, ?_⟩
  rw [derive_eq_deriveFrom own.isSymbolic_privateToken (Token.isSymbolic_encode _)
    own.decode_privateToken (Token.decode_encode _),
    KeyPair.toNat_padTo_of_lt hpeer.publicValue_lt]
  rfl

/-! ## From numbers to an outcome -/

theorem isDegenerate_iff {shared : Nat} :
    IsDegenerate G shared ↔ shared = 0 ∨ shared = 1 ∨ shared = G.modulus - 1 := by
  unfold IsDegenerate ModpGroup.top
  omega

theorem agree_eq (own : KeyPair) (peer : Nat) :
    agree G own peer =
      if IsDegenerate G (G.power peer own.exponent) then .error .degenerateShared
      else .ok (BigEndian.minimal (G.power peer own.exponent)) := rfl

/-- With an own pair of the group and an accepted peer value, only the common value decides. -/
theorem deriveFrom_eq {own : KeyPair} {peer : Nat} (hown : own.IsOf G) (hpeer : G.IsPublic peer) :
    deriveFrom G own.exponent peer =
      if IsDegenerate G (G.power peer own.exponent) then
        .silent (.error (.derivation .degenerateShared))
      else
        ⟨.ok (token (BigEndian.minimal (G.power peer own.exponent))),
          [.secretDerived (BigEndian.minimal (G.power peer own.exponent)).length]⟩ := by
  rw [deriveFrom, if_pos hpeer, hown.ofExponent_exponent]
  by_cases hd : IsDegenerate G (G.power peer own.exponent)
  · simp only [agree_eq, if_pos hd]
  · simp only [agree_eq, if_neg hd]

theorem power_publicValue (G : ModpGroup) (a b : Nat) :
    G.power (G.publicValue b) a = G.generator ^ (a * b) % G.modulus := by
  rw [ModpGroup.publicValue, ModpGroup.power_eq, ModpGroup.power_eq, ← Nat.pow_mod, ← Nat.pow_mul,
    Nat.mul_comm]

/-- What one side arrives at with the tokens of two pairs of the group. -/
theorem outcome_derive_tokens {own peer : KeyPair} (hown : own.IsOf G) (hpeer : peer.IsOf G) :
    ∃ peerToken, peer.publicToken G = .ok peerToken ∧
      (derive G own.privateToken peerToken).outcome =
        if IsDegenerate G (G.generator ^ (own.exponent * peer.exponent) % G.modulus) then
          .error (.derivation .degenerateShared)
        else
          .ok (token (BigEndian.minimal
            (G.generator ^ (own.exponent * peer.exponent) % G.modulus))) := by
  obtain ⟨peerToken, htoken, hderive⟩ := derive_tokens own hpeer
  refine ⟨peerToken, htoken, ?_⟩
  rw [hderive, deriveFrom_eq hown hpeer.isPublic, hpeer.value_eq, power_publicValue]
  split <;> rfl

/-! ## Symmetry -/

/-- Both sides of an exchange end with one outcome, whatever the modulus: the secret of the common
value, or the one fault that says that anybody could guess it. -/
theorem outcome_derive_symmetric (G : ModpGroup) {a b : Nat} {A B : KeyPair}
    (hA : KeyPair.ofExponent G a = .ok A) (hB : KeyPair.ofExponent G b = .ok B) :
    ∃ tokenA tokenB, A.publicToken G = .ok tokenA ∧ B.publicToken G = .ok tokenB ∧
      (derive G A.privateToken tokenB).outcome = (derive G B.privateToken tokenA).outcome ∧
      ((derive G A.privateToken tokenB).outcome
          = .ok (token (BigEndian.minimal (G.generator ^ (a * b) % G.modulus))) ∨
        (derive G A.privateToken tokenB).outcome = .error (.derivation .degenerateShared)) ∧
      ((derive G A.privateToken tokenB).outcome = .error (.derivation .degenerateShared) ↔
        G.generator ^ (a * b) % G.modulus = 0 ∨ G.generator ^ (a * b) % G.modulus = 1 ∨
          G.generator ^ (a * b) % G.modulus = G.modulus - 1) ∧
      (Fault.derivation .degenerateShared).detail = "degenerate shared value" := by
  obtain ⟨hAof, rfl⟩ := KeyPair.ofExponent_eq_ok_iff.1 hA
  obtain ⟨hBof, rfl⟩ := KeyPair.ofExponent_eq_ok_iff.1 hB
  obtain ⟨tokenB, htokenB, hleft⟩ := outcome_derive_tokens hAof hBof
  obtain ⟨tokenA, htokenA, hright⟩ := outcome_derive_tokens hBof hAof
  rw [Nat.mul_comm B.exponent A.exponent] at hright
  refine ⟨tokenA, tokenB, htokenA, htokenB, hleft.trans hright.symm, ?_, ?_, rfl⟩
  · rw [hleft]
    by_cases hd : IsDegenerate G (G.generator ^ (A.exponent * B.exponent) % G.modulus)
    · rw [if_pos hd]
      exact Or.inr rfl
    · rw [if_neg hd]
      exact Or.inl rfl
  · rw [hleft, ← isDegenerate_iff]
    by_cases hd : IsDegenerate G (G.generator ^ (A.exponent * B.exponent) % G.modulus)
    · rw [if_pos hd]
      exact iff_of_true rfl hd
    · rw [if_neg hd]
      exact iff_of_false (by simp) hd

/-- Modulo 15, which is not prime, the exponents 2 and 18 meet at one and the exponents 3 and 18 at
four; 18 is larger than the modulus. -/
theorem outcome_derive_symmetric_mod15 :
    KeyPair.ofExponent .mod15 2 = .ok ⟨[2], 4⟩ ∧ KeyPair.ofExponent .mod15 3 = .ok ⟨[3], 13⟩ ∧
      KeyPair.ofExponent .mod15 18 = .ok ⟨[18], 4⟩ ∧
      (∃ tokenA tokenB, KeyPair.publicToken ⟨[2], 4⟩ .mod15 = .ok tokenA ∧
        KeyPair.publicToken ⟨[18], 4⟩ .mod15 = .ok tokenB ∧
        (derive .mod15 (KeyPair.privateToken ⟨[2], 4⟩) tokenB).outcome
          = .error (.derivation .degenerateShared) ∧
        (derive .mod15 (KeyPair.privateToken ⟨[18], 4⟩) tokenA).outcome
          = .error (.derivation .degenerateShared)) ∧
      ∃ tokenA tokenB, KeyPair.publicToken ⟨[3], 13⟩ .mod15 = .ok tokenA ∧
        KeyPair.publicToken ⟨[18], 4⟩ .mod15 = .ok tokenB ∧
        (derive .mod15 (KeyPair.privateToken ⟨[3], 13⟩) tokenB).outcome = .ok (token [4]) ∧
        (derive .mod15 (KeyPair.privateToken ⟨[18], 4⟩) tokenA).outcome = .ok (token [4]) := by
  have h2 : KeyPair.ofExponent .mod15 2 = .ok ⟨[2], 4⟩ := rfl
  have h3 : KeyPair.ofExponent .mod15 3 = .ok ⟨[3], 13⟩ := rfl
  have h18 : KeyPair.ofExponent .mod15 18 = .ok ⟨[18], 4⟩ := rfl
  refine ⟨h2, h3, h18, ?_, ?_⟩
  · obtain ⟨tokenA, tokenB, hA, hB, hsame, -, hiff, -⟩ := outcome_derive_symmetric .mod15 h2 h18
    have hfault := hiff.2 (Or.inr (Or.inl (by decide)))
    exact ⟨tokenA, tokenB, hA, hB, hfault, hsame ▸ hfault⟩
  · obtain ⟨tokenA, tokenB, hA, hB, hsame, heither, hiff, -⟩ :=
      outcome_derive_symmetric .mod15 h3 h18
    have hfour : ModpGroup.mod15.generator ^ (3 * 18) % ModpGroup.mod15.modulus = 4 := by decide
    have hsecret := heither.resolve_right (mt hiff.1 (by rw [hfour]; decide))
    rw [hfour] at hsecret
    exact ⟨tokenA, tokenB, hA, hB, hsecret, hsame ▸ hsecret⟩

end SharedSecret

end KeyAgreement
