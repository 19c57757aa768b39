import KeyAgreement.Entropy.Tape
import KeyAgreement.Proofs.Exchange
import KeyAgreement.Proofs.SafeExponents

/-!
# Exchanges under a safe prime

Two checks come before the common value is calculated: the peer's value is an accepted one, and so
is the own public value. Under a safe prime the second check says that the own exponent is no
multiple of `q`, and by the first the peer's value has an order that is one, so the common value is
accepted too and the third check never fails.

The same two facts settle which peer values lead to one common value under one exponent, and which
exponents do under one peer value.
-/

namespace KeyAgreement.SharedSecret

open KeyPair (BuiltIn)

variable {G : ModpGroup} {own other : KeyPair} {x y z : ℕ}

/-! ## The third check never fails -/

/-- Of the reduced numbers, the degenerate ones are those that nobody accepts. -/
theorem isDegenerate_iff_not_isPublic (h : y < G.modulus) : IsDegenerate G y ↔ ¬ G.IsPublic y := by
  have ht := G.top_add_one
  unfold IsDegenerate ModpGroup.IsPublic
  omega

theorem not_order_dvd_exponent (hG : G.IsSafe) (hown : own.IsOf G) : ¬ G.order ∣ own.exponent := by
  have hp := hown.isPublic
  rw [hown.value_eq] at hp
  exact (ModpGroup.isPublic_publicValue_iff_not_order_dvd hG).1 hp

theorem not_isDegenerate_power (hG : G.IsSafe) (hown : own.IsOf G) (hy : G.IsPublic y) :
    ¬ IsDegenerate G (G.power y own.exponent) := by
  rw [isDegenerate_iff_not_isPublic (G.power_lt ..), not_not]
  exact (ModpGroup.isPublic_power_iff hG hy).2 (not_order_dvd_exponent hG hown)

theorem agree_of_isSafe (hG : G.IsSafe) (hown : own.IsOf G) (hy : G.IsPublic y) :
    agree G own y = .ok (BigEndian.minimal (G.power y own.exponent)) := by
  rw [agree_eq, if_neg (not_isDegenerate_power hG hown hy)]

theorem outcome_deriveFrom_of_isSafe (hG : G.IsSafe) (hown : own.IsOf G) (hy : G.IsPublic y) :
    (deriveFrom G own.exponent y).outcome
      = .ok (token (BigEndian.minimal (G.power y own.exponent))) := by
  rw [deriveFrom_eq hown hy, if_neg (not_isDegenerate_power hG hown hy)]

/-- The own key is the only thing left that a derivation can fail on. -/
theorem exists_ownKey_of_outcome_deriveFrom (hG : G.IsSafe) {cause : DerivationFault}
    (h : (deriveFrom G x y).outcome = .error (.derivation cause)) : ∃ k, cause = .ownKey k := by
  by_cases hy : G.IsPublic y
  · cases ho : KeyPair.ofExponent G x with
    | error k =>
      rw [deriveFrom, if_pos hy, ho] at h
      exact ⟨k, (Fault.derivation.inj (Except.error.inj h)).symm⟩
    | ok own =>
      obtain ⟨hown, rfl⟩ := KeyPair.ofExponent_eq_ok_iff.1 ho
      rw [outcome_deriveFrom_of_isSafe hG hown hy] at h
      exact absurd h (by simp)
  · rw [deriveFrom, if_neg hy] at h
    exact absurd h (by simp)

/-- Whatever is wrong with the tokens themselves is no fault of the derivation. -/
theorem exists_deriveFrom_of_outcome_derive {privateToken peerToken : String}
    {cause : DerivationFault}
    (h : (derive G privateToken peerToken).outcome = .error (.derivation cause)) :
    ∃ x y, (deriveFrom G x y).outcome = .error (.derivation cause) := by
  unfold derive at h
  by_cases hs : (Token.isSymbolic privateToken && Token.isSymbolic peerToken) = true
  · rw [if_pos hs] at h
    cases hpeer : Token.decode peerToken with
    | error fault =>
      rw [hpeer] at h
      exact absurd h (by simp)
    | ok peerBytes =>
      cases hown : Token.decode privateToken with
      | error fault =>
        rw [hpeer, hown] at h
        exact absurd h (by simp)
      | ok privateBytes =>
        rw [hpeer, hown] at h
        exact ⟨_, _, h⟩
  · rw [if_neg hs] at h
    exact absurd h (by simp)

/-- A fault of the own key is worded differently from a degenerate common value. -/
theorem message_ownKey_ne (k : KeyFault) :
    (DerivationFault.ownKey k).message ≠ DerivationFault.degenerateShared.message := by
  intro h
  have hlist : "Keygen error: ".toList ++ k.message.toList = "degenerate shared value".toList := by
    rw [← String.toList_append]
    exact congrArg String.toList h
  have hkeygen : "Keygen error: ".toList = 'K' :: "eygen error: ".toList := by decide
  have hshared : "degenerate shared value".toList = 'd' :: "egenerate shared value".toList := by
    decide
  rw [hkeygen, hshared, List.cons_append] at hlist
  exact absurd (List.cons.inj hlist).1 (by decide)

/-- What a secret looks like: 43 symbols. -/
def IsSecret (text : String) : Prop := text.length = 43 ∧ Token.isSymbolic text = true

theorem isSecret_token (shared : List UInt8) : IsSecret (token shared) := by
  refine ⟨?_, Token.isSymbolic_encode _⟩
  rw [token, Token.length_encode, Sha256.length_digest]
  rfl

theorem exists_secret_of_isOf (hG : G.IsSafe) (hown : own.IsOf G) (hother : other.IsOf G) :
    ∃ tokenOwn tokenOther secret, own.publicToken G = .ok tokenOwn ∧
      other.publicToken G = .ok tokenOther ∧
      (derive G own.privateToken tokenOther).outcome = .ok secret ∧
      (derive G other.privateToken tokenOwn).outcome = .ok secret ∧ IsSecret secret := by
  have hcommon : ¬ IsDegenerate G (G.generator ^ (own.exponent * other.exponent) % G.modulus) := by
    rw [← power_publicValue, ← hother.value_eq]
    exact not_isDegenerate_power hG hown hother.isPublic
  obtain ⟨tokenOther, hto, hleft⟩ := outcome_derive_tokens hown hother
  obtain ⟨tokenOwn, htw, hright⟩ := outcome_derive_tokens hother hown
  rw [if_neg hcommon] at hleft
  rw [Nat.mul_comm, if_neg hcommon] at hright
  exact ⟨tokenOwn, tokenOther, _, htw, hto, hleft, hright, isSecret_token _⟩

/-- Under a safe prime no derivation fails after its checks: the fault of a degenerate common value
never comes up, an accepted peer token and a usable private token lead to a secret, and so do any
two drawn pairs on both sides. -/
theorem derive_succeeds_of_isSafe (hG : G.IsSafe) :
    (∀ (privateToken peerToken : String) (fault : Fault),
      (derive G privateToken peerToken).outcome = .error fault → fault.kind = .derivation →
        fault.detail ≠ "degenerate shared value") ∧
    (∀ (privateToken peerToken : String) (privateBytes : List UInt8) (peer : ℕ) (own : KeyPair),
      PublicValue.decode G peerToken = .ok peer → Token.isSymbolic privateToken = true →
      Token.decode privateToken = .ok privateBytes →
      KeyPair.ofExponent G (BigEndian.toNat privateBytes) = .ok own →
        ∃ secret, (derive G privateToken peerToken).outcome = .ok secret ∧ IsSecret secret) ∧
    (∀ {σ τ : Type} (source : Entropy σ) (state : σ) (source' : Entropy τ) (state' : τ)
      (A B : KeyPair), (KeyPair.draw G source state).1 = .ok A →
      (KeyPair.draw G source' state').1 = .ok B →
        ∃ tokenA tokenB secret, A.publicToken G = .ok tokenA ∧ B.publicToken G = .ok tokenB ∧
          (derive G A.privateToken tokenB).outcome = .ok secret ∧
          (derive G B.privateToken tokenA).outcome = .ok secret ∧ IsSecret secret) := by
  refine ⟨?_, ?_, ?_⟩
  · intro privateToken peerToken fault h hkind
    cases fault <;> simp only [Fault.kind, reduceCtorEq] at hkind
    case derivation cause =>
      obtain ⟨x, y, hfrom⟩ := exists_deriveFrom_of_outcome_derive h
      obtain ⟨k, rfl⟩ := exists_ownKey_of_outcome_deriveFrom hG hfrom
      exact message_ownKey_ne k
  · intro privateToken peerToken privateBytes peer own hpeer hsym hdec hown
    obtain ⟨hpsym, peerBytes, hpdec, rfl, hpub⟩ := PublicValue.decode_eq_ok_iff.1 hpeer
    obtain ⟨hof, hx⟩ := KeyPair.ofExponent_eq_ok_iff.1 hown
    have hsecret := outcome_deriveFrom_of_isSafe hG hof hpub
    rw [hx, ← derive_eq_deriveFrom hsym hpsym hdec hpdec] at hsecret
    exact ⟨_, hsecret, isSecret_token _⟩
  · intro σ τ source state source' state' A B hA hB
    exact exists_secret_of_isOf hG (BuiltIn.drawn source state hA).isOf
      (BuiltIn.drawn source' state' hB).isOf

/-- Modulo 23 the private token of zero is refused with a wording of its own, the private token of 6
and the peer token of 19 lead to a secret, and so do the pairs drawn from the bytes 6 and 15. -/
theorem derive_succeeds_mod23 :
    ModpGroup.mod23.IsSafe ∧
      (derive .mod23 "AA" "Ew").outcome = .error (.derivation (.ownKey .zeroExponent)) ∧
      (Fault.derivation (.ownKey .zeroExponent)).detail ≠ "degenerate shared value" ∧
      PublicValue.decode .mod23 "Ew" = .ok 19 ∧ KeyPair.ofExponent .mod23 6 = .ok ⟨[6], 8⟩ ∧
      (∃ secret, (derive .mod23 "Bg" "Ew").outcome = .ok secret ∧ IsSecret secret) ∧
      (KeyPair.draw .mod23 Tape.source (.once [6])).1 = .ok ⟨[6], 8⟩ ∧
      (KeyPair.draw .mod23 Tape.source (.once [15])).1 = .ok ⟨[15], 19⟩ ∧
      ∃ tokenA tokenB secret, KeyPair.publicToken ⟨[6], 8⟩ .mod23 = .ok tokenA ∧
        KeyPair.publicToken ⟨[15], 19⟩ .mod23 = .ok tokenB ∧
        (derive .mod23 (KeyPair.privateToken ⟨[6], 8⟩) tokenB).outcome = .ok secret ∧
        (derive .mod23 (KeyPair.privateToken ⟨[15], 19⟩) tokenA).outcome = .ok secret ∧
        IsSecret secret := by
  obtain ⟨hnever, htokens, hdrawn⟩ := derive_succeeds_of_isSafe ModpGroup.isSafe_mod23
  have hzero :
      (derive .mod23 "AA" "Ew").outcome = .error (.derivation (.ownKey .zeroExponent)) := by
    decide
  have hpeer : PublicValue.decode .mod23 "Ew" = .ok 19 := by decide
  have hown : KeyPair.ofExponent .mod23 6 = .ok ⟨[6], 8⟩ := by decide
  have hA : (KeyPair.draw .mod23 Tape.source (.once [6])).1 = .ok ⟨[6], 8⟩ := by decide
  have hB : (KeyPair.draw .mod23 Tape.source (.once [15])).1 = .ok ⟨[15], 19⟩ := by decide
  refine ⟨ModpGroup.isSafe_mod23, hzero, hnever "AA" "Ew" _ hzero rfl, hpeer, hown, ?_, hA, hB, ?_⟩
  · exact htokens "Bg" "Ew" [6] 19 _ hpeer (by decide) (by decide) hown
  · exact hdrawn Tape.source _ Tape.source _ _ _ hA hB

/-! ## Peer values with one common value -/

/-- A changed peer value changes the common value, unless it is replaced by its negative and the own
exponent is even. -/
theorem agree_eq_agree_iff_add_eq (hG : G.IsSafe) (hown : BuiltIn G own) (hy : G.IsPublic y)
    (hz : G.IsPublic z) (hne : y ≠ z) :
    ∃ s t, agree G own y = .ok s ∧ agree G own z = .ok t ∧
      (s = t ↔ y + z = G.modulus ∧ Even own.exponent) := by
  have hof := hown.isOf
  refine ⟨_, _, agree_of_isSafe hG hof hy, agree_of_isSafe hG hof hz, ?_⟩
  rw [BigEndian.minimal_inj]
  exact ModpGroup.power_eq_power_iff_of_ne hG hy hz hne (not_order_dvd_exponent hG hof)

/-- Modulo 23 the peer values 4 and 19 are opposite, and under the exponent 6 nobody notices when
one is put in place of the other. -/
theorem agree_opposite_mod23 :
    BuiltIn .mod23 ⟨[6], 8⟩ ∧ ModpGroup.mod23.IsPublic 4 ∧ ModpGroup.mod23.IsPublic 19 ∧
      ∃ s t, agree .mod23 ⟨[6], 8⟩ 4 = .ok s ∧ agree .mod23 ⟨[6], 8⟩ 19 = .ok t ∧ s = t := by
  have hown : BuiltIn .mod23 ⟨[6], 8⟩ :=
    .ofExponent (by decide : KeyPair.ofExponent .mod23 6 = .ok _)
  have hy : ModpGroup.mod23.IsPublic 4 := by decide
  have hz : ModpGroup.mod23.IsPublic 19 := by decide
  obtain ⟨s, t, hs, ht, hiff⟩ :=
    agree_eq_agree_iff_add_eq ModpGroup.isSafe_mod23 hown hy hz (by decide)
  exact ⟨hown, hy, hz, s, t, hs, ht, hiff.2 ⟨by decide, by decide⟩⟩

/-! ## Exponents with one common value -/

/-- No accepted peer value confines the common value to a few: two exponents lead to one common
value only if they agree modulo `q`, or modulo `2 * q` when the peer value is no square. -/
theorem agree_eq_agree_iff_modEq (hG : G.IsSafe) (hown : BuiltIn G own) (hother : BuiltIn G other)
    (hy : G.IsPublic y) :
    (y ^ G.order % G.modulus = 1 ∨ y ^ G.order % G.modulus = G.modulus - 1) ∧
      ∃ s t, agree G own y = .ok s ∧ agree G other y = .ok t ∧
        (y ^ G.order % G.modulus = 1 → (s = t ↔ own.exponent ≡ other.exponent [MOD G.order])) ∧
        (y ^ G.order % G.modulus = G.modulus - 1 →
          (s = t ↔ own.exponent ≡ other.exponent [MOD 2 * G.order])) := by
  refine ⟨ModpGroup.pow_order_mod_eq hG hy, _, _, agree_of_isSafe hG hown.isOf hy,
    agree_of_isSafe hG hother.isOf hy, ?_, ?_⟩
  · intro h
    rw [BigEndian.minimal_inj]
    exact ModpGroup.power_eq_iff_of_pow_order_eq_one hG hy h
  · intro h
    rw [BigEndian.minimal_inj]
    exact ModpGroup.power_eq_iff_of_pow_order_eq_top hG hy h

/-- Modulo 23 the square 2 does not tell the exponents 6 and 17 apart, and 5, which is no square,
does. -/
theorem agree_square_mod23 :
    BuiltIn .mod23 ⟨[6], 8⟩ ∧ BuiltIn .mod23 ⟨[17], 15⟩ ∧ ModpGroup.mod23.IsPublic 2 ∧
      ModpGroup.mod23.IsPublic 5 ∧
      (∃ s t, agree .mod23 ⟨[6], 8⟩ 2 = .ok s ∧ agree .mod23 ⟨[17], 15⟩ 2 = .ok t ∧ s = t) ∧
      ∃ s t, agree .mod23 ⟨[6], 8⟩ 5 = .ok s ∧ agree .mod23 ⟨[17], 15⟩ 5 = .ok t ∧ s ≠ t := by
  have hown : BuiltIn .mod23 ⟨[6], 8⟩ :=
    .ofExponent (by decide : KeyPair.ofExponent .mod23 6 = .ok _)
  have hother : BuiltIn .mod23 ⟨[17], 15⟩ :=
    .ofExponent (by decide : KeyPair.ofExponent .mod23 17 = .ok _)
  have h2 : ModpGroup.mod23.IsPublic 2 := by decide
  have h5 : ModpGroup.mod23.IsPublic 5 := by decide
  obtain ⟨-, s, t, hs, ht, hsquare, -⟩ :=
    agree_eq_agree_iff_modEq ModpGroup.isSafe_mod23 hown hother h2
  obtain ⟨-, s', t', hs', ht', -, hother'⟩ :=
    agree_eq_agree_iff_modEq ModpGroup.isSafe_mod23 hown hother h5
  refine ⟨hown, hother, h2, h5, ⟨s, t, hs, ht, ?_⟩, ⟨s', t', hs', ht', ?_⟩⟩
  · exact (hsquare (by decide)).2 (by decide)
  · exact mt (hother' (by decide)).1 (by decide)

end KeyAgreement.SharedSecret
